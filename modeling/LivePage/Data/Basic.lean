import LivePage.Data.Value

namespace LivePage

namespace Data

/-- Writes a value under a name: in the place of the name if it is present, else at the end. -/
def put (name : String) (value : Value) : List (String × Value) → List (String × Value)
  | [] => [(name, value)]
  | (n, v) :: rest => if n = name then (n, value) :: rest else (n, v) :: put name value rest

def exchange (name : String) (value : Value) :
    List (String × Value) → Option Value × List (String × Value)
  | [] => (none, [(name, value)])
  | (n, v) :: rest =>
    if n = name then (some v, (n, value) :: rest)
    else
      let (old, rest) := exchange name value rest
      (old, (n, v) :: rest)

def putAll (pairs entries : List (String × Value)) : List (String × Value) :=
  pairs.foldl (fun entries p ↦ put p.1 p.2 entries) entries

theorem exchange_eq (name : String) (value : Value) (entries : List (String × Value)) :
    exchange name value entries = (entries.lookup name, put name value entries) := by
  induction entries with
  | nil => rfl
  | cons e rest ih =>
    obtain ⟨n, v⟩ := e
    by_cases h : n = name
    · simp [exchange, put, h]
    · simp [exchange, put, h, ih, List.lookup_cons, beq_false_of_ne (Ne.symm h)]

theorem keys_put (name : String) (value : Value) (entries : List (String × Value)) :
    (put name value entries).map Prod.fst =
      if name ∈ entries.map Prod.fst then entries.map Prod.fst
      else entries.map Prod.fst ++ [name] := by
  induction entries with
  | nil => simp [put]
  | cons e rest ih =>
    obtain ⟨n, v⟩ := e
    by_cases h : n = name
    · simp [put, h]
    · simp only [put, if_neg h, List.map_cons, ih, List.mem_cons, Ne.symm h, false_or]
      split <;> simp

theorem nodup_put {entries : List (String × Value)} (h : (entries.map Prod.fst).Nodup)
    (name : String) (value : Value) : ((put name value entries).map Prod.fst).Nodup := by
  rw [keys_put]
  split
  · exact h
  · next hn => exact List.nodup_append.2 ⟨h, by simp, by simpa using fun a v ha e ↦ hn (by
      rw [← e]; exact List.mem_map.2 ⟨(a, v), ha, rfl⟩)⟩

theorem nodup_putAll (pairs : List (String × Value)) {entries : List (String × Value)}
    (h : (entries.map Prod.fst).Nodup) : ((putAll pairs entries).map Prod.fst).Nodup := by
  induction pairs generalizing entries with
  | nil => exact h
  | cons p pairs ih => exact ih (nodup_put h p.1 p.2)

end Data

/-- Entries with distinct names, in the order of their first writing. -/
@[ext] structure Data where
  entries : List (String × Value)
  nodup : (entries.map Prod.fst).Nodup

namespace Data

def empty : Data := ⟨[], by simp⟩

instance : EmptyCollection Data := ⟨empty⟩

instance : Inhabited Data := ⟨∅⟩

def insert (d : Data) (name : String) (value : Value) : Data :=
  ⟨put name value d.entries, nodup_put d.nodup name value⟩

def get? (d : Data) (name : String) : Option Value :=
  d.entries.lookup name

def contains (d : Data) (name : String) : Bool :=
  (d.get? name).isSome

def keys (d : Data) : List String :=
  d.entries.map Prod.fst

def size (d : Data) : Nat :=
  d.entries.length

def replace (d : Data) (name : String) (value : Value) : Option Value × Data :=
  ((exchange name value d.entries).1, ⟨(exchange name value d.entries).2, by
    rw [exchange_eq]
    exact nodup_put d.nodup name value⟩)

theorem replace_eq (d : Data) (name : String) (value : Value) :
    d.replace name value = (d.get? name, d.insert name value) := by
  simp only [replace, exchange_eq]
  rfl

def ofPairs (pairs : List (String × Value)) : Data :=
  ⟨putAll pairs [], nodup_putAll pairs List.nodup_nil⟩

theorem foldl_insert_entries (d : Data) (pairs : List (String × Value)) :
    (pairs.foldl (fun d p ↦ d.insert p.1 p.2) d).entries = putAll pairs d.entries := by
  induction pairs generalizing d with
  | nil => rfl
  | cons p pairs ih => exact ih (d.insert p.1 p.2)

theorem ofPairs_eq_foldl (pairs : List (String × Value)) :
    ofPairs pairs = pairs.foldl (fun d p ↦ d.insert p.1 p.2) ∅ :=
  Data.ext (foldl_insert_entries ∅ pairs).symm

/-- The same names with equal values, in any order. -/
def same (d e : Data) : Bool :=
  d.size = e.size && d.entries.all fun p ↦ match e.get? p.1 with
    | some v => p.2 == v
    | none => false

instance : BEq Data := ⟨same⟩

def debug (d : Data) : String :=
  "Data(\x7b" ++ ", ".intercalate (d.entries.map fun p ↦ Text.quoted p.1 ++ ": " ++ p.2.debug) ++
    "\x7d)"

end Data

end LivePage
