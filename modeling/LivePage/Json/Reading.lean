import LivePage.Data.Basic
import LivePage.Json.Numeral

namespace LivePage.Json

def maxDepth : Nat := 127

/-- The name of the next field of an object, or `none` at its end. -/
def readKey (first : Bool) (cs : List Char) : Except Fault (Option String × List Char) :=
  match skipSpace cs with
  | [] => .error .unfinished
  | c :: rest =>
    if c = '\x7d' then .ok (none, rest)
    else if !first && c ≠ ',' then .error .malformed
    else match if first then c :: rest else skipSpace rest with
      | [] => .error .unfinished
      | '"' :: rest => do
        let (name, rest) ← readString (rest.length + 1) rest
        .ok (some (String.ofList name), rest)
      | _ => .error .malformed

def readColon (cs : List Char) : Except Fault (List Char) :=
  match skipSpace cs with
  | [] => .error .unfinished
  | ':' :: rest => .ok rest
  | _ => .error .malformed

def readNumber (c : Char) (rest : List Char) : Except Fault (Number × List Char) := do
  let (numeral, tail) ← readNumeral .unfinished (if c = '-' then rest else c :: rest)
  .ok (← numeral.number (c = '-'), tail)

def skipNumber (c : Char) (rest : List Char) : Except Fault (List Char) := do
  let (_, tail) ← readNumeral .malformed (if c = '-' then rest else c :: rest)
  .ok tail

/-- What a text holds, before it is known which kind of value it is to be; of a list, its items as
they have been taken. -/
inductive Content
  | null
  | bool (b : Bool)
  | number (n : Number)
  | string (s : String)
  | list (items : List (Option Value))
  | object

inductive Variant
  | bool
  | number
  | string
  | list

namespace Variant

def all : List Variant := [.bool, .number, .string, .list]

def take? : Variant → Content → Option Value
  | bool, .bool b => some (.bool b)
  | number, .number n => some (.number n)
  | string, .string s => some (.string s)
  | list, .list items => (items.mapM id).map .list
  | _, _ => none

/-- At most one kind takes what was read. -/
theorem eq_of_take? {v w : Variant} {c : Content} (hv : (v.take? c).isSome = true)
    (hw : (w.take? c).isSome = true) : v = w := by
  cases c <;> cases v <;> simp [take?] at hv <;> cases w <;> simp [take?] at hw <;> rfl

theorem mem_all (v : Variant) : v ∈ all := by
  cases v <;> simp [all]

end Variant

namespace Content

def value? (c : Content) : Option Value :=
  Variant.all.findSome? (·.take? c)

/-- It does not matter in which order the kinds are tried. -/
theorem findSome?_take? (c : Content) {vs : List Variant} (h : ∀ v, v ∈ vs) :
    vs.findSome? (·.take? c) = c.value? := by
  cases hc : c.value? with
  | none =>
    have hnone := List.findSome?_eq_none_iff.1 hc
    exact List.findSome?_eq_none_iff.2 fun v _ ↦ hnone v v.mem_all
  | some x =>
    obtain ⟨before, v, after, -, hv, -⟩ := List.findSome?_eq_some_iff.1 hc
    have hsome : (vs.findSome? (·.take? c)).isSome = true :=
      List.findSome?_isSome_iff.2 ⟨v, h v, by rw [hv]; rfl⟩
    obtain ⟨y, hy⟩ := Option.isSome_iff_exists.1 hsome
    obtain ⟨before', w, after', -, hw, -⟩ := List.findSome?_eq_some_iff.1 hy
    obtain rfl := Variant.eq_of_take? (c := c) (by rw [hv]; rfl) (by rw [hw]; rfl)
    rw [hy, ← hw, hv]

@[simp] theorem value?_bool (b : Bool) : (bool b).value? = some (.bool b) := rfl

@[simp] theorem value?_number (n : Number) : (number n).value? = some (.number n) := rfl

@[simp] theorem value?_string (s : String) : (string s).value? = some (.string s) := rfl

@[simp] theorem value?_list (items : List Value) :
    (list (items.map some)).value? = some (.list items) := by
  have hitems : (items.map some).mapM id = some items := by
    induction items with
    | nil => rfl
    | cons v items ih => simp [ih]
  simp [value?, Variant.all, Variant.take?, hitems]

end Content

mutual

/-- Anything. `fuel` exceeds the length of the text, `depth` is the nesting still allowed. -/
def readContent : Nat → Nat → List Char → Except Fault (Content × List Char)
  | 0, _, _ => .error .unfinished
  | fuel + 1, depth, cs =>
    match skipSpace cs with
    | [] => .error .unfinished
    | c :: rest =>
      if c = 'n' then do
        let rest ← readLiteral ['u', 'l', 'l'] rest
        .ok (.null, rest)
      else if c = 't' then do
        let rest ← readLiteral ['r', 'u', 'e'] rest
        .ok (.bool true, rest)
      else if c = 'f' then do
        let rest ← readLiteral ['a', 'l', 's', 'e'] rest
        .ok (.bool false, rest)
      else if c = '"' then do
        let (s, rest) ← readString (rest.length + 1) rest
        .ok (.string (String.ofList s), rest)
      else if c = '-' || Text.isDigit c then do
        let (n, rest) ← readNumber c rest
        .ok (.number n, rest)
      else if c = '[' then match depth with
        | 0 => .error .malformed
        | depth + 1 => do
          let (items, rest) ← readItems fuel depth true rest
          .ok (.list items, rest)
      else if c = '\x7b' then match depth with
        | 0 => .error .malformed
        | depth + 1 => do
          let rest ← readFields fuel depth true rest
          .ok (.object, rest)
      else .error .malformed

def readItems : Nat → Nat → Bool → List Char → Except Fault (List (Option Value) × List Char)
  | 0, _, _, _ => .error .unfinished
  | fuel + 1, depth, first, cs =>
    match skipSpace cs with
    | [] => .error .unfinished
    | c :: rest =>
      if c = ']' then .ok ([], rest)
      else if !first && c ≠ ',' then .error .malformed
      else do
        let (content, rest) ← readContent fuel depth (if first then c :: rest else rest)
        let (items, rest) ← readItems fuel depth false rest
        .ok (content.value? :: items, rest)

def readFields : Nat → Nat → Bool → List Char → Except Fault (List Char)
  | 0, _, _, _ => .error .unfinished
  | fuel + 1, depth, first, cs => do
    match ← readKey first cs with
    | (none, rest) => .ok rest
    | (some _, rest) =>
      let rest ← readColon rest
      let (_, rest) ← readContent fuel depth rest
      readFields fuel depth false rest

end

/-- A value; `none` if what is read is or contains something that data cannot hold. -/
def readValue (fuel depth : Nat) (cs : List Char) : Except Fault (Option Value × List Char) := do
  let (content, rest) ← readContent fuel depth cs
  .ok (content.value?, rest)

mutual

def skipValue : Nat → List Char → Except Fault (List Char)
  | 0, _ => .error .unfinished
  | fuel + 1, cs =>
    match skipSpace cs with
    | [] => .error .unfinished
    | c :: rest =>
      if c = 'n' then readLiteral ['u', 'l', 'l'] rest
      else if c = 't' then readLiteral ['r', 'u', 'e'] rest
      else if c = 'f' then readLiteral ['a', 'l', 's', 'e'] rest
      else if c = '"' then skipString (rest.length + 1) rest
      else if c = '-' || Text.isDigit c then skipNumber c rest
      else if c = '[' then skipItems fuel true rest
      else if c = '\x7b' then skipFields fuel true rest
      else .error .malformed

def skipItems : Nat → Bool → List Char → Except Fault (List Char)
  | 0, _, _ => .error .unfinished
  | fuel + 1, first, cs =>
    match skipSpace cs with
    | [] => .error .unfinished
    | c :: rest =>
      if c = ']' then .ok rest
      else if !first && c ≠ ',' then .error .malformed
      else do
        let rest ← skipValue fuel (if first then c :: rest else rest)
        skipItems fuel false rest

def skipFields : Nat → Bool → List Char → Except Fault (List Char)
  | 0, _, _ => .error .unfinished
  | fuel + 1, first, cs =>
    match skipSpace cs with
    | [] => .error .unfinished
    | c :: rest =>
      if c = '\x7d' then .ok rest
      else if !first && c ≠ ',' then .error .malformed
      else match if first then c :: rest else skipSpace rest with
        | [] => .error .unfinished
        | '"' :: rest => do
          let rest ← skipString (rest.length + 1) rest
          let rest ← readColon rest
          let rest ← skipValue fuel rest
          skipFields fuel false rest
        | _ => .error .malformed

end

/-- The fault of a value that starts like one of another kind than the one asked for: scalars are
read first, so a broken one is malformed. -/
def wrongKind (cs : List Char) : Fault :=
  let read : Except Fault Unit := match cs with
    | [] => .error .unfinished
    | c :: rest =>
      if c = 'n' then (readLiteral ['u', 'l', 'l'] rest).map fun _ ↦ ()
      else if c = 't' then (readLiteral ['r', 'u', 'e'] rest).map fun _ ↦ ()
      else if c = 'f' then (readLiteral ['a', 'l', 's', 'e'] rest).map fun _ ↦ ()
      else if c = '"' then (readString (rest.length + 1) rest).map fun _ ↦ ()
      else if c = '-' || Text.isDigit c then (readNumber c rest).map fun _ ↦ ()
      else if c = '[' || c = '\x7b' then .ok ()
      else .error .malformed
  match read with
  | .error fault => fault
  | .ok () => .mismatched

def readEntries : Nat → Nat → Bool → Data → List Char → Except Fault (Data × List Char)
  | 0, _, _, _, _ => .error .unfinished
  | fuel + 1, depth, first, d, cs => do
    match ← readKey first cs with
    | (none, rest) => .ok (d, rest)
    | (some name, rest) =>
      let rest ← readColon rest
      match ← readValue fuel depth rest with
      | (none, _) => .error .mismatched
      | (some v, rest) => readEntries fuel depth false (d.insert name v) rest

def readData (depth : Nat) (cs : List Char) : Except Fault (Data × List Char) :=
  match skipSpace cs with
  | '\x7b' :: rest => match depth with
    | 0 => .error .malformed
    | depth + 1 => readEntries (rest.length + 1) depth true ∅ rest
  | cs => .error (wrongKind cs)

def finish {α : Type} (read : α × List Char) : Except Fault α :=
  if skipSpace read.2 = [] then .ok read.1 else .error .malformed

end Json

def Data.ofJson (text : String) : Except Json.Fault Data :=
  (Json.readData Json.maxDepth text.toList).bind Json.finish

end LivePage
