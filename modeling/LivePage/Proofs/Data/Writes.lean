import LivePage.Proofs.Store.Overtaken
import Mathlib.Data.Finset.Card

namespace LivePage

namespace Data

theorem keys_insert (d : Data) (name : String) (value : Value) :
    (d.insert name value).keys = if name ∈ d.keys then d.keys else d.keys ++ [name] :=
  keys_put name value d.entries

theorem length_keys (d : Data) : d.keys.length = d.size :=
  List.length_map _

theorem get?_eq_some_iff {d : Data} {name : String} {value : Value} :
    d.get? name = some value ↔ (name, value) ∈ d.entries := by
  rw [get?, List.lookup_eq_some_iff]
  constructor
  · rintro ⟨before, after, heq, -⟩
    rw [heq]
    exact List.mem_append_right _ List.mem_cons_self
  · intro hmem
    obtain ⟨before, after, heq⟩ := List.append_of_mem hmem
    refine ⟨before, after, heq, fun p hp ↦ bne_iff_ne.2 fun hname ↦ ?_⟩
    have hnodup := d.nodup
    rw [heq, List.map_append, List.map_cons] at hnodup
    exact (List.nodup_append.1 hnodup).2.2 p.1 (List.mem_map_of_mem hp) name List.mem_cons_self
      hname.symm

theorem mem_keys_iff {d : Data} {name : String} :
    name ∈ d.keys ↔ ∃ value, d.get? name = some value := by
  simp only [get?_eq_some_iff, keys, List.mem_map, Prod.exists, exists_and_right, exists_eq_right]

theorem get?_eq_none_iff {d : Data} {name : String} : d.get? name = none ↔ name ∉ d.keys := by
  rw [mem_keys_iff, Option.eq_none_iff_forall_ne_some]
  simp only [not_exists, ne_eq]

theorem keys_perm_of_mem_iff {d e : Data} (h : ∀ name, name ∈ d.keys ↔ name ∈ e.keys) :
    d.keys.Perm e.keys :=
  (List.perm_ext_iff_of_nodup d.nodup e.nodup).2 h

theorem keys_perm_of_subset {d e : Data} (h : d.keys ⊆ e.keys) (hsize : d.size = e.size) :
    d.keys.Perm e.keys := by
  have hlength : e.keys.length ≤ d.keys.length := by
    rw [length_keys, length_keys, hsize]
  exact (List.subperm_of_subset d.nodup h).perm_of_length_le hlength

/-- Data is equal if it has the same names with equal values. -/
theorem beq_iff {d e : Data} : (d == e) = true ↔
    (∀ name, name ∈ d.keys ↔ name ∈ e.keys) ∧
      ∀ name v w, d.get? name = some v → e.get? name = some w → (v == w) = true := by
  change d.same e = true ↔ _
  rw [same, Bool.and_eq_true, decide_eq_true_eq, List.all_eq_true]
  constructor
  · rintro ⟨hsize, hall⟩
    have hfound : ∀ p ∈ d.entries, ∃ w, e.get? p.1 = some w ∧ (p.2 == w) = true := by
      intro p hp
      have hvalue := hall p hp
      split at hvalue
      · next w hw => exact ⟨w, hw, hvalue⟩
      · cases hvalue
    have hsubset : d.keys ⊆ e.keys := by
      intro name hname
      obtain ⟨p, hp, rfl⟩ := List.mem_map.1 hname
      obtain ⟨w, hw, -⟩ := hfound p hp
      exact mem_keys_iff.2 ⟨w, hw⟩
    refine ⟨fun name ↦ (keys_perm_of_subset hsubset hsize).mem_iff, fun name v w hv hw ↦ ?_⟩
    obtain ⟨u, hu, hequal⟩ := hfound (name, v) (get?_eq_some_iff.1 hv)
    obtain rfl := Option.some.inj (hu.symm.trans hw)
    exact hequal
  · rintro ⟨hnames, hvalues⟩
    have hlength := (keys_perm_of_mem_iff hnames).length_eq
    rw [length_keys, length_keys] at hlength
    refine ⟨hlength, fun p hp ↦ ?_⟩
    have hv : d.get? p.1 = some p.2 := get?_eq_some_iff.2 hp
    obtain ⟨w, hw⟩ := mem_keys_iff.1 ((hnames p.1).1 (mem_keys_iff.2 ⟨p.2, hv⟩))
    rw [hw]
    exact hvalues p.1 p.2 w hv hw

end Data

/-- No number in the value is the not-a-number. -/
inductive Value.NanFree : Value → Prop
  | bool (b : Bool) : NanFree (.bool b)
  | number {n : Number} (h : n ≠ .nan) : NanFree (.number n)
  | string (s : String) : NanFree (.string s)
  | list {items : List Value} (h : ∀ v ∈ items, NanFree v) : NanFree (.list items)

theorem Number.same_self {n : Number} (h : n ≠ .nan) : n.same n = true := by
  cases n with
  | nan => exact absurd rfl h
  | infinite negative => exact decide_eq_true rfl
  | finite negative rank => simp [same]

theorem Value.sameItems_self {items : List Value} (h : ∀ v ∈ items, v.same v = true) :
    sameItems items items = true := by
  induction items with
  | nil => rw [sameItems]
  | cons v items ih =>
    rw [sameItems, h v List.mem_cons_self, ih fun w hw ↦ h w (List.mem_cons_of_mem v hw)]
    rfl

theorem Value.NanFree.beq_self {v : Value} (h : v.NanFree) : (v == v) = true := by
  change v.same v = true
  induction h with
  | bool b => simp [same]
  | number hn => rw [same]; exact Number.same_self hn
  | string s => simp [same]
  | list _ ih => rw [same, sameItems_self ih]

namespace Data

def NanFree (d : Data) : Prop :=
  ∀ name value, d.get? name = some value → value.NanFree

theorem NanFree.beq_of_get?_eq {d e : Data} (h : d.NanFree)
    (hget : ∀ name, d.get? name = e.get? name) : (d == e) = true := by
  refine beq_iff.2 ⟨fun name ↦ by rw [mem_keys_iff, mem_keys_iff, hget], fun name v w hv hw ↦ ?_⟩
  obtain rfl := Option.some.inj (hv.symm.trans ((hget name).trans hw))
  exact (h name v hv).beq_self

theorem ofPairs_append (ws vs : List (String × Value)) :
    ofPairs (ws ++ vs) = vs.foldl (fun d p ↦ d.insert p.1 p.2) (ofPairs ws) := by
  rw [ofPairs_eq_foldl, List.foldl_append, ofPairs_eq_foldl]

theorem keys_ofPairs_append_singleton (ws : List (String × Value)) (p : String × Value) :
    (ofPairs (ws ++ [p])).keys =
      if p.1 ∈ (ofPairs ws).keys then (ofPairs ws).keys else (ofPairs ws).keys ++ [p.1] := by
  rw [ofPairs_append]
  exact keys_insert _ p.1 p.2

theorem mem_keys_ofPairs {ws : List (String × Value)} {name : String} :
    name ∈ (ofPairs ws).keys ↔ name ∈ ws.map Prod.fst := by
  induction ws using List.reverseRecOn with
  | nil => exact Iff.rfl
  | append_singleton ws p ih =>
    rw [keys_ofPairs_append_singleton, List.map_append, List.mem_append, ← ih, List.map_singleton,
      List.mem_singleton]
    split
    · next hp =>
      refine ⟨.inl, fun h ↦ h.elim id ?_⟩
      rintro rfl
      exact hp
    · rw [List.mem_append, List.mem_singleton]

/-- Names stand in the order of their first writes. -/
theorem keys_ofPairs_pairwise (ws : List (String × Value)) : (ofPairs ws).keys.Pairwise fun a b ↦
    (ws.map Prod.fst).idxOf a < (ws.map Prod.fst).idxOf b := by
  induction ws using List.reverseRecOn with
  | nil => exact List.Pairwise.nil
  | append_singleton ws p ih =>
    have hold : ∀ name ∈ (ofPairs ws).keys,
        (ws.map Prod.fst ++ [p.1]).idxOf name = (ws.map Prod.fst).idxOf name :=
      fun name hname ↦ List.idxOf_append_of_mem (mem_keys_ofPairs.1 hname)
    have hkept : (ofPairs ws).keys.Pairwise fun a b ↦
        (ws.map Prod.fst ++ [p.1]).idxOf a < (ws.map Prod.fst ++ [p.1]).idxOf b := by
      refine ih.imp_of_mem fun {a b} ha hb hab ↦ ?_
      rwa [hold a ha, hold b hb]
    rw [keys_ofPairs_append_singleton, List.map_append, List.map_singleton]
    split
    · exact hkept
    · next hnew =>
      refine List.pairwise_append.2 ⟨hkept, List.pairwise_singleton _ _, fun a ha b hb ↦ ?_⟩
      obtain rfl := List.mem_singleton.1 hb
      rw [hold a ha, List.idxOf_append_of_notMem (mem_keys_ofPairs.not.1 hnew),
        List.idxOf_cons_self]
      exact List.idxOf_lt_length_of_mem (mem_keys_ofPairs.1 ha)

theorem size_ofPairs (ws : List (String × Value)) :
    (ofPairs ws).size = (ws.map Prod.fst).toFinset.card := by
  have hset : (ofPairs ws).keys.toFinset = (ws.map Prod.fst).toFinset := by
    ext name
    rw [List.mem_toFinset, List.mem_toFinset, mem_keys_ofPairs]
  have hcard : (ofPairs ws).keys.toFinset.card = (ofPairs ws).keys.length :=
    List.toFinset_card_of_nodup (ofPairs ws).nodup
  rw [← hset, hcard, length_keys]

theorem put_of_notMem {name : String} (value : Value) {entries : List (String × Value)}
    (h : name ∉ entries.map Prod.fst) : put name value entries = entries ++ [(name, value)] := by
  induction entries with
  | nil => rfl
  | cons e entries ih =>
    obtain ⟨n, v⟩ := e
    rw [List.map_cons, List.mem_cons, not_or] at h
    rw [put, if_neg (Ne.symm h.1), ih h.2, List.cons_append]

theorem entries_foldl_insert {d : Data} {es : List (String × Value)}
    (h : ((d.entries ++ es).map Prod.fst).Nodup) :
    (es.foldl (fun d p ↦ d.insert p.1 p.2) d).entries = d.entries ++ es := by
  induction es generalizing d with
  | nil => exact (List.append_nil _).symm
  | cons e es ih =>
    have hfresh : e.1 ∉ d.entries.map Prod.fst := by
      intro hmem
      rw [List.map_append, List.map_cons] at h
      exact (List.nodup_append.1 h).2.2 e.1 hmem e.1 List.mem_cons_self rfl
    have hentries : (d.insert e.1 e.2).entries = d.entries ++ [e] := put_of_notMem e.2 hfresh
    have happend : d.entries ++ e :: es = d.entries ++ [e] ++ es := by simp
    rw [List.foldl_cons, ih (by rwa [hentries, ← happend]), hentries, happend]

theorem ofPairs_entries (d : Data) : ofPairs d.entries = d := by
  rw [ofPairs_eq_foldl]
  exact Data.ext (entries_foldl_insert d.nodup)

/-- The last of the writes `ws` under the name writes the value. -/
def LastWrite (ws : List (String × Value)) (name : String) (value : Value) : Prop :=
  ∃ before after, ws = before ++ (name, value) :: after ∧ name ∉ after.map Prod.fst

theorem get?_ofPairs {ws : List (String × Value)} {name : String} {value : Value} :
    (ofPairs ws).get? name = some value ↔ LastWrite ws name value := by
  have hlookup : (ofPairs ws).get? name = ws.reverse.lookup name := by
    rw [ofPairs_eq_foldl, get?_foldl_insert]
    exact Option.or_none
  rw [hlookup, List.lookup_eq_some_iff]
  constructor
  · rintro ⟨after, before, heq, hafter⟩
    refine ⟨before.reverse, after.reverse, ?_, fun hmem ↦ ?_⟩
    · rw [← List.reverse_reverse ws, heq]
      simp
    · obtain ⟨p, hp, hname⟩ := List.mem_map.1 hmem
      exact bne_iff_ne.1 (hafter p (List.mem_reverse.1 hp)) hname.symm
  · rintro ⟨before, after, rfl, hafter⟩
    refine ⟨after.reverse, before.reverse, by simp, fun p hp ↦ bne_iff_ne.2 fun hname ↦ hafter ?_⟩
    exact List.mem_map.2 ⟨p, List.mem_reverse.1 hp, hname.symm⟩

/-- The data `d` comes about by the writes `ws`, in this order: from nothing or from a list of pairs,
property by property, and by scripts run on a store with the data. -/
inductive WrittenBy : List (String × Value) → Data → Prop
  | empty : WrittenBy [] ∅
  | pairs (ws : List (String × Value)) : WrittenBy ws (ofPairs ws)
  | insert {ws : List (String × Value)} {d : Data} (h : WrittenBy ws d) (name : String)
      (value : Value) : WrittenBy (ws ++ [(name, value)]) (d.insert name value)
  | replace {ws : List (String × Value)} {d : Data} (h : WrittenBy ws d) (name : String)
      (value : Value) : WrittenBy (ws ++ [(name, value)]) (d.replace name value).2
  | run {ε : Type} {ws : List (String × Value)} {depth : Nat} {script : Script ε} {s s' : Scene ε}
      {J : Journal ε} (h : WrittenBy ws s.1.data) (hrun : Store.perform depth script s = some s')
      (hrecord : Store.recorded depth script s = some (s', J)) :
      WrittenBy (ws ++ J.stores) s'.1.data

variable {ws : List (String × Value)} {d : Data}

theorem WrittenBy.eq_ofPairs (h : WrittenBy ws d) : d = ofPairs ws := by
  induction h with
  | empty => rfl
  | pairs ws => rfl
  | insert _ name value ih =>
    rw [ofPairs_append, ← ih]
    rfl
  | replace _ name value ih =>
    rw [replace_eq, ofPairs_append, ← ih]
    rfl
  | run _ _ hrecord ih =>
    rw [(Script.stretch_record Store.stretch_recordWrite hrecord).leads.data, ofPairs_append, ← ih]

theorem WrittenBy.exists_run {ε : Type} {depth : Nat} {script : Script ε} {s s' : Scene ε}
    (h : WrittenBy ws s.1.data) (hrun : Store.perform depth script s = some s') :
    ∃ J, Store.recorded depth script s = some (s', J) ∧ WrittenBy (ws ++ J.stores) s'.1.data := by
  obtain ⟨J, hrecord⟩ := Store.exists_recorded hrun
  exact ⟨J, hrecord, h.run hrun hrecord⟩

/-- Data is told by its writes. It is what writing them one after another gives, in one go or one by
one; its names are the names written, each once, in the order of their first writes; under a name it
has the value last written. Replacing a value tells this value and leaves the names in their places;
a script run on a store with the data writes on. Data is equal to other data if both have the same
names with equal values, so data without the not-a-number is equal to all data with the same
values. -/
theorem WrittenBy.last_write_wins (h : WrittenBy ws d) :
    (d = Data.ofPairs ws ∧ d = ws.foldl (fun d p ↦ d.insert p.1 p.2) ∅) ∧
    (d.keys.Nodup ∧ (∀ name, name ∈ d.keys ↔ name ∈ ws.map Prod.fst) ∧
      d.keys.Pairwise fun a b ↦ (ws.map Prod.fst).idxOf a < (ws.map Prod.fst).idxOf b) ∧
    d.size = (ws.map Prod.fst).toFinset.card ∧
    (∀ name, (∀ value, d.get? name = some value ↔ LastWrite ws name value) ∧
      (d.get? name = none ↔ name ∉ ws.map Prod.fst)) ∧
    (∀ name new, (∀ old, (d.replace name new).1 = some old ↔ LastWrite ws name old) ∧
      ((d.replace name new).1 = none ↔ name ∉ ws.map Prod.fst) ∧
      (d.replace name new).2 = d.insert name new ∧
      (d.replace name new).2.keys =
        if name ∈ ws.map Prod.fst then d.keys else d.keys ++ [name]) ∧
    (∀ {ε : Type} (depth : Nat) (script : Script ε) (s s' : Scene ε), s.1.data = d →
      Store.perform depth script s = some s' →
      ∃ J, Store.recorded depth script s = some (s', J) ∧
        WrittenBy (ws ++ J.stores) s'.1.data) ∧
    ∀ e : Data,
      ((d == e) = true ↔ (∀ name, name ∈ d.keys ↔ name ∈ e.keys) ∧
        ∀ name v w, d.get? name = some v → e.get? name = some w → (v == w) = true) ∧
      (d.NanFree → (∀ name, d.get? name = e.get? name) → (d == e) = true) := by
  have heq := h.eq_ofPairs
  have hmem : ∀ name, name ∈ d.keys ↔ name ∈ ws.map Prod.fst := by
    intro name
    rw [heq, mem_keys_ofPairs]
  have hlast : ∀ name value, d.get? name = some value ↔ LastWrite ws name value := by
    intro name value
    rw [heq, get?_ofPairs]
  have hnone : ∀ name, d.get? name = none ↔ name ∉ ws.map Prod.fst :=
    fun name ↦ get?_eq_none_iff.trans (hmem name).not
  refine ⟨⟨heq, heq.trans (ofPairs_eq_foldl ws)⟩, ⟨d.nodup, hmem, ?_⟩, ?_,
    fun name ↦ ⟨hlast name, hnone name⟩, fun name new ↦ ?_, ?_,
    fun e ↦ ⟨beq_iff, NanFree.beq_of_get?_eq⟩⟩
  · rw [heq]
    exact keys_ofPairs_pairwise ws
  · rw [heq]
    exact size_ofPairs ws
  · rw [replace_eq]
    refine ⟨hlast name, hnone name, rfl, ?_⟩
    simp only [← hmem]
    exact keys_insert d name new
  · rintro ε depth script s s' rfl hrun
    exact h.exists_run hrun

def twice : Script Unit :=
  .write "b" (.bool true) (.write "b" (.bool false) .stop)

def pairsStore : Scene Unit :=
  (Store.ofData (ofPairs [("a", .bool true), ("b", .string "x")]), ())

theorem WrittenBy.last_write_wins_rewritten :
    ∃ s J, Store.perform 1 twice pairsStore = some s ∧
      Store.recorded 1 twice pairsStore = some (s, J) ∧
      WrittenBy [("a", .bool true), ("b", .string "x"), ("b", .bool true), ("b", .bool false),
        ("a", .string "y")] (s.1.data.insert "a" (.string "y")) ∧
      (s.1.data.insert "a" (.string "y")).keys = ["a", "b"] ∧
      (s.1.data.insert "a" (.string "y")).size = 2 ∧
      (s.1.data.insert "a" (.string "y")).get? "a" = some (.string "y") ∧
      (s.1.data.insert "a" (.string "y")).get? "b" = some (.bool false) := by
  have hpairs : WrittenBy [("a", .bool true), ("b", .string "x")] pairsStore.1.data := .pairs _
  obtain ⟨s, hperform⟩ : ∃ s, Store.perform 1 twice pairsStore = some s := ⟨_, rfl⟩
  have hstores : (Store.recorded 1 twice pairsStore).map (fun r ↦ r.2.stores) =
      some [("b", .bool true), ("b", .bool false)] := rfl
  obtain ⟨-, -, -, -, -, hruns, -⟩ := WrittenBy.last_write_wins hpairs
  obtain ⟨J, hrecord, hran⟩ := hruns 1 twice pairsStore s rfl hperform
  rw [hrecord] at hstores
  rw [show J.stores = [("b", .bool true), ("b", .bool false)] from Option.some.inj hstores] at hran
  have hwritten := hran.insert "a" (.string "y")
  obtain ⟨⟨heq, -⟩, -, -, hget, -⟩ := WrittenBy.last_write_wins hwritten
  refine ⟨s, J, hperform, hrecord, hwritten, ?_, ?_, ?_, ?_⟩
  · rw [heq]
    decide
  · rw [heq]
    decide
  · exact ((hget "a").1 (.string "y")).2 ⟨_, [], rfl, by decide⟩
  · exact ((hget "b").1 (.bool false)).2 ⟨[_, _, _], [("a", .string "y")], rfl, by decide⟩

end Data

end LivePage
