import LivePage.Proofs.Linked.Lower
import LivePage.Proofs.Template.Fate
import LivePage.Proofs.Template.Scanning

namespace LivePage

open Markup Template

namespace Forest

/-- New nodes have taken the place of a node in the row below its parent. The node is loose and as
it was, all others are where and as they were, and what is new is one of the new nodes or below
one. -/
structure TakesPlace (f : Forest) (i q : NodeId) (generated : List NodeId) (g : Forest) : Prop where
  wellFormed : g.WellFormed
  row : ∃ pre post, (f.below q).items = pre ++ .branch i :: post ∧
    (g.below q).items = pre ++ generated.map .branch ++ post
  nodup : generated.Nodup
  isNew : ∀ j ∈ generated, ¬f.Has j
  new_iff : ∀ k, g.Has k → (¬f.Has k ↔ ∃ j ∈ generated, g.encloses j k = true)
  loose : g.parent? i = none
  kept : g.subtree i = f.subtree i
  others : ∀ k, f.Has k → g.Has k ∧ g.label k = f.label k ∧
    (k ≠ q → (g.below k).items = (f.below k).items) ∧ (k ≠ i → g.parent? k = f.parent? k)

/-- Puts nodes in front of another one by one, up to the first that is refused. -/
def putBefore (f : Forest) (reference : NodeId) : List NodeId → Option TreeError × Forest
  | [] => (none, f)
  | j :: js =>
    match f.before reference j with
    | .ok g => g.putBefore reference js
    | .error e => (some e, f)

theorem putBefore_of_beforeAll {i : NodeId} {js : List NodeId} {f g : Forest}
    (h : f.beforeAll i js = .ok g) : f.putBefore i js = (none, g) := by
  induction js generalizing f with
  | nil =>
    obtain rfl := Except.ok.inj h
    rfl
  | cons j js ih =>
    rw [beforeAll] at h
    rw [putBefore]
    cases hj : f.before i j with
    | error e =>
      rw [hj] at h
      cases h
    | ok f' =>
      rw [hj] at h
      exact ih h

theorem WellFormed.eq_of_mem_entries {f : Forest} (h : f.WellFormed) {k : NodeId} {l : Label}
    {its : List (Item NodeId)} (he : (k, l, its) ∈ f.trees.entries) :
    f.Has k ∧ f.label k = l ∧ (f.below k).items = its := by
  have hk : f.Has k := Nodes.mem_ids_of_mem_entries he
  obtain ⟨l', below, hnode⟩ := exists_node? hk
  obtain ⟨rfl, rfl⟩ := Nodes.entry_unique h.nodup he (Nodes.entries_of_find? hnode).1
  exact ⟨hk, label_eq hnode, congrArg Nodes.items (below_eq hnode)⟩

theorem mem_entries_of_has {f : Forest} {k : NodeId} (hk : f.Has k) :
    (k, f.label k, (f.below k).items) ∈ f.trees.entries := by
  obtain ⟨l, below, hnode⟩ := exists_node? hk
  rw [label_eq hnode, below_eq hnode]
  exact (Nodes.entries_of_find? hnode).1

end Forest

namespace Template

section

variable {n j : Nat} {gen : List (Label × Nodes Unit)}

theorem items_numbered_ofElements (n : Nat) (gen : List (Label × Nodes Unit)) :
    ((Nodes.ofElements gen).numbered n).items = (elementIds n gen).map .branch := by
  induction gen generalizing n with
  | nil => rfl
  | cons e gen ih =>
    rw [Nodes.ofElements, Nodes.numbered, Nodes.items, ih, elementIds, List.map_cons]

theorem pairwise_elementIds (n : Nat) (gen : List (Label × Nodes Unit)) :
    (elementIds n gen).Pairwise (· < ·) := by
  induction gen generalizing n with
  | nil => exact .nil
  | cons e gen ih =>
    refine List.pairwise_cons.2 ⟨?_, ih _⟩
    intro j hj
    have := le_of_mem_elementIds hj
    omega

theorem subtrees_numbered_ofElements (n : Nat) (gen : List (Label × Nodes Unit)) :
    List.Forall₂ (fun e j ↦
      (j, e.1, e.2.numbered (j + 1)) ∈ ((Nodes.ofElements gen).numbered n).subtrees)
      gen (elementIds n gen) := by
  induction gen generalizing n with
  | nil => exact .nil
  | cons e gen ih =>
    refine .cons List.mem_cons_self ((ih _).imp ?_)
    intro e' j h
    exact List.mem_cons_of_mem _ (List.mem_append_right _ h)

theorem exists_element_of_mem_ids (h : j ∈ ((Nodes.ofElements gen).numbered n).ids) :
    ∃ k ∈ elementIds n gen, ∃ l below,
      (k, l, below) ∈ ((Nodes.ofElements gen).numbered n).subtrees ∧ (k = j ∨ j ∈ below.ids) := by
  induction gen generalizing n with
  | nil => cases h
  | cons e gen ih =>
    rw [Nodes.ofElements, Nodes.numbered, Nodes.ids, List.mem_cons, List.mem_append] at h
    rcases h with rfl | h | h
    · exact ⟨j, List.mem_cons_self, _, _, List.mem_cons_self, .inl rfl⟩
    · exact ⟨n, List.mem_cons_self, _, _, List.mem_cons_self, .inr h⟩
    · obtain ⟨k, hk, l, below, hsub, hj⟩ := ih h
      exact ⟨k, List.mem_cons_of_mem _ hk, l, below,
        List.mem_cons_of_mem _ (List.mem_append_right _ hsub), hj⟩

end

structure Spot where
  outer : Frame Nat
  parent : Nat
  parentLabel : Label
  pre : Nodes Nat
  id : Nat
  label : Label
  below : Nodes Nat
  post : Nodes Nat
  behind : Nodes Nat

namespace Spot

variable (s : Spot) (n : Nat) (gen : List (Label × Nodes Unit))

def fill (row : Nodes Nat) : Nodes Nat :=
  s.outer.fill (.branch s.parent s.parentLabel (s.pre ++ row) s.behind)

def whole : Forest :=
  ⟨s.fill (.branch s.id s.label s.below s.post), n⟩

def replaced : Forest :=
  ⟨.branch s.id s.label s.below (s.fill ((Nodes.ofElements gen).numbered n ++ s.post)),
    n + (Nodes.ofElements gen).branchCount⟩

theorem fill_eq (row : Nodes Nat) :
    s.fill row = (s.outer.inRow s.parent s.parentLabel s.pre s.behind).fill row :=
  (Frame.fill_inRow ..).symm

theorem entries_replaced :
    (s.parent, s.parentLabel, (s.pre ++ ((Nodes.ofElements gen).numbered n ++ s.post)).items) ∈
        (s.replaced n gen).trees.entries ∧
      ∀ e ∈ (s.whole n).trees.entries, e.1 ≠ s.parent → e ∈ (s.replaced n gen).trees.entries := by
  obtain ⟨es, hes⟩ := Frame.exists_entries s.outer s.parent s.behind
  constructor
  · exact List.mem_cons_of_mem _ (List.mem_append_right _
      ((hes _ _).mem_iff.2 List.mem_cons_self))
  · intro e he hne
    have hmem := (hes _ _).mem_iff.1 he
    simp only [Nodes.entries_append, Nodes.entries, List.mem_cons, List.mem_append] at hmem
    simp only [replaced, fill, Nodes.entries, List.mem_cons, List.mem_append, (hes _ _).mem_iff,
      Nodes.entries_append]
    rcases hmem with rfl | ((hmem | hmem | hmem | hmem) | hmem)
    · exact absurd rfl hne
    all_goals tauto

section

variable {s n gen} (h : (s.whole n).WellFormed)

include h

theorem not_mem_outer : s.parent ∉ s.outer.ids :=
  h.not_mem.1

theorem node?_whole : (s.whole n).node? s.id = some (s.label, s.below) := by
  rw [whole, fill_eq] at h ⊢
  exact Forest.node?_fill h.not_mem.1

theorem expand_eq (data : Data) (l : Loop) :
    l.expand data (s.whole n) s.id = (l.generate data s.label.tag s.below).map fun gen ↦
      (elementIds n gen, s.replaced n gen) := by
  simp only [whole, replaced, fill_eq] at h ⊢
  exact expand_fill (h.fits (by rw [Frame.owner_inRow]; rfl)) l

theorem below_parent : (s.whole n).below s.parent = s.pre ++ .branch s.id s.label s.below s.post :=
  Forest.below_fill (not_mem_outer h)

variable (hgen : (Nodes.ofElements gen).OnlyElements)

include hgen

theorem wellFormed_replaced : (s.replaced n gen).WellFormed := by
  rw [whole, fill_eq] at h
  obtain ⟨-, hbelow, hpost⟩ :=
    ((Frame.rooted_fill _ _).1 h.rooted).2.2 (by rw [Frame.owner_inRow]; rfl)
  have hnew : ((Nodes.ofElements gen).numbered n ++ s.post).OnlyElements :=
    (Nodes.onlyElements_append _ _).2 ⟨(Nodes.onlyElements_numbered _ _).2 hgen, hpost⟩
  have hids : ((Nodes.branch s.id s.label s.below .nil).ids ++
      ((Nodes.ofElements gen).numbered n ++ s.post).ids).Perm
        ((Nodes.branch s.id s.label s.below s.post).ids ++
          List.range' n (Nodes.ofElements gen).branchCount) := by
    simp only [Nodes.ids, Nodes.ids_append, Nodes.ids_numbered, List.append_nil, List.cons_append,
      List.append_assoc]
    exact (List.perm_append_comm.append_left _).cons s.id
  rw [replaced, fill_eq]
  exact h.refill hids ⟨hbelow, trivial⟩ hnew.rooted fun _ ↦ hnew

theorem node?_element {j : Nat} {l : Label} {row : Nodes Nat}
    (hj : (j, l, row) ∈ ((Nodes.ofElements gen).numbered n).subtrees) :
    (s.replaced n gen).node? j = some (l, row) := by
  apply (Nodes.find?_eq_some_iff (wellFormed_replaced h hgen).nodup).2
  refine List.mem_cons_of_mem _ (List.mem_append_right _ (Frame.mem_subtrees_fill ?_))
  simp only [Nodes.subtrees, Nodes.subtrees_append, List.mem_cons, List.mem_append]
  tauto

theorem encloses_element {j k : Nat} {l : Label} {row : Nodes Nat}
    (hj : (j, l, row) ∈ ((Nodes.ofElements gen).numbered n).subtrees) :
    (s.replaced n gen).encloses j k = true ↔ j = k ∨ k ∈ row.ids := by
  rw [Forest.encloses, Forest.below_eq (node?_element h hgen hj), Bool.or_eq_true,
    decide_eq_true_eq, List.contains_iff_mem]

theorem new_iff {k : Nat} (hk : (s.replaced n gen).Has k) :
    ¬(s.whole n).Has k ↔ ∃ j ∈ elementIds n gen, (s.replaced n gen).encloses j k = true := by
  constructor
  · intro hnot
    have hnew : k ∈ ((Nodes.ofElements gen).numbered n).ids := by
      simp only [Forest.Has, replaced, whole, fill, Nodes.ids, List.mem_cons, List.mem_append,
        Frame.mem_ids_fill, Nodes.ids_append, not_or] at hk hnot
      tauto
    obtain ⟨j, hj, l, row, hsub, hmem⟩ := exists_element_of_mem_ids hnew
    exact ⟨j, hj, (encloses_element h hgen hsub).2 hmem⟩
  · rintro ⟨j, hj, hencloses⟩ hold
    have hitem : .branch j ∈ ((Nodes.ofElements gen).numbered n).items := by
      rw [items_numbered_ofElements]
      exact List.mem_map_of_mem hj
    have hjnew := Nodes.mem_ids_of_mem_items hitem
    obtain ⟨l, row, hfind⟩ := Nodes.exists_find? hjnew
    have hmem := (encloses_element h hgen (Nodes.mem_subtrees_of_find? hfind)).1 hencloses
    have hknew : k ∈ ((Nodes.ofElements gen).numbered n).ids := by
      rcases hmem with rfl | hmem
      · exact hjnew
      · exact (Nodes.ids_subset_of_find? hfind).2 hmem
    rw [Nodes.ids_numbered, List.mem_range'_1] at hknew
    have hlt : k < n := h.lt_next k hold
    omega

theorem row_replaced : ((s.replaced n gen).below s.parent).items =
    s.pre.items ++ (elementIds n gen).map .branch ++ s.post.items := by
  obtain ⟨hparent, -⟩ := s.entries_replaced n gen
  obtain ⟨-, -, hbelow⟩ := (wellFormed_replaced h hgen).eq_of_mem_entries hparent
  rw [hbelow, Nodes.items_append, Nodes.items_append, items_numbered_ofElements,
    List.append_assoc]

theorem keeps_replaced {k : Nat} (hk : (s.whole n).Has k) :
    (s.replaced n gen).Has k ∧ (s.replaced n gen).label k = (s.whole n).label k ∧
      (k ≠ s.parent → ((s.replaced n gen).below k).items = ((s.whole n).below k).items) := by
  have hwf := wellFormed_replaced h hgen
  obtain ⟨hparent, hothers⟩ := s.entries_replaced n gen
  by_cases hkp : k = s.parent
  · rw [hkp]
    obtain ⟨hhas, hlabel, -⟩ := hwf.eq_of_mem_entries hparent
    exact ⟨hhas, hlabel.trans (Forest.label_fill (not_mem_outer h)).symm, fun hne ↦ absurd rfl hne⟩
  · have hentry := hothers _ (Forest.mem_entries_of_has hk) hkp
    obtain ⟨hhas, hlabel, hitems⟩ := hwf.eq_of_mem_entries hentry
    exact ⟨hhas, hlabel, fun _ ↦ hitems⟩

theorem parent?_replaced {k : Nat} (hk : (s.whole n).Has k) (hki : k ≠ s.id) :
    (s.replaced n gen).parent? k = (s.whole n).parent? k := by
  have hwf := wellFormed_replaced h hgen
  obtain ⟨hhas, -, -⟩ := keeps_replaced h hgen hk
  cases hp : (s.whole n).parent? k with
  | none =>
    obtain ⟨its, hits⟩ := Frame.exists_items s.outer s.parent s.behind
    have hroot := (h.parent?_eq_none_iff hk).1 hp
    rw [whole, fill, hits] at hroot
    apply (hwf.parent?_eq_none_iff hhas).2
    refine List.mem_cons_of_mem _ ?_
    rwa [fill, hits]
  | some p =>
    have hitem := h.parent?_eq_some_iff.1 hp
    apply hwf.parent?_eq_some_iff.2
    by_cases hps : p = s.parent
    · subst hps
      rw [below_parent h, Nodes.items_append, Nodes.items] at hitem
      rw [row_replaced h hgen]
      simp only [List.mem_append, List.mem_cons, Item.branch.injEq, hki, false_or] at hitem ⊢
      tauto
    · have hhasp := Forest.has_of_below (Nodes.mem_ids_of_mem_items hitem)
      obtain ⟨-, -, hitems⟩ := keeps_replaced h hgen hhasp
      rwa [hitems hps]

theorem takesPlace :
    (s.whole n).TakesPlace s.id s.parent (elementIds n gen) (s.replaced n gen) where
  wellFormed := wellFormed_replaced h hgen
  row := by
    refine ⟨s.pre.items, s.post.items, ?_, row_replaced h hgen⟩
    rw [below_parent h, Nodes.items_append]
    rfl
  nodup := (pairwise_elementIds n gen).imp Nat.ne_of_lt
  isNew j hj hold := Nat.not_le.2 (h.lt_next j hold) (le_of_mem_elementIds hj)
  new_iff k hk := new_iff h hgen hk
  loose := by
    have htop : .branch s.id ∈ (s.replaced n gen).trees.items := List.mem_cons_self
    apply ((wellFormed_replaced h hgen).parent?_eq_none_iff (Nodes.mem_ids_of_mem_items htop)).2
    exact htop
  kept := by
    have hnode : (s.replaced n gen).node? s.id = some (s.label, s.below) := if_pos rfl
    rw [Forest.subtree_eq hnode, Forest.subtree_eq (node?_whole h)]
  others k hk := by
    obtain ⟨hhas, hlabel, hitems⟩ := keeps_replaced h hgen hk
    exact ⟨hhas, hlabel, hitems, parent?_replaced h hgen hk⟩

end

theorem exists_whole {f : Forest} {i q : NodeId} (hf : f.WellFormed) (hq : f.parent? i = some q) :
    ∃ (s : Spot) (n : Nat), f = s.whole n ∧ s.id = i ∧ s.parent = q := by
  obtain ⟨F, l, below, rest, ht, ho⟩ := hf.exists_fill_of_parent? hq
  obtain ⟨G, lq, a, c, hG⟩ := Frame.exists_within ho
  refine ⟨⟨G, q, lq, a, i, l, below, rest, c⟩, f.next, ?_, rfl, rfl⟩
  rw [whole, fill, ← hG, ← ht]

end Spot

/-- How an expansion ends: with new elements, with a problem found beforehand, or with one met while
the elements were put in their place. -/
inductive Outcome
  | expanded (generated : List NodeId)
  | refused (d : Diagnostic)
  | undone (d : Diagnostic)
deriving DecidableEq, Repr

namespace Loop

variable (l : Loop)

/-- Makes the element for an item. It gets the template as its text; what is written for that gets
the item. -/
def stamp (tag template : String) (item : Value) (f : Forest) : NodeId × Forest :=
  let (j, f) := f.create tag
  let f := f.setText j template
  match replace? (fun name ↦ if name = l.item then some item.display else none) (f.inner j) with
  | some markup => (j, f.setInner j markup)
  | none => (j, f)

def stampAll (tag template : String) : List Value → Forest → List NodeId × Forest
  | [], f => ([], f)
  | item :: rest, f =>
    let (j, f) := l.stamp tag template item f
    let (js, f) := stampAll tag template rest f
    (j :: js, f)

/-- Expands an element in place. If one of the new elements cannot be put there, all of them are
taken out. -/
def enact (data : Data) (f : Forest) (i : NodeId) : Outcome × Forest :=
  match data.get? l.collection with
  | none => (.refused (.unresolvedCollection l.collection), f)
  | some value =>
    match value.list? with
    | none => (.refused (.unsupportedCollection l.collection value.kind), f)
    | some items =>
      let template := f.textContent i
      if !items.isEmpty && (find template).isEmpty then (.refused (.noPlaceholders template), f)
      else if (f.parent? i).isNone then (.refused (.tree .detached), f)
      else
        let (generated, g) := l.stampAll (f.tag i) template items f
        match g.putBefore i generated with
        | (none, g) => (.expanded generated, g.remove i)
        | (some e, g) => (.undone (.tree e), generated.foldl Forest.remove g)

theorem stamp_eq {tag : String} (htag : Text.lower tag = tag) (template : String) (item : Value)
    (f : Forest) :
    l.stamp tag template item f = f.plant (.ofTag tag) (l.content tag template item) := by
  have htext : (f.create tag).2.setText f.next template =
      (f.plant (.ofTag tag) (.ofText template)).2 :=
    f.setContent_plant (.ofTag tag) rfl
  have hinner : (f.plant (.ofTag tag) (.ofText template)).2.inner f.next =
      Nodes.inner (.ofTag tag) (Nodes.ofText template : Nodes Unit) := by
    rw [Forest.inner, Forest.plant_eq_fill, Forest.label_fill List.not_mem_nil,
      Forest.below_fill List.not_mem_nil, ← Nodes.inner_plain, Nodes.plain_numbered]
  have hfill : ∀ markup, (f.plant (.ofTag tag) (.ofText template)).2.setInner f.next markup =
      (f.plant (.ofTag tag) (readFragment tag markup)).2 := by
    intro markup
    rw [Forest.setInner, Forest.tag, Forest.label_plant, Label.ofTag, Label.tag, htag]
    exact f.setContent_plant _ (Nodes.ids_ofText template)
  have hcreate : f.create tag = (f.next, (f.create tag).2) := rfl
  rw [stamp, hcreate, content]
  simp only [htext, hinner]
  cases replace? (fun name ↦ if name = l.item then some item.display else none)
      (Nodes.inner (.ofTag tag) (Nodes.ofText template : Nodes Unit)) with
  | none => rfl
  | some markup =>
    simp only [hfill]
    rfl

theorem stampAll_eq {tag : String} (htag : Text.lower tag = tag) (template : String)
    (items : List Value) (f : Forest) :
    l.stampAll tag template items f =
      f.plantAll (items.map fun item ↦ (.ofTag tag, l.content tag template item)) := by
  induction items generalizing f with
  | nil => rfl
  | cons item rest ih =>
    rw [stampAll, stamp_eq l htag, List.map_cons, Forest.plantAll]
    simp only [ih]

/-- The reason for which a loop cannot be expanded, if there is one: the first of these. -/
inductive Refusal (data : Data) (f : Forest) (i : NodeId) : Diagnostic → Prop
  | absent (h : data.get? l.collection = none) :
    Refusal data f i (.unresolvedCollection l.collection)
  | noList {value : Value} (h : data.get? l.collection = some value) (hlist : value.list? = none) :
    Refusal data f i (.unsupportedCollection l.collection value.kind)
  | noPlaceholder {value : Value} {items : List Value} (h : data.get? l.collection = some value)
    (hlist : value.list? = some items) (hitems : items ≠ []) (hfind : find (f.textContent i) = []) :
    Refusal data f i (.noPlaceholders (f.textContent i))
  | noParent {value : Value} {items : List Value} (h : data.get? l.collection = some value)
    (hlist : value.list? = some items) (hfind : items = [] ∨ find (f.textContent i) ≠ [])
    (hparent : f.parent? i = none) : Refusal data f i (.tree .detached)

section

variable {l} {data : Data} {f : Forest} {i : NodeId}

theorem find_isEmpty (text : String) : (find text).isEmpty = !hasPlaceholder text := by
  have hiff := hasPlaceholder_iff text
  cases hplaceholder : hasPlaceholder text with
  | true => exact List.isEmpty_eq_false_iff.2 (hiff.1 hplaceholder)
  | false =>
    rw [hplaceholder] at hiff
    exact List.isEmpty_iff.2 (not_not.1 fun hne ↦ Bool.false_ne_true (hiff.2 hne))

theorem Refusal.enact_eq {d : Diagnostic} (h : l.Refusal data f i d) :
    l.enact data f i = (.refused d, f) := by
  cases h with
  | absent h => simp only [enact, h]
  | noList h hlist => simp only [enact, h, hlist]
  | noPlaceholder h hlist hitems hfind => simp [enact, h, hlist, hitems, hfind]
  | noParent h hlist hfind hparent =>
    simp only [enact, h, hlist, hparent]
    rcases hfind with rfl | hfind
    · rfl
    · simp [hfind]

theorem Refusal.expand_eq {d : Diagnostic} (h : l.Refusal data f i d) :
    l.expand data f i = .error d := by
  cases h with
  | absent h => simp only [expand, h]
  | noList h hlist => simp only [expand, h, hlist]
  | noPlaceholder h hlist hitems hfind =>
    simp [expand, h, hlist, hitems, ← find_isEmpty, hfind]
  | noParent h hlist hfind hparent =>
    simp only [expand, h, hlist, hparent, ← find_isEmpty]
    rcases hfind with rfl | hfind
    · rfl
    · simp [hfind]

theorem exists_of_not_refused (h : ∀ d, ¬l.Refusal data f i d) :
    ∃ value items q, data.get? l.collection = some value ∧ value.list? = some items ∧
      (items = [] ∨ find (f.textContent i) ≠ []) ∧ f.parent? i = some q := by
  cases hvalue : data.get? l.collection with
  | none => exact absurd (.absent hvalue) (h _)
  | some value =>
    cases hlist : value.list? with
    | none => exact absurd (.noList hvalue hlist) (h _)
    | some items =>
      have hfind : items = [] ∨ find (f.textContent i) ≠ [] := by
        by_contra hno
        rw [not_or, not_not] at hno
        exact h _ (.noPlaceholder hvalue hlist hno.1 hno.2)
      cases hparent : f.parent? i with
      | none => exact absurd (.noParent hvalue hlist hfind hparent) (h _)
      | some q => exact ⟨value, items, q, rfl, hlist, hfind, rfl⟩

theorem enact_of_expand (htag : Text.lower (f.tag i) = f.tag i) {generated : List NodeId}
    {g : Forest} (h : l.expand data f i = .ok (generated, g)) :
    l.enact data f i = (.expanded generated, g) := by
  unfold expand at h
  unfold enact
  cases hvalue : data.get? l.collection with
  | none => simp only [hvalue, reduceCtorEq] at h
  | some value =>
    cases hlist : value.list? with
    | none => simp only [hvalue, hlist, reduceCtorEq] at h
    | some items =>
      simp only [hvalue, hlist, find_isEmpty, stampAll_eq l htag] at h ⊢
      split at h
      · cases h
      · next hfind =>
        rw [if_neg hfind]
        split at h
        · cases h
        · next hparent =>
          rw [if_neg hparent]
          generalize f.plantAll _ = planted at h ⊢
          obtain ⟨js, g'⟩ := planted
          simp only at h ⊢
          split at h
          · cases h
          · next hput =>
            obtain ⟨rfl, rfl⟩ := Prod.mk.inj (Except.ok.inj h)
            rw [Forest.putBefore_of_beforeAll hput]

theorem generate_of_list {ι : Type} {tag : String} {below : Nodes ι} {value : Value}
    {items : List Value} (hvalue : data.get? l.collection = some value)
    (hlist : value.list? = some items) (hfind : items = [] ∨ find below.textContent ≠ []) :
    l.generate data tag below =
      .ok (items.map fun item ↦ (.ofTag tag, l.content tag below.textContent item)) := by
  simp only [generate, hvalue, hlist, ← find_isEmpty]
  rcases hfind with rfl | hfind
  · rfl
  · simp [hfind]

/-- An element with a parent is expanded: for each item there is an element in its place. -/
theorem expand_takesPlace (hf : f.WellFormed) {value : Value} {items : List Value} {q : NodeId}
    (hvalue : data.get? l.collection = some value) (hlist : value.list? = some items)
    (hfind : items = [] ∨ find (f.textContent i) ≠ []) (hq : f.parent? i = some q) :
    ∃ generated g, l.expand data f i = .ok (generated, g) ∧ f.TakesPlace i q generated g ∧
      List.Forall₂ (fun item j ↦ g.label j = .ofTag (f.tag i) ∧
        (g.below j).plain = l.content (f.tag i) (f.textContent i) item) items generated := by
  obtain ⟨s, n, rfl, rfl, rfl⟩ := Spot.exists_whole hf hq
  have hnode := Spot.node?_whole hf
  have htag : (s.whole n).tag s.id = s.label.tag := congrArg Label.tag (Forest.label_eq hnode)
  have htext : (s.whole n).textContent s.id = s.below.textContent :=
    congrArg Nodes.textContent (Forest.below_eq hnode)
  rw [htext] at hfind
  rw [htag, htext, Spot.expand_eq hf, generate_of_list hvalue hlist hfind]
  have helements : (Nodes.ofElements (items.map fun item ↦
      (Label.ofTag s.label.tag, l.content s.label.tag s.below.textContent item))).OnlyElements := by
    apply onlyElements_ofElements
    intro e he
    obtain ⟨item, -, rfl⟩ := List.mem_map.1 he
    exact ⟨rfl, onlyElements_content _ _ _ _⟩
  refine ⟨_, _, rfl, Spot.takesPlace hf helements, ?_⟩
  have hsubtrees := subtrees_numbered_ofElements n (items.map fun item ↦
    (Label.ofTag s.label.tag, l.content s.label.tag s.below.textContent item))
  refine (List.forall₂_map_left_iff.1 hsubtrees).imp ?_
  intro item j hj
  have helement := Spot.node?_element hf helements hj
  refine ⟨Forest.label_eq helement, ?_⟩
  rw [Forest.below_eq helement, Nodes.plain_numbered]

/-- A loop is expanded unless there is a reason against it, of which the first is reported and
nothing is changed. New elements with the name of the element and no attributes, one for each item
and in their order, take its place, each with what the markup for its item has in it; nothing of
that is outside of them. They are never put there in part. Names are in lower case in all states
that are reached. -/
theorem expands_in_place (l : Loop) (data : Data) {f : Forest} {i : NodeId} (hf : f.WellFormed)
    (hlower : (f.label i).Lower) :
    (∀ d g, l.enact data f i = (.refused d, g) ↔ l.Refusal data f i d ∧ g = f) ∧
      (∀ d g, l.enact data f i ≠ (.undone d, g)) ∧
      (∀ d, l.expand data f i = .error d ↔ l.Refusal data f i d) ∧
      (∀ generated g, l.enact data f i = (.expanded generated, g) ↔
        l.expand data f i = .ok (generated, g)) ∧
      ((∀ d, ¬l.Refusal data f i d) → ∃ value items q generated g,
        data.get? l.collection = some value ∧ value.list? = some items ∧
        f.parent? i = some q ∧ l.expand data f i = .ok (generated, g) ∧
        f.TakesPlace i q generated g ∧
        List.Forall₂ (fun item j ↦ g.label j = .element (f.tag i) [] ∧
          (g.below j).plain = l.content (f.tag i) (f.textContent i) item) items generated) := by
  by_cases hrefused : ∃ d, l.Refusal data f i d
  · obtain ⟨d, hd⟩ := hrefused
    rw [hd.enact_eq, hd.expand_eq]
    have hunique : ∀ d', d = d' ↔ l.Refusal data f i d' := by
      intro d'
      constructor
      · rintro rfl
        exact hd
      · intro hd'
        exact Except.error.inj (hd.expand_eq.symm.trans hd'.expand_eq)
    refine ⟨?_, ?_, ?_, ?_, fun hnone ↦ absurd hd (hnone d)⟩
    · intro d' g
      rw [Prod.mk.injEq, Outcome.refused.injEq, hunique d', eq_comm (a := f)]
    · intro d' g h
      cases (Prod.mk.inj h).1
    · intro d'
      rw [Except.error.injEq, hunique d']
    · intro generated g
      exact iff_of_false (fun h ↦ (nomatch (Prod.mk.inj h).1)) nofun
  · rw [not_exists] at hrefused
    obtain ⟨value, items, q, hvalue, hlist, hfind, hq⟩ := exists_of_not_refused hrefused
    obtain ⟨generated, g, hexpand, hplace, helements⟩ :=
      expand_takesPlace hf hvalue hlist hfind hq
    rw [Label.ofTag, show Text.lower (f.tag i) = f.tag i from hlower] at helements
    rw [enact_of_expand hlower hexpand, hexpand]
    refine ⟨?_, ?_, ?_, ?_, ?_⟩
    · intro d g'
      exact iff_of_false (fun h ↦ (nomatch (Prod.mk.inj h).1)) fun hd ↦ hrefused d hd.1
    · intro d g' h
      cases (Prod.mk.inj h).1
    · intro d
      exact iff_of_false nofun (hrefused d)
    · intro generated' g'
      rw [Prod.mk.injEq, Outcome.expanded.injEq, Except.ok.injEq, Prod.mk.injEq]
    · exact fun _ ↦ ⟨value, items, q, generated, g, hvalue, hlist, hq, rfl, hplace, helements⟩

end

def listedForest : Forest :=
  ⟨.branch 0 .document (.branch 1 (.element "ul" []) (.text "a" (.branch 2
    (.element "li" [⟨"d-for", "x in xs"⟩]) (.text "\x7b\x7bx\x7d\x7d!" .nil) (.comment "c" .nil)))
    .nil) .nil, 3⟩

def markedData : Data :=
  Data.insert ∅ "xs" (.list [.string "</li></ul><b>", .string "<!--"])

theorem expands_in_place_marked :
    listedForest.WellFormed ∧ (listedForest.label 2).Lower ∧ ∃ q generated g,
      enact ⟨"x", "xs"⟩ markedData listedForest 2 = (.expanded generated, g) ∧
        listedForest.TakesPlace 2 q generated g ∧ generated = [3, 5] ∧
        g.outer 1 = "<ul>a<li><b>!</b></li><li><!--!--></li><!--c--></ul>" := by
  have hwf : listedForest.WellFormed := by decide +kernel
  have hlower : (listedForest.label 2).Lower := by
    rw [Label.Lower]
    decide +kernel
  have hfirst : (enact ⟨"x", "xs"⟩ markedData listedForest 2).1 = .expanded [3, 5] := by
    decide +kernel
  have houter : (enact ⟨"x", "xs"⟩ markedData listedForest 2).2.outer 1 =
      "<ul>a<li><b>!</b></li><li><!--!--></li><!--c--></ul>" := by
    decide +kernel
  obtain ⟨hrefused, -, -, henact, hplace⟩ := expands_in_place ⟨"x", "xs"⟩ markedData hwf hlower
  have hnone : ∀ d, ¬Refusal ⟨"x", "xs"⟩ markedData listedForest 2 d := by
    intro d hd
    rw [(hrefused d listedForest).2 ⟨hd, rfl⟩] at hfirst
    cases hfirst
  obtain ⟨-, -, q, generated, g, -, -, -, hexpand, htakes, -⟩ := hplace hnone
  have hrun := (henact generated g).2 hexpand
  rw [hrun] at hfirst houter
  obtain rfl := Outcome.expanded.inj hfirst
  exact ⟨hwf, hlower, q, [3, 5], g, hrun, htakes, rfl, houter⟩

end Loop

end Template

end LivePage
