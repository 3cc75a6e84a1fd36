import LivePage.Proofs.Linked.Labelled
import LivePage.Proofs.Markup.Handled
import LivePage.Proofs.Markup.Unambiguous

namespace LivePage

open Markup

namespace Markup

namespace Label

theorem attributes_setAttribute {l : Label} (hl : l.isElement = true) (name value : String) :
    (l.setAttribute name value).attributes = setValue (Text.lower name) value l.attributes := by
  cases l with
  | document => cases hl
  | element tag attributes => rfl

theorem attributes_removeAttribute (l : Label) (name : String) :
    (l.removeAttribute name).attributes = l.attributes.eraseP (·.name = Text.lower name) := by
  cases l <;> rfl

theorem tag_setAttribute (l : Label) (name value : String) :
    (l.setAttribute name value).tag = l.tag := by
  cases l <;> rfl

theorem lasting_keyed :
    Lasting (fun _ ↦ Label.Keyed fun _ ↦ True) (Label.Keyed fun _ ↦ True) where
  document := keyed_nil
  ofTag tag := keyed_nil
  fragment tag source := (keyed_readFragment tag source).mono fun _ _ h ↦ h.mono fun _ _ ↦ trivial
  page source := (keyed_readPage source).mono fun _ _ h ↦ h.mono fun _ _ ↦ trivial
  setAttribute {_ l} name value hl := by
    cases l with
    | document => exact hl
    | element tag attributes => exact Markup.Keyed.setValue hl name value
  removeAttribute {_ l} name hl := by
    change Markup.Keyed _ (l.removeAttribute name).attributes
    rw [attributes_removeAttribute]
    exact Markup.Keyed.eraseP hl _

def nameCount (l : Label) (name : String) : Nat :=
  (attributeNames l.attributes).count name

theorem nameCount_setAttribute_le (l : Label) (name value other : String) :
    (l.setAttribute name value).nameCount other ≤ max 1 (l.nameCount other) := by
  cases l with
  | document => exact Nat.zero_le _
  | element tag attributes => exact count_setValue_le _ value attributes other

theorem nameCount_removeAttribute_le (l : Label) (name other : String) :
    (l.removeAttribute name).nameCount other ≤ l.nameCount other := by
  rw [nameCount, attributes_removeAttribute]
  exact count_eraseP_le _ l.attributes other

theorem Keyed.nameCount_le {l : Label} (h : l.Keyed fun _ ↦ True) (name : String) :
    l.nameCount name ≤ if name ∈ sharedNames then 2 else 1 := by
  split
  · exact h.count_le_two name
  · next hname => exact h.count_le_one name fun hshared ↦ hname hshared.1

theorem attribute?_eq_none_iff {l : Label} {name : String} :
    l.attribute? name = none ↔ Text.lower name ∉ attributeNames l.attributes := by
  rw [attribute?, Option.map_eq_none_iff, List.find?_eq_none, attributeNames, List.mem_map]
  simp only [decide_eq_true_eq, not_exists, not_and]

theorem setValue_split (key value : String) (as : List Attribute) :
    ∃ before after, setValue key value as = before ++ ⟨key, value⟩ :: after ∧
      key ∉ attributeNames before ∧
      (attributeNames after).count key = (attributeNames as).count key - 1 := by
  induction as with
  | nil => exact ⟨[], [], rfl, List.not_mem_nil, rfl⟩
  | cons a as ih =>
    rw [setValue]
    by_cases hname : a.name = key
    · refine ⟨[], as, if_pos hname, List.not_mem_nil, ?_⟩
      change _ = (a.name :: attributeNames as).count key - 1
      rw [hname, List.count_cons_self, Nat.add_sub_cancel]
    · obtain ⟨before, after, hsplit, hbefore, hcount⟩ := ih
      refine ⟨a :: before, after, ?_, ?_, ?_⟩
      · rw [if_neg hname, hsplit, List.cons_append]
      · exact List.not_mem_cons_of_ne_of_not_mem (Ne.symm hname) hbefore
      · change _ = (a.name :: attributeNames as).count key - 1
        rw [hcount, List.count_cons_of_ne hname]

theorem find?_setValue_of_ne {key other : String} (h : key ≠ other) (value : String)
    (as : List Attribute) :
    (setValue key value as).find? (·.name = other) = as.find? (·.name = other) := by
  induction as with
  | nil => simp [setValue, h]
  | cons a as ih =>
    rw [setValue]
    by_cases hname : a.name = key
    · simp [hname, h]
    · rw [if_neg hname, List.find?_cons, List.find?_cons, ih]

theorem find?_eraseP_of_ne {key other : String} (h : key ≠ other) (as : List Attribute) :
    (as.eraseP (·.name = key)).find? (·.name = other) = as.find? (·.name = other) := by
  induction as with
  | nil => rfl
  | cons a as ih =>
    by_cases hname : a.name = key
    · simp [hname, h]
    · rw [List.eraseP_cons_of_neg (by simpa using hname), List.find?_cons, List.find?_cons, ih]

variable {l : Label} {name other : String}

theorem attribute?_setAttribute (hl : l.isElement = true) (name value : String) :
    (l.setAttribute name value).attribute? name = some value := by
  obtain ⟨before, after, hsplit, hbefore, -⟩ := setValue_split (Text.lower name) value l.attributes
  have hnone : before.find? (·.name = Text.lower name) = none := by
    rw [List.find?_eq_none]
    intro a ha hname
    exact hbefore (of_decide_eq_true hname ▸ List.mem_map_of_mem ha)
  rw [attribute?, attributes_setAttribute hl, hsplit, List.find?_append, hnone]
  simp

theorem attribute?_setAttribute_of_ne (h : Text.lower name ≠ Text.lower other) (value : String) :
    (l.setAttribute name value).attribute? other = l.attribute? other := by
  cases l with
  | document => rfl
  | element tag attributes => exact congrArg _ (find?_setValue_of_ne h value attributes)

theorem attribute?_removeAttribute_of_ne (h : Text.lower name ≠ Text.lower other) :
    (l.removeAttribute name).attribute? other = l.attribute? other := by
  rw [attribute?, attributes_removeAttribute, find?_eraseP_of_ne h]
  rfl

theorem attribute?_removeAttribute : (l.removeAttribute name).attribute? name = none ↔
    l.nameCount (Text.lower name) ≤ 1 := by
  rw [attribute?_eq_none_iff, attributes_removeAttribute, attributeNames_eraseP,
    ← List.count_eq_zero, List.count_erase_self, nameCount]
  omega

end Label

theorem Nodes.find?_relabel {ι : Type} [DecidableEq ι] (i : ι) (change : Label → Label)
    (t : Nodes ι) :
    (t.relabel i change).find? i = (t.find? i).map fun n ↦ (change n.1, n.2) := by
  induction t with
  | nil => rfl
  | text s rest ih => exact ih
  | comment s rest ih => exact ih
  | branch j l below rest ihb ihr =>
    rw [Nodes.relabel, Nodes.find?]
    by_cases hj : j = i
    · rw [if_pos hj, if_pos hj, Nodes.find?, if_pos hj]
      rfl
    · rw [if_neg hj, if_neg hj, Nodes.find?, if_neg hj, ihb, ihr, Option.map_or]

end Markup

theorem Forest.label_relabel {f : Forest} {i : NodeId} (hi : f.Has i) (change : Label → Label) :
    (f.relabel i change).label i = change (f.label i) := by
  obtain ⟨l, below, hnode⟩ := exists_node hi
  rw [label, label, node?, relabel, Nodes.find?_relabel, ← node?, hnode]
  rfl

theorem Forest.exists_outer {f : Forest} {i : NodeId} (hi : (f.label i).isElement = true) :
    ∃ rest, f.outer i = writeStartTag (f.tag i) (f.label i).attributes ++ rest := by
  rw [outer_eq_write, tag]
  cases hlabel : f.label i with
  | document =>
    rw [hlabel] at hi
    cases hi
  | element tag attributes =>
    rw [Nodes.writeWith, String.append_assoc]
    exact ⟨_, rfl⟩

theorem Forest.attributes_create (f : Forest) (tag : String) :
    ((f.create tag).2.label (f.create tag).1).attributes = [] := by
  have hnode : (f.create tag).2.node? (f.create tag).1 = some (.ofTag tag, .nil) := if_pos rfl
  rw [label_eq hnode]
  rfl

theorem Reach.nameCount_run {p : Page} {h : Heap} (hr : Reach p h) {i : NodeId}
    (hi : p.forest.Has i) {os : List Op} (hl : Op.LegalAll p os) (n : String) :
    ((os.foldl Op.onPage p).forest.label i).nameCount n ≤
      max 1 ((p.forest.label i).nameCount n) := by
  refine hr.label_run (Q := fun l ↦ l.nameCount n ≤ _) (Nat.zero_le _) ?_ ?_ hl hi
    (le_max_right _ _)
  · intro l name value hl
    exact (l.nameCount_setAttribute_le name value n).trans (max_le (le_max_left _ _) hl)
  · intro l name hl
    exact (l.nameCount_removeAttribute_le name n).trans hl

/-- In every state that calls lead to, the names of an element's attributes are in lower case, and
each stands once, or at most twice if it is one of the names that foreign attributes have with and
without a prefix.

Setting an attribute makes its value the one that is found under the name, in the same place of the
start tag or at its end; it is the only one with the name if there was at most one before. Removing
an attribute leaves none with the name exactly if there was at most one. Attributes with other names
keep their values.

A new element has no attributes, no run gives an element that is there a second attribute with a
name, and markup gives one only if it mentions the name with its prefix. -/
theorem Reach.attribute_names {p : Page} {h : Heap} (hr : Reach p h) {i : NodeId}
    (hi : p.forest.HasElement i) (name value : String) :
    (∀ n ∈ attributeNames (p.forest.label i).attributes, Text.lower n = n) ∧
    (∀ n, (p.forest.label i).nameCount n ≤ if n ∈ sharedNames then 2 else 1) ∧
    ((p.forest.setAttribute i name value).label i).attribute? name = some value ∧
    (∃ before after rest,
      ((p.forest.setAttribute i name value).label i).attributes =
        before ++ ⟨Text.lower name, value⟩ :: after ∧
      (p.forest.setAttribute i name value).outer i =
        writeStartTag (p.forest.tag i) (before ++ ⟨Text.lower name, value⟩ :: after) ++ rest ∧
      Text.lower name ∉ attributeNames before ∧
      (attributeNames after).count (Text.lower name) =
        (p.forest.label i).nameCount (Text.lower name) - 1) ∧
    (((p.forest.removeAttribute i name).label i).attribute? name = none ↔
      (p.forest.label i).nameCount (Text.lower name) ≤ 1) ∧
    (∀ other, Text.lower name ≠ Text.lower other →
      ((p.forest.setAttribute i name value).label i).attribute? other =
        (p.forest.label i).attribute? other ∧
      ((p.forest.removeAttribute i name).label i).attribute? other =
        (p.forest.label i).attribute? other) ∧
    (∀ tag, ((p.forest.create tag).2.label (p.forest.create tag).1).attributes = []) ∧
    (∀ os, Op.LegalAll p os → ∀ n, ((os.foldl Op.onPage p).forest.label i).nameCount n ≤
      max 1 ((p.forest.label i).nameCount n)) ∧
    ∀ n source, ¬Scan.Mentions (prepare source) (prefixedName n) →
      (∀ tag, (readFragment tag source).Labelled fun _ l ↦ l.nameCount n ≤ 1) ∧
      (readPage source).Labelled fun _ l ↦ l.nameCount n ≤ 1 := by
  obtain ⟨hhas, helement⟩ := hi
  have hkeyed : (p.forest.label i).Keyed fun _ ↦ True := hr.label Label.lasting_keyed i
  have hset : (p.forest.setAttribute i name value).label i =
      (p.forest.label i).setAttribute name value := Forest.label_relabel hhas _
  have hremove : (p.forest.removeAttribute i name).label i =
      (p.forest.label i).removeAttribute name := Forest.label_relabel hhas _
  refine ⟨hkeyed.lower, hkeyed.nameCount_le, ?_, ?_, ?_, fun other hne ↦ ⟨?_, ?_⟩,
    p.forest.attributes_create, fun os hl ↦ hr.nameCount_run hhas hl,
    fun n source hmentions ↦ ⟨fun tag ↦ ?_, ?_⟩⟩
  · rw [hset]
    exact Label.attribute?_setAttribute helement name value
  · obtain ⟨before, after, hsplit, hbefore, hcount⟩ :=
      Label.setValue_split (Text.lower name) value (p.forest.label i).attributes
    have hattributes : ((p.forest.setAttribute i name value).label i).attributes =
        before ++ ⟨Text.lower name, value⟩ :: after := by
      rw [hset, Label.attributes_setAttribute helement, hsplit]
    have hstill : ((p.forest.setAttribute i name value).label i).isElement = true := by
      rw [hset, Label.isElement_setAttribute, helement]
    obtain ⟨rest, houter⟩ := Forest.exists_outer hstill
    rw [Forest.tag, hset, Label.tag_setAttribute, ← hset, hattributes] at houter
    exact ⟨before, after, rest, hattributes, houter, hbefore, hcount⟩
  · rw [hremove]
    exact Label.attribute?_removeAttribute
  · rw [hset]
    exact Label.attribute?_setAttribute_of_ne hne value
  · rw [hremove]
    exact Label.attribute?_removeAttribute_of_ne hne
  · exact (keyed_readFragment tag source).mono fun _ _ hl ↦
      hl.count_le_one n fun hprefixed ↦ hmentions hprefixed.2
  · exact (keyed_readPage source).mono fun _ _ hl ↦
      hl.count_le_one n fun hprefixed ↦ hmentions hprefixed.2

def twiceLinked : List Op :=
  [.create "div", .setInner 0 "<svg><a xlink:href=\"x\" href=\"y\"></a></svg>"]

theorem Reach.attribute_names_twiceLinked :
    ∃ h, Reach (twiceLinked.foldl Op.onPage {}) h ∧
      (twiceLinked.foldl Op.onPage {}).forest.HasElement 2 ∧
      (((twiceLinked.foldl Op.onPage {}).forest.setAttribute 2 "ID" "z").label 2).attribute? "id" =
        some "z" ∧
      (readFragment "div" "<svg><a HREF=x href=y></a></svg>").Labelled fun _ l ↦
        l.nameCount "href" ≤ 1 := by
  obtain ⟨h, hr⟩ := Reach.start.all twiceLinked (by decide +kernel)
  have hi : (twiceLinked.foldl Op.onPage {}).forest.HasElement 2 := by decide +kernel
  obtain ⟨-, -, hset, -, -, -, -, -, hread⟩ := hr.attribute_names hi "ID" "z"
  exact ⟨h, hr, hi, hset, (hread "href" _ (by decide)).1 "div"⟩

/-- The second attribute is found when the first one is gone. -/
theorem Reach.attribute_left :
    ∃ h, Reach (twiceLinked.foldl Op.onPage {}) h ∧
      (twiceLinked.foldl Op.onPage {}).forest.HasElement 2 ∧
      attributeNames ((twiceLinked.foldl Op.onPage {}).forest.label 2).attributes =
        ["href", "href"] ∧
      (((twiceLinked.foldl Op.onPage {}).forest.removeAttribute 2 "href").label 2).attribute?
        "href" = some "y" := by
  obtain ⟨h, hr⟩ := Reach.start.all twiceLinked (by decide +kernel)
  exact ⟨h, hr, by decide +kernel, by decide +kernel, by decide +kernel⟩

end LivePage
