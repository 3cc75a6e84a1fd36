import LivePage.Proofs.Linked.Moves
import LivePage.Proofs.Markup.Order

namespace LivePage

open Markup

namespace Heap

section

variable (h : Heap)

def text? : Nat → Ref → Option String
  | 0, _ => none
  | depth + 1, r => match h.content? r with
    | none => none
    | some (.text s) => some s
    | some (.comment _) => some ""
    | some (.branch _) => ((h.children r).mapM (text? depth)).map String.join

def write? : Nat → Bool → Ref → Option String
  | 0, _, _ => none
  | depth + 1, raw, r => match h.content? r with
    | none => none
    | some (.text s) => some (if raw then s else escapeText s)
    | some (.comment s) => some ("<!--" ++ s ++ "-->")
    | some (.branch .document) => ((h.children r).mapM (write? depth false)).map String.join
    | some (.branch (.element tag attributes)) =>
      if voidTags.contains tag then some (writeStartTag tag attributes)
      else ((h.children r).mapM (write? depth (rawTags.contains tag))).map fun inside ↦
        writeStartTag tag attributes ++ (String.join inside ++ writeEndTag tag)

def isElement (r : Ref) : Bool :=
  match h.content? r with
  | some (.branch l) => l.isElement
  | _ => false

def elementChildren (r : Ref) : List Ref :=
  (h.children r).filter h.isElement

/-- Takes elements from a stack, whose top is its head. The elements directly below one are pushed
from the last to the first, so they are on top in their order. -/
def descend : Nat → List Ref → List Ref → Option (List Ref)
  | _, [], out => some out
  | 0, _ :: _, _ => none
  | depth + 1, r :: stack, out => descend depth (h.elementChildren r ++ stack) (out ++ [r])

def descendants? (depth : Nat) (r : Ref) : Option (List Ref) :=
  h.descend depth (h.elementChildren r) []

/-- The elements among some nodes and below these, in the order in which they are visited if each is
visited before what is below it, and that before the nodes behind it. -/
inductive Preorder : List Ref → List Ref → Prop
  | nil : Preorder [] []
  | element {r : Ref} {rs inside after : List Ref} (hr : h.isElement r = true)
    (hinside : Preorder (h.children r) inside) (hafter : Preorder rs after) :
    Preorder (r :: rs) (r :: (inside ++ after))
  | other {r : Ref} {rs after : List Ref} (hr : h.isElement r = false)
    (hafter : Preorder rs after) : Preorder (r :: rs) after

def Lists (rs : List Ref) (row : Nodes Nat) : Prop :=
  rs.map h.item? = row.items.map some ∧ ∀ e ∈ row.entries, h.Holds e

end

namespace Lists

variable {h : Heap} {rs : List Ref} {i : Nat} {l : Label} {s : String} {below rest : Nodes Nat}

theorem nil_iff : h.Lists rs .nil ↔ rs = [] := by
  refine ⟨fun hl ↦ List.map_eq_nil_iff.1 hl.1, ?_⟩
  rintro rfl
  exact ⟨rfl, fun e he ↦ by cases he⟩

theorem text (hl : h.Lists rs (.text s rest)) :
    ∃ r rs', rs = r :: rs' ∧ h.content? r = some (.text s) ∧ h.Lists rs' rest := by
  obtain ⟨r, rs', rfl, hr, hrest⟩ := List.map_eq_cons_iff.1 hl.1
  refine ⟨r, rs', rfl, ?_, hrest, hl.2⟩
  cases r with
  | branch j => cases hr
  | leaf k =>
    rw [item?] at hr
    split at hr
    · next t ht =>
      obtain rfl := Item.text.inj (Option.some.inj hr)
      exact ht
    · cases hr
    · cases hr

theorem comment (hl : h.Lists rs (.comment s rest)) :
    ∃ r rs', rs = r :: rs' ∧ h.content? r = some (.comment s) ∧ h.Lists rs' rest := by
  obtain ⟨r, rs', rfl, hr, hrest⟩ := List.map_eq_cons_iff.1 hl.1
  refine ⟨r, rs', rfl, ?_, hrest, hl.2⟩
  cases r with
  | branch j => cases hr
  | leaf k =>
    rw [item?] at hr
    split at hr
    · cases hr
    · next t ht =>
      obtain rfl := Item.comment.inj (Option.some.inj hr)
      exact ht
    · cases hr

theorem branch (hl : h.Lists rs (.branch i l below rest)) :
    ∃ rs', rs = .branch i :: rs' ∧ h.content? (.branch i) = some (.branch l) ∧
      h.Lists (h.children (.branch i)) below ∧ h.Lists rs' rest := by
  obtain ⟨r, rs', rfl, hr, hrest⟩ := List.map_eq_cons_iff.1 hl.1
  obtain rfl := item?_eq_branch.1 hr
  obtain ⟨hi, hbelow⟩ := List.forall_mem_cons.1 hl.2
  obtain ⟨hbelow, hafter⟩ := List.forall_mem_append.1 hbelow
  exact ⟨rs', rfl, hi.1, ⟨hi.2, hbelow⟩, hrest, hafter⟩

theorem join_mapM_cons {g : Ref → Option String} {r : Ref} {s t : String} (hr : g r = some s)
    (hrs : (rs.mapM g).map String.join = some t) :
    ((r :: rs).mapM g).map String.join = some (s ++ t) := by
  obtain ⟨ss, hss, rfl⟩ := Option.map_eq_some_iff.1 hrs
  rw [List.mapM_cons, hr, hss]
  exact congrArg some String.join_cons

theorem mapM_text? {row : Nodes Nat} (hl : h.Lists rs row) {depth : Nat} (hd : row.size ≤ depth) :
    (rs.mapM (h.text? depth)).map String.join = some row.textContent := by
  induction row generalizing rs depth with
  | nil =>
    obtain rfl := nil_iff.1 hl
    rfl
  | text s rest ih =>
    obtain ⟨r, rs, rfl, hr, hrest⟩ := hl.text
    simp only [Nodes.size] at hd
    obtain ⟨depth, rfl⟩ := Nat.exists_eq_add_one.2 (show 0 < depth by omega)
    refine join_mapM_cons ?_ (ih hrest (by omega))
    rw [text?, hr]
  | comment s rest ih =>
    obtain ⟨r, rs, rfl, hr, hrest⟩ := hl.comment
    simp only [Nodes.size] at hd
    obtain ⟨depth, rfl⟩ := Nat.exists_eq_add_one.2 (show 0 < depth by omega)
    rw [Nodes.textContent, ← String.empty_append (s := rest.textContent)]
    refine join_mapM_cons ?_ (ih hrest (by omega))
    rw [text?, hr]
  | branch i l below rest ihb ihr =>
    obtain ⟨rs, rfl, hi, hbelow, hrest⟩ := hl.branch
    simp only [Nodes.size] at hd
    obtain ⟨depth, rfl⟩ := Nat.exists_eq_add_one.2 (show 0 < depth by omega)
    refine join_mapM_cons ?_ (ihr hrest (by omega))
    rw [text?, hi]
    exact ihb hbelow (by omega)

theorem mapM_write? {row : Nodes Nat} (hl : h.Lists rs row) {depth : Nat} (hd : row.size ≤ depth)
    (raw : Bool) : (rs.mapM (h.write? depth raw)).map String.join = some (row.writeWith raw) := by
  induction row generalizing rs depth raw with
  | nil =>
    obtain rfl := nil_iff.1 hl
    rfl
  | text s rest ih =>
    obtain ⟨r, rs, rfl, hr, hrest⟩ := hl.text
    simp only [Nodes.size] at hd
    obtain ⟨depth, rfl⟩ := Nat.exists_eq_add_one.2 (show 0 < depth by omega)
    refine join_mapM_cons ?_ (ih hrest (by omega) raw)
    rw [write?, hr]
  | comment s rest ih =>
    obtain ⟨r, rs, rfl, hr, hrest⟩ := hl.comment
    simp only [Nodes.size] at hd
    obtain ⟨depth, rfl⟩ := Nat.exists_eq_add_one.2 (show 0 < depth by omega)
    refine join_mapM_cons ?_ (ih hrest (by omega) raw)
    rw [write?, hr]
  | branch i l below rest ihb ihr =>
    obtain ⟨rs, rfl, hi, hbelow, hrest⟩ := hl.branch
    simp only [Nodes.size] at hd
    obtain ⟨depth, rfl⟩ := Nat.exists_eq_add_one.2 (show 0 < depth by omega)
    have hafter := ihr hrest (show rest.size ≤ depth + 1 by omega) raw
    cases l with
    | document =>
      refine join_mapM_cons ?_ hafter
      rw [write?, hi]
      exact ihb hbelow (by omega) false
    | element tag attributes =>
      refine join_mapM_cons ?_ hafter
      rw [write?, hi]
      simp only
      split
      · rw [String.append_empty]
      · obtain ⟨ss, hss, hjoin⟩ :=
          Option.map_eq_some_iff.1
          (ihb hbelow (show below.size ≤ depth by omega) (rawTags.contains tag))
        rw [hss, ← hjoin]
        rfl

theorem preorder {row : Nodes Nat} (hl : h.Lists rs row) (hrow : row.OnlyElements) :
    h.Preorder rs (row.listed.map fun e ↦ .branch e.1) := by
  induction row generalizing rs with
  | nil =>
    obtain rfl := nil_iff.1 hl
    exact .nil
  | text s rest ih =>
    obtain ⟨r, rs, rfl, hr, hrest⟩ := hl.text
    exact .other (by rw [isElement, hr]) (ih hrest hrow)
  | comment s rest ih =>
    obtain ⟨r, rs, rfl, hr, hrest⟩ := hl.comment
    exact .other (by rw [isElement, hr]) (ih hrest hrow)
  | branch i l below rest ihb ih =>
    obtain ⟨rs, rfl, hi, hbelow, hrest⟩ := hl.branch
    obtain ⟨helement, hrowb, hrow⟩ := hrow
    rw [Nodes.listed, List.map_cons, List.map_append]
    exact .element (by rw [isElement, hi]; exact helement) (ihb hbelow hrowb) (ih hrest hrow)

end Lists

namespace Preorder

variable {h : Heap} {rs out : List Ref} {r : Ref}

/-- The elements that are on the stack are taken from it in order, each with all that is below it,
before what is under them on the stack is. -/
theorem descend (hp : h.Preorder rs out) (depth : Nat) (stack done : List Ref) :
    h.descend (out.length + depth) (rs.filter h.isElement ++ stack) done =
      h.descend depth stack (done ++ out) := by
  induction hp generalizing depth stack done with
  | nil =>
    simp only [List.length_nil, Nat.zero_add, List.filter_nil, List.nil_append, List.append_nil]
  | @element r rs inside after hr _ _ ihin ihafter =>
    have hlength : (r :: (inside ++ after)).length + depth =
        inside.length + (after.length + depth) + 1 := by
      rw [List.length_cons, List.length_append]
      omega
    rw [List.filter_cons_of_pos hr, List.cons_append, hlength, Heap.descend, elementChildren,
      ihin, ihafter]
    simp only [List.append_assoc, List.cons_append, List.nil_append]
  | other hr _ ih =>
    rw [List.filter_cons_of_neg (Bool.eq_false_iff.1 hr)]
    exact ih depth stack done

theorem descendants?_ends (hp : h.Preorder (h.children r) out) :
    Ends (fun depth ↦ h.descendants? depth r) out := by
  refine ⟨out.length, fun depth hd ↦ ?_⟩
  obtain ⟨d, rfl⟩ := Nat.exists_eq_add_of_le hd
  have hwalk := hp.descend d [] []
  rw [List.append_nil, List.nil_append] at hwalk
  change h.descendants? (out.length + d) r = some out
  rw [descendants?, elementChildren, hwalk]
  cases d with
  | zero | succ d => rfl

end Preorder

def inner? (h : Heap) (depth : Nat) (r : Ref) : Option String := do
  match ← h.content? r with
  | .branch l => ((h.children r).mapM (h.write? depth (rawTags.contains l.tag))).map String.join
  | _ => none

namespace Represents

variable {h : Heap} {f : Forest} {i c p : Nat}

theorem lists (hr : h.Represents f) (hi : f.Has i) :
    h.content? (.branch i) = some (.branch (f.label i)) ∧
      h.Lists (h.children (.branch i)) (f.below i) ∧ (f.below i).OnlyElements := by
  obtain ⟨l, below, hn⟩ := Forest.exists_node hi
  obtain ⟨he, hsub⟩ := Nodes.entries_of_find? hn
  rw [Forest.label_eq hn, Forest.below_eq hn]
  refine ⟨(hr.holds he).1, ⟨(hr.holds he).2, fun e he' ↦ hr.holds (hsub he')⟩, ?_⟩
  obtain ⟨F, rest, ht, -⟩ := Frame.exists_fill_of_find? hr.wellFormed.nodup hn
  obtain ⟨t, n⟩ := f
  obtain rfl := ht
  exact hr.wellFormed.onlyElements_below

theorem hasElement_of_below (hr : h.Represents f) (hc : c ∈ (f.below i).ids) : f.HasElement c := by
  have hi : f.Has i := by
    by_contra hi
    rw [Forest.below, Forest.node?, Nodes.find?_eq_none hi] at hc
    cases hc
  obtain ⟨-, hlists, helements⟩ := hr.lists hi
  obtain ⟨l, its, he⟩ := Nodes.exists_entry hc
  obtain ⟨hlive, hlabel⟩ := hlists.2 _ he
  have hcf : f.Has c := hr.live_iff.1 (live_of_content? hlive)
  refine ⟨hcf, ?_⟩
  have hl := Content.branch.inj (Option.some.inj ((hr.lists hcf).1.symm.trans hlive))
  rw [hl]
  exact helements.of_mem_entries he

theorem hasElement_of_parent? (hr : h.Represents f) (hp : f.parent? c = some p) :
    f.HasElement c := by
  have hc : f.Has c := by
    by_contra hc
    rw [Forest.parent?, Nodes.parent?_eq_none hc] at hp
    cases hp
  have hparent := hr.parent?_eq hc
  rw [hp] at hparent
  exact hr.hasElement_of_below ((hr.mem_below_iff (c := p) hparent).2 (.inl rfl))

theorem meets_ends (hr : h.Represents f) (hp : f.Has p) (c : Nat) :
    Ends (fun depth ↦ h.meets (.branch c) depth (.branch p)) (f.encloses c p) :=
  ⟨f.trees.branchCount, fun _ hd ↦ hr.meets_eq hp (Nat.le_add_right_of_le hd)⟩

theorem text?_ends (hr : h.Represents f) (hi : f.Has i) :
    Ends (fun depth ↦ h.text? depth (.branch i)) (f.textContent i) := by
  obtain ⟨hcontent, hlists, -⟩ := hr.lists hi
  refine ⟨(f.below i).size + 1, fun depth hd ↦ ?_⟩
  obtain ⟨depth, rfl⟩ := Nat.exists_eq_add_one.2 (show 0 < depth by omega)
  change h.text? (depth + 1) (.branch i) = _
  rw [text?, hcontent]
  exact hlists.mapM_text? (by omega)

theorem inner?_ends (hr : h.Represents f) (hi : f.Has i) :
    Ends (fun depth ↦ h.inner? depth (.branch i)) (f.inner i) := by
  obtain ⟨hcontent, hlists, -⟩ := hr.lists hi
  refine ⟨(f.below i).size, fun depth hd ↦ ?_⟩
  change h.inner? depth (.branch i) = _
  rw [inner?, hcontent]
  exact hlists.mapM_write? hd _

theorem write?_ends (hr : h.Represents f) (hi : f.Has i) :
    Ends (fun depth ↦ h.write? depth false (.branch i)) (f.outer i) := by
  obtain ⟨hcontent, hlists, -⟩ := hr.lists hi
  refine ⟨(f.below i).size + 1, fun depth hd ↦ ?_⟩
  obtain ⟨depth, rfl⟩ := Nat.exists_eq_add_one.2 (show 0 < depth by omega)
  have hrow := hlists.mapM_write? (show (f.below i).size ≤ depth by omega)
  change h.write? (depth + 1) false (.branch i) = _
  rw [write?, hcontent, Forest.outer, Nodes.outer]
  cases f.label i with
  | document =>
    simp only [Nodes.writeWith, Nodes.writeWith_plain, String.append_empty]
    exact hrow false
  | element tag attributes =>
    simp only [Nodes.writeWith, Nodes.writeWith_plain, String.append_empty]
    split
    · rw [String.append_empty]
    · obtain ⟨ss, hss, hjoin⟩ := Option.map_eq_some_iff.1 (hrow (rawTags.contains tag))
      rw [hss, ← hjoin]
      rfl

theorem preorder (hr : h.Represents f) (hi : f.Has i) :
    h.Preorder (h.children (.branch i)) ((f.below i).descendants.map fun e ↦ .branch e.1) := by
  obtain ⟨-, hlists, helements⟩ := hr.lists hi
  rw [Nodes.descendants_eq]
  exact hlists.preorder helements

theorem descendants?_ends (hr : h.Represents f) (hi : f.Has i) :
    Ends (fun depth ↦ h.descendants? depth (.branch i))
      ((f.below i).descendants.map fun e ↦ .branch e.1) :=
  (hr.preorder hi).descendants?_ends

end Represents

end Heap

end LivePage
