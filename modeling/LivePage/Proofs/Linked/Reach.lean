import LivePage.Proofs.Linked.Programs
import Mathlib.Logic.Relation

namespace LivePage

open Markup Template

theorem Ends.unique {α : Type} {g : Nat → Option α} {a b : α} (ha : Ends g a) (hb : Ends g b) :
    a = b := by
  obtain ⟨m, hm⟩ := ha
  obtain ⟨n, hn⟩ := hb
  exact Option.some.inj ((hm _ (Nat.le_max_left m n)).symm.trans (hn _ (Nat.le_max_right m n)))

/-- The nodes that go when nothing but some nodes is held, each before what is below it. -/
def Forest.doomed (held : List NodeId) : Nodes NodeId → List NodeId
  | .nil => []
  | .text _ rest | .comment _ rest => doomed held rest
  | .branch i _ below rest =>
    if held.contains i then doomed held rest else i :: (doomed held below ++ doomed held rest)

namespace Heap

def dropAll (h : Heap) (is : List NodeId) : Option Heap :=
  is.foldlM (fun h i ↦ h.drop (.branch i)) h

namespace Represents

variable {h : Heap} {f : Forest} {n : Nat} {t t' a b : Nodes Nat}

theorem skip (hr : h.Represents ⟨a ++ (t ++ b), n⟩) (he : t'.entries = t.entries)
    (ht : t.Rooted → t'.Rooted) : h.Represents ⟨a ++ (t' ++ b), n⟩ := by
  have hentries : (a ++ (t' ++ b)).entries = (a ++ (t ++ b)).entries := by
    simp only [Nodes.entries_append, he]
  obtain ⟨ha, hrest⟩ := (Nodes.rooted_append _ _).1 hr.wellFormed.rooted
  obtain ⟨hrow, hb⟩ := (Nodes.rooted_append _ _).1 hrest
  refine ⟨hr.wellFormed.of_entries (List.Perm.of_eq (congrArg _ hentries)) ?_, hr.coherent, ?_⟩
  · exact (Nodes.rooted_append _ _).2 ⟨ha, (Nodes.rooted_append _ _).2 ⟨ht hrow, hb⟩⟩
  · rw [hentries]
    exact hr.shown

/-- What is not held goes, node by node; each node has lost its parent when its turn comes. -/
theorem collect_row (held : List NodeId) (hr : h.Represents ⟨a ++ (t ++ b), n⟩) :
    ∃ h', h.dropAll (Forest.doomed held t) = some h' ∧
      h'.Represents ⟨a ++ (Forest.keep held t ++ b), n⟩ := by
  induction t generalizing h a b with
  | nil => exact ⟨h, rfl, hr⟩
  | text s rest ih => exact ih (hr.skip rfl fun ht ↦ ht)
  | comment s rest ih => exact ih (hr.skip rfl fun ht ↦ ht)
  | branch i l below rest ihb ihr =>
    rw [Forest.doomed, Forest.keep]
    by_cases hi : held.contains i = true
    · rw [if_pos hi, if_pos hi]
      have hbehind := hr
      rw [show a ++ (Nodes.branch i l below rest ++ b) =
        (a ++ .branch i l below .nil) ++ (rest ++ b) by rw [Nodes.append_assoc]; rfl] at hbehind
      obtain ⟨h', hdrop, hr'⟩ := ihr hbehind
      rw [Nodes.append_assoc] at hr'
      exact ⟨h', hdrop, hr'⟩
    · rw [if_neg hi, if_neg hi]
      have hloose : h.parent? (.branch i) = none := by
        refine hr.parent?_of_top ?_
        rw [Nodes.items_append]
        exact List.mem_append_right _ List.mem_cons_self
      obtain ⟨h₁, hdrop₁, hr₁⟩ := ihb hr.erase
      rw [← Nodes.append_assoc] at hr₁
      obtain ⟨h₂, hdrop₂, hr₂⟩ := ihr hr₁
      refine ⟨h₂, ?_, ?_⟩
      · rw [dropAll, List.foldlM_cons, drop, hloose]
        change (h.erase (.branch i)).dropAll _ = _
        rw [dropAll, List.foldlM_append]
        change ((h.erase (.branch i)).dropAll (Forest.doomed held below)).bind _ = _
        rw [hdrop₁]
        exact hdrop₂
      · rw [Nodes.append_assoc] at hr₂ ⊢
        exact hr₂

theorem collect (held : List NodeId) (hr : h.Represents f) :
    ∃ h', h.dropAll (Forest.doomed held f.trees) = some h' ∧ h'.Represents (f.collect held) := by
  have hrow : h.Represents ⟨.nil ++ (f.trees ++ .nil), f.next⟩ := by
    rw [Nodes.append_nil]
    exact hr
  obtain ⟨h', hdrop, hr'⟩ := hrow.collect_row held
  rw [Nodes.append_nil] at hr'
  exact ⟨h', hdrop, hr'⟩

end Represents

end Heap

inductive Op
  | newDocument
  | parse (source : String)
  | create (tag : String)
  | append (parent child : NodeId)
  | insertBefore (parent new reference : NodeId)
  | before (reference new : NodeId)
  | removeChild (parent child : NodeId)
  | remove (i : NodeId)
  | setText (i : NodeId) (text : String)
  | setInner (i : NodeId) (source : String)
  | setAttribute (i : NodeId) (name value : String)
  | removeAttribute (i : NodeId) (name : String)
  | render (data : Data) (root : NodeId)
  | substitute (data : Data) (i : NodeId)
  | dispatch (data : Data) (i : NodeId)
  | expand (l : Loop) (data : Data) (i : NodeId)
  | mount (document : NodeId) (o : MountOptions Unit)
  | rerender (a : AppId) (data : Data)
  | clearDiagnostics (a : AppId)
  | report (a : AppId) (d : Diagnostic)
  | dropApp (a : AppId)
  | drop (held : List NodeId)

namespace Op

def onPage (p : Page) : Op → Page
  | newDocument => { p with forest := p.forest.newDocument.2 }
  | parse source => { p with forest := (p.forest.parse source).2 }
  | create tag => { p with forest := (p.forest.create tag).2 }
  | append parent child => { p with forest := p.forest.after (p.forest.append parent child) }
  | insertBefore parent new reference =>
    { p with forest := p.forest.after (p.forest.insertBefore parent new reference) }
  | before reference new => { p with forest := p.forest.after (p.forest.before reference new) }
  | removeChild parent child =>
    { p with forest := p.forest.after (p.forest.removeChild parent child) }
  | remove i => { p with forest := p.forest.remove i }
  | setText i text => { p with forest := p.forest.setText i text }
  | setInner i source => { p with forest := p.forest.setInner i source }
  | setAttribute i name value => { p with forest := p.forest.setAttribute i name value }
  | removeAttribute i name => { p with forest := p.forest.removeAttribute i name }
  | render data root => { p with forest := (Template.render data p.forest root).forest }
  | substitute data i => { p with forest := Template.substitute data p.forest i }
  | dispatch data i => { p with forest := (Template.dispatch data p.forest i).forest }
  | expand l data i => { p with forest := match l.expand data p.forest i with
    | .ok (_, g) => g
    | .error _ => p.forest }
  | mount document o => (p.mount document o).2
  | rerender a data => p.rerender a data
  | clearDiagnostics a => p.clearDiagnostics a
  | report a d => p.report a d
  | dropApp a => p.dropApp a
  | drop held => { p with forest := p.forest.collect held }

def moves (p : Page) : Op → List Move
  | newDocument => [.make .document]
  | parse source => [.make .document, .fill p.forest.next (readPage source)]
  | create tag => [.make (.ofTag tag)]
  | append parent child => [.append parent child]
  | insertBefore parent new reference => [.insertBefore parent new reference]
  | before reference new => [.before reference new]
  | removeChild parent child => [.removeChild parent child]
  | remove i => [.remove i]
  | setText i text => [.fill i (.ofText text)]
  | setInner i source => [.fill i (readFragment (p.forest.tag i) source)]
  | setAttribute i name value => [.relabel i (·.setAttribute name value)]
  | removeAttribute i name => [.relabel i (·.removeAttribute name)]
  | render data root => renderMoves data p.forest root
  | substitute data i => substituteMoves data p.forest i
  | dispatch data i => dispatchMoves data p.forest i (p.forest.label i).attributes
  | expand l data i => l.expandMoves data p.forest i
  | mount document o => p.mountMoves document o
  | rerender a data => p.rerenderMoves a data
  | clearDiagnostics _ | report _ _ | dropApp _ | drop _ => []

def dropped (p : Page) : Op → List NodeId
  | drop held => Forest.doomed held p.forest.trees
  | _ => []

def onHeap (p : Page) (o : Op) (depth : Nat) (h : Heap) : Option Heap := do
  (← h.run depth (o.moves p)).dropAll (o.dropped p)

/-- The handles that a call is given are of nodes that are alive, and those of elements of elements.
-/
def Legal (p : Page) : Op → Prop
  | append parent child => p.forest.Has parent ∧ p.forest.HasElement child
  | insertBefore parent new reference =>
    p.forest.Has parent ∧ p.forest.HasElement new ∧ p.forest.HasElement reference
  | before reference new => p.forest.HasElement reference ∧ p.forest.HasElement new
  | removeChild parent child => p.forest.Has parent ∧ p.forest.HasElement child
  | remove i | setText i _ | setInner i _ | setAttribute i _ _ | removeAttribute i _ =>
    p.forest.HasElement i
  | render _ i | substitute _ i | dispatch _ i | expand _ _ i => p.forest.HasElement i
  | mount document _ => p.forest.Has document
  | newDocument | parse _ | create _ | rerender _ _ | clearDiagnostics _ | report _ _ | dropApp _
  | drop _ => True

instance (p : Page) : (o : Op) → Decidable (o.Legal p)
  | append parent child | removeChild parent child =>
    inferInstanceAs (Decidable (p.forest.Has parent ∧ p.forest.HasElement child))
  | insertBefore parent new reference => inferInstanceAs (Decidable
      (p.forest.Has parent ∧ p.forest.HasElement new ∧ p.forest.HasElement reference))
  | before reference new =>
    inferInstanceAs (Decidable (p.forest.HasElement reference ∧ p.forest.HasElement new))
  | remove i | setText i _ | setInner i _ | setAttribute i _ _ | removeAttribute i _ =>
    inferInstanceAs (Decidable (p.forest.HasElement i))
  | render _ i | substitute _ i | dispatch _ i | expand _ _ i =>
    inferInstanceAs (Decidable (p.forest.HasElement i))
  | mount document _ => inferInstanceAs (Decidable (p.forest.Has document))
  | newDocument | parse _ | create _ | rerender _ _ | clearDiagnostics _ | report _ _ | dropApp _
  | drop _ => .isTrue trivial

def LegalAll : Page → List Op → Prop
  | _, [] => True
  | p, o :: os => o.Legal p ∧ LegalAll (o.onPage p) os

def decideLegalAll : (p : Page) → (os : List Op) → Decidable (LegalAll p os)
  | _, [] => .isTrue trivial
  | p, o :: os =>
    let _ := decideLegalAll (o.onPage p) os
    inferInstanceAs (Decidable (o.Legal p ∧ LegalAll (o.onPage p) os))

instance (p : Page) (os : List Op) : Decidable (LegalAll p os) := decideLegalAll p os

end Op

theorem Forest.Performs.attempt {f : Forest} {m : Move} (hm : m.Legal f) :
    f.Performs [m] (f.after (m.onForest f)) :=
  ⟨⟨hm, trivial⟩, rfl⟩

theorem Markup.Label.isElement_setAttribute (l : Label) (name value : String) :
    (l.setAttribute name value).isElement = l.isElement := by
  cases l <;> rfl

theorem Markup.Label.isElement_removeAttribute (l : Label) (name : String) :
    (l.removeAttribute name).isElement = l.isElement := by
  cases l <;> rfl

namespace Heap.Represents

variable {h : Heap} {p : Page} {o : Op}

theorem onHeap_of_performs {g : Forest} (hr : h.Represents p.forest) (hdrop : o.dropped p = [])
    (hp : p.forest.Performs (o.moves p) g) :
    ∃ h', Ends (fun depth ↦ o.onHeap p depth h) h' ∧ h'.Represents g := by
  obtain ⟨h', ⟨bound, hends⟩, hr', -⟩ := hr.performs hp
  refine ⟨h', ⟨bound, fun depth hd ↦ ?_⟩, hr'⟩
  have hrun := hends depth hd
  change h.run depth (o.moves p) = some h' at hrun
  change o.onHeap p depth h = some h'
  rw [Op.onHeap, hrun, hdrop]
  rfl

theorem op_performs (hr : h.Represents p.forest) (hl : o.Legal p)
    (hdrop : ∀ held, o ≠ .drop held) : p.forest.Performs (o.moves p) (o.onPage p).forest := by
  cases o with
  | newDocument => exact .single trivial rfl
  | parse source =>
    exact .cons trivial rfl (p.forest.performs_fill_make .document (onlyElements_readPage source))
  | create tag => exact .single trivial rfl
  | append parent child => exact .attempt hl
  | insertBefore parent new reference => exact .attempt hl
  | before reference new => exact .attempt hl
  | removeChild parent child => exact .attempt hl
  | remove i => exact .single hl.1 rfl
  | setText i text => exact .single ⟨hl.1, Nodes.onlyElements_ofText text⟩ rfl
  | setInner i source => exact .single ⟨hl.1, onlyElements_readFragment _ source⟩ rfl
  | setAttribute i name value => exact .single ⟨hl.1, fun l ↦ l.isElement_setAttribute name value⟩ rfl
  | removeAttribute i name => exact .single ⟨hl.1, fun l ↦ l.isElement_removeAttribute name⟩ rfl
  | render data root => exact performs_render hr root
  | substitute data i => exact performs_substitute hl.1
  | dispatch data i => exact performs_dispatch data hr hl _
  | expand l data i =>
    change p.forest.Performs (l.expandMoves data p.forest i) (match l.expand data p.forest i with
      | .ok (_, g) => g
      | .error _ => p.forest)
    cases hok : l.expand data p.forest i with
    | error d =>
      rw [Loop.expandMoves, hok]
      exact .nil _
    | ok done => exact l.performs_expand hr hl hok
  | mount document options => exact p.performs_mount hr document options
  | rerender a data => exact p.performs_rerender hr a data
  | clearDiagnostics a =>
    rw [Op.onPage, Page.forest_clearDiagnostics]
    exact .nil _
  | report a d =>
    rw [Op.onPage, Page.forest_report]
    exact .nil _
  | dropApp a => exact .nil _
  | drop held => exact absurd rfl (hdrop held)

/-- A call ends on linked nodes, and what it leaves represents the forest of the page it leaves. -/
theorem op (hr : h.Represents p.forest) (hl : o.Legal p) :
    ∃ h', Ends (fun depth ↦ o.onHeap p depth h) h' ∧ h'.Represents (o.onPage p).forest := by
  by_cases hdrop : ∃ held, o = .drop held
  · obtain ⟨held, rfl⟩ := hdrop
    obtain ⟨h', hdrop, hr'⟩ := hr.collect held
    exact ⟨h', ⟨0, fun depth _ ↦ hdrop⟩, hr'⟩
  · have hdrop : ∀ held, o ≠ .drop held := fun held ho ↦ hdrop ⟨held, ho⟩
    refine hr.onHeap_of_performs ?_ (hr.op_performs hl hdrop)
    unfold Op.dropped
    split
    · exact absurd rfl (hdrop _)
    · rfl

end Heap.Represents

/-- A page and the linked nodes that calls on it have led to. -/
inductive Reach : Page → Heap → Prop
  | start : Reach {} {}
  | step {p : Page} {h h' : Heap} (o : Op) (hr : Reach p h) (hl : o.Legal p)
      (hends : Ends (fun depth ↦ o.onHeap p depth h) h') : Reach (o.onPage p) h'

theorem Heap.represents_empty : Heap.Represents {} {} := by
  refine ⟨by decide, .empty, rfl, fun e he ↦ ?_, fun i hi ↦ ?_⟩
  · cases he
  · cases hi

namespace Heap

/-- Lists and links say the same, a node is in one list and once, no node is below itself, and
documents have no parent. -/
structure Consistent (h : Heap) : Prop where
  mem_children_iff : ∀ p c, h.Live p → h.Live c → (c ∈ h.children p ↔ h.parent? c = some p)
  once : ∀ p c, (h.children p).count c ≤ 1
  one_list : ∀ p q c, c ∈ h.children p → c ∈ h.children q → p = q
  acyclic : ∀ r, ¬Relation.TransGen (fun a b ↦ h.parent? a = some b) r r
  document : ∀ r, h.content? r = some (.branch .document) → h.parent? r = none

/-- The way up from a node and the walks over what is below it end, and find what is in a forest. -/
structure Reads (h : Heap) (f : Forest) : Prop where
  live_iff : ∀ i, h.Live (.branch i) ↔ f.Has i
  parent : ∀ i, f.Has i → h.parent? (.branch i) = (f.parent? i).map Ref.branch
  ancestors : ∀ c p, f.Has p →
    Ends (fun depth ↦ h.meets (.branch c) depth (.branch p)) (f.encloses c p)
  text : ∀ i, f.Has i → Ends (fun depth ↦ h.text? depth (.branch i)) (f.textContent i)
  inner : ∀ i, f.Has i → Ends (fun depth ↦ h.inner? depth (.branch i)) (f.inner i)
  outer : ∀ i, f.Has i → Ends (fun depth ↦ h.write? depth false (.branch i)) (f.outer i)
  descendants : ∀ i, f.Has i → Ends (fun depth ↦ h.descendants? depth (.branch i))
    ((f.below i).descendants.map fun e ↦ .branch e.1)

namespace Represents

variable {h : Heap} {f : Forest} {a b r : Ref}

/-- How much is below a node, itself included; nothing is below a text or a comment. -/
def rank (f : Forest) : Ref → Nat
  | .branch i => (f.below i).branchCount + 1
  | .leaf _ => 0

theorem rank_lt (hr : h.Represents f) (hb : h.parent? a = some b) : rank f a < rank f b := by
  obtain ⟨q, rfl⟩ := hr.coherent.parent_branch hb
  cases a with
  | branch i => exact Nat.succ_lt_succ (hr.branchCount_below_lt hb)
  | leaf k => exact Nat.succ_pos _

theorem rank_lt_of_transGen (hr : h.Represents f)
    (hb : Relation.TransGen (fun a b ↦ h.parent? a = some b) a b) : rank f a < rank f b := by
  induction hb with
  | single hb => exact hr.rank_lt hb
  | tail _ hb ih => exact ih.trans (hr.rank_lt hb)

theorem parent?_document (hr : h.Represents f) (hc : h.content? r = some (.branch .document)) :
    h.parent? r = none := by
  cases hq : h.parent? r with
  | none => rfl
  | some q =>
    cases r with
    | branch i =>
      have hi : f.Has i := hr.live_iff.1 (live_of_content? hc)
      have hparent := hr.parent?_eq hi
      rw [hq] at hparent
      obtain ⟨p, hp, -⟩ := Option.map_eq_some_iff.1 hparent.symm
      have helement := (hr.hasElement_of_parent? hp).2
      have hlabel := (hr.lists hi).1.symm.trans hc
      rw [Content.branch.inj (Option.some.inj hlabel)] at helement
      cases helement
    | leaf k =>
      obtain ⟨p, rfl⟩ := hr.coherent.parent_branch hq
      have hp : f.Has p := hr.live_iff.1 (parent?_eq_some.1 hq).2
      have hitem : h.item? (.leaf k) ∈ (f.below p).items.map some := by
        rw [← (hr.lists hp).2.1.1]
        exact List.mem_map_of_mem (hr.coherent.mem_of_parent hq)
      obtain ⟨it, -, hit⟩ := List.mem_map.1 hitem
      rw [item?, hc] at hit
      cases hit

theorem consistent (hr : h.Represents f) : h.Consistent := by
  refine ⟨fun p c _ _ ↦ ⟨hr.coherent.parent_of_mem, hr.coherent.mem_of_parent⟩, fun p c ↦ ?_,
    fun p q c ↦ hr.coherent.eq_of_mem, fun r hcycle ↦ ?_, fun r ↦ hr.parent?_document⟩
  · exact List.nodup_iff_count_le_one.1 (hr.coherent.nodup p) c
  · exact Nat.lt_irrefl _ (hr.rank_lt_of_transGen hcycle)

theorem reads (hr : h.Represents f) : h.Reads f :=
  ⟨fun _ ↦ hr.live_iff, fun _ ↦ hr.parent?_eq, fun c _ hp ↦ hr.meets_ends hp c,
    fun _ ↦ hr.text?_ends, fun _ ↦ hr.inner?_ends, fun _ ↦ hr.write?_ends,
    fun _ ↦ hr.descendants?_ends⟩

end Represents

end Heap

theorem Reach.represents {p : Page} {h : Heap} (hr : Reach p h) : h.Represents p.forest := by
  induction hr with
  | start => exact Heap.represents_empty
  | step o _ hl hends ih =>
    obtain ⟨h', hends', hr'⟩ := ih.op hl
    rwa [hends.unique hends']

theorem Reach.all {p : Page} {h : Heap} (hr : Reach p h) (os : List Op) (hl : Op.LegalAll p os) :
    ∃ h', Reach (os.foldl Op.onPage p) h' := by
  induction os generalizing p h with
  | nil => exact ⟨h, hr⟩
  | cons o os ih =>
    obtain ⟨h', hends, -⟩ := hr.represents.op hl.1
    exact ih (.step o hr hl.1 hends) hl.2

/-- In every state that calls lead to, lists and links of all nodes agree, no node is below itself and
documents have no parent. So the way up from a node ends, the walks over what is below it end, and
with them every further call; all of them find what the forest of the page has. -/
theorem Reach.trees_consistent {p : Page} {h : Heap} (hr : Reach p h) :
    h.Consistent ∧ h.Reads p.forest ∧
      ∀ o : Op, o.Legal p → ∃ h', Ends (fun depth ↦ o.onHeap p depth h) h' := by
  have hrep := hr.represents
  refine ⟨hrep.consistent, hrep.reads, fun o hl ↦ ?_⟩
  obtain ⟨h', hends, -⟩ := hrep.op hl
  exact ⟨h', hends⟩

def movedItem : List Op :=
  [.create "ul", .create "li", .create "li", .setText 1 "a", .setText 2 "b", .append 0 1,
    .append 0 2, .append 2 0, .insertBefore 0 2 1, .drop [0]]

theorem Reach.trees_consistent_movedItem :
    ∃ h, Reach (movedItem.foldl Op.onPage {}) h ∧ h.Consistent ∧
      h.parent? (.branch 2) = some (.branch 0) ∧
        Ends (fun depth ↦ h.text? depth (.branch 0)) "ba" := by
  obtain ⟨h, hr⟩ := Reach.start.all movedItem (by decide)
  obtain ⟨hc, hreads, -⟩ := hr.trees_consistent
  exact ⟨h, hr, hc, hreads.parent 2 (by decide), hreads.text 0 (by decide)⟩

end LivePage
