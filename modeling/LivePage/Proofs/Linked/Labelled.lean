import LivePage.Proofs.Linked.Reach
import LivePage.Proofs.Markup.Labelled

namespace LivePage

open Markup Template

variable {P : NodeId → Label → Prop} {Q : Label → Prop}

/-- All labels that calls bring up have the property `Q`, and changes of attributes keep what `P`
says of a node. -/
structure Markup.Label.Lasting (P : NodeId → Label → Prop) (Q : Label → Prop) : Prop where
  document : Q .document
  ofTag : ∀ tag, Q (.ofTag tag)
  fragment : ∀ tag source, (readFragment tag source).Labelled fun _ ↦ Q
  page : ∀ source, (readPage source).Labelled fun _ ↦ Q
  setAttribute : ∀ {i l} (name value : String), P i l → P i (l.setAttribute name value)
  removeAttribute : ∀ {i l} (name : String), P i l → P i (l.removeAttribute name)

namespace Forest

variable {f g : Forest} {i : NodeId}

theorem labelled_keep (held : List NodeId) {t : Nodes NodeId} (h : t.Labelled P) :
    (keep held t).Labelled P := by
  induction t with
  | nil => trivial
  | text s rest ih => exact ih h
  | comment s rest ih => exact ih h
  | branch i l below rest ihb ihr =>
    rw [keep]
    split
    · exact ⟨h.1, h.2.1, ihr h.2.2⟩
    · exact (Nodes.labelled_append _ _).2 ⟨ihb h.2.1, ihr h.2.2⟩

theorem labelled_below (h : f.trees.Labelled P) : (f.below i).Labelled P := by
  cases hi : f.node? i with
  | none =>
    rw [below, hi]
    trivial
  | some node => exact below_eq hi ▸ (h.find? hi).2

theorem labelled_subtree (h : f.trees.Labelled P) : (f.subtree i).Labelled P := by
  cases hi : f.node? i with
  | none =>
    rw [subtree, hi]
    trivial
  | some node =>
    obtain ⟨hl, hbelow⟩ := h.find? hi
    rw [subtree_eq hi]
    exact ⟨hl, hbelow, trivial⟩

theorem label_of_labelled (h : f.trees.Labelled P) (hdocument : P i .document) :
    P i (f.label i) := by
  cases hi : f.node? i with
  | none =>
    rw [label, hi]
    exact hdocument
  | some node => exact label_eq hi ▸ (h.find? hi).1

theorem labelled_remove (h : f.trees.Labelled P) : (f.remove i).trees.Labelled P := by
  unfold remove
  split
  · exact (Nodes.labelled_append _ _).2 ⟨labelled_subtree h, h.erase⟩
  · exact h

theorem labelled_insertBefore {p n r : NodeId} (h : f.trees.Labelled P)
    (hg : f.insertBefore p n r = .ok g) : g.trees.Labelled P := by
  unfold insertBefore at hg
  split at hg
  · exact Except.ok.inj hg ▸ h
  · split at hg
    · cases hg
    · split at hg
      · cases hg
      · obtain rfl := Except.ok.inj hg
        exact h.erase.insertBefore (labelled_subtree h)

end Forest

namespace Move

/-- New labels have the property `Q`, and a changed one still has what `P` says of its node. -/
def Labels (P : NodeId → Label → Prop) (Q : Label → Prop) : Move → Prop
  | make l => Q l
  | fill _ row => row.Labelled fun _ ↦ Q
  | relabel i change => ∀ l : Label, P i l → P i (change l)
  | _ => True

variable {f g : Forest} {m : Move}

theorem Labels.onForest (hm : m.Labels P Q) (hnew : ∀ i, f.next ≤ i → ∀ l, Q l → P i l)
    (h : f.trees.Labelled P) (hg : m.onForest f = .ok g) : g.trees.Labelled P := by
  cases m with
  | make l =>
    obtain rfl := Except.ok.inj hg
    exact ⟨hnew _ le_rfl l hm, trivial, h⟩
  | fill i row =>
    obtain rfl := Except.ok.inj hg
    refine (Nodes.labelled_append _ _).2
      ⟨(Nodes.labelled_branchesOnly _).2 (Forest.labelled_below h), ?_⟩
    exact h.updateBelow fun _ _ ↦ Nodes.Labelled.numbered hm hnew
  | append p c =>
    change f.append p c = .ok g at hg
    unfold Forest.append at hg
    split at hg
    · cases hg
    · obtain rfl := Except.ok.inj hg
      exact h.erase.updateBelow fun r hr ↦
        (Nodes.labelled_append _ _).2 ⟨hr, Forest.labelled_subtree h⟩
  | insertBefore p n r => exact Forest.labelled_insertBefore h hg
  | before r n =>
    change f.before r n = .ok g at hg
    unfold Forest.before at hg
    split at hg
    · cases hg
    · exact Forest.labelled_insertBefore h hg
  | removeChild p c =>
    change f.removeChild p c = .ok g at hg
    unfold Forest.removeChild at hg
    split at hg
    · cases hg
    · exact Except.ok.inj hg ▸ Forest.labelled_remove h
  | remove i => exact Except.ok.inj hg ▸ Forest.labelled_remove h
  | relabel i change =>
    obtain rfl := Except.ok.inj hg
    exact h.relabel hm

end Move

theorem Heap.Represents.next_le {f g : Forest} {h h' : Heap} (hr : h.Represents f)
    (hr' : h'.Represents g) (hk : h.Keeps h') : f.next ≤ g.next := by
  rw [← hr.shown.next, ← hr'.shown.next]
  exact le_of_forall_lt fun i hi ↦ (hk i hi).1

theorem Forest.Performs.labelled {f g : Forest} {ms : List Move} {h : Heap}
    (hp : f.Performs ms g) (hr : h.Represents f) (hms : ∀ m ∈ ms, m.Labels P Q)
    (hnew : ∀ i, f.next ≤ i → ∀ l, Q l → P i l) (ht : f.trees.Labelled P) :
    g.trees.Labelled P := by
  induction ms generalizing h f with
  | nil => exact hp.run_eq ▸ ht
  | cons m ms ih =>
    obtain ⟨⟨hm, hlegal⟩, hrun⟩ := hp
    obtain ⟨hlabels, hms⟩ := List.forall_mem_cons.1 hms
    obtain ⟨h', -, hr', hk⟩ := hr.move hm
    refine ih ⟨hlegal, hrun⟩ hr' hms (fun i hi ↦ hnew i ((hr.next_le hr' hk).trans hi)) ?_
    cases hg : m.onForest f with
    | error e => exact ht
    | ok f' => exact hlabels.onForest hnew ht hg

namespace Markup.Label.Lasting

variable (hP : Lasting P Q) (data : Data)

include hP

section

variable (l : Loop)

theorem stampMoves (tag template : String) (n : NodeId) (item : Value) :
    ∀ m ∈ l.stampMoves tag template n item, m.Labels P Q := by
  refine List.forall_mem_cons.2 ⟨hP.ofTag tag, List.forall_mem_cons.2
    ⟨Nodes.labelled_ofText template, ?_⟩⟩
  split
  · exact List.forall_mem_singleton.2 (hP.fragment tag _)
  · exact nofun

theorem stampAllMoves (tag template : String) (n : NodeId) (items : List Value) :
    ∀ m ∈ l.stampAllMoves tag template n items, m.Labels P Q := by
  induction items generalizing n with
  | nil => exact nofun
  | cons item rest ih =>
    exact List.forall_mem_append.2 ⟨hP.stampMoves l tag template n item, ih _⟩

theorem expandMoves (f : Forest) (i : NodeId) : ∀ m ∈ l.expandMoves data f i, m.Labels P Q := by
  unfold Loop.expandMoves
  split
  · exact nofun
  · refine List.forall_mem_append.2
      ⟨hP.stampAllMoves l _ _ _ _, List.forall_mem_append.2 ⟨?_, ?_⟩⟩
    · intro m hm
      obtain ⟨j, -, rfl⟩ := List.mem_map.1 hm
      trivial
    · exact List.forall_mem_singleton.2 trivial

end

theorem dispatchMoves (f : Forest) (i : NodeId) (as : List Attribute) :
    ∀ m ∈ dispatchMoves data f i as, m.Labels P Q := by
  fun_induction Template.dispatchMoves data f i as with
  | case1 => exact nofun
  | case2 _ _ _ _ _ _ ih => exact ih
  | case3 _ _ l => exact hP.expandMoves data l f i
  | case4 _ _ _ ih => exact ih

omit hP in
theorem substituteMoves (f : Forest) (i : NodeId) :
    ∀ m ∈ substituteMoves data f i, m.Labels P Q := by
  unfold Template.substituteMoves
  split
  · exact List.forall_mem_singleton.2 (Nodes.labelled_ofText _)
  · exact nofun

theorem renderRowMoves (row : Nodes NodeId) (f : Forest) :
    ∀ m ∈ renderRowMoves data row f, m.Labels P Q := by
  induction row generalizing f with
  | nil => exact nofun
  | text s rest ih => exact ih f
  | comment s rest ih => exact ih f
  | branch i l below rest ihb ihr =>
    refine List.forall_mem_append.2 ⟨hP.dispatchMoves data f i _, List.forall_mem_append.2
      ⟨?_, ihr _⟩⟩
    split
    · exact nofun
    · split
      · exact ihb _
      · exact substituteMoves data _ i

section

variable (p : Page)

theorem replaceRootMoves (app : App) : ∀ m ∈ p.replaceRootMoves app, m.Labels P Q := by
  unfold Page.replaceRootMoves
  dsimp only
  split
  · exact nofun
  · refine List.forall_mem_cons.2 ⟨hP.ofTag _, List.forall_mem_append.2 ⟨?_, ?_⟩⟩
    · split
      · exact List.forall_mem_singleton.2 fun l hl ↦ hP.setAttribute "id" _ hl
      · exact nofun
    · simp only [List.forall_mem_cons]
      exact ⟨hP.fragment _ _, trivial, trivial, nofun⟩

theorem rerenderMoves (a : AppId) : ∀ m ∈ p.rerenderMoves a data, m.Labels P Q := by
  unfold Page.rerenderMoves
  split
  · exact nofun
  · split
    · exact hP.renderRowMoves data _ _
    · split
      · exact nofun
      · exact List.forall_mem_append.2 ⟨hP.replaceRootMoves p _, hP.renderRowMoves data _ _⟩

theorem mountMoves (document : NodeId) (o : MountOptions Unit) :
    ∀ m ∈ p.mountMoves document o, m.Labels P Q := by
  unfold Page.mountMoves
  split
  · exact nofun
  · exact hP.renderRowMoves o.data _ _

theorem moves (o : Op) : ∀ m ∈ o.moves p, m.Labels P Q := by
  cases o with
  | newDocument => exact List.forall_mem_singleton.2 hP.document
  | parse source =>
    exact List.forall_mem_cons.2 ⟨hP.document, List.forall_mem_singleton.2 (hP.page source)⟩
  | create tag => exact List.forall_mem_singleton.2 (hP.ofTag tag)
  | append _ _ | insertBefore _ _ _ | before _ _ | removeChild _ _ | remove _ =>
    exact List.forall_mem_singleton.2 trivial
  | setText i text => exact List.forall_mem_singleton.2 (Nodes.labelled_ofText text)
  | setInner i source => exact List.forall_mem_singleton.2 (hP.fragment _ source)
  | setAttribute i name value =>
    exact List.forall_mem_singleton.2 fun l hl ↦ hP.setAttribute name value hl
  | removeAttribute i name =>
    exact List.forall_mem_singleton.2 fun l hl ↦ hP.removeAttribute name hl
  | render data root => exact hP.renderRowMoves data _ _
  | substitute data i => exact substituteMoves data _ i
  | dispatch data i => exact hP.dispatchMoves data _ i _
  | expand l data i => exact hP.expandMoves data l _ i
  | mount document options => exact hP.mountMoves p document options
  | rerender a data => exact hP.rerenderMoves data p a
  | clearDiagnostics _ | report _ _ | dropApp _ | drop _ => exact nofun

end

end Markup.Label.Lasting

namespace Reach

variable {p : Page} {h : Heap} {o : Op}

theorem next_le_onPage (hr : Reach p h) (hl : o.Legal p) :
    p.forest.next ≤ (o.onPage p).forest.next := by
  by_cases hdrop : ∃ held, o = .drop held
  · obtain ⟨held, rfl⟩ := hdrop
    exact le_rfl
  · have hperforms := hr.represents.op_performs hl fun held ho ↦ hdrop ⟨held, ho⟩
    obtain ⟨h', -, hr', hk⟩ := hr.represents.performs hperforms
    exact hr.represents.next_le hr' hk

theorem labelled_onPage (hP : Label.Lasting P Q) (hr : Reach p h) (hl : o.Legal p)
    (hnew : ∀ i, p.forest.next ≤ i → ∀ l, Q l → P i l) (ht : p.forest.trees.Labelled P) :
    (o.onPage p).forest.trees.Labelled P := by
  -- dropping is the only call that is no sequence of moves: it leaves nodes out
  by_cases hdrop : ∃ held, o = .drop held
  · obtain ⟨held, rfl⟩ := hdrop
    exact Forest.labelled_keep held ht
  · have hperforms := hr.represents.op_performs hl fun held ho ↦ hdrop ⟨held, ho⟩
    exact hperforms.labelled hr.represents (hP.moves p o) hnew ht

theorem labelled (hQ : Label.Lasting (fun _ ↦ Q) Q) (hr : Reach p h) :
    p.forest.trees.Labelled fun _ ↦ Q := by
  induction hr with
  | start => trivial
  | step o hr hl _ ih => exact hr.labelled_onPage hQ hl (fun _ _ _ hl ↦ hl) ih

theorem label (hQ : Label.Lasting (fun _ ↦ Q) Q) (hr : Reach p h) (i : NodeId) :
    Q (p.forest.label i) :=
  Forest.label_of_labelled (hr.labelled hQ) hQ.document

/-- What changes of attributes keep of a label, every run keeps of the label of a node. -/
theorem label_run (hdocument : Q .document)
    (hset : ∀ {l : Label} (name value : String), Q l → Q (l.setAttribute name value))
    (hremove : ∀ {l : Label} (name : String), Q l → Q (l.removeAttribute name)) (hr : Reach p h)
    {os : List Op} (hl : Op.LegalAll p os) {i : NodeId} (hi : p.forest.Has i)
    (hlabel : Q (p.forest.label i)) : Q ((os.foldl Op.onPage p).forest.label i) := by
  have hlasting : Label.Lasting (fun j l ↦ j = i → Q l) fun _ ↦ True :=
    ⟨trivial, fun _ ↦ trivial, fun _ _ ↦ Nodes.labelled_of_forall (fun _ _ ↦ trivial) _,
      fun _ ↦ Nodes.labelled_of_forall (fun _ _ ↦ trivial) _,
      fun name value h hj ↦ hset name value (h hj), fun name h hj ↦ hremove name (h hj)⟩
  have hnode : p.forest.trees.Labelled fun j l ↦ j = i → Q l := by
    rw [Nodes.labelled_iff_find? hr.represents.wellFormed.nodup]
    rintro j l below hj rfl
    rwa [Forest.label_eq hj] at hlabel
  have hlt : i < p.forest.next := hr.represents.wellFormed.lt_next i hi
  clear hi hlabel
  induction os generalizing p h with
  | nil => exact Forest.label_of_labelled hnode (fun _ ↦ hdocument) rfl
  | cons o os ih =>
    obtain ⟨h', hr'⟩ := hr.all [o] ⟨hl.1, trivial⟩
    refine ih hr' hl.2 ?_ (hlt.trans_le (hr.next_le_onPage hl.1))
    exact hr.labelled_onPage hlasting hl.1 (fun j hj _ _ hji ↦ absurd (hji ▸ hj) hlt.not_ge) hnode

end Reach

end LivePage
