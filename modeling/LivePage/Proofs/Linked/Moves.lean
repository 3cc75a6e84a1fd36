import LivePage.Proofs.Linked.Climb

namespace LivePage

open Markup

inductive Move
  | make (label : Label)
  | fill (i : NodeId) (row : Nodes Unit)
  | append (parent child : NodeId)
  | insertBefore (parent new reference : NodeId)
  | before (reference new : NodeId)
  | removeChild (parent child : NodeId)
  | remove (i : NodeId)
  | relabel (i : NodeId) (change : Label → Label)

namespace Forest

variable (f : Forest)

def Has (i : NodeId) : Prop :=
  i ∈ f.trees.ids

instance (i : NodeId) : Decidable (f.Has i) :=
  inferInstanceAs (Decidable (i ∈ f.trees.ids))

def HasElement (i : NodeId) : Prop :=
  f.Has i ∧ (f.label i).isElement = true

instance (i : NodeId) : Decidable (f.HasElement i) :=
  inferInstanceAs (Decidable (f.Has i ∧ (f.label i).isElement = true))

def after : Except TreeError Forest → Forest
  | .ok g => g
  | .error _ => f

end Forest

namespace Move

def onForest (f : Forest) : Move → Except TreeError Forest
  | make l => .ok (f.plant l .nil).2
  | fill i row => .ok (f.setContent i row)
  | append p c => f.append p c
  | insertBefore p n r => f.insertBefore p n r
  | before r n => f.before r n
  | removeChild p c => f.removeChild p c
  | remove i => .ok (f.remove i)
  | relabel i change => .ok (f.relabel i change)

def onHeap (h : Heap) (depth : Nat) : Move → Option (Except TreeError Unit × Heap)
  | make l => some (.ok (), h.newBranch l)
  | fill i row => some (.ok (), h.setContent (.branch i) row)
  | append p c => h.append depth (.branch p) (.branch c)
  | insertBefore p n r => h.insertBefore depth (.branch p) (.branch n) (.branch r)
  | before r n => h.before depth (.branch r) (.branch n)
  | removeChild p c => some (h.removeChild (.branch p) (.branch c))
  | remove i => some (.ok (), h.detach (.branch i))
  | relabel i change => some (.ok (), h.relabel i change)

/-- The nodes that a call names are alive, what it moves is an element, and what it puts into a node
has no document in it. -/
def Legal (f : Forest) : Move → Prop
  | make _ => True
  | fill i row => f.Has i ∧ row.OnlyElements
  | append p c => f.Has p ∧ f.HasElement c
  | insertBefore p n r => f.Has p ∧ f.HasElement n ∧ f.HasElement r
  | before r n => f.HasElement r ∧ f.HasElement n
  | removeChild p c => f.Has p ∧ f.HasElement c
  | remove i => f.Has i
  | relabel i change => f.Has i ∧ ∀ l, (change l).isElement = l.isElement

end Move

namespace Heap

def kind? (h : Heap) (i : NodeId) : Option Bool :=
  (h.content? (.branch i)).bind fun
    | .branch l => some l.isElement
    | _ => none

/-- Nodes that there are stay, elements as elements; none comes back. -/
def Keeps (h h' : Heap) : Prop :=
  ∀ i < h.nextBranch, i < h'.nextBranch ∧ h'.kind? i = h.kind? i

namespace Keeps

variable {h h' h'' : Heap}

theorem refl (h : Heap) : h.Keeps h :=
  fun _ hi ↦ ⟨hi, rfl⟩

theorem trans (hk : h.Keeps h') (hk' : h'.Keeps h'') : h.Keeps h'' := by
  intro i hi
  obtain ⟨hi', he⟩ := hk i hi
  obtain ⟨hi'', he'⟩ := hk' i hi'
  exact ⟨hi'', he'.trans he⟩

theorem of_content (hnext : h.nextBranch ≤ h'.nextBranch)
    (hcontent : ∀ i < h.nextBranch, h'.content? (.branch i) = h.content? (.branch i)) :
    h.Keeps h' := by
  intro i hi
  refine ⟨Nat.lt_of_lt_of_le hi hnext, ?_⟩
  rw [kind?, hcontent i hi, kind?]

theorem newBranch (h : Heap) (l : Label) : h.Keeps (h.newBranch l) := by
  refine .of_content (Nat.le_succ _) fun i hi ↦ ?_
  rw [content?, cell?_newBranch, if_neg fun he ↦ hi.ne (Ref.branch.inj he), content?]

theorem newLeaf (h : Heap) (c : Content) : h.Keeps (h.newLeaf c) := by
  refine .of_content (Nat.le_refl _) fun i _ ↦ ?_
  rw [content?, cell?_newLeaf, if_neg (fun he ↦ by cases he), content?]

theorem detach (h : Heap) (c : Ref) : h.Keeps (h.detach c) :=
  .of_content (Nat.le_of_eq nextBranch_detach.symm) fun _ _ ↦ content?_detach

theorem place (h : Heap) (p c : Ref) (rs : List Ref) :
    h.Keeps ((h.setParent c (some p)).setChildren p rs) := by
  refine .of_content (Nat.le_refl _) fun i _ ↦ ?_
  rw [content?_setChildren, content?_setParent]

theorem appendNew (h : Heap) (p c : Ref) : h.Keeps (h.appendNew p c) := by
  rw [appendNew_eq]
  exact place h p c _

theorem copyInto (p : Ref) (row : Nodes Unit) (h : Heap) : h.Keeps (Heap.copyInto p row h) := by
  induction row generalizing p h with
  | nil => exact .refl h
  | text s rest ih => exact (newLeaf h _).trans ((appendNew _ _ _).trans (ih p _))
  | comment s rest ih => exact (newLeaf h _).trans ((appendNew _ _ _).trans (ih p _))
  | branch j l below rest ihb ih =>
    exact (newBranch h l).trans ((ihb _ _).trans ((appendNew _ _ _).trans (ih p _)))

theorem clearChildren (h : Heap) (p : Ref) : h.Keeps (h.clearChildren p) := by
  refine .of_content (Nat.le_of_eq next_clearChildren.1.symm) fun i _ ↦ ?_
  rw [content?_clearChildren, if_neg fun hl ↦ Bool.noConfusion hl.1]

theorem relabel (h : Heap) (i : NodeId) {change : Label → Label}
    (hkind : ∀ l, (change l).isElement = l.isElement) : h.Keeps (h.relabel i change) := by
  intro j hj
  refine ⟨hj, ?_⟩
  rw [kind?, content?, Heap.relabel, cell?_modify, kind?, content?]
  split
  · cases h.cell? (.branch j) with
    | none => rfl
    | some cell =>
      obtain ⟨content, parent, children⟩ := cell
      cases content with
      | branch l => exact congrArg some (hkind l)
      | text s => rfl
      | comment s => rfl
  · rfl

end Keeps

namespace Represents

variable {h h' : Heap} {f f' : Forest} {c p i n r : Nat}

theorem kind?_eq (hr : h.Represents f) (hi : f.Has i) :
    i < h.nextBranch ∧ h.kind? i = some (f.label i).isElement := by
  refine ⟨hr.coherent.made (hr.live_iff.2 hi), ?_⟩
  obtain ⟨l, below, hn⟩ := Forest.exists_node hi
  have he := hr.holds (Nodes.entries_of_find? hn).1
  rw [kind?, he.1, Forest.label_eq hn]
  rfl

theorem has_of_kind? {b : Bool} (hr : h.Represents f) (hi : h.kind? i = some b) : f.Has i := by
  refine hr.live_iff.1 ?_
  unfold kind? at hi
  cases hc : h.content? (.branch i) with
  | none => rw [hc] at hi; cases hi
  | some x => exact live_of_content? hc

theorem has (hr : h.Represents f) (hr' : h'.Represents f') (hk : h.Keeps h') (hi : f.Has i) :
    f'.Has i := by
  obtain ⟨hlt, hkind⟩ := hr.kind?_eq hi
  exact hr'.has_of_kind? ((hk i hlt).2.trans hkind)

theorem hasElement (hr : h.Represents f) (hr' : h'.Represents f') (hk : h.Keeps h')
    (hi : f.HasElement i) : f'.HasElement i := by
  obtain ⟨hlt, hkind⟩ := hr.kind?_eq hi.1
  have hi' := hr.has hr' hk hi.1
  refine ⟨hi', ?_⟩
  have hsame := (hr'.kind?_eq hi').2.symm.trans ((hk i hlt).2.trans hkind)
  exact (Option.some.inj hsame).trans hi.2

theorem detach_loose (hr : h.Represents f) (hc : h.parent? (.branch c) = none) :
    (h.detach (.branch c)).Represents f := by
  refine ⟨hr.wellFormed, hr.coherent.detach, nextBranch_detach.trans hr.shown.next,
    fun e he ↦ ?_, fun i hi ↦ ?_⟩
  · refine (hr.holds he).congr content?_detach ?_ fun r _ ↦ content?_detach
    rw [hr.coherent.children_detach]
    exact filter_ne (hr.coherent.not_mem hc)
  · exact hr.shown.mem i (live_detach.1 hi)

theorem remove (hr : h.Represents f) (hc : f.Has c) :
    (h.detach (.branch c)).Represents (f.remove c) ∧
      ∃ x lc bc y, f.node? c = some (lc, bc) ∧
        f.remove c = ⟨x ++ .branch c lc bc y, f.next⟩ ∧ f.trees.erase c = x ++ y := by
  obtain ⟨hf, hh, x, lc, bc, y, ht⟩ | ⟨p, hf, hh, G, l, a, lc, bc, b, rest, ht⟩ :=
    hr.cases_place hc
  · have hremove : f.remove c = f := by
      rw [Forest.remove, hf]
      rfl
    obtain ⟨t, n⟩ := f
    obtain rfl := ht
    have hfill : x ++ .branch c lc bc y = (Frame.hole.behind x).fill (.branch c lc bc y) := by
      rw [Frame.fill_behind]
      rfl
    have hx : c ∉ (Frame.hole.behind x).ids := by
      have hwell := hr.wellFormed
      rw [hfill] at hwell
      exact hwell.not_mem.1
    rw [hremove]
    refine ⟨?_, x, lc, bc, y, ?_, rfl, ?_⟩
    · exact hr.detach_loose hh
    · rw [hfill, Forest.node?_fill hx]
    · rw [hfill, Frame.erase_fill hx, Nodes.erase, if_pos rfl, Frame.fill_behind]
      rfl
  · obtain ⟨t, n⟩ := f
    obtain rfl := ht
    have hdetached := hr.detach
    rw [← Frame.fill_inRow] at hr ⊢
    have hc := hr.wellFormed.not_mem.1
    rw [Forest.remove_fill hc (Frame.owner_inRow _ _ _ _ _), Forest.node?_fill hc,
      Frame.erase_fill hc, Nodes.erase, if_pos rfl, Frame.fill_inRow]
    exact ⟨hdetached, .nil, lc, bc, _, rfl, rfl, rfl⟩

/-- Once a node is taken out, what it does not enclose is around it. -/
theorem exists_around (hr : h.Represents f) (hc : f.Has c) (hp : f.Has p)
    (henc : f.encloses c p = false) :
    ∃ x lc bc y, (h.detach (.branch c)).Represents ⟨x ++ .branch c lc bc y, f.next⟩ ∧
      f.trees.erase c = x ++ y ∧ f.subtree c = .branch c lc bc .nil ∧ f.label c = lc ∧
        ∃ (F : Frame Nat) (l : Label) (below rest : Nodes Nat),
          x ++ y = F.fill (.branch p l below rest) ∧ p ∉ F.ids := by
  obtain ⟨hdetached, x, lc, bc, y, hn, hremove, herase⟩ := hr.remove hc
  rw [hremove] at hdetached
  refine ⟨x, lc, bc, y, hdetached, herase, Forest.subtree_eq hn, Forest.label_eq hn, ?_⟩
  have hids : p ∈ (x ++ .branch c lc bc y).ids :=
    hdetached.live_iff.1 (live_detach.2 (hr.live_iff.2 hp))
  rw [Forest.encloses, Bool.or_eq_false_iff, decide_eq_false_iff_not, Forest.below_eq hn] at henc
  have hbc : p ∉ bc.ids := by
    intro hm
    rw [List.contains_iff_mem.2 hm] at henc
    cases henc.2
  have hxy : p ∈ (x ++ y).ids := by
    simp only [Nodes.ids_append, Nodes.ids, List.mem_append, List.mem_cons] at hids ⊢
    rcases hids with hx | hpc | hb | hy
    · exact .inl hx
    · exact absurd hpc.symm henc.1
    · exact absurd hb hbc
    · exact .inr hy
  obtain ⟨F, l, below, rest, hF⟩ := Frame.exists_fill hxy
  have hwell := hdetached.wellFormed.around
  rw [hF] at hwell
  exact ⟨F, l, below, rest, hF, hwell.not_mem.1⟩

end Represents

/-- A call on linked nodes ends as it ends on the forest, refused for the same cause or not, and what
it leaves represents what it leaves of the forest. -/
def Follows (h : Heap) (f : Forest) (call : Nat → Option (Except TreeError Unit × Heap))
    (answer : Except TreeError Forest) : Prop :=
  ∃ h', Ends call (answer.map fun _ ↦ (), h') ∧ h'.Represents (f.after answer) ∧ h.Keeps h'

namespace Follows

variable {h h' : Heap} {f f' : Forest} {call : Nat → Option (Except TreeError Unit × Heap)}
  {answer : Except TreeError Forest}

theorem done (hr : h'.Represents f') (hk : h.Keeps h') (hanswer : answer = .ok f') (bound : Nat)
    (hcall : ∀ depth ≥ bound, call depth = some (.ok (), h')) : h.Follows f call answer := by
  subst hanswer
  exact ⟨h', ⟨bound, hcall⟩, hr, hk⟩

theorem refused {e : TreeError} (hr : h.Represents f) (hanswer : answer = .error e) (bound : Nat)
    (hcall : ∀ depth ≥ bound, call depth = some (.error e, h)) : h.Follows f call answer := by
  subst hanswer
  exact ⟨h, ⟨bound, hcall⟩, hr, .refl h⟩

end Follows

theorem idxOf?_split {r : Ref} {rs rs' : List Ref} (hr : r ∉ rs) :
    (rs ++ r :: rs').idxOf? r = some rs.length := by
  induction rs with
  | nil =>
    rw [List.nil_append, List.idxOf?_cons, if_pos (beq_self_eq_true r)]
    rfl
  | cons s rs ih =>
    rw [List.mem_cons, not_or] at hr
    rw [List.cons_append, List.idxOf?_cons, if_neg (by simpa using Ne.symm hr.1), ih hr.2]
    rfl

theorem insertIdx_split (r : Ref) (rs rs' : List Ref) :
    (rs ++ rs').insertIdx rs.length r = rs ++ r :: rs' := by
  induction rs with
  | nil => rfl
  | cons s rs ih => exact congrArg (s :: ·) ih

namespace Represents

variable {h : Heap} {f : Forest} {c p n r : Nat}

theorem append (hr : h.Represents f) (hp : f.Has p) (hc : f.HasElement c) :
    h.Follows f (fun depth ↦ h.append depth (.branch p) (.branch c)) (f.append p c) := by
  cases henc : f.encloses c p with
  | true =>
    refine .refused hr (e := .hierarchy) ?_ f.trees.branchCount fun depth hd ↦ ?_
    · rw [Forest.append, henc]
      rfl
    · simp only [Heap.append, hr.meets_eq (c := c) hp (Nat.le_add_right_of_le hd), henc]
      rfl
  | false =>
    obtain ⟨x, lc, bc, y, hdetached, herase, hsub, hlabel, F, l, below, rest, hF, hpF⟩ :=
      hr.exists_around hc.1 hp henc
    refine .done (hdetached.appendNew hF (hlabel ▸ hc.2))
      ((Keeps.detach h _).trans (Keeps.appendNew _ _ _)) ?_ f.trees.branchCount fun depth hd ↦ ?_
    · rw [Forest.append, henc, herase, hsub, hF, Frame.updateBelow_fill hpF, Nodes.updateBelow,
        if_pos rfl]
      rfl
    · simp only [Heap.append, hr.meets_eq (c := c) hp (Nat.le_add_right_of_le hd), henc]
      rfl

theorem parent?_eq_some_iff (hr : h.Represents f) (hc : f.Has c) :
    h.parent? (.branch c) = some (.branch p) ↔ f.parent? c = some p := by
  rw [hr.parent?_eq hc, Option.map_eq_some_iff]
  refine ⟨?_, fun hp ↦ ⟨p, hp, rfl⟩⟩
  rintro ⟨q, hq, hqp⟩
  exact Ref.branch.inj hqp ▸ hq

theorem insert {x bc y : Nodes Nat} {lc : Label} {k : Nat} {F : Frame Nat} {l : Label}
    {below rest : Nodes Nat} (hr : h.Represents ⟨x ++ .branch c lc bc y, k⟩)
    (hF : x ++ y = F.fill (.branch p l below rest)) (hc : lc.isElement = true)
    (hp : h.parent? (.branch r) = some (.branch p)) :
    ∃ rs rs', h.children (.branch p) = rs ++ .branch r :: rs' ∧ .branch r ∉ rs ∧
      ((h.setParent (.branch c) (some (.branch p))).setChildren (.branch p)
          (rs ++ .branch c :: .branch r :: rs')).Represents
        ⟨(x ++ y).insertBefore r (.branch c lc bc .nil), k⟩ := by
  obtain ⟨⟨p', l', its⟩, he, hpp', hits⟩ := hr.exists_entry_of_parent? hp
  obtain rfl := Ref.branch.inj hpp'
  obtain ⟨-, rfl⟩ := Nodes.entry_unique hr.wellFormed.nodup (mem_entries_around hF) he
  obtain ⟨a, lr, br, b, rfl⟩ := Nodes.exists_of_mem_items hits
  have hholds := hr.holds (mem_entries_around hF)
  rw [Nodes.items_append] at hholds
  obtain ⟨rs, rs', hsplit, hfront, -⟩ := hholds.split_at
  have hplaced := hr.place hF hc hsplit hfront
  have hwell := hr.wellFormed.around
  rw [hF, ← Frame.fill_inRow] at hwell
  refine ⟨rs, rs', hsplit, ?_, ?_⟩
  · have hnd := hr.coherent.nodup (.branch p)
    rw [hsplit, List.nodup_middle, List.nodup_cons, List.mem_append, not_or] at hnd
    exact hnd.1.1
  · rw [hF, ← Frame.fill_inRow, Frame.insertBefore_fill hwell.not_mem.1, Nodes.insertBefore,
      if_pos rfl, Frame.fill_inRow]
    exact hplaced

theorem insertBefore (hr : h.Represents f) (hp : f.Has p) (hn : f.HasElement n) (hr' : f.Has r) :
    h.Follows f (fun depth ↦ h.insertBefore depth (.branch p) (.branch n) (.branch r))
      (f.insertBefore p n r) := by
  by_cases hnr : n = r
  · refine .done hr (.refl h) (if_pos hnr) 0 fun depth _ ↦ ?_
    simp only [Heap.insertBefore, hnr, if_true]
  have hnr' : Ref.branch n ≠ .branch r := fun he ↦ hnr (Ref.branch.inj he)
  by_cases hrp : f.parent? r = some p
  swap
  · refine .refused hr (e := .notAChild) ?_ 0 fun depth _ ↦ ?_
    · rw [Forest.insertBefore, if_neg hnr, if_pos hrp]
    · simp only [Heap.insertBefore, if_neg hnr', if_pos (mt (hr.parent?_eq_some_iff hr').1 hrp)]
  have hrp' := (hr.parent?_eq_some_iff hr').2 hrp
  cases henc : f.encloses n p with
  | true =>
    refine .refused hr (e := .hierarchy) ?_ f.trees.branchCount fun depth hd ↦ ?_
    · rw [Forest.insertBefore, if_neg hnr, if_neg (not_not.2 hrp), henc]
      rfl
    · simp only [Heap.insertBefore, if_neg hnr', hrp', ne_eq, not_true_eq_false, if_false,
        hr.meets_eq (c := n) hp (Nat.le_add_right_of_le hd), henc]
      rfl
  | false =>
    obtain ⟨x, ln, bn, y, hdetached, herase, hsub, hlabel, F, l, below, rest, hF, -⟩ :=
      hr.exists_around hn.1 hp henc
    have hstill : (h.detach (.branch n)).parent? (.branch r) = some (.branch p) := by
      rw [parent?_detach, if_neg (Ne.symm hnr'), hrp']
    obtain ⟨rs, rs', hsplit, hrs, hplaced⟩ := hdetached.insert hF (hlabel ▸ hn.2) hstill
    refine .done hplaced ((Keeps.detach h _).trans (Keeps.place _ _ _ _)) ?_ f.trees.branchCount
      fun depth hd ↦ ?_
    · rw [Forest.insertBefore, if_neg hnr, if_neg (not_not.2 hrp), henc, herase, hsub]
      rfl
    · simp only [Heap.insertBefore, if_neg hnr', hrp', ne_eq, not_true_eq_false, if_false,
        hr.meets_eq (c := n) hp (Nat.le_add_right_of_le hd), henc, hsplit, idxOf?_split hrs,
        insertIdx_split]
      rfl

theorem before (hr : h.Represents f) (hr' : f.Has r) (hn : f.HasElement n) :
    h.Follows f (fun depth ↦ h.before depth (.branch r) (.branch n)) (f.before r n) := by
  have hparent := hr.parent?_eq hr'
  cases hp : f.parent? r with
  | none =>
    rw [hp] at hparent
    refine .refused hr (e := .detached) ?_ 0 fun depth _ ↦ ?_
    · rw [Forest.before, hp]
    · simp only [Heap.before, hparent, Option.map_none]
  | some p =>
    rw [hp] at hparent
    have hpf : f.Has p := hr.live_iff.1 (parent?_eq_some.1 hparent).2
    have hinsert := hr.insertBefore (r := r) hpf hn hr'
    rw [Forest.before, hp]
    simpa only [Heap.before, hparent, Option.map_some] using hinsert

theorem removeChild (hr : h.Represents f) (hc : f.Has c) :
    h.Follows f (fun _ ↦ some (h.removeChild (.branch p) (.branch c))) (f.removeChild p c) := by
  by_cases hp : f.parent? c = some p
  · refine .done (hr.remove hc).1 (.detach h _) ?_ 0 fun depth _ ↦ ?_
    · rw [Forest.removeChild, if_neg (not_not.2 hp)]
    · simp only [Heap.removeChild, (hr.parent?_eq_some_iff hc).2 hp, ne_eq, not_true_eq_false,
        if_false]
  · refine .refused hr (e := .notAChild) ?_ 0 fun depth _ ↦ ?_
    · rw [Forest.removeChild, if_pos hp]
    · simp only [Heap.removeChild, if_pos (mt (hr.parent?_eq_some_iff hc).1 hp)]

theorem move (hr : h.Represents f) {m : Move} (hm : m.Legal f) :
    h.Follows f (m.onHeap h) (m.onForest f) := by
  cases m with
  | make l => exact .done (hr.newBranch l) (.newBranch h l) rfl 0 fun depth _ ↦ rfl
  | fill i row =>
    obtain ⟨l, below, hi⟩ := Forest.exists_node hm.1
    obtain ⟨F, rest, ht, -⟩ := Frame.exists_fill_of_find? hr.wellFormed.nodup hi
    obtain ⟨t, n⟩ := f
    obtain rfl := ht
    exact .done (hr.setContent hm.2) ((Keeps.clearChildren h _).trans (Keeps.copyInto _ row _))
      rfl 0 fun depth _ ↦ rfl
  | append p c => exact hr.append hm.1 hm.2
  | insertBefore p n r => exact hr.insertBefore hm.1 hm.2.1 hm.2.2.1
  | before r n => exact hr.before hm.1.1 hm.2
  | removeChild p c => exact hr.removeChild hm.2.1
  | remove i => exact .done (hr.remove hm).1 (.detach h _) rfl 0 fun depth _ ↦ rfl
  | relabel i change =>
    obtain ⟨l, below, hi⟩ := Forest.exists_node hm.1
    obtain ⟨F, rest, ht, hiF⟩ := Frame.exists_fill_of_find? hr.wellFormed.nodup hi
    obtain ⟨t, n⟩ := f
    obtain rfl := ht
    exact .done (hr.relabel (hm.2 l)) (.relabel h i hm.2)
      (congrArg Except.ok (Forest.relabel_fill hiF change)) 0 fun depth _ ↦ rfl

end Represents

end Heap

end LivePage
