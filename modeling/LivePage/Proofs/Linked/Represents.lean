import LivePage.Proofs.Forest.WellFormed
import LivePage.Proofs.Linked.Shows

namespace LivePage

open Markup

theorem Markup.Frame.rooted_refill {ι : Type} {F : Frame ι} {i : ι} {l l' : Label}
    {below below' rest : Nodes ι} (h : (F.fill (.branch i l below rest)).Rooted)
    (hl : l'.isElement = l.isElement) (hb : below'.OnlyElements) :
    (F.fill (.branch i l' below' rest)).Rooted := by
  obtain ⟨hF, hrow, ho⟩ := (Frame.rooted_fill _ _).1 h
  exact (Frame.rooted_fill _ _).2 ⟨hF, ⟨hb, hrow.2⟩, fun hs ↦
    ⟨hl.trans (ho hs).1, hb, (ho hs).2.2⟩⟩

namespace Forest.WellFormed

theorem of_entries {f : Forest} (h : f.WellFormed) {t : Nodes Nat}
    (hp : (t.entries.map (·.1)).Perm (f.trees.entries.map (·.1))) (hr : t.Rooted) :
    (⟨t, f.next⟩ : Forest).WellFormed := by
  rw [Nodes.map_fst_entries, Nodes.map_fst_entries] at hp
  exact h.of_subperm hp.subperm hr

end Forest.WellFormed

namespace Heap

theorem appendNew_eq {h : Heap} {p c : Ref} :
    h.appendNew p c = (h.setParent c (some p)).setChildren p (h.children p ++ [c]) := by
  rw [appendNew, push, children_setParent]

structure Represents (h : Heap) (f : Forest) : Prop where
  wellFormed : f.WellFormed
  coherent : h.Coherent
  shown : h.Shows f.trees.entries f.next

namespace Represents

variable {h : Heap} {f : Forest} {F : Frame Nat} {i p c n : Nat} {l lc : Label}
  {a b below bc rest x y : Nodes Nat} {rs rs' : List Ref}

theorem nodup (hr : h.Represents f) : (f.trees.entries.map (·.1)).Nodup := by
  rw [Nodes.map_fst_entries]
  exact hr.wellFormed.nodup

theorem holds (hr : h.Represents f) {e : NodeEntry Nat} (he : e ∈ f.trees.entries) : h.Holds e :=
  hr.shown.holds e he

theorem live_iff (hr : h.Represents f) : h.Live (.branch i) ↔ i ∈ f.trees.ids := by
  refine ⟨fun hi ↦ ?_, fun hi ↦ ?_⟩
  · rw [← Nodes.map_fst_entries]
    exact hr.shown.mem i hi
  · obtain ⟨l, its, he⟩ := Nodes.exists_entry hi
    exact (hr.holds he).live

theorem parent?_of_mem_entry (hr : h.Represents f) {e : NodeEntry Nat} (he : e ∈ f.trees.entries)
    (hc : .branch c ∈ e.2.2) : h.parent? (.branch c) = some (.branch e.1) :=
  hr.coherent.parent_of_mem ((hr.holds he).mem_children.2 hc)

theorem exists_entry_of_parent? (hr : h.Represents f) {q : Ref}
    (hq : h.parent? (.branch c) = some q) :
    ∃ e ∈ f.trees.entries, q = .branch e.1 ∧ .branch c ∈ e.2.2 := by
  obtain ⟨p, rfl⟩ := hr.coherent.parent_branch hq
  obtain ⟨l, its, he⟩ := Nodes.exists_entry (hr.live_iff.1 (parent?_eq_some.1 hq).2)
  exact ⟨_, he, rfl, (hr.holds he).mem_children.1 (hr.coherent.mem_of_parent hq)⟩

theorem parent?_of_top (hr : h.Represents f) (hc : .branch c ∈ f.trees.items) :
    h.parent? (.branch c) = none := by
  rw [Option.eq_none_iff_forall_ne_some]
  intro q hq
  obtain ⟨e, he, -, hce⟩ := hr.exists_entry_of_parent? hq
  exact Nodes.not_mem_entry hr.wellFormed.nodup hc he hce

/-- Where a node is: loose, or directly below another node. -/
theorem cases_place (hr : h.Represents f) (hc : c ∈ f.trees.ids) :
    (f.parent? c = none ∧ h.parent? (.branch c) = none ∧
      ∃ a lc bc b, f.trees = a ++ .branch c lc bc b) ∨
    ∃ p, f.parent? c = some p ∧ h.parent? (.branch c) = some (.branch p) ∧
      ∃ (G : Frame Nat) (l : Label) (a : Nodes Nat) (lc : Label) (bc b rest : Nodes Nat),
        f.trees = G.fill (.branch p l (a ++ .branch c lc bc b) rest) := by
  obtain ⟨F, lc, bc, b, ht⟩ := Frame.exists_fill hc
  obtain ⟨t, n⟩ := f
  obtain rfl := ht
  obtain ⟨hF, hbc, hb⟩ := hr.wellFormed.not_mem
  cases ho : F.owner with
  | none =>
    obtain ⟨a, ha⟩ := Frame.exists_front ho
    have hitem : .branch c ∈ (F.fill (.branch c lc bc b)).items := by
      rw [ha, Nodes.items_append]
      exact List.mem_append_right _ List.mem_cons_self
    refine .inl ⟨?_, hr.parent?_of_top hitem, a, lc, bc, b, ha _⟩
    rw [Forest.parent?, Frame.parent?_fill_of_loose hF (.inl ho), Nodes.parent?,
      Nodes.any_branches_eq_false hbc, Nodes.parent?_eq_none hbc, Nodes.parent?_eq_none hb]
    rfl
  | some p =>
    obtain ⟨G, l, a, rest, hG⟩ := Frame.exists_within ho
    refine .inr ⟨p, Forest.parent?_fill hF ho, ?_, G, l, a, lc, bc, b, rest, hG _⟩
    obtain ⟨es, hes⟩ := Frame.exists_entries G p rest
    have he : (p, l, (a ++ .branch c lc bc b).items) ∈ (F.fill (.branch c lc bc b)).entries := by
      rw [hG]
      exact (hes _ _).mem_iff.2 List.mem_cons_self
    refine hr.parent?_of_mem_entry he ?_
    rw [Nodes.items_append]
    exact List.mem_append_right _ List.mem_cons_self

theorem parent?_eq (hr : h.Represents f) (hc : c ∈ f.trees.ids) :
    h.parent? (.branch c) = (f.parent? c).map Ref.branch := by
  rcases hr.cases_place hc with ⟨hf, hh, -⟩ | ⟨p, hf, hh, -⟩ <;> rw [hf, hh] <;> rfl

theorem newBranch (hr : h.Represents f) (l : Label) :
    (h.newBranch l).Represents (f.plant l .nil).2 := by
  have hwell : (f.plant l .nil).2.WellFormed := hr.wellFormed.plant l trivial
  exact ⟨hwell, hr.coherent.newBranch l, hr.shown.newBranch hr.coherent l⟩

/-- The entries of a tree around a node, the entry of the node first. -/
theorem focus (hr : h.Represents ⟨F.fill (.branch p l below rest), n⟩) :
    ∃ es, h.Shows ((p, l, below.items) :: (below.entries ++ es)) n ∧
      p ∉ (below.entries ++ es).map (·.1) ∧
      ∀ l' below', (F.fill (.branch p l' below' rest)).entries.Perm
        ((p, l', below'.items) :: (below'.entries ++ es)) := by
  obtain ⟨es, hes⟩ := Frame.exists_entries F p rest
  have hnd := ((hes l below).map (·.1)).nodup_iff.1 hr.nodup
  rw [List.map_cons, List.nodup_cons] at hnd
  exact ⟨es, hr.shown.perm (hes l below), hnd.1, hes⟩

theorem relabel (hr : h.Represents ⟨F.fill (.branch p l below rest), n⟩) {change : Label → Label}
    (hl : (change l).isElement = l.isElement) :
    (h.relabel p change).Represents ⟨F.fill (.branch p (change l) below rest), n⟩ := by
  obtain ⟨es, hs, hp, hes⟩ := hr.focus
  have hbelow := hr.wellFormed.onlyElements_below
  refine ⟨hr.wellFormed.of_entries ?_ (Frame.rooted_refill hr.wellFormed.rooted hl hbelow),
    hr.coherent.relabel p change, (hs.relabel hp change).perm (hes _ _).symm⟩
  exact ((hes (change l) below).map (·.1)).trans ((hes l below).map (·.1)).symm

theorem clearChildren (hr : h.Represents ⟨F.fill (.branch p l below rest), n⟩) :
    (h.clearChildren (.branch p)).Represents
      ⟨below.branchesOnly ++ F.fill (.branch p l .nil rest), n⟩ := by
  obtain ⟨es, hs, hp, hes⟩ := hr.focus
  have hbelow := hr.wellFormed.onlyElements_below
  have hentries : (below.branchesOnly ++ F.fill (.branch p l .nil rest)).entries.Perm
      ((p, l, []) :: (below.entries ++ es)) := by
    rw [Nodes.entries_append, Nodes.entries_branchesOnly]
    exact ((hes l .nil).append_left _).trans List.perm_middle
  refine ⟨hr.wellFormed.of_entries ?_ ?_, hr.coherent.clearChildren,
    (hs.clearChildren hr.coherent hp).perm hentries.symm⟩
  · exact (hentries.map (·.1)).trans ((hes l below).map (·.1)).symm
  · exact (Nodes.rooted_append _ _).2 ⟨((Nodes.onlyElements_branchesOnly _).2 hbelow).rooted,
      Frame.rooted_refill hr.wellFormed.rooted rfl trivial⟩

theorem detach (hr : h.Represents ⟨F.fill (.branch p l (a ++ .branch c lc bc b) rest), n⟩) :
    (h.detach (.branch c)).Represents
      ⟨.branch c lc bc (F.fill (.branch p l (a ++ b) rest)), n⟩ := by
  obtain ⟨es, hs, hp, hes⟩ := hr.focus
  have hrow := (Nodes.onlyElements_append _ _).1 hr.wellFormed.onlyElements_below
  have hentries : (Nodes.branch c lc bc (F.fill (.branch p l (a ++ b) rest))).entries.Perm
      ((p, l, (a ++ b).items) :: ((a ++ .branch c lc bc b).entries ++ es)) := by
    classical
    refine List.perm_iff_count.2 fun e ↦ ?_
    have he := List.perm_iff_count.1 (hes l (a ++ b)) e
    simp only [Nodes.entries, Nodes.entries_append, List.count_cons, List.count_append] at he ⊢
    omega
  rw [Nodes.items_append] at hs
  refine ⟨hr.wellFormed.of_entries ?_ ⟨hrow.2.2.1, Frame.rooted_refill hr.wellFormed.rooted rfl
      ((Nodes.onlyElements_append _ _).2 ⟨hrow.1, hrow.2.2.2⟩)⟩, hr.coherent.detach,
    Shows.perm ?_ hentries.symm⟩
  · exact (hentries.map (·.1)).trans ((hes l (a ++ .branch c lc bc b)).map (·.1)).symm
  · rw [Nodes.items_append]
    exact hs.detach hr.coherent hp

theorem place (hr : h.Represents ⟨x ++ .branch c lc bc y, n⟩)
    (ht : x ++ y = F.fill (.branch p l (a ++ b) rest)) (hc : lc.isElement = true)
    (hsplit : h.children (.branch p) = rs ++ rs') (hfront : rs.map h.item? = a.items.map some) :
    ((h.setParent (.branch c) (some (.branch p))).setChildren (.branch p)
        (rs ++ .branch c :: rs')).Represents
      ⟨F.fill (.branch p l (a ++ .branch c lc bc b) rest), n⟩ := by
  obtain ⟨es, hes⟩ := Frame.exists_entries F p rest
  have hold : (x ++ .branch c lc bc y).entries.Perm
      ((p, l, a.items ++ b.items) :: ((a ++ .branch c lc bc b).entries ++ es)) := by
    classical
    refine List.perm_iff_count.2 fun e ↦ ?_
    have he := List.perm_iff_count.1 (hes l (a ++ b)) e
    rw [← ht] at he
    simp only [Nodes.entries, Nodes.entries_append, Nodes.items_append, List.count_cons,
      List.count_append] at he ⊢
    omega
  have hs := hr.shown.perm hold
  have hnd := (hold.map (·.1)).nodup_iff.1 hr.nodup
  rw [List.map_cons, List.nodup_cons] at hnd
  have hcitem : .branch c ∈ (x ++ .branch c lc bc y).items := by
    rw [Nodes.items_append]
    exact List.mem_append_right _ List.mem_cons_self
  have hclive : h.Live (.branch c) := hr.live_iff.2 (Nodes.mem_ids_of_mem_items hcitem)
  have hplive := (hs.holds _ List.mem_cons_self).live
  have hxy := hr.wellFormed.around
  rw [ht] at hxy
  have hab := (Nodes.onlyElements_append _ _).1 hxy.onlyElements_below
  have hbc := ((Nodes.rooted_append _ _).1 hr.wellFormed.rooted).2.1
  refine ⟨hr.wellFormed.of_entries ?_ (Frame.rooted_refill hxy.rooted rfl
      ((Nodes.onlyElements_append _ _).2 ⟨hab.1, hc, hbc, hab.2⟩)),
    hr.coherent.place hplive hclive (hr.parent?_of_top hcitem) ?_,
    (hs.place hnd.1 rfl hsplit hfront).perm ?_⟩
  · exact ((hes l (a ++ .branch c lc bc b)).map (·.1)).trans (hold.map (·.1)).symm
  · rw [hsplit]
    exact List.perm_middle
  · refine (List.Perm.of_eq ?_).trans (hes l (a ++ .branch c lc bc b)).symm
    rw [Nodes.items_append]
    rfl

theorem pushLeaf (content : Content) {it : Item Nat} (row : Nodes Nat)
    (hr : h.Represents ⟨F.fill (.branch p l below rest), n⟩) (hitems : row.items = [it])
    (hentries : row.entries = []) (hrow : row.OnlyElements)
    (hit : (h.newLeaf content).item? (.leaf h.nextLeaf) = some it) :
    ((h.newLeaf content).appendNew (.branch p) (.leaf h.nextLeaf)).Represents
      ⟨F.fill (.branch p l (below ++ row) rest), n⟩ := by
  obtain ⟨es, hs, hp, hes⟩ := hr.focus
  have hs' := hs.newLeaf hr.coherent content
  have hh' := hr.coherent.newLeaf content
  have hholds := hs'.holds _ List.mem_cons_self
  have hcell : (h.newLeaf content).cell? (.leaf h.nextLeaf) = some ⟨content, none, []⟩ :=
    Function.update_self _ _ _
  have hlive : (h.newLeaf content).Live (.leaf h.nextLeaf) := by
    rw [Live, hcell]
    rfl
  have hloose : (h.newLeaf content).parent? (.leaf h.nextLeaf) = none := by
    rw [Heap.parent?, link?, hcell]
    rfl
  have hbelow := hr.wellFormed.onlyElements_below
  have hperm : (F.fill (.branch p l (below ++ row) rest)).entries.Perm
      ((p, l, below.items ++ it :: []) :: (below.entries ++ es)) := by
    rw [← hitems, ← Nodes.items_append]
    refine (hes l (below ++ row)).trans (List.Perm.of_eq ?_)
    rw [Nodes.entries_append, hentries, List.append_nil]
  rw [appendNew_eq]
  refine ⟨hr.wellFormed.of_entries ?_ (Frame.rooted_refill hr.wellFormed.rooted rfl
      ((Nodes.onlyElements_append _ _).2 ⟨hbelow, hrow⟩)),
    hh'.place hholds.live hlive hloose List.perm_append_comm, ?_⟩
  · exact (hperm.map (·.1)).trans ((hes l below).map (·.1)).symm
  · refine (Shows.place ?_ hp hit (List.append_nil _).symm hholds.2).perm hperm.symm
    rwa [List.append_nil]

theorem mem_entries_around (ht : x ++ y = F.fill (.branch p l below rest)) :
    (p, l, below.items) ∈ (x ++ .branch c lc bc y).entries := by
  obtain ⟨es, hes⟩ := Frame.exists_entries F p rest
  have hmem : (p, l, below.items) ∈ (x ++ y).entries := by
    rw [ht]
    exact (hes l below).mem_iff.2 List.mem_cons_self
  simp only [Nodes.entries_append, Nodes.entries, List.mem_append, List.mem_cons] at hmem ⊢
  tauto

theorem appendNew (hr : h.Represents ⟨x ++ .branch c lc bc y, n⟩)
    (ht : x ++ y = F.fill (.branch p l below rest)) (hc : lc.isElement = true) :
    (h.appendNew (.branch p) (.branch c)).Represents
      ⟨F.fill (.branch p l (below ++ .branch c lc bc .nil) rest), n⟩ := by
  have hp : (p, l, below.items) ∈ (x ++ .branch c lc bc y).entries := mem_entries_around ht
  rw [← Nodes.append_nil below] at ht
  rw [appendNew_eq]
  exact hr.place ht hc (List.append_nil _).symm (hr.holds hp).2

theorem copyInto {row : Nodes Unit} (hrow : row.OnlyElements)
    (hr : h.Represents ⟨F.fill (.branch p l below rest), n⟩) :
    (copyInto (.branch p) row h).Represents
      ⟨F.fill (.branch p l (below ++ row.numbered n) rest), n + row.branchCount⟩ := by
  induction row generalizing h F p l below rest n with
  | nil => rwa [Nodes.numbered, Nodes.append_nil]
  | text s row ih =>
    have hleaf := hr.pushLeaf (.text s) (.text s .nil) rfl rfl trivial
      (by rw [item?, content?, newLeaf, put]; simp)
    have hrest := ih hrow hleaf
    rwa [Nodes.append_assoc] at hrest
  | comment s row ih =>
    have hleaf := hr.pushLeaf (.comment s) (.comment s .nil) rfl rfl trivial
      (by rw [item?, content?, newLeaf, put]; simp)
    have hrest := ih hrow hleaf
    rwa [Nodes.append_assoc] at hrest
  | branch j lj row' row ihb ih =>
    obtain ⟨hlj, hrow', hrow⟩ := hrow
    have hnext : h.nextBranch = n := hr.shown.next
    subst hnext
    have hnew : (h.newBranch lj).Represents ⟨Frame.hole.fill (.branch h.nextBranch lj .nil
        (F.fill (.branch p l below rest))), h.nextBranch + 1⟩ := hr.newBranch lj
    have hfilled := ihb hrow' hnew
    have hplaced := appendNew (x := .nil) hfilled rfl hlj
    have hrest := ih hrow hplaced
    rw [Nodes.append_assoc] at hrest
    rw [Nodes.branchCount, ← Nat.add_assoc, ← Nat.add_assoc]
    exact hrest

theorem setContent {row : Nodes Unit} (hrow : row.OnlyElements)
    (hr : h.Represents ⟨F.fill (.branch p l below rest), n⟩) :
    (h.setContent (.branch p) row).Represents
      ((⟨F.fill (.branch p l below rest), n⟩ : Forest).setContent p row) := by
  have hcleared := hr.clearChildren
  rw [← Frame.fill_behind] at hcleared
  have hfilled := hcleared.copyInto hrow
  rw [Frame.fill_behind] at hfilled
  rw [Forest.setContent_fill hr.wellFormed.not_mem.1]
  exact hfilled

theorem erase (hr : h.Represents ⟨a ++ .branch c lc bc b, n⟩) :
    (h.erase (.branch c)).Represents ⟨a ++ (bc ++ b), n⟩ := by
  have hentries : (a ++ .branch c lc bc b).entries.Perm
      ((c, lc, bc.items) :: (a ++ (bc ++ b)).entries) := by
    rw [Nodes.entries_append, Nodes.entries_append, Nodes.entries_append]
    exact List.perm_middle
  have hnd := (hentries.map (·.1)).nodup_iff.1 hr.nodup
  rw [List.map_cons, List.nodup_cons] at hnd
  have hitem : .branch c ∈ (a ++ .branch c lc bc b).items := by
    rw [Nodes.items_append]
    exact List.mem_append_right _ List.mem_cons_self
  have hrooted := (Nodes.rooted_append _ _).1 hr.wellFormed.rooted
  refine ⟨hr.wellFormed.of_subperm ?_ ?_, hr.coherent.erase (hr.parent?_of_top hitem),
    (hr.shown.perm hentries).erase hr.coherent hnd.1⟩
  · rw [← Nodes.map_fst_entries, ← Nodes.map_fst_entries]
    exact ((List.sublist_cons_self _ _).map _).subperm.trans (hentries.map (·.1)).symm.subperm
  · exact (Nodes.rooted_append _ _).2 ⟨hrooted.1, (Nodes.rooted_append _ _).2
      ⟨hrooted.2.1.rooted, hrooted.2.2⟩⟩

end Represents

end Heap

end LivePage
