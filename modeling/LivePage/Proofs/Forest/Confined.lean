import LivePage.Mount.Options
import LivePage.Proofs.Linked.Moves
import LivePage.Proofs.Markup.Swap

namespace LivePage

open Markup

namespace Forest

variable {f g k : Forest} {i j q : NodeId}

theorem encloses_eq_false : f.encloses i j = false ↔ i ≠ j ∧ j ∉ (f.below i).ids := by
  rw [encloses, Bool.or_eq_false_iff, decide_eq_false_iff_not, ← Bool.not_eq_true,
    List.contains_iff_mem]

theorem has_of_parent? (h : f.parent? i = some q) : f.Has i := by
  by_contra hi
  rw [parent?, Nodes.parent?_eq_none hi] at h
  cases h

theorem exists_node? (h : f.Has i) : ∃ l below, f.node? i = some (l, below) :=
  Nodes.exists_find? h

theorem has_of_node? {node : Label × Nodes NodeId} (h : f.node? i = some node) : f.Has i :=
  (Nodes.ids_subset_of_find? h).1

theorem has_of_below (h : j ∈ (f.below i).ids) : f.Has i := by
  cases hi : f.node? i with
  | none =>
    rw [Forest.below, hi] at h
    cases h
  | some node => exact has_of_node? hi

theorem has_of_mem_below (h : j ∈ (f.below i).ids) : f.Has j := by
  cases hi : f.node? i with
  | none =>
    rw [Forest.below, hi] at h
    cases h
  | some node =>
    rw [below_eq hi] at h
    exact (Nodes.ids_subset_of_find? hi).2 h

theorem encloses_self (f : Forest) (i : NodeId) : f.encloses i i = true := by
  rw [encloses, decide_eq_true rfl, Bool.true_or]

theorem has_of_encloses (hi : f.Has i) (h : f.encloses i j = true) : f.Has j := by
  by_contra hj
  refine Bool.eq_false_iff.1 (encloses_eq_false.2 ⟨?_, fun hmem ↦ hj (has_of_mem_below hmem)⟩) h
  rintro rfl
  exact hj hi

theorem WellFormed.parent?_eq_some_iff (h : f.WellFormed) :
    f.parent? i = some q ↔ .branch i ∈ (f.below q).items := by
  constructor
  · intro hq
    obtain ⟨F, l, below, rest, ht, ho⟩ := h.exists_fill_of_parent? hq
    obtain ⟨G, lq, a, c, hG⟩ := Frame.exists_within ho
    obtain ⟨t, n⟩ := f
    obtain rfl := ht.trans (hG _)
    rw [Forest.below_fill h.not_mem.1, Nodes.items_append]
    exact List.mem_append_right _ List.mem_cons_self
  · intro hi
    cases hq : f.node? q with
    | none =>
      rw [Forest.below, hq] at hi
      cases hi
    | some node =>
      obtain ⟨lq, below⟩ := node
      rw [below_eq hq] at hi
      obtain ⟨a, l, below, c, rfl⟩ := Nodes.exists_of_mem_items hi
      obtain ⟨t, n⟩ := f
      obtain ⟨G, rest, rfl, -⟩ := Frame.exists_fill_of_find? h.nodup hq
      rw [← Frame.fill_inRow] at h ⊢
      exact parent?_fill h.not_mem.1 (Frame.owner_inRow ..)

theorem WellFormed.parent?_eq_none_iff (h : f.WellFormed) (hi : f.Has i) :
    f.parent? i = none ↔ .branch i ∈ f.trees.items := by
  constructor
  · intro hnone
    rcases Nodes.mem_items_or_entry hi with hi | ⟨⟨q, lq, its⟩, he, hi⟩
    · exact hi
    · obtain ⟨lq', below, hq⟩ := exists_node? (Nodes.mem_ids_of_mem_entries he)
      obtain ⟨-, rfl⟩ := Nodes.entry_unique h.nodup he (Nodes.entries_of_find? hq).1
      rw [← below_eq hq] at hi
      rw [h.parent?_eq_some_iff.2 hi] at hnone
      cases hnone
  · intro hi
    rw [Option.eq_none_iff_forall_ne_some]
    intro q hq
    have hmem := h.parent?_eq_some_iff.1 hq
    cases hnode : f.node? q with
    | none =>
      rw [Forest.below, hnode] at hmem
      cases hmem
    | some node =>
      rw [below_eq hnode] at hmem
      exact Nodes.not_mem_entry h.nodup hi (Nodes.entries_of_find? hnode).1 hmem

section

variable {held : List NodeId}

theorem find?_keep_of_mem {t : Nodes NodeId} (hn : t.ids.Nodup) (hi : i ∈ (keep held t).ids) :
    (keep held t).find? i = t.find? i := by
  induction t with
  | nil => cases hi
  | text s rest ih => exact ih hn hi
  | comment s rest ih => exact ih hn hi
  | branch j l below rest ihb ihr =>
    obtain ⟨hj, hrow⟩ := List.nodup_cons.1 hn
    obtain ⟨hbelow, hrest, hdisjoint⟩ := List.nodup_append.1 hrow
    rw [List.mem_append, not_or] at hj
    rw [keep] at hi ⊢
    by_cases hheld : held.contains j = true
    · rw [if_pos hheld] at hi ⊢
      rw [Nodes.find?, Nodes.find?]
      by_cases hji : j = i
      · rw [if_pos hji, if_pos hji]
      · rw [if_neg hji, if_neg hji]
        by_cases hmem : i ∈ (keep held rest).ids
        · rw [ihr hrest hmem]
        · have hib : i ∈ below.ids := by
            simpa only [Nodes.ids, List.mem_cons, List.mem_append, Ne.symm hji, hmem, false_or,
              or_false] using hi
          obtain ⟨li, bi, hfind⟩ := Nodes.exists_find? hib
          rw [hfind, Option.some_or, Option.some_or]
    · rw [if_neg hheld] at hi ⊢
      rw [Nodes.find?_append, Nodes.find?]
      rw [Nodes.ids_append, List.mem_append] at hi
      have hsub := fun t ↦ (ids_keep_sublist held t).subset
      by_cases hib : i ∈ (keep held below).ids
      · have hji : j ≠ i := fun h ↦ hj.1 (h ▸ hsub below hib)
        obtain ⟨li, bi, hfind⟩ := Nodes.exists_find? hib
        rw [if_neg hji, ← ihb hbelow hib, hfind, Option.some_or, Option.some_or]
      · have hir := hi.resolve_left hib
        have hji : j ≠ i := fun h ↦ hj.2 (h ▸ hsub rest hir)
        have hnone : i ∉ below.ids := fun hmem ↦ hdisjoint i hmem i (hsub rest hir) rfl
        rw [if_neg hji, Nodes.find?_eq_none hib, Nodes.find?_eq_none hnone, Option.none_or,
          Option.none_or, ihr hrest hir]

namespace WellFormed

theorem node?_collect (h : f.WellFormed) (hi : (f.collect held).Has i) :
    (f.collect held).node? i = f.node? i :=
  find?_keep_of_mem h.nodup hi

theorem below_collect (h : f.WellFormed) (hi : (f.collect held).Has i) :
    (f.collect held).below i = f.below i :=
  below_congr (h.node?_collect hi)

theorem label_collect (h : f.WellFormed) (hi : (f.collect held).Has i) :
    (f.collect held).label i = f.label i := by
  rw [label, h.node?_collect hi, label]

theorem parent?_of_collect (h : f.WellFormed) (hq : (f.collect held).parent? i = some q) :
    f.parent? i = some q := by
  have hi := (h.collect held).parent?_eq_some_iff.1 hq
  refine h.parent?_eq_some_iff.2 ?_
  rwa [← h.below_collect]
  by_contra hdead
  rw [Forest.below, node?, Nodes.find?_eq_none hdead] at hi
  cases hi

end WellFormed

end

/-- The changes from `f` to `g` are confined to the subtree of `root`, or to its place, which `root'`
has taken. A root that is made anew leaves the former one as it was, and without a parent. -/
structure Confined (strategy : Strategy) (f : Forest) (root : NodeId) (g : Forest)
    (root' : NodeId) : Prop where
  outside : ∀ i, f.Has i → g.Has i → f.encloses root i = false →
    g.label i = f.label i ∧ (g.below i).items = (f.below i).items.map (Item.swap root root')
  parent : g.parent? root' = f.parent? root
  tag : g.tag root' = f.tag root
  id : (g.label root').attribute? "id" = (f.label root).attribute? "id"
  same : strategy = .inPlace → root' = root
  former : strategy = .destructive → ∀ i, f.encloses root i = true → g.Has i → g.node? i = f.node? i
  retired : root' ≠ root → g.parent? root = none

/-- From `f` to `g` the root in a frame gets another content, or another root takes its place, with
trees in front of all. What comes into the frame has new numbers. -/
structure Refilled (f : Forest) (root : NodeId) (l : Label) (b : Nodes Nat) (g : Forest)
    (root' : NodeId) (l' : Label) (b' : Nodes Nat) (F : Frame Nat) (front rest : Nodes Nat) :
    Prop where
  wellFormed : f.WellFormed
  wellFormed' : g.WellFormed
  trees : f.trees = F.fill (.branch root l b rest)
  trees' : g.trees = front ++ F.fill (.branch root' l' b' rest)
  front : ∀ i ∈ front.ids, i = root ∨ i ∈ b.ids ∨ f.next ≤ i
  below : ∀ i ∈ b'.ids, i ∈ b.ids ∨ f.next ≤ i
  root : root' = root ∨ f.next ≤ root'

namespace Refilled

variable {F : Frame Nat} {root root' : NodeId} {l l' : Label} {b b' rest front : Nodes Nat}

/-- A former root and what is below it, with new trees in front and whatever behind. -/
theorem find?_former {n : Nat} {a t : Nodes Nat}
    (h : (⟨F.fill (.branch root l b rest), n⟩ : Forest).WellFormed)
    (hi : (⟨F.fill (.branch root l b rest), n⟩ : Forest).encloses root i = true)
    (ha : ∀ j ∈ a.ids, n ≤ j) :
    ((a ++ .branch root l b .nil) ++ t).find? i = (F.fill (.branch root l b rest)).find? i := by
  obtain ⟨hF, hb, -⟩ := h.not_mem
  have hlt : i < n := h.lt_next i (has_of_encloses
    (Frame.mem_ids_fill.2 (.inr List.mem_cons_self)) hi)
  have hmem : i = root ∨ i ∈ b.ids := by
    rw [← Bool.not_eq_false, encloses_eq_false, below_fill hF] at hi
    tauto
  have hnone : a.find? i = none := Nodes.find?_eq_none fun hmem ↦ Nat.not_le.2 hlt (ha i hmem)
  obtain ⟨-, hrow, hdisjoint⟩ := List.nodup_append.1 (Frame.nodup_fill.1 h.nodup)
  have hiF : i ∉ F.ids := by
    refine fun hiF ↦ hdisjoint i hiF i ?_ rfl
    rcases hmem with rfl | hmem
    · exact List.mem_cons_self
    · exact List.mem_cons_of_mem _ (List.mem_append_left _ hmem)
  rw [Frame.find?_fill hiF, Nodes.find?_append, Nodes.find?_append, hnone, Option.none_or]
  simp only [Nodes.find?]
  by_cases hroot : root = i
  · rw [if_pos hroot, if_pos hroot, Option.some_or]
  · obtain ⟨li, bi, hfind⟩ := Nodes.exists_find? (hmem.resolve_left (Ne.symm hroot))
    rw [if_neg hroot, if_neg hroot, hfind, Option.some_or, Option.some_or, Option.some_or]

section

variable (r : Refilled f root l b g root' l' b' F front rest)

include r

theorem not_mem : root ∉ F.ids ∧ root ∉ b.ids ∧ root ∉ rest.ids := by
  obtain ⟨t, n⟩ := f
  obtain rfl := r.trees
  exact r.wellFormed.not_mem

theorem node?_root : f.node? root = some (l, b) := by
  obtain ⟨t, n⟩ := f
  obtain rfl := r.trees
  exact node?_fill r.not_mem.1

theorem parent?_root (ho : F.owner = some q) : f.parent? root = some q := by
  obtain ⟨t, n⟩ := f
  obtain rfl := r.trees
  exact parent?_fill r.not_mem.1 ho

theorem node?_root' : g.node? root' = some (l', b') := by
  obtain ⟨t, n⟩ := g
  obtain rfl := r.trees'
  have h := r.wellFormed'
  rw [← Frame.fill_behind] at h ⊢
  exact node?_fill h.not_mem.1

theorem parent?_root' (ho : F.owner = some q) : g.parent? root' = some q := by
  obtain ⟨t, n⟩ := g
  obtain rfl := r.trees'
  have h := r.wellFormed'
  rw [← Frame.fill_behind] at h ⊢
  exact parent?_fill h.not_mem.1 ((Frame.owner_behind F front).trans ho)

theorem encloses_eq_false_iff : f.encloses root i = false ↔ root ≠ i ∧ i ∉ b.ids := by
  rw [encloses_eq_false, below_eq r.node?_root]

theorem encloses_eq_false_iff' : g.encloses root' i = false ↔ root' ≠ i ∧ i ∉ b'.ids := by
  rw [encloses_eq_false, below_eq r.node?_root']

theorem exists_nodes (hi : f.Has i) (hout : f.encloses root i = false) :
    ∃ li bi bi', f.node? i = some (li, bi) ∧ g.node? i = some (li, bi') ∧
      bi'.items = bi.items.map (Item.swap root root') ∧ (root ∉ bi.ids → bi' = bi) := by
  have hlt := r.wellFormed.lt_next i hi
  obtain ⟨li, bi, hnode⟩ := exists_node? hi
  obtain ⟨hne, hb⟩ := r.encloses_eq_false_iff.1 hout
  have hne' : i ≠ root' := by
    rintro rfl
    exact r.root.elim (fun hr ↦ hne hr.symm) (Nat.not_le.2 hlt)
  have hb' : i ∉ b'.ids := fun hmem ↦ (r.below i hmem).elim hb (Nat.not_le.2 hlt)
  obtain ⟨hF, -, hrest⟩ := r.not_mem
  have hfound : (F.fill (.branch root l b rest)).find? i = some (li, bi) := r.trees ▸ hnode
  obtain ⟨bi', hfind, hitems, hapart⟩ :=
    Frame.exists_find?_swap hF hrest ⟨hne.symm, hb⟩ ⟨hne', hb'⟩ hfound
  refine ⟨li, bi, bi', hnode, ?_, hitems, hapart⟩
  have hnone : front.find? i = none := by
    refine Nodes.find?_eq_none fun hmem ↦ ?_
    rcases r.front i hmem with hr | hmem | hle
    · exact hne hr.symm
    · exact hb hmem
    · exact Nat.not_le.2 hlt hle
  rw [node?, r.trees', Nodes.find?_append, hnone, Option.none_or, hfind]

theorem outside (hi : f.Has i) (hout : f.encloses root i = false) :
    g.label i = f.label i ∧ (g.below i).items = (f.below i).items.map (Item.swap root root') := by
  obtain ⟨li, bi, bi', hnode, hnode', hitems, -⟩ := r.exists_nodes hi hout
  rw [label_eq hnode, label_eq hnode', below_eq hnode, below_eq hnode']
  exact ⟨rfl, hitems⟩

theorem apart (hi : f.Has i) (hout : f.encloses root i = false)
    (hapart : root ∉ (f.below i).ids) : g.node? i = f.node? i := by
  obtain ⟨li, bi, bi', hnode, hnode', -, hsame⟩ := r.exists_nodes hi hout
  rw [below_eq hnode] at hapart
  rw [hnode, hnode', hsame hapart]

theorem has_of_lt (hi : i < f.next) (hg : g.Has i) : f.Has i := by
  rw [Has, r.trees'] at hg
  rw [Has, r.trees]
  have hmem : i ∈ front.ids ∨ i ∈ F.ids ∨ i = root' ∨ i ∈ b'.ids ∨ i ∈ rest.ids := by
    simpa only [Nodes.ids_append, List.mem_append, Frame.mem_ids_fill, Nodes.ids,
      List.mem_cons] using hg
  simp only [Frame.mem_ids_fill, Nodes.ids, List.mem_cons, List.mem_append]
  rcases hmem with hmem | hmem | rfl | hmem | hmem
  · rcases r.front i hmem with hr | hmem | hle
    · exact .inr (.inl hr)
    · exact .inr (.inr (.inl hmem))
    · exact absurd hle (Nat.not_le.2 hi)
  · exact .inl hmem
  · exact .inr (.inl (r.root.resolve_right (Nat.not_le.2 hi)))
  · exact .inr (.inr (.inl ((r.below i hmem).resolve_right (Nat.not_le.2 hi))))
  · exact .inr (.inr (.inr hmem))

theorem inside (hi : i < f.next) (hout : f.encloses root i = false) :
    g.encloses root' i = false := by
  obtain ⟨hne, hb⟩ := r.encloses_eq_false_iff.1 hout
  refine r.encloses_eq_false_iff'.2 ⟨?_, fun hmem ↦ (r.below i hmem).elim hb (Nat.not_le.2 hi)⟩
  rintro rfl
  exact r.root.elim (fun hr ↦ hne hr.symm) (Nat.not_le.2 hi)

theorem not_encloses_of_new (hroot : f.next ≤ root') (hnew : ∀ j ∈ b'.ids, f.next ≤ j)
    (hi : i < f.next) : g.encloses root' i = false := by
  refine r.encloses_eq_false_iff'.2 ⟨?_, fun hmem ↦ Nat.not_le.2 hi (hnew i hmem)⟩
  rintro rfl
  exact Nat.not_le.2 hi hroot

theorem loose (ho : F.owner = some q) (hi : i < f.next) (hnone : f.parent? i = none) :
    g.parent? i = none := by
  by_cases hmem : g.Has i
  · have htop := (r.wellFormed.parent?_eq_none_iff (r.has_of_lt hi hmem)).1 hnone
    rw [r.trees] at htop
    refine (r.wellFormed'.parent?_eq_none_iff hmem).2 ?_
    rw [r.trees', Nodes.items_append, Frame.items_fill_of_owner (ho ▸ rfl) _
      (.branch root l b rest)]
    exact List.mem_append_right _ htop
  · exact Nodes.parent?_eq_none hmem

end

variable {a : Nodes Nat}
  (r : Refilled f root l b g root' l' b' F (a ++ .branch root l b .nil) rest)

include r

theorem parent?_former : g.parent? root = none := by
  have htop : .branch root ∈ g.trees.items := by
    rw [r.trees', Nodes.items_append, Nodes.items_append]
    exact List.mem_append_left _ (List.mem_append_right _ List.mem_cons_self)
  exact (r.wellFormed'.parent?_eq_none_iff (Nodes.mem_ids_of_mem_items htop)).2 htop

theorem node?_former (hi : f.encloses root i = true) (ha : ∀ j ∈ a.ids, f.next ≤ j) :
    g.node? i = f.node? i := by
  have hwell := r.wellFormed
  obtain ⟨t, n⟩ := f
  obtain rfl := r.trees
  rw [node?, r.trees']
  exact find?_former hwell hi ha

end Refilled

/-- With what else is needed to go on from there: new nodes have new numbers, and nothing that was
outside of the root comes into it. -/
structure Onward (strategy : Strategy) (f : Forest) (root : NodeId) (g : Forest)
    (root' : NodeId) : Prop extends Confined strategy f root g root' where
  next_le : f.next ≤ g.next
  has : ∀ i < f.next, g.Has i → f.Has i
  fresh : root' ≠ root → f.next ≤ root' ∧ ∀ i < f.next, g.encloses root' i = false
  inside : ∀ i < f.next, f.encloses root i = false → g.encloses root' i = false
  apart : ∀ i, f.Has i → g.Has i → f.encloses root i = false → root ∉ (f.below i).ids →
    g.node? i = f.node? i
  loose : ∀ i < f.next, f.parent? i = none → g.parent? i = none

namespace Onward

variable {strategy : Strategy} {root root' root'' : NodeId}

theorem refl (strategy : Strategy) (f : Forest) (root : NodeId) : Onward strategy f root f root where
  outside _ _ _ _ := ⟨rfl, (Item.map_swap_refl _).symm⟩
  parent := rfl
  tag := rfl
  id := rfl
  same _ := rfl
  former _ _ _ _ := rfl
  retired h := absurd rfl h
  next_le := Nat.le_refl _
  has _ _ h := h
  fresh h := absurd rfl h
  inside _ _ h := h
  apart _ _ _ _ _ := rfl
  loose _ _ h := h

section

variable (hf : f.WellFormed) (h : Onward strategy f root g root')

include hf h

theorem not_mem_below (hr : root' ≠ root) (i : NodeId) : root' ∉ (f.below i).ids :=
  fun hmem ↦ Nat.not_lt.2 (h.fresh hr).1 (hf.lt_next root' (has_of_mem_below hmem))

variable (h' : Onward strategy g root' k root'')

include h'

theorem has_between (hi : f.Has i) (hk : k.Has i) : g.Has i :=
  h'.has i ((hf.lt_next i hi).trans_le h.next_le) hk

theorem outside_trans (hi : f.Has i) (hk : k.Has i) (hout : f.encloses root i = false) :
    k.label i = f.label i ∧
      (k.below i).items = (f.below i).items.map (Item.swap root root'') := by
  have hg := has_between hf h h' hi hk
  obtain ⟨hlabel, hitems⟩ := h.outside i hi hg hout
  obtain ⟨hlabel', hitems'⟩ := h'.outside i hg hk (h.inside i (hf.lt_next i hi) hout)
  refine ⟨hlabel'.trans hlabel, ?_⟩
  rw [hitems', hitems, Item.map_swap_swap]
  by_cases hr : root' = root
  · exact .inl hr
  · exact .inr fun hmem ↦ h.not_mem_below hf hr i (Nodes.mem_ids_of_mem_items hmem)

theorem former_trans (hroot : f.Has root) (hroot' : g.Has root') (hs : strategy = .destructive)
    (henclosed : f.encloses root i = true) (hk : k.Has i) : k.node? i = f.node? i := by
  have hi := has_of_encloses hroot henclosed
  have hg := has_between hf h h' hi hk
  have hfirst := h.former hs i henclosed hg
  by_cases hr : root' = root
  · subst hr
    have hself := h.former hs root' (encloses_self f root') hroot'
    refine (h'.former hs i ?_ hk).trans hfirst
    rwa [encloses, below_congr hself, ← encloses]
  · refine (h'.apart i hg hk ((h.fresh hr).2 i (hf.lt_next i hi)) ?_).trans hfirst
    rw [below_congr hfirst]
    exact h.not_mem_below hf hr i

theorem retired_trans (hroot : f.Has root) (hr : root'' ≠ root) : k.parent? root = none := by
  by_cases hr' : root' = root
  · subst hr'
    exact h'.retired hr
  · exact h'.loose root ((hf.lt_next root hroot).trans_le h.next_le) (h.retired hr')

theorem apart_trans (hi : f.Has i) (hk : k.Has i) (hout : f.encloses root i = false)
    (hroot : root ∉ (f.below i).ids) : k.node? i = f.node? i := by
  have hg := has_between hf h h' hi hk
  have hfirst := h.apart i hi hg hout hroot
  refine (h'.apart i hg hk (h.inside i (hf.lt_next i hi) hout) ?_).trans hfirst
  rw [below_congr hfirst]
  by_cases hr : root' = root
  · exact hr ▸ hroot
  · exact h.not_mem_below hf hr i

end

theorem fresh_trans (h : Onward strategy f root g root') (h' : Onward strategy g root' k root'')
    (hr : root'' ≠ root) : f.next ≤ root'' ∧ ∀ i < f.next, k.encloses root'' i = false := by
  by_cases hr' : root' = root
  · subst hr'
    obtain ⟨hle, hout⟩ := h'.fresh hr
    exact ⟨h.next_le.trans hle, fun i hi ↦ hout i (hi.trans_le h.next_le)⟩
  · refine ⟨?_, fun i hi ↦ h'.inside i (hi.trans_le h.next_le) ((h.fresh hr').2 i hi)⟩
    by_cases hr'' : root'' = root'
    · exact hr'' ▸ (h.fresh hr').1
    · exact h.next_le.trans (h'.fresh hr'').1

theorem trans (hf : f.WellFormed) (hroot : f.Has root) (hroot' : g.Has root')
    (h : Onward strategy f root g root') (h' : Onward strategy g root' k root'') :
    Onward strategy f root k root'' where
  outside _ hi hk hout := outside_trans hf h h' hi hk hout
  parent := h'.parent.trans h.parent
  tag := h'.tag.trans h.tag
  id := h'.id.trans h.id
  same hs := (h'.same hs).trans (h.same hs)
  former hs _ henclosed hk := former_trans hf h h' hroot hroot' hs henclosed hk
  retired hr := retired_trans hf h h' hroot hr
  next_le := h.next_le.trans h'.next_le
  has i hi hk := h.has i hi (h'.has i (hi.trans_le h.next_le) hk)
  fresh hr := fresh_trans h h' hr
  inside i hi hout := h'.inside i (hi.trans_le h.next_le) (h.inside i hi hout)
  apart _ hi hk hout hroot := apart_trans hf h h' hi hk hout hroot
  loose i hi hnone := h'.loose i (hi.trans_le h.next_le) (h.loose i hi hnone)

theorem collect (h : f.WellFormed) {held : List NodeId}
    (hlive : ((f.collect held).parent? root).isSome = true) :
    Onward strategy f root (f.collect held) root := by
  obtain ⟨q, hq⟩ := Option.isSome_iff_exists.1 hlive
  have hroot := has_of_parent? hq
  constructor
  · constructor
    · intro i _ hi _
      rw [h.label_collect hi, h.below_collect hi, Item.map_swap_refl]
      exact ⟨rfl, rfl⟩
    · rw [hq, h.parent?_of_collect hq]
    · rw [tag, h.label_collect hroot, tag]
    · rw [h.label_collect hroot]
    · exact fun _ ↦ rfl
    · exact fun _ i _ hi ↦ h.node?_collect hi
    · exact fun hne ↦ absurd rfl hne
  · exact Nat.le_refl _
  · exact fun i _ hi ↦ (ids_keep_sublist held f.trees).subset hi
  · exact fun hne ↦ absurd rfl hne
  · intro i _ hout
    rwa [encloses_eq_false, h.below_collect hroot, ← encloses_eq_false]
  · exact fun i _ hi _ _ ↦ h.node?_collect hi
  · intro i _ hnone
    rw [Option.eq_none_iff_forall_ne_some] at hnone ⊢
    exact fun q hq ↦ hnone q (h.parent?_of_collect hq)

section

variable {F : Frame Nat} {l l' : Label} {b b' rest front : Nodes Nat}

theorem of_fill (h : f.WellFormed) (h' : g.WellFormed)
    (ht : f.trees = F.fill (.branch root l b rest))
    (ht' : g.trees = front ++ F.fill (.branch root' l' b' rest)) (ho : F.owner = some q)
    (hnext : f.next ≤ g.next) (htag : l'.tag = l.tag)
    (hid : l'.attribute? "id" = l.attribute? "id")
    (hroot : strategy = .inPlace ∧ root' = root ∧ (∀ i ∈ front.ids, i ∈ b.ids) ∧
        (∀ i ∈ b'.ids, i ∈ b.ids ∨ f.next ≤ i) ∨
      strategy = .destructive ∧ f.next ≤ root' ∧ (∀ i ∈ b'.ids, f.next ≤ i) ∧
        ∃ a, front = a ++ .branch root l b .nil ∧ ∀ i ∈ a.ids, f.next ≤ i) :
    Onward strategy f root g root' := by
  have hnew : root' = root ∨ f.next ≤ root' := hroot.imp (·.2.1) (·.2.1)
  have hbelow : ∀ i ∈ b'.ids, i ∈ b.ids ∨ f.next ≤ i := by
    rcases hroot with ⟨-, -, -, hb'⟩ | ⟨-, -, hb', -⟩
    · exact hb'
    · exact fun i hi ↦ .inr (hb' i hi)
  have hfront : ∀ i ∈ front.ids, i = root ∨ i ∈ b.ids ∨ f.next ≤ i := by
    rcases hroot with ⟨-, -, hold, -⟩ | ⟨-, -, -, a, rfl, ha⟩
    · exact fun i hi ↦ .inr (.inl (hold i hi))
    · intro i hi
      rw [Nodes.ids_append, List.mem_append, Nodes.ids, List.mem_cons, Nodes.ids,
        List.append_nil] at hi
      rcases hi with hi | hi | hi
      · exact .inr (.inr (ha i hi))
      · exact .inl hi
      · exact .inr (.inl hi)
  have r : Refilled f root l b g root' l' b' F front rest :=
    ⟨h, h', ht, ht', hfront, hbelow, hnew⟩
  constructor
  · constructor
    · exact fun i hi _ hout ↦ r.outside hi hout
    · rw [r.parent?_root' ho, r.parent?_root ho]
    · rw [tag, label_eq r.node?_root', tag, label_eq r.node?_root, htag]
    · rw [label_eq r.node?_root', label_eq r.node?_root, hid]
    · intro hs
      rcases hroot with ⟨-, hr, -⟩ | ⟨hs', -⟩
      · exact hr
      · rw [hs] at hs'
        cases hs'
    · intro hs i henclosed _
      rcases hroot with ⟨hs', -⟩ | ⟨-, -, -, a, rfl, ha⟩
      · rw [hs] at hs'
        cases hs'
      · exact r.node?_former henclosed ha
    · intro hne
      rcases hroot with ⟨-, hr, -⟩ | ⟨-, -, -, a, rfl, -⟩
      · exact absurd hr hne
      · exact r.parent?_former
  · exact hnext
  · exact fun i hi hg ↦ r.has_of_lt hi hg
  · intro hne
    rcases hroot with ⟨-, hr, -⟩ | ⟨-, hle, hb', -⟩
    · exact absurd hr hne
    · exact ⟨hle, fun i hi ↦ r.not_encloses_of_new hle hb' hi⟩
  · exact fun i hi hout ↦ r.inside hi hout
  · exact fun i hi _ hout hapart ↦ r.apart hi hout hapart
  · exact fun i hi hnone ↦ r.loose ho hi hnone

end

end Onward

end Forest

end LivePage
