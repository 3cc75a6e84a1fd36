import LivePage.Proofs.Linked.Coherent
import LivePage.Proofs.Markup.Entries

namespace LivePage.Heap

open Markup

variable {h h' : Heap} {r s c : Ref} {e : NodeEntry Nat} {i p n : Nat} {l : Label}
  {its front back : List (Item Nat)} {es : List (NodeEntry Nat)}

section

variable (h)

def item? : Ref → Option (Item Nat)
  | .branch i => some (.branch i)
  | .leaf k => match h.content? (.leaf k) with
    | some (.text s) => some (.text s)
    | some (.comment s) => some (.comment s)
    | _ => none

def Holds (e : NodeEntry Nat) : Prop :=
  h.content? (.branch e.1) = some (.branch e.2.1) ∧
    (h.children (.branch e.1)).map h.item? = e.2.2.map some

/-- The branching nodes are those of the entries, and each is as its entry says. -/
structure Shows (es : List (NodeEntry Nat)) (n : Nat) : Prop where
  next : h.nextBranch = n
  holds : ∀ e ∈ es, h.Holds e
  mem : ∀ i, h.Live (.branch i) → i ∈ es.map (·.1)

end

theorem item?_congr (hr : h'.content? r = h.content? r) : h'.item? r = h.item? r := by
  cases r with
  | branch i => rfl
  | leaf k => rw [item?, hr, item?]

theorem item?_eq_branch : h.item? r = some (.branch i) ↔ r = .branch i := by
  cases r with
  | branch j => simp only [item?, Option.some.injEq, Item.branch.injEq, Ref.branch.injEq]
  | leaf k =>
    rw [item?]
    split <;> simp only [Option.some.injEq, reduceCtorEq]

namespace Holds

theorem live (he : h.Holds e) : h.Live (.branch e.1) :=
  live_of_content? he.1

theorem congr (he : h.Holds e) (hcontent : h'.content? (.branch e.1) = h.content? (.branch e.1))
    (hchildren : h'.children (.branch e.1) = h.children (.branch e.1))
    (hitems : ∀ r ∈ h.children (.branch e.1), h'.content? r = h.content? r) : h'.Holds e := by
  refine ⟨hcontent.trans he.1, ?_⟩
  rw [hchildren, ← he.2]
  exact List.map_congr_left fun r hr ↦ item?_congr (hitems r hr)

theorem mem_children (he : h.Holds e) :
    .branch i ∈ h.children (.branch e.1) ↔ .branch i ∈ e.2.2 := by
  have hmem : some (Item.branch i) ∈ (h.children (.branch e.1)).map h.item? ↔ .branch i ∈ e.2.2 := by
    rw [he.2]
    exact List.mem_map_of_injective fun _ _ ↦ Option.some.inj
  rw [← hmem, List.mem_map]
  refine ⟨fun hi ↦ ⟨_, hi, rfl⟩, ?_⟩
  rintro ⟨r, hr, hi⟩
  exact item?_eq_branch.1 hi ▸ hr

theorem split (he : h.Holds (p, l, front ++ back)) :
    ∃ rs rs', h.children (.branch p) = rs ++ rs' ∧ rs.map h.item? = front.map some ∧
      rs'.map h.item? = back.map some := by
  have hmap := he.2
  rw [List.map_append, List.map_eq_append_iff] at hmap
  exact hmap

theorem split_at (he : h.Holds (p, l, front ++ .branch i :: back)) :
    ∃ rs rs', h.children (.branch p) = rs ++ .branch i :: rs' ∧
      rs.map h.item? = front.map some ∧ rs'.map h.item? = back.map some := by
  obtain ⟨rs, rs', hchildren, hfront, hback⟩ := he.split
  rw [List.map_cons, List.map_eq_cons_iff] at hback
  obtain ⟨r, rs', rfl, hr, hback⟩ := hback
  obtain rfl := item?_eq_branch.1 hr
  exact ⟨rs, rs', hchildren, hfront, hback⟩

end Holds

namespace Shows

theorem perm {es' : List (NodeEntry Nat)} (hs : h.Shows es n) (hp : es.Perm es') : h.Shows es' n :=
  ⟨hs.next, fun e he ↦ hs.holds e (hp.mem_iff.2 he),
    fun i hi ↦ (hp.map _).mem_iff.1 (hs.mem i hi)⟩

theorem holds_fresh {content : Content} (he : h.Holds e) (hh : h.Coherent) (hr : ¬h.Made r)
    (hcell : ∀ s, h'.cell? s = if s = r then some ⟨content, none, []⟩ else h.cell? s) :
    h'.Holds e := by
  have hcontent : ∀ s, h.Live s → h'.cell? s = h.cell? s := by
    intro s hl
    rw [hcell, if_neg]
    rintro rfl
    exact hr (hh.made hl)
  apply he.congr
  · rw [content?, hcontent _ he.live, content?]
  · rw [children, hcontent _ he.live, children]
  · intro s hs
    rw [content?, hcontent s (hh.live hs), content?]

theorem newBranch (hs : h.Shows es n) (hh : h.Coherent) (l : Label) :
    (h.newBranch l).Shows ((n, l, []) :: es) (n + 1) := by
  obtain ⟨hnext, hholds, hmem⟩ := hs
  subst hnext
  constructor
  · rfl
  · intro e he
    rcases List.mem_cons.1 he with rfl | he
    · simp only [Holds, content?, children, cell?_newBranch, if_true, Option.map_some, Option.getD_some,
        List.map_nil, and_self]
    · exact holds_fresh (hholds e he) hh (Nat.lt_irrefl _) fun s ↦ cell?_newBranch l
  · intro i hi
    rw [Live, cell?_newBranch] at hi
    split at hi
    · next he => exact List.mem_cons.2 (.inl (Ref.branch.inj he))
    · exact List.mem_cons_of_mem _ (hmem i hi)

theorem newLeaf (hs : h.Shows es n) (hh : h.Coherent) (content : Content) :
    (h.newLeaf content).Shows es n := by
  constructor
  · exact hs.next
  · intro e he
    exact holds_fresh (hs.holds e he) hh (Nat.lt_irrefl _) fun s ↦ cell?_newLeaf content
  · intro i hi
    rw [Live, cell?_newLeaf, if_neg (fun he ↦ by cases he)] at hi
    exact hs.mem i hi

/-- The other entries stay as they are when only the cell of one node changes, and texts and comments
of other lists do not. -/
theorem update {e' : NodeEntry Nat} (hs : h.Shows (e :: es) n) (hnext : h'.nextBranch = h.nextBranch)
    (hid : e'.1 = e.1) (he' : h'.Holds e') (hes : ∀ x ∈ es, h.Holds x → h'.Holds x)
    (hlive : ∀ i, h'.Live (.branch i) → h.Live (.branch i)) : h'.Shows (e' :: es) n := by
  constructor
  · exact hnext.trans hs.next
  · intro x hx
    rcases List.mem_cons.1 hx with rfl | hx
    · exact he'
    · exact hes x hx (hs.holds x (List.mem_cons_of_mem _ hx))
  · intro i hi
    have hi := hs.mem i (hlive i hi)
    rwa [List.map_cons, ← hid, ← List.map_cons] at hi

theorem ne_of_mem (hn : p ∉ es.map (·.1)) (he : e ∈ es) : Ref.branch e.1 ≠ .branch p := by
  intro hp
  exact hn (Ref.branch.inj hp ▸ List.mem_map_of_mem he)

theorem place {it : Item Nat} {rs rs' : List Ref} (hs : h.Shows ((p, l, front ++ back) :: es) n)
    (hn : p ∉ es.map (·.1)) (hc : h.item? c = some it)
    (hsplit : h.children (.branch p) = rs ++ rs') (hfront : rs.map h.item? = front.map some) :
    ((h.setParent c (some (.branch p))).setChildren (.branch p) (rs ++ c :: rs')).Shows
      ((p, l, front ++ it :: back) :: es) n := by
  have hp := hs.holds _ List.mem_cons_self
  set h' := (h.setParent c (some (.branch p))).setChildren (.branch p) (rs ++ c :: rs') with hdef
  have hcontent : ∀ s, h'.content? s = h.content? s := by
    intro s
    rw [hdef, content?_setChildren, content?_setParent]
  have hchildren : ∀ s, h'.children s =
      if s = .branch p then rs ++ c :: rs' else h.children s := by
    intro s
    rw [hdef, children_setChildren ((live_setParent _).2 hp.live), children_setParent]
  have hitem : h'.item? = h.item? := funext fun s ↦ item?_congr (hcontent s)
  have hback : rs'.map h.item? = back.map some := by
    have hmap := hp.2
    rw [hsplit, List.map_append, List.map_append, hfront] at hmap
    exact List.append_cancel_left hmap
  refine hs.update rfl rfl ?_ ?_ ?_
  · refine ⟨(hcontent _).trans hp.1, ?_⟩
    rw [hchildren, if_pos rfl, hitem]
    simp only [List.map_append, List.map_cons, hfront, hback, hc]
  · intro x hx hhx
    refine hhx.congr (hcontent _) ?_ fun r _ ↦ hcontent r
    rw [hchildren, if_neg (ne_of_mem hn hx)]
  · intro i hi
    exact (live_setParent _).1 (live_setChildren.1 hi)

theorem detach (hs : h.Shows ((p, l, front ++ .branch i :: back) :: es) n) (hh : h.Coherent)
    (hn : p ∉ es.map (·.1)) : (h.detach (.branch i)).Shows ((p, l, front ++ back) :: es) n := by
  have hp := hs.holds _ List.mem_cons_self
  obtain ⟨rs, rs', hsplit, hfront, hback⟩ := hp.split_at
  have hmem : .branch i ∈ h.children (.branch p) := by
    rw [hsplit]
    exact List.mem_append_right _ List.mem_cons_self
  have hitem : (h.detach (.branch i)).item? = h.item? := funext fun s ↦ item?_congr content?_detach
  refine hs.update nextBranch_detach rfl ?_ ?_ ?_
  · refine ⟨content?_detach.trans hp.1, ?_⟩
    have hnd := hh.nodup (.branch p)
    rw [hsplit, List.nodup_middle, List.nodup_cons, List.mem_append, not_or] at hnd
    rw [hh.children_detach, hsplit, List.filter_append, List.filter_cons_of_neg (by simp),
      filter_ne hnd.1.1, filter_ne hnd.1.2, hitem, List.map_append, hfront, hback, List.map_append]
  · intro x hx hhx
    refine hhx.congr content?_detach ?_ fun r _ ↦ content?_detach
    rw [hh.children_detach]
    exact filter_ne fun hi ↦ ne_of_mem hn hx (hh.eq_of_mem hi hmem)
  · intro i hi
    exact live_detach.1 hi

theorem relabel (hs : h.Shows ((p, l, its) :: es) n) (hn : p ∉ es.map (·.1))
    (change : Label → Label) : (h.relabel p change).Shows ((p, change l, its) :: es) n := by
  have hp := hs.holds _ List.mem_cons_self
  have hcontent : ∀ s, s ≠ .branch p → (h.relabel p change).content? s = h.content? s := by
    intro s hsp
    rw [content?, Heap.relabel, cell?_modify, if_neg hsp, content?]
  have hitem : (h.relabel p change).item? = h.item? := by
    funext s
    cases s with
    | branch j => rfl
    | leaf k => exact item?_congr (hcontent _ fun he ↦ by cases he)
  refine hs.update rfl rfl ?_ ?_ ?_
  · constructor
    · obtain ⟨⟨content, parent, children⟩, hc⟩ := live_iff.1 hp.live
      have hlabel : content = .branch l := by
        have hcontent := hp.1
        rw [content?, hc] at hcontent
        exact Option.some.inj hcontent
      rw [content?, Heap.relabel, cell?_modify, if_pos rfl, hc, hlabel]
      rfl
    · rw [children_relabel, hitem]
      exact hp.2
  · intro x hx hhx
    refine ⟨(hcontent _ (ne_of_mem hn hx)).trans hhx.1, ?_⟩
    rw [children_relabel, hitem]
    exact hhx.2
  · intro i hi
    exact (live_modify _).1 hi

theorem holds_unlisted (hh : h.Coherent) (hx : h.Holds e) (hp : Ref.branch e.1 ≠ .branch p)
    (hchildren : h'.children (.branch e.1) = h.children (.branch e.1))
    (hcontent : ∀ s, s ≠ .branch p → ¬(s.isLeaf ∧ s ∈ h.children (.branch p)) →
      h'.content? s = h.content? s) : h'.Holds e := by
  refine ⟨(hcontent _ hp fun hl ↦ Bool.noConfusion hl.1).trans hx.1, ?_⟩
  rw [hchildren, ← hx.2]
  refine List.map_congr_left fun s hs ↦ ?_
  cases s with
  | branch j => rfl
  | leaf k =>
    exact item?_congr (hcontent _ (fun he ↦ by cases he) fun hl ↦ hp (hh.eq_of_mem hs hl.2))

theorem clearChildren (hs : h.Shows ((p, l, its) :: es) n) (hh : h.Coherent)
    (hn : p ∉ es.map (·.1)) : (h.clearChildren (.branch p)).Shows ((p, l, []) :: es) n := by
  have hp := hs.holds _ List.mem_cons_self
  refine hs.update next_clearChildren.1 rfl ?_ ?_ ?_
  · constructor
    · rw [content?_clearChildren, if_neg fun hl ↦ Bool.noConfusion hl.1]
      exact hp.1
    · rw [children_clearChildren hh, if_pos rfl]
      rfl
  · intro x hx hhx
    have hxp := ne_of_mem hn hx
    apply holds_unlisted hh hhx hxp
    · rw [children_clearChildren hh, if_neg hxp]
    · intro s _ hs
      rw [content?_clearChildren, if_neg hs]
  · intro i hi
    exact (live_clearChildren.1 hi).1

theorem erase (hs : h.Shows ((p, l, its) :: es) n) (hh : h.Coherent) (hn : p ∉ es.map (·.1)) :
    (h.erase (.branch p)).Shows es n := by
  constructor
  · exact hs.next
  · intro x hx
    have hxp := ne_of_mem hn hx
    apply holds_unlisted hh (hs.holds x (List.mem_cons_of_mem _ hx)) hxp
    · rw [children_erase hh, if_neg hxp]
    · intro s hsp hs
      rw [content?, cell?_erase, if_neg hs, if_neg hsp, content?]
  · intro i hi
    obtain ⟨hl, hip, -⟩ := live_erase.1 hi
    exact (List.mem_cons.1 (hs.mem i hl)).resolve_left fun he ↦ hip (congrArg Ref.branch he)

end Shows

end LivePage.Heap
