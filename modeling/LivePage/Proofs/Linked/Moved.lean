import LivePage.Proofs.Linked.Reach

namespace LivePage

namespace Heap

/-- Links lead up from a node to another, in any number of steps. -/
def Within (h : Heap) : Ref → Ref → Prop :=
  Relation.ReflTransGen fun a b ↦ h.parent? a = some b

/-- A node has been put into the list of `p`, which is `row` by now, and out of the list it was in.
All else is as it was. -/
structure Moved (h h' : Heap) (c p : Ref) (row : List Ref) : Prop where
  list : h'.children p = row
  parent : h'.parent? c = some p
  former : ∀ q, h.parent? c = some q → q ≠ p →
    ∃ pre post, h.children q = pre ++ c :: post ∧ c ∉ pre ++ post ∧ h'.children q = pre ++ post
  lists : ∀ r, r ≠ p → h.parent? c ≠ some r → h'.children r = h.children r
  parents : ∀ r, r ≠ c → h'.parent? r = h.parent? r
  contents : ∀ r, h'.content? r = h.content? r
  subtree : ∀ r, h.Within r c → h'.children r = h.children r

/-- A node has been taken out of the list of `p`. All else is as it was. -/
structure Removed (h h' : Heap) (c p : Ref) : Prop where
  list : ∃ pre post, h.children p = pre ++ c :: post ∧ c ∉ pre ++ post ∧ h'.children p = pre ++ post
  parent : h'.parent? c = none
  lists : ∀ r, r ≠ p → h'.children r = h.children r
  parents : ∀ r, r ≠ c → h'.parent? r = h.parent? r
  contents : ∀ r, h'.content? r = h.content? r

def MovedBefore (h h' : Heap) (n r p : Ref) : Prop :=
  ∃ pre post, (h.children p).filter (· ≠ n) = pre ++ r :: post ∧
    h.Moved h' n p (pre ++ n :: r :: post)

/-- How a call to put `c` last below `p` can end. -/
inductive Appends (h : Heap) (p c : Ref) : Except TreeError Unit → Heap → Prop
  | hierarchy (hpc : h.Within p c) : Appends h p c (.error .hierarchy) h
  | placed {h' : Heap} (hpc : ¬h.Within p c)
    (hmoved : h.Moved h' c p ((h.children p).filter (· ≠ c) ++ [c])) : Appends h p c (.ok ()) h'

/-- How a call to put `n` in front of `r` below `p` can end. -/
inductive Inserts (h : Heap) (p n r : Ref) : Except TreeError Unit → Heap → Prop
  | self (hnr : n = r) : Inserts h p n r (.ok ()) h
  | notAChild (hnr : n ≠ r) (hrp : h.parent? r ≠ some p) : Inserts h p n r (.error .notAChild) h
  | hierarchy (hnr : n ≠ r) (hrp : h.parent? r = some p) (hpn : h.Within p n) :
    Inserts h p n r (.error .hierarchy) h
  | placed {h' : Heap} (hnr : n ≠ r) (hrp : h.parent? r = some p) (hpn : ¬h.Within p n)
    (hmoved : h.MovedBefore h' n r p) : Inserts h p n r (.ok ()) h'

/-- A call ends as it does on the forest. Either it has an effect on the linked nodes, or it is
refused and leaves them as they are. -/
def Settles (h : Heap) (f : Forest) (call : Nat → Option (Except TreeError Unit × Heap))
    (answer : Except TreeError Forest) (effect : Heap → Prop) : Prop :=
  ∃ h', Ends call (answer.map fun _ ↦ (), h') ∧ h'.Represents (f.after answer) ∧
    match answer with
    | .ok _ => effect h'
    | .error _ => h' = h

variable {h h' : Heap} {r s c p n : Ref}

theorem within_iff : h.Within r s ↔ r = s ∨ ∃ p, h.parent? r = some p ∧ h.Within p s :=
  Relation.ReflTransGen.cases_head_iff

theorem meets_iff_within {depth : Nat} {b : Bool} (hm : h.meets s depth r = some b) :
    b = true ↔ h.Within r s := by
  induction depth generalizing r with
  | zero => cases hm
  | succ depth ih =>
    rw [meets] at hm
    rw [within_iff]
    split at hm
    · next hrs =>
      obtain rfl := Option.some.inj hm
      simp only [hrs, true_or]
    · next hrs =>
      cases hp : h.parent? r with
      | none =>
        simp only [hp, Option.some.injEq] at hm
        simp only [← hm, hrs, Bool.false_eq_true, reduceCtorEq, false_and, exists_false, or_self]
      | some p =>
        simp only [hp] at hm
        simp only [ih hm, hrs, Option.some.injEq, exists_eq_left', false_or]

namespace Coherent

variable (hh : h.Coherent)

include hh

theorem split_of_mem {q : Ref} (hc : c ∈ h.children q) :
    ∃ pre post, h.children q = pre ++ c :: post ∧ c ∉ pre ++ post ∧
      (h.children q).filter (· ≠ c) = pre ++ post := by
  obtain ⟨pre, post, hsplit⟩ := List.append_of_mem hc
  have hnodup := hh.nodup q
  rw [hsplit, List.nodup_middle, List.nodup_cons] at hnodup
  have hpre : c ∉ pre := fun hm ↦ hnodup.1 (List.mem_append_left _ hm)
  have hpost : c ∉ post := fun hm ↦ hnodup.1 (List.mem_append_right _ hm)
  refine ⟨pre, post, hsplit, hnodup.1, ?_⟩
  rw [hsplit, List.filter_append, List.filter_cons_of_neg (by simp), filter_ne hpre,
    filter_ne hpost]

/-- Once a node is taken out, another is found where it was before. -/
theorem idxOf?_detach (hnr : n ≠ r) (hrp : h.parent? r = some p) :
    ∃ pre post, (h.detach n).children p = pre ++ r :: post ∧
      ((h.detach n).children p).idxOf? r = some pre.length := by
  have hmem : r ∈ (h.detach n).children p := by
    rw [hh.children_detach, List.mem_filter]
    exact ⟨hh.mem_of_parent hrp, decide_eq_true hnr.symm⟩
  have hnodup : ((h.detach n).children p).Nodup := by
    rw [hh.children_detach]
    exact (hh.nodup p).filter _
  obtain ⟨pre, post, hsplit⟩ := List.append_of_mem hmem
  rw [hsplit, List.nodup_middle, List.nodup_cons, List.mem_append, not_or] at hnodup
  refine ⟨pre, post, hsplit, ?_⟩
  rw [hsplit]
  exact idxOf?_split hnodup.1.1

theorem removed (hcp : h.parent? c = some p) : h.Removed (h.detach c) c p := by
  have hmem := hh.mem_of_parent hcp
  constructor
  · obtain ⟨pre, post, hsplit, hnot, hfilter⟩ := hh.split_of_mem hmem
    exact ⟨pre, post, hsplit, hnot, hh.children_detach.trans hfilter⟩
  · rw [parent?_detach, if_pos rfl]
  · intro s hsp
    rw [hh.children_detach, filter_ne fun hm ↦ hsp (hh.eq_of_mem hm hmem)]
  · intro s hsc
    rw [parent?_detach, if_neg hsc]
  · intro s
    exact content?_detach

theorem moved (hacyclic : ∀ r, ¬Relation.TransGen (fun a b ↦ h.parent? a = some b) r r)
    (hp : h.Live p) (hc : h.Live c) (hpc : ¬h.Within p c) (row : List Ref) :
    h.Moved (((h.detach c).setParent c (some p)).setChildren p row) c p row := by
  set h' := ((h.detach c).setParent c (some p)).setChildren p row with hdef
  have hp' : (h.detach c).Live p := live_detach.2 hp
  have hlists : ∀ s, h'.children s = if s = p then row else (h.children s).filter (· ≠ c) := by
    intro s
    rw [hdef, children_setChildren ((live_setParent _).2 hp'), children_setParent,
      hh.children_detach]
  have hparents : ∀ s, h'.parent? s = if s = c then some p else h.parent? s := by
    intro s
    rw [hdef, parent?_setChildren, parent?_setParent (live_detach.2 hc) hp', parent?_detach]
    split <;> rfl
  have hothers : ∀ s, s ≠ p → h.parent? c ≠ some s → h'.children s = h.children s := by
    intro s hsp hcs
    rw [hlists, if_neg hsp, filter_ne fun hm ↦ hcs (hh.parent_of_mem hm)]
  constructor
  · rw [hlists, if_pos rfl]
  · rw [hparents, if_pos rfl]
  · intro q hq hqp
    obtain ⟨pre, post, hsplit, hnot, hfilter⟩ := hh.split_of_mem (hh.mem_of_parent hq)
    refine ⟨pre, post, hsplit, hnot, ?_⟩
    rw [hlists, if_neg hqp, hfilter]
  · exact hothers
  · intro s hsc
    rw [hparents, if_neg hsc]
  · intro s
    rw [hdef, content?_setChildren, content?_setParent, content?_detach]
  · intro s hs
    apply hothers
    · rintro rfl
      exact hpc hs
    · -- the old parent is not within the node, or the node would be above itself
      intro hcs
      exact hacyclic c (.head' hcs hs)

end Coherent

namespace Represents

variable {f : Forest} {q c n r : NodeId}

theorem appends (hr : h.Represents f) (hq : f.Has q) (hc : f.Has c) :
    ∃ answer h', Ends (fun depth ↦ h.append depth (.branch q) (.branch c)) (answer, h') ∧
      h.Appends (.branch q) (.branch c) answer h' := by
  obtain ⟨bound, hmeets⟩ := hr.meets_ends hq c
  have hwithin := meets_iff_within (hmeets bound le_rfl)
  cases henc : f.encloses c q with
  | true =>
    refine ⟨_, _, ⟨bound, fun depth hd ↦ ?_⟩, .hierarchy (hwithin.1 henc)⟩
    simp only [Heap.append, hmeets depth hd, henc]
    rfl
  | false =>
    have hpc : ¬h.Within (.branch q) (.branch c) := by
      simpa [henc] using hwithin
    have hpush : ((h.detach (.branch c)).setParent (.branch c) (some (.branch q))).push
          (.branch q) (.branch c) =
        ((h.detach (.branch c)).setParent (.branch c) (some (.branch q))).setChildren (.branch q)
          ((h.children (.branch q)).filter (· ≠ .branch c) ++ [.branch c]) := by
      rw [push, children_setParent, hr.coherent.children_detach]
    refine ⟨_, _, ⟨bound, fun depth hd ↦ ?_⟩, .placed hpc (hr.coherent.moved
      hr.consistent.acyclic (hr.live_iff.2 hq) (hr.live_iff.2 hc) hpc _)⟩
    simp only [Heap.append, hmeets depth hd, henc, hpush]
    rfl

theorem inserts (hr : h.Represents f) (hq : f.Has q) (hn : f.Has n) :
    ∃ answer h',
      Ends (fun depth ↦ h.insertBefore depth (.branch q) (.branch n) (.branch r)) (answer, h') ∧
        h.Inserts (.branch q) (.branch n) (.branch r) answer h' := by
  by_cases hnr : Ref.branch n = .branch r
  · refine ⟨_, _, ⟨0, fun depth _ ↦ ?_⟩, .self hnr⟩
    simp only [Heap.insertBefore, if_pos hnr]
  by_cases hrq : h.parent? (.branch r) = some (.branch q)
  swap
  · refine ⟨_, _, ⟨0, fun depth _ ↦ ?_⟩, .notAChild hnr hrq⟩
    simp only [Heap.insertBefore, if_neg hnr, if_pos hrq]
  obtain ⟨bound, hmeets⟩ := hr.meets_ends hq n
  have hwithin := meets_iff_within (hmeets bound le_rfl)
  cases henc : f.encloses n q with
  | true =>
    refine ⟨_, _, ⟨bound, fun depth hd ↦ ?_⟩, .hierarchy hnr hrq (hwithin.1 henc)⟩
    simp only [Heap.insertBefore, if_neg hnr, hrq, ne_eq, not_true_eq_false, if_false,
      hmeets depth hd, henc]
    rfl
  | false =>
    have hpn : ¬h.Within (.branch q) (.branch n) := by
      simpa [henc] using hwithin
    obtain ⟨pre, post, hsplit, hindex⟩ := hr.coherent.idxOf?_detach hnr hrq
    have hfilter : (h.children (.branch q)).filter (· ≠ .branch n) = pre ++ .branch r :: post := by
      rw [← hsplit, hr.coherent.children_detach]
    refine ⟨_, _, ⟨bound, fun depth hd ↦ ?_⟩, .placed hnr hrq hpn ⟨pre, post, hfilter,
      hr.coherent.moved hr.consistent.acyclic (hr.live_iff.2 hq) (hr.live_iff.2 hn) hpn _⟩⟩
    rw [hsplit] at hindex
    simp only [Heap.insertBefore, if_neg hnr, hrq, ne_eq, not_true_eq_false, if_false,
      hmeets depth hd, henc, hsplit, hindex, insertIdx_split]
    rfl

end Represents

theorem Follows.settles {f : Forest} {call : Nat → Option (Except TreeError Unit × Heap)}
    {answer : Except TreeError Forest} {outcome : Except TreeError Unit} {effect : Heap → Prop}
    (hfollows : h.Follows f call answer) (hends : Ends call (outcome, h'))
    (hok : outcome = .ok () → effect h') (herror : ∀ e, outcome = .error e → h' = h) :
    h.Settles f call answer effect := by
  obtain ⟨h'', hends', hr', -⟩ := hfollows
  obtain ⟨rfl, rfl⟩ := Prod.mk.inj (hends'.unique hends)
  refine ⟨h'', hends', hr', ?_⟩
  cases answer with
  | ok g => exact hok rfl
  | error e => exact herror e rfl

namespace Represents

variable {f : Forest} {q c n r : NodeId}

theorem settles_append (hr : h.Represents f) (hq : f.Has q) (hc : f.HasElement c) :
    h.Settles f (fun depth ↦ h.append depth (.branch q) (.branch c)) (f.append q c) fun h' ↦
      h.Moved h' (.branch c) (.branch q)
        ((h.children (.branch q)).filter (· ≠ .branch c) ++ [.branch c]) := by
  obtain ⟨answer, h', hends, happends⟩ := hr.appends hq hc.1
  refine (hr.append hq hc).settles hends ?_ ?_
  · rintro rfl
    cases happends with
    | placed _ hmoved => exact hmoved
  · rintro e rfl
    cases happends with
    | hierarchy _ => rfl

theorem settles_insertBefore (hr : h.Represents f) (hq : f.Has q) (hn : f.HasElement n)
    (hr' : f.Has r) :
    h.Settles f (fun depth ↦ h.insertBefore depth (.branch q) (.branch n) (.branch r))
      (f.insertBefore q n r) fun h' ↦ (n = r → h' = h) ∧
        (n ≠ r → h.MovedBefore h' (.branch n) (.branch r) (.branch q)) := by
  obtain ⟨answer, h', hends, hinserts⟩ := hr.inserts (r := r) hq hn.1
  refine (hr.insertBefore hq hn hr').settles hends ?_ ?_
  · rintro rfl
    cases hinserts with
    | self hnr =>
      refine ⟨fun _ ↦ rfl, fun hne ↦ ?_⟩
      exact absurd (Ref.branch.inj hnr) hne
    | placed hnr _ _ hmoved =>
      refine ⟨fun heq ↦ ?_, fun _ ↦ hmoved⟩
      exact absurd (congrArg Ref.branch heq) hnr
  · rintro e rfl
    cases hinserts with
    | notAChild _ _ => rfl
    | hierarchy _ _ _ => rfl

theorem settles_before (hr : h.Represents f) (hr' : f.Has r) (hn : f.HasElement n) :
    h.Settles f (fun depth ↦ h.before depth (.branch r) (.branch n)) (f.before r n) fun h' ↦
      ∃ q, h.parent? (.branch r) = some (.branch q) ∧ (n = r → h' = h) ∧
        (n ≠ r → h.MovedBefore h' (.branch n) (.branch r) (.branch q)) := by
  have hparent := hr.parent?_eq hr'
  cases hq : f.parent? r with
  | none =>
    rw [hq] at hparent
    have hends :
        Ends (fun depth ↦ h.before depth (.branch r) (.branch n)) (.error .detached, h) := by
      refine ⟨0, fun depth _ ↦ ?_⟩
      simp only [Heap.before, hparent, Option.map_none]
    refine (hr.before hr' hn).settles hends ?_ ?_
    · intro hok
      cases hok
    · intro e _
      rfl
  | some q =>
    rw [hq] at hparent
    have hqf : f.Has q := hr.live_iff.1 (parent?_eq_some.1 hparent).2
    obtain ⟨h', hends, hr'', heffect⟩ := hr.settles_insertBefore hqf hn hr'
    have hbefore : f.before r n = f.insertBefore q n r := by
      rw [Forest.before, hq]
    rw [hbefore]
    refine ⟨h', ?_, hr'', ?_⟩
    · simpa only [Heap.before, hparent, Option.map_some] using hends
    · revert heffect
      cases f.insertBefore q n r with
      | ok g => exact fun heffect ↦ ⟨q, hparent, heffect⟩
      | error e => exact id

theorem settles_removeChild (hr : h.Represents f) (hc : f.Has c) :
    h.Settles f (fun _ ↦ some (h.removeChild (.branch q) (.branch c))) (f.removeChild q c)
      fun h' ↦ h.Removed h' (.branch c) (.branch q) := by
  by_cases hcq : h.parent? (.branch c) = some (.branch q)
  · have hremove : h.removeChild (.branch q) (.branch c) = (.ok (), h.detach (.branch c)) :=
      if_neg (not_not.2 hcq)
    refine (hr.removeChild hc).settles ⟨0, fun _ _ ↦ congrArg some hremove⟩ ?_ ?_
    · intro _
      exact hr.coherent.removed hcq
    · intro e herror
      cases herror
  · have hremove : h.removeChild (.branch q) (.branch c) = (.error .notAChild, h) := if_pos hcq
    refine (hr.removeChild hc).settles ⟨0, fun _ _ ↦ congrArg some hremove⟩ ?_ ?_
    · intro hok
      cases hok
    · intro e _
      rfl

end Represents

end Heap

/-- In every state that calls lead to, a call that moves a node either is refused and changes no
node, or puts the node where it says and changes nothing else; what is below the node goes with it.
When the place is looked up, after the node was taken out, it is always found. -/
theorem Reach.moves_settle {p : Page} {h : Heap} (hr : Reach p h) :
    (∀ q c, (Op.append q c).Legal p →
      h.Settles p.forest (fun depth ↦ h.append depth (.branch q) (.branch c))
        (p.forest.append q c) fun h' ↦ h.Moved h' (.branch c) (.branch q)
          ((h.children (.branch q)).filter (· ≠ .branch c) ++ [.branch c])) ∧
      (∀ q n r, (Op.insertBefore q n r).Legal p →
        h.Settles p.forest
          (fun depth ↦ h.insertBefore depth (.branch q) (.branch n) (.branch r))
          (p.forest.insertBefore q n r) fun h' ↦ (n = r → h' = h) ∧
            (n ≠ r → h.MovedBefore h' (.branch n) (.branch r) (.branch q))) ∧
      (∀ r n, (Op.before r n).Legal p →
        h.Settles p.forest (fun depth ↦ h.before depth (.branch r) (.branch n))
          (p.forest.before r n) fun h' ↦ ∃ q, h.parent? (.branch r) = some (.branch q) ∧
            (n = r → h' = h) ∧ (n ≠ r → h.MovedBefore h' (.branch n) (.branch r) (.branch q))) ∧
      (∀ q c, (Op.removeChild q c).Legal p →
        h.Settles p.forest (fun _ ↦ some (h.removeChild (.branch q) (.branch c)))
          (p.forest.removeChild q c) fun h' ↦ h.Removed h' (.branch c) (.branch q)) ∧
      ∀ q n r, n ≠ r → h.parent? r = some q → ((h.detach n).children q).idxOf? r ≠ none := by
  have hrep := hr.represents
  refine ⟨?_, ?_, ?_, ?_, ?_⟩
  · intro q c hl
    exact hrep.settles_append hl.1 hl.2
  · intro q n r hl
    exact hrep.settles_insertBefore hl.1 hl.2.1 hl.2.2.1
  · intro r n hl
    exact hrep.settles_before hl.1.1 hl.2
  · intro q c hl
    exact hrep.settles_removeChild hl.2.1
  · intro q n r hnr hrq hnone
    obtain ⟨pre, -, -, hindex⟩ := hrep.coherent.idxOf?_detach hnr hrq
    rw [hindex] at hnone
    cases hnone

def pairedItems : List Op :=
  [.create "ul", .create "li", .create "li", .append 0 1, .append 0 2]

theorem Reach.moves_settle_pairedItems :
    ∃ h h', Reach (pairedItems.foldl Op.onPage {}) h ∧
      h.children (.branch 0) = [.branch 1, .branch 2] ∧
      Ends (fun depth ↦ h.insertBefore depth (.branch 0) (.branch 2) (.branch 1)) (.ok (), h') ∧
      h'.children (.branch 0) = [.branch 2, .branch 1] ∧
      Ends (fun depth ↦ h.append depth (.branch 1) (.branch 0)) (.error .hierarchy, h) := by
  obtain ⟨h, hr⟩ := Reach.start.all pairedItems (by decide)
  obtain ⟨happend, hinsert, -⟩ := hr.moves_settle
  have hchildren : h.children (.branch 0) = [.branch 1, .branch 2] := by
    obtain ⟨-, ⟨hitems, -⟩, -⟩ := hr.represents.lists (i := 0) (by decide)
    have hbelow : ((pairedItems.foldl Op.onPage {}).forest.below 0).items =
        [.branch 1, .branch 2] := by decide
    rw [hbelow] at hitems
    obtain ⟨r, rs, hrs, hr₁, hrest⟩ := List.map_eq_cons_iff.1 hitems
    obtain ⟨s, ss, hss, hr₂, hend⟩ := List.map_eq_cons_iff.1 hrest
    rw [hrs, hss, Heap.item?_eq_branch.1 hr₁, Heap.item?_eq_branch.1 hr₂,
      List.map_eq_nil_iff.1 hend]
  obtain ⟨h', hends, -, hmoved⟩ := hinsert 0 2 1 (by decide)
  obtain ⟨h'', hrefused, -, hsame⟩ := happend 1 0 (by decide)
  have hunchanged : h'' = h := hsame
  rw [hunchanged] at hrefused
  refine ⟨h, h', hr, hchildren, hends, ?_, hrefused⟩
  obtain ⟨pre, post, hfilter, hm⟩ := hmoved.2 (by decide)
  rw [hchildren] at hfilter
  obtain ⟨rfl, rfl⟩ : pre = [] ∧ post = [] := by
    cases pre with
    | nil => exact ⟨rfl, (List.cons.inj hfilter).2.symm⟩
    | cons r pre => cases pre <;> cases hfilter
  exact hm.list

end LivePage
