import LivePage.Proofs.Linked.Moved

namespace LivePage

namespace Heap.Inserts

variable {h h' : Heap} {p n r : Ref} {answer : Except TreeError Unit}

theorem ok_iff (hi : h.Inserts p n r answer h') :
    answer = .ok () ↔ n = r ∨ h.parent? r = some p ∧ ¬h.Within p n := by
  cases hi with
  | self hnr => exact iff_of_true rfl (.inl hnr)
  | placed _ hrp hpn _ => exact iff_of_true rfl (.inr ⟨hrp, hpn⟩)
  | notAChild hnr hrp =>
    apply iff_of_false nofun
    rintro (heq | ⟨hchild, -⟩)
    · exact hnr heq
    · exact hrp hchild
  | hierarchy hnr _ hpn =>
    apply iff_of_false nofun
    rintro (heq | ⟨-, hout⟩)
    · exact hnr heq
    · exact hout hpn

theorem notAChild_iff (hi : h.Inserts p n r answer h') :
    answer = .error .notAChild ↔ n ≠ r ∧ h.parent? r ≠ some p := by
  cases hi with
  | notAChild hnr hrp => exact iff_of_true rfl ⟨hnr, hrp⟩
  | self hnr => exact iff_of_false nofun fun hc ↦ hc.1 hnr
  | hierarchy _ hrp _ | placed _ hrp _ _ => exact iff_of_false nofun fun hc ↦ hc.2 hrp

theorem hierarchy_iff (hi : h.Inserts p n r answer h') :
    answer = .error .hierarchy ↔ n ≠ r ∧ h.parent? r = some p ∧ h.Within p n := by
  cases hi with
  | hierarchy hnr hrp hpn => exact iff_of_true rfl ⟨hnr, hrp, hpn⟩
  | self hnr => exact iff_of_false nofun fun hc ↦ hc.1 hnr
  | notAChild _ hrp => exact iff_of_false nofun fun hc ↦ hrp hc.2.1
  | placed _ _ hpn _ => exact iff_of_false nofun fun hc ↦ hpn hc.2.2

theorem parent?_eq_iff (hi : h.Inserts p n r answer h') (hok : answer = .ok ()) :
    h'.parent? n = some p ↔ h.parent? r = some p := by
  cases hi with
  | self hnr => rw [hnr]
  | placed _ hrp _ hmoved =>
    obtain ⟨_, _, _, hm⟩ := hmoved
    exact iff_of_true hm.parent hrp
  | notAChild _ _ | hierarchy _ _ _ => cases hok

theorem eq_of_eq (hi : h.Inserts p n r answer h') (hnr : n = r) : h' = h := by
  cases hi with
  | self _ | notAChild _ _ | hierarchy _ _ _ => rfl
  | placed hne _ _ _ => exact absurd hnr hne

end Heap.Inserts

theorem Heap.Coherent.mem_children_iff {h : Heap} (hh : h.Coherent) {q c : Ref} :
    c ∈ h.children q ↔ h.parent? c = some q :=
  ⟨hh.parent_of_mem, hh.mem_of_parent⟩

/-- In every state that calls lead to, the answer tells how the nodes stood. A node that is to go in
front of another is accepted if that one is a child of the parent and the parent is not within the
node, and it is a child of the parent by then. One that is to go in front of itself is accepted
wherever it is, and stays there. -/
theorem Reach.insertBefore_answers {p : Page} {h : Heap} (hr : Reach p h) {q n r : NodeId}
    (hl : (Op.insertBefore q n r).Legal p) :
    ∃ answer h',
      Ends (fun depth ↦ h.insertBefore depth (.branch q) (.branch n) (.branch r)) (answer, h') ∧
      (p.forest.insertBefore q n r).map (fun _ ↦ ()) = answer ∧
      (answer = .ok () ↔
        n = r ∨ h.parent? (.branch r) = some (.branch q) ∧ ¬h.Within (.branch q) (.branch n)) ∧
      (answer = .error .notAChild ↔ n ≠ r ∧ h.parent? (.branch r) ≠ some (.branch q)) ∧
      (answer = .error .hierarchy ↔
        n ≠ r ∧ h.parent? (.branch r) = some (.branch q) ∧ h.Within (.branch q) (.branch n)) ∧
      (answer = .ok () →
        (.branch n ∈ h'.children (.branch q) ↔ .branch r ∈ h.children (.branch q))) ∧
      (n = r → h' = h) := by
  obtain ⟨answer, h', hends, hi⟩ := hr.represents.inserts (r := r) hl.1 hl.2.1.1
  obtain ⟨h'', hends', hr', -⟩ := hr.represents.insertBefore hl.1 hl.2.1 hl.2.2.1
  obtain ⟨hanswer, rfl⟩ := Prod.mk.inj (hends'.unique hends)
  have hbranch : Ref.branch n = .branch r ↔ n = r := ⟨Ref.branch.inj, congrArg Ref.branch⟩
  refine ⟨answer, h'', hends, hanswer, ?_, ?_, ?_, ?_, ?_⟩
  · rw [hi.ok_iff, hbranch]
  · rw [hi.notAChild_iff, ne_eq, hbranch]
  · rw [hi.hierarchy_iff, ne_eq, hbranch]
  · intro hok
    rw [hr'.coherent.mem_children_iff, hr.represents.coherent.mem_children_iff]
    exact hi.parent?_eq_iff hok
  · intro hnr
    exact hi.eq_of_eq (hbranch.2 hnr)

theorem Reach.insertBefore_answers_pairedItems :
    ∃ h, Reach (pairedItems.foldl Op.onPage {}) h ∧
      (∃ h', Ends (fun depth ↦ h.insertBefore depth (.branch 0) (.branch 2) (.branch 1))
          (.ok (), h') ∧ Ref.branch 2 ∈ h'.children (.branch 0)) ∧
      (∃ h', Ends (fun depth ↦ h.insertBefore depth (.branch 1) (.branch 0) (.branch 2))
        (.error .notAChild, h')) ∧
      ∃ h', Ends (fun depth ↦ h.insertBefore depth (.branch 0) (.branch 0) (.branch 2))
        (.error .hierarchy, h') := by
  obtain ⟨h, hr⟩ := Reach.start.all pairedItems (by decide)
  have hparent : h.parent? (.branch 1) = some (.branch 0) :=
    hr.represents.parent?_eq (c := 1) (by decide)
  refine ⟨h, hr, ?_, ?_, ?_⟩
  · obtain ⟨_, h', hends, rfl, -, -, -, hplaced, -⟩ :=
      hr.insertBefore_answers (q := 0) (n := 2) (r := 1) (by decide)
    refine ⟨h', hends, (hplaced (by decide)).2 ?_⟩
    exact hr.represents.coherent.mem_of_parent hparent
  · obtain ⟨_, h', hends, rfl, -⟩ :=
      hr.insertBefore_answers (q := 1) (n := 0) (r := 2) (by decide)
    exact ⟨h', hends⟩
  · obtain ⟨_, h', hends, rfl, -⟩ :=
      hr.insertBefore_answers (q := 0) (n := 0) (r := 2) (by decide)
    exact ⟨h', hends⟩

/-- A node without a parent is accepted in front of itself, below any other, and is not put
there. -/
theorem Reach.insertBefore_accepts_loose :
    ∃ h, Reach (([.create "ul", .create "li"] : List Op).foldl Op.onPage {}) h ∧
      h.parent? (.branch 1) = none ∧ h.children (.branch 0) = [] ∧
      Ends (fun depth ↦ h.insertBefore depth (.branch 0) (.branch 1) (.branch 1)) (.ok (), h) := by
  obtain ⟨h, hr⟩ := Reach.start.all [.create "ul", .create "li"] (by decide)
  refine ⟨h, hr, ?_, ?_, 0, fun depth _ ↦ ?_⟩
  · exact hr.represents.parent?_eq (c := 1) (by decide)
  · obtain ⟨-, ⟨hitems, -⟩, -⟩ := hr.represents.lists (i := 0) (by decide)
    exact List.map_eq_nil_iff.1 hitems
  · simp only [Heap.insertBefore, if_true]

end LivePage
