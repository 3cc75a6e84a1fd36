import LivePage.Markup.Parsing
import LivePage.Proofs.Markup.Entries

namespace LivePage.Markup.Nodes

variable {ι : Type} {P : ι → Label → Prop}

def Labelled (P : ι → Label → Prop) : Nodes ι → Prop
  | nil => True
  | text _ rest | comment _ rest => rest.Labelled P
  | branch i l below rest => P i l ∧ below.Labelled P ∧ rest.Labelled P

@[simp] theorem labelled_append (a b : Nodes ι) :
    (a ++ b).Labelled P ↔ a.Labelled P ∧ b.Labelled P := by
  induction a with
  | nil => exact (iff_of_eq (true_and _)).symm
  | text s rest ih => exact ih
  | comment s rest ih => exact ih
  | branch i l below rest _ ih => simp only [branch_append, Labelled, ih, and_assoc]

@[simp] theorem labelled_branchesOnly (r : Nodes ι) :
    r.branchesOnly.Labelled P ↔ r.Labelled P := by
  induction r with
  | nil => rfl
  | text s rest ih => exact ih
  | comment s rest ih => exact ih
  | branch i l below rest _ ih => simp only [branchesOnly, Labelled, ih]

theorem labelled_iff (t : Nodes ι) : t.Labelled P ↔ ∀ e ∈ t.subtrees, P e.1 e.2.1 := by
  induction t with
  | nil => exact ⟨fun _ ↦ nofun, fun _ ↦ trivial⟩
  | text s rest ih => exact ih
  | comment s rest ih => exact ih
  | branch i l below rest ihb ihr =>
    rw [Labelled, subtrees, List.forall_mem_cons, List.forall_mem_append, ihb, ihr]

theorem labelled_iff_find? [DecidableEq ι] {t : Nodes ι} (hn : t.ids.Nodup) :
    t.Labelled P ↔ ∀ i l below, t.find? i = some (l, below) → P i l := by
  rw [labelled_iff]
  simp only [find?_eq_some_iff hn, Prod.forall]

theorem Labelled.mono {P' : ι → Label → Prop} {t : Nodes ι} (h : t.Labelled P)
    (hP : ∀ i l, P i l → P' i l) : t.Labelled P' := by
  rw [labelled_iff] at h ⊢
  exact fun e he ↦ hP e.1 e.2.1 (h e he)

theorem labelled_ofText (s : String) : (ofText s : Nodes ι).Labelled P := by
  unfold ofText
  split <;> trivial

theorem labelled_of_forall (h : ∀ i l, P i l) (r : Nodes ι) : r.Labelled P := by
  induction r with
  | nil => trivial
  | text s rest ih => exact ih
  | comment s rest ih => exact ih
  | branch i l below rest ihb ihr => exact ⟨h i l, ihb, ihr⟩

section

variable {Q R : Label → Prop} {r : Nodes ι}

theorem Labelled.numbered (h : r.Labelled fun _ ↦ Q) {P : Nat → Label → Prop} {n : Nat}
    (hP : ∀ i, n ≤ i → ∀ l, Q l → P i l) : (r.numbered n).Labelled P := by
  induction r generalizing n with
  | nil => trivial
  | text s rest ih => exact ih h hP
  | comment s rest ih => exact ih h hP
  | branch i l below rest ihb ihr =>
    exact ⟨hP n le_rfl l h.1, ihb h.2.1 fun i hi ↦ hP i (by omega),
      ihr h.2.2 fun i hi ↦ hP i (by omega)⟩

theorem Labelled.copied (h : r.Labelled fun _ ↦ Q)
    (hcopy : ∀ tag attributes, Q (.element tag attributes) →
      R (.element (Text.lower tag) (attributes.map fun a ↦ .ofPair a.name a.value))) :
    r.copied.Labelled fun _ ↦ R := by
  induction r with
  | nil => trivial
  | text s rest ih => exact ih h
  | comment s rest ih => exact ih h
  | branch i l below rest ihb ihr =>
    cases l with
    | document => exact ihr h.2.2
    | element tag attributes => exact ⟨hcopy tag attributes h.1, ihb h.2.1, ihr h.2.2⟩

end

theorem Labelled.appendText {r : Nodes ι} (h : r.Labelled P) (s : String) :
    (r.appendText s).Labelled P := by
  induction r with
  | nil => trivial
  | text t rest ih =>
    cases rest with
    | nil => trivial
    | text | comment | branch => exact ih h
  | comment t rest ih => exact ih h
  | branch j l below rest _ ih => exact ⟨h.1, h.2.1, ih h.2.2⟩

section Edits

variable [DecidableEq ι] {i : ι} {t : Nodes ι}

theorem Labelled.find? (h : t.Labelled P) {l : Label} {below : Nodes ι}
    (hf : t.find? i = some (l, below)) : P i l ∧ below.Labelled P := by
  induction t with
  | nil => cases hf
  | text s rest ih => exact ih h hf
  | comment s rest ih => exact ih h hf
  | branch j lj belowj rest ihb ihr =>
    rw [Nodes.find?] at hf
    split at hf
    · next hj =>
      obtain ⟨rfl, rfl⟩ := Prod.mk.inj (Option.some.inj hf)
      exact ⟨hj ▸ h.1, h.2.1⟩
    · rcases Option.or_eq_some_iff.1 hf with hf | ⟨-, hf⟩
      · exact ihb h.2.1 hf
      · exact ihr h.2.2 hf

theorem Labelled.relabel (h : t.Labelled P) {change : Label → Label}
    (hchange : ∀ l, P i l → P i (change l)) : (t.relabel i change).Labelled P := by
  induction t with
  | nil => trivial
  | text s rest ih => exact ih h
  | comment s rest ih => exact ih h
  | branch j l below rest ihb ihr =>
    rw [Nodes.relabel]
    split
    · next hj =>
      subst hj
      exact ⟨hchange l h.1, h.2⟩
    · exact ⟨h.1, ihb h.2.1, ihr h.2.2⟩

theorem Labelled.updateBelow (h : t.Labelled P) {change : Nodes ι → Nodes ι}
    (hchange : ∀ r : Nodes ι, r.Labelled P → (change r).Labelled P) :
    (t.updateBelow i change).Labelled P := by
  induction t with
  | nil => trivial
  | text s rest ih => exact ih h
  | comment s rest ih => exact ih h
  | branch j l below rest ihb ihr =>
    rw [Nodes.updateBelow]
    split
    · exact ⟨h.1, hchange below h.2.1, h.2.2⟩
    · exact ⟨h.1, ihb h.2.1, ihr h.2.2⟩

theorem Labelled.erase (h : t.Labelled P) : (t.erase i).Labelled P := by
  induction t with
  | nil => trivial
  | text s rest ih => exact ih h
  | comment s rest ih => exact ih h
  | branch j l below rest ihb ihr =>
    rw [Nodes.erase]
    split
    · exact h.2.2
    · exact ⟨h.1, ihb h.2.1, ihr h.2.2⟩

theorem Labelled.insertBefore (h : t.Labelled P) {row : Nodes ι} (hrow : row.Labelled P) :
    (t.insertBefore i row).Labelled P := by
  induction t with
  | nil => trivial
  | text s rest ih => exact ih h
  | comment s rest ih => exact ih h
  | branch j l below rest ihb ihr =>
    rw [Nodes.insertBefore]
    split
    · exact (labelled_append _ _).2 ⟨hrow, h⟩
    · exact ⟨h.1, ihb h.2.1, ihr h.2.2⟩

theorem Labelled.insertTextBefore (h : t.Labelled P) (s : String) :
    (t.insertTextBefore i s).Labelled P := by
  fun_induction Nodes.insertTextBefore i s t with
  | case1 => trivial
  | case2 | case6 => exact h
  | case3 t j l below rest _ ihb ihr | case7 j l below rest _ ihb ihr =>
    exact ⟨h.1, ihb h.2.1, ihr h.2.2⟩
  | case4 t rest _ ih => exact ih h
  | case5 t rest ih => exact ih h

end Edits

end LivePage.Markup.Nodes
