import LivePage.Markup.Parsing
import LivePage.Markup.Writing
import Mathlib.Data.List.Range

namespace LivePage.Markup.Nodes

variable {ι κ : Type}

@[simp] theorem nil_append (ns : Nodes ι) : nil ++ ns = ns := rfl

@[simp] theorem text_append (s : String) (rest ns : Nodes ι) :
    text s rest ++ ns = text s (rest ++ ns) := rfl

@[simp] theorem comment_append (s : String) (rest ns : Nodes ι) :
    comment s rest ++ ns = comment s (rest ++ ns) := rfl

@[simp] theorem branch_append (i : ι) (l : Label) (below rest ns : Nodes ι) :
    branch i l below rest ++ ns = branch i l below (rest ++ ns) := rfl

@[simp] theorem append_nil (ns : Nodes ι) : ns ++ nil = ns := by
  induction ns with
  | nil => rfl
  | text s rest ih => rw [text_append, ih]
  | comment s rest ih => rw [comment_append, ih]
  | branch i l below rest _ ih => rw [branch_append, ih]

theorem append_assoc (a b c : Nodes ι) : a ++ b ++ c = a ++ (b ++ c) := by
  induction a with
  | nil => rfl
  | text s rest ih => simp only [text_append, ih]
  | comment s rest ih => simp only [comment_append, ih]
  | branch i l below rest _ ih => simp only [branch_append, ih]

@[simp] theorem ids_append (a b : Nodes ι) : (a ++ b).ids = a.ids ++ b.ids := by
  induction a with
  | nil => rfl
  | text s rest ih => exact ih
  | comment s rest ih => exact ih
  | branch i l below rest _ ih =>
    simp only [branch_append, ids, ih, List.cons_append, List.append_assoc]

@[simp] theorem branchCount_append (a b : Nodes ι) :
    (a ++ b).branchCount = a.branchCount + b.branchCount := by
  induction a with
  | nil => simp only [nil_append, branchCount, Nat.zero_add]
  | text s rest ih => exact ih
  | comment s rest ih => exact ih
  | branch i l below rest _ ih => simp only [branch_append, branchCount, ih]; omega

@[simp] theorem plain_append (a b : Nodes ι) : (a ++ b).plain = a.plain ++ b.plain := by
  induction a with
  | nil => rfl
  | text s rest ih => exact congrArg (text s) ih
  | comment s rest ih => exact congrArg (comment s) ih
  | branch i l below rest _ ih => simp only [branch_append, plain, ih]

@[simp] theorem ids_ofText (s : String) : (ofText s : Nodes ι).ids = [] := by
  unfold ofText
  split <;> rfl

@[simp] theorem numbered_ofText (s : String) (n : Nat) :
    (ofText s : Nodes ι).numbered n = ofText s := by
  unfold ofText
  split <;> rfl

@[simp] theorem branchCount_ofText (s : String) : (ofText s : Nodes ι).branchCount = 0 := by
  unfold ofText
  split <;> rfl

@[simp] theorem textContent_ofText (s : String) : (ofText s : Nodes ι).textContent = s := by
  unfold ofText
  split
  · next h => rw [h, textContent]
  · exact String.append_empty

@[simp] theorem elementCount_ofText (s : String) : (ofText s : Nodes ι).elementCount = 0 := by
  unfold ofText
  split <;> rfl

theorem branchesOnly_eq_nil {r : Nodes ι} (h : r.ids = []) : r.branchesOnly = nil := by
  induction r with
  | nil => rfl
  | text s rest ih => exact ih h
  | comment s rest ih => exact ih h
  | branch i l below rest _ _ => cases h

theorem mem_ids_of_mem_branches {r : Nodes ι} {e : ι × Label × Nodes ι} (h : e ∈ r.branches) :
    e.1 ∈ r.ids := by
  induction r with
  | nil => cases h
  | text s rest ih => exact ih h
  | comment s rest ih => exact ih h
  | branch i l below rest _ ih =>
    simp only [branches, List.mem_cons] at h
    rcases h with rfl | h
    · exact List.mem_cons_self
    · exact List.mem_cons_of_mem _ (List.mem_append_right _ (ih h))

@[simp] theorem length_ids (r : Nodes ι) : r.ids.length = r.branchCount := by
  induction r with
  | nil => rfl
  | text s rest ih => exact ih
  | comment s rest ih => exact ih
  | branch i l below rest ihb ihr =>
    simp only [ids, List.length_cons, List.length_append, ihb, ihr, branchCount]
    omega

theorem ids_numbered (r : Nodes ι) (n : Nat) :
    (r.numbered n).ids = List.range' n r.branchCount := by
  induction r generalizing n with
  | nil => rfl
  | text s rest ih => exact ih n
  | comment s rest ih => exact ih n
  | branch i l below rest ihb ihr =>
    simp only [numbered, ids, ihb, ihr, branchCount, List.range'_append_1]
    rw [← List.range'_succ]
    congr 1
    omega

@[simp] theorem plain_numbered (r : Nodes Unit) (n : Nat) : (r.numbered n).plain = r := by
  induction r generalizing n with
  | nil => rfl
  | text s rest ih => exact congrArg (text s) (ih n)
  | comment s rest ih => exact congrArg (comment s) (ih n)
  | branch i l below rest ihb ihr => simp only [numbered, plain, ihb, ihr]

@[simp] theorem plain_plain (r : Nodes ι) : r.plain.plain = r.plain := by
  induction r with
  | nil => rfl
  | text s rest ih => exact congrArg (text s) ih
  | comment s rest ih => exact congrArg (comment s) ih
  | branch i l below rest ihb ihr => simp only [plain, ihb, ihr]

@[simp] theorem plain_ofText (s : String) : (ofText s : Nodes ι).plain = ofText s := by
  unfold ofText
  split <;> rfl

def map (g : ι → κ) : Nodes ι → Nodes κ
  | nil => nil
  | text s rest => text s (rest.map g)
  | comment s rest => comment s (rest.map g)
  | branch i l below rest => branch (g i) l (below.map g) (rest.map g)

@[simp] theorem ids_map (g : ι → κ) (r : Nodes ι) : (r.map g).ids = r.ids.map g := by
  induction r with
  | nil => rfl
  | text s rest ih => exact ih
  | comment s rest ih => exact ih
  | branch i l below rest ihb ihr =>
    simp only [map, ids, ihb, ihr, List.map_cons, List.map_append]

@[simp] theorem map_append (g : ι → κ) (a b : Nodes ι) : (a ++ b).map g = a.map g ++ b.map g := by
  induction a with
  | nil => rfl
  | text s rest ih => exact congrArg (text s) ih
  | comment s rest ih => exact congrArg (comment s) ih
  | branch i l below rest _ ih => simp only [branch_append, map, ih]

@[simp] theorem plain_map (g : ι → κ) (r : Nodes ι) : (r.map g).plain = r.plain := by
  induction r with
  | nil => rfl
  | text s rest ih => exact congrArg (text s) ih
  | comment s rest ih => exact congrArg (comment s) ih
  | branch i l below rest ihb ihr => simp only [map, plain, ihb, ihr]

@[simp] theorem textContent_plain (r : Nodes ι) : r.plain.textContent = r.textContent := by
  induction r with
  | nil => rfl
  | text s rest ih => exact congrArg (s ++ ·) ih
  | comment s rest ih => exact ih
  | branch i l below rest ihb ihr => simp only [plain, textContent, ihb, ihr]

@[simp] theorem elementCount_plain (r : Nodes ι) : r.plain.elementCount = r.elementCount := by
  induction r with
  | nil => rfl
  | text s rest ih => exact ih
  | comment s rest ih => exact ih
  | branch i l below rest _ ih => simp only [plain, elementCount, ih]

@[simp] theorem writeWith_plain (raw : Bool) (r : Nodes ι) :
    r.plain.writeWith raw = r.writeWith raw := by
  induction r generalizing raw with
  | nil => rfl
  | text s rest ih => simp only [plain, writeWith, ih]
  | comment s rest ih => simp only [plain, writeWith, ih]
  | branch i l below rest ihb ihr => cases l <;> simp only [plain, writeWith, ihb, ihr]

@[simp] theorem inner_plain (l : Label) (r : Nodes ι) : inner l r.plain = inner l r :=
  writeWith_plain _ r

def OnlyElements : Nodes ι → Prop
  | nil => True
  | text _ rest | comment _ rest => rest.OnlyElements
  | branch _ l below rest => l.isElement = true ∧ below.OnlyElements ∧ rest.OnlyElements

def decideOnlyElements : (r : Nodes ι) → Decidable r.OnlyElements
  | nil => .isTrue trivial
  | text _ rest | comment _ rest => decideOnlyElements rest
  | branch _ l below rest =>
    let _ := decideOnlyElements below
    let _ := decideOnlyElements rest
    inferInstanceAs (Decidable (l.isElement = true ∧ below.OnlyElements ∧ rest.OnlyElements))

instance (r : Nodes ι) : Decidable r.OnlyElements := decideOnlyElements r

@[simp] theorem onlyElements_append (a b : Nodes ι) :
    (a ++ b).OnlyElements ↔ a.OnlyElements ∧ b.OnlyElements := by
  induction a with
  | nil => simp only [nil_append, OnlyElements, true_and]
  | text s rest ih => exact ih
  | comment s rest ih => exact ih
  | branch i l below rest _ ih => simp only [branch_append, OnlyElements, ih, and_assoc]

@[simp] theorem onlyElements_numbered (r : Nodes ι) (n : Nat) :
    (r.numbered n).OnlyElements ↔ r.OnlyElements := by
  induction r generalizing n with
  | nil => rfl
  | text s rest ih => exact ih n
  | comment s rest ih => exact ih n
  | branch i l below rest ihb ihr => simp only [numbered, OnlyElements, ihb, ihr]

@[simp] theorem onlyElements_branchesOnly (r : Nodes ι) :
    r.branchesOnly.OnlyElements ↔ r.OnlyElements := by
  induction r with
  | nil => rfl
  | text s rest ih => exact ih
  | comment s rest ih => exact ih
  | branch i l below rest _ ih => simp only [branchesOnly, OnlyElements, ih]

@[simp] theorem onlyElements_ofText (s : String) : (ofText s : Nodes ι).OnlyElements := by
  unfold ofText
  split <;> trivial

theorem onlyElements_copied (r : Nodes ι) : r.copied.OnlyElements := by
  induction r with
  | nil => trivial
  | text s rest ih => exact ih
  | comment s rest ih => exact ih
  | branch i l below rest ihb ihr =>
    cases l with
    | document => exact ihr
    | element tag attributes => exact ⟨rfl, ihb, ihr⟩

/-- Documents occur in the row itself only. -/
def Rooted : Nodes ι → Prop
  | nil => True
  | text _ rest | comment _ rest => rest.Rooted
  | branch _ _ below rest => below.OnlyElements ∧ rest.Rooted

def decideRooted : (r : Nodes ι) → Decidable r.Rooted
  | nil => .isTrue trivial
  | text _ rest | comment _ rest => decideRooted rest
  | branch _ _ below rest =>
    let _ := decideRooted rest
    inferInstanceAs (Decidable (below.OnlyElements ∧ rest.Rooted))

instance (r : Nodes ι) : Decidable r.Rooted := decideRooted r

theorem OnlyElements.rooted {t : Nodes ι} (h : t.OnlyElements) : t.Rooted := by
  induction t with
  | nil => trivial
  | text s rest ih => exact ih h
  | comment s rest ih => exact ih h
  | branch i l below rest _ ih => exact ⟨h.2.1, ih h.2.2⟩

@[simp] theorem rooted_append (a b : Nodes ι) : (a ++ b).Rooted ↔ a.Rooted ∧ b.Rooted := by
  induction a with
  | nil => simp only [nil_append, Rooted, true_and]
  | text s rest ih => exact ih
  | comment s rest ih => exact ih
  | branch i l below rest _ ih => simp only [branch_append, Rooted, ih, and_assoc]

theorem ids_eq_nil_of_elementCount {r : Nodes ι} (h : r.OnlyElements)
    (h₀ : ¬ 0 < r.elementCount) : r.ids = [] := by
  induction r with
  | nil => rfl
  | text s rest ih => exact ih h h₀
  | comment s rest ih => exact ih h h₀
  | branch i l below rest _ _ => simp only [elementCount, h.1, if_true] at h₀; omega

end Nodes

theorem onlyElements_readFragment (context source : String) :
    (readFragment context source).OnlyElements := by
  simp only [readFragment]
  split
  · exact Nodes.onlyElements_copied _
  · trivial

theorem onlyElements_readPage (source : String) : (readPage source).OnlyElements := by
  simp only [readPage]
  split
  · exact Nodes.onlyElements_copied _
  · trivial

end LivePage.Markup
