import LivePage.Proofs.Markup.Normal
import LivePage.Proofs.Template.Transform

namespace LivePage.Template

open Markup

variable {ι : Type} (data : Data)

theorem normal_transform_consText (row : Nodes ι) (s : String) :
    (transform data (row.consText s)).normal = (transform data row).normal.consText s := by
  rcases row.bare_or with h | ⟨t, rest, rfl⟩
  · rw [Nodes.consText_of_bare h]
    by_cases hs : s = ""
    · rw [if_pos hs, hs, Nodes.consText_empty]
    · rw [if_neg hs, transform, Nodes.normal]
  · rw [Nodes.consText, transform, transform, Nodes.normal, Nodes.normal, Nodes.consText_consText]

theorem normal_fillLeaf (below : Nodes ι) :
    (fillLeaf data below.normal).normal = (fillLeaf data below).normal := by
  unfold fillLeaf
  rw [Nodes.textContent_normal]
  dsimp only
  split
  · rfl
  · exact below.normal_normal

theorem normal_transform (row : Nodes ι) :
    (transform data row.normal).normal = (transform data row).normal := by
  induction row with
  | nil => rfl
  | text s rest ih => rw [Nodes.normal, normal_transform_consText, ih, transform, Nodes.normal]
  | comment s rest ih => exact congrArg (Nodes.comment s) ih
  | branch i l below rest ihb ihr =>
    rw [Nodes.normal, transform, transform,
      standIns?_congr data l (Nodes.textContent_normal below), Nodes.elementCount_normal,
      Nodes.normal_append_congr _ ihr]
    refine Nodes.normal_append_congr_left ?_ _
    cases standIns? data l below with
    | some elements => rfl
    | none =>
      refine congrArg (Nodes.branch (some i) l · .nil) ?_
      split
      · exact ihb
      · rw [Nodes.normal_map, normal_fillLeaf, Nodes.normal_map]

theorem reportsIn_consText (row : Nodes ι) (s : String) :
    reportsIn data (row.consText s) = reportsIn data row := by
  rcases row.bare_or with h | ⟨t, rest, rfl⟩
  · rw [Nodes.consText_of_bare h]
    split <;> rfl
  · rfl

theorem reportsIn_normal (row : Nodes ι) : reportsIn data row.normal = reportsIn data row := by
  induction row with
  | nil => rfl
  | text s rest ih => rw [Nodes.normal, reportsIn_consText, ih, reportsIn]
  | comment s rest ih => exact ih
  | branch i l below rest ihb ihr =>
    have htext := Nodes.textContent_normal below
    rw [Nodes.normal, reportsIn, standIns?_congr data l htext, failures_congr data l htext, ihb, ihr,
      reportsIn]

variable {row row' : Nodes ι}

/-- Templates that differ in how their texts are cut give the same markup. -/
theorem inner_transform_congr (h : row.normal = row'.normal) (l : Label) :
    Nodes.inner l (transform data row) = Nodes.inner l (transform data row') := by
  rw [Nodes.inner, ← Nodes.writeWith_normal, ← normal_transform, h, normal_transform,
    Nodes.writeWith_normal, Nodes.inner]

theorem reportsIn_congr (h : row.normal = row'.normal) :
    reportsIn data row = reportsIn data row' := by
  rw [← reportsIn_normal, h, reportsIn_normal]

end LivePage.Template
