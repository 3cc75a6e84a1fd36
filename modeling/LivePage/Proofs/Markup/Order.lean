import LivePage.Markup.Walk
import LivePage.Proofs.Markup.Frame

namespace LivePage.Markup

variable {ι : Type}

namespace Nodes

def listed : Nodes ι → List (ι × Label)
  | nil => []
  | text _ rest | comment _ rest => rest.listed
  | branch i l below rest => (i, l) :: (below.listed ++ rest.listed)

theorem map_listed (r : Nodes ι) : r.listed.map (·.1) = r.ids := by
  induction r with
  | nil => rfl
  | text s rest ih => exact ih
  | comment s rest ih => exact ih
  | branch i l below rest ihb ihr =>
    rw [listed, List.map_cons, List.map_append, ihb, ihr, ids]

theorem walk_eq (rows : List (Nodes ι)) : walk rows = rows.flatMap listed := by
  fun_induction walk rows with
  | case1 => rfl
  | case2 rows ih => exact ih
  | case3 s rest rows ih | case4 s rest rows ih => exact ih
  | case5 i l below rest rows ih =>
    simp only [ih, List.flatMap_cons, listed, List.cons_append, List.append_assoc]

theorem descendants_eq (row : Nodes ι) : row.descendants = row.listed := by
  rw [descendants, walk_eq, List.flatMap_cons, List.flatMap_nil, List.append_nil]

end Nodes

namespace Frame

/-- The nodes that come before the row in the frame: those it is below, and all next to these that
stand in front. -/
def front : Frame ι → List (ι × Label)
  | hole => []
  | text _ rest | comment _ rest => rest.front
  | after i l below rest => (i, l) :: (below.listed ++ rest.front)
  | within i l below _ => (i, l) :: below.front

theorem listed_fill (F : Frame ι) (r : Nodes ι) :
    ∃ later, (F.fill r).listed = F.front ++ (r.listed ++ later) := by
  induction F with
  | hole => exact ⟨[], (List.append_nil _).symm⟩
  | text s F ih | comment s F ih => exact ih
  | after i l below F ih =>
    obtain ⟨later, hF⟩ := ih
    refine ⟨later, ?_⟩
    rw [fill, Nodes.listed, front, hF, List.cons_append, List.append_assoc]
  | within i l F rest ih =>
    obtain ⟨later, hF⟩ := ih
    refine ⟨later ++ rest.listed, ?_⟩
    rw [fill, Nodes.listed, front, hF, List.cons_append, List.append_assoc, List.append_assoc]

end Frame

namespace Nodes

variable {P : ι × Label → Bool} {i : ι} {l : Label}

/-- The first node with a property stands behind nodes that do not have it. -/
theorem exists_fill_of_first {r : Nodes ι} (h : r.listed.find? P = some (i, l)) :
    ∃ (G : Frame ι) (b rest : Nodes ι), r = G.fill (.branch i l b rest) ∧
      ∀ e ∈ G.front, P e = false := by
  induction r with
  | nil => cases h
  | text s rest ih =>
    obtain ⟨G, b, c, hr, hG⟩ := ih h
    exact ⟨.text s G, b, c, congrArg _ hr, hG⟩
  | comment s rest ih =>
    obtain ⟨G, b, c, hr, hG⟩ := ih h
    exact ⟨.comment s G, b, c, congrArg _ hr, hG⟩
  | branch j lj below rest ihb ihr =>
    rw [listed] at h
    cases hj : P (j, lj) with
    | true =>
      rw [List.find?_cons_of_pos hj] at h
      cases h
      exact ⟨.hole, below, rest, rfl, nofun⟩
    | false =>
      rw [List.find?_cons_of_neg (Bool.eq_false_iff.1 hj), List.find?_append] at h
      cases hbelow : below.listed.find? P with
      | some e =>
        rw [hbelow, Option.some_or] at h
        obtain ⟨G, b, c, hr, hG⟩ := ihb (hbelow.trans h)
        refine ⟨.within j lj G rest, b, c, by rw [Frame.fill, ← hr], ?_⟩
        exact List.forall_mem_cons.2 ⟨hj, hG⟩
      | none =>
        rw [hbelow, Option.none_or] at h
        obtain ⟨G, b, c, hr, hG⟩ := ihr h
        refine ⟨.after j lj below G, b, c, congrArg _ hr, ?_⟩
        refine List.forall_mem_cons.2 ⟨hj, List.forall_mem_append.2 ⟨?_, hG⟩⟩
        intro e he
        exact Bool.eq_false_iff.2 (List.find?_eq_none.1 hbelow e he)

theorem find?_listed_fill {G : Frame ι} {b rest : Nodes ι} (hG : ∀ e ∈ G.front, P e = false)
    (h : P (i, l) = true) : (G.fill (.branch i l b rest)).listed.find? P = some (i, l) := by
  obtain ⟨later, hlisted⟩ := G.listed_fill (.branch i l b rest)
  have hnone : G.front.find? P = none :=
    List.find?_eq_none.2 fun e he ↦ Bool.eq_false_iff.1 (hG e he)
  rw [hlisted, List.find?_append, hnone, Option.none_or, listed, List.cons_append,
    List.find?_cons_of_pos h]

end Nodes

end LivePage.Markup
