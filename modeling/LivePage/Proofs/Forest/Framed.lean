import LivePage.Proofs.Markup.Frame
import LivePage.Template.Expansion

namespace LivePage

open Markup

theorem Markup.Frame.owner_mem {ι : Type} {F : Frame ι} {p : ι} (h : F.owner = some p) :
    p ∈ F.ids := by
  induction F with
  | hole => cases h
  | text s rest ih => exact ih h
  | comment s rest ih => exact ih h
  | after i l below rest ih => exact List.mem_cons_of_mem _ (List.mem_append_right _ (ih h))
  | within i l below rest ih =>
    rw [owner, Option.or_eq_some_iff] at h
    rcases h with h | ⟨-, h⟩
    · exact List.mem_cons_of_mem _ (List.mem_append_left _ (ih h))
    · obtain rfl := Option.some.inj h
      exact List.mem_cons_self

namespace Forest

variable {f : Forest} {F : Frame Nat} {i : Nat} {l : Label} {below rest : Nodes Nat} {n : Nat}

theorem label_eq (h : f.node? i = some (l, below)) : f.label i = l := by
  rw [label, h]
  rfl

theorem below_eq (h : f.node? i = some (l, below)) : f.below i = below := by
  rw [Forest.below, h]
  rfl

theorem below_congr {g : Forest} (h : g.node? i = f.node? i) : g.below i = f.below i := by
  rw [Forest.below, h, Forest.below]

theorem subtree_eq (h : f.node? i = some (l, below)) : f.subtree i = .branch i l below .nil := by
  rw [subtree, h]

theorem node?_fill (h : i ∉ F.ids) :
    (⟨F.fill (.branch i l below rest), n⟩ : Forest).node? i = some (l, below) := by
  simp only [node?, Frame.find?_fill h, Nodes.find?, if_true]

theorem label_fill (h : i ∉ F.ids) :
    (⟨F.fill (.branch i l below rest), n⟩ : Forest).label i = l :=
  label_eq (node?_fill h)

theorem below_fill (h : i ∉ F.ids) :
    (⟨F.fill (.branch i l below rest), n⟩ : Forest).below i = below :=
  below_eq (node?_fill h)

theorem subtree_fill (h : i ∉ F.ids) :
    (⟨F.fill (.branch i l below rest), n⟩ : Forest).subtree i = .branch i l below .nil :=
  subtree_eq (node?_fill h)

theorem parent?_fill {p : Nat} (h : i ∉ F.ids) (ho : F.owner = some p) :
    (⟨F.fill (.branch i l below rest), n⟩ : Forest).parent? i = some p :=
  Frame.parent?_fill h ho (by simp only [Nodes.branches, List.any_cons, decide_true, Bool.true_or])

theorem remove_fill {p : Nat} (h : i ∉ F.ids) (ho : F.owner = some p) :
    (⟨F.fill (.branch i l below rest), n⟩ : Forest).remove i =
      ⟨.branch i l below (F.fill rest), n⟩ := by
  rw [remove, parent?_fill h ho, Option.isSome_some, if_pos rfl, subtree_fill h,
    Frame.erase_fill h, Nodes.erase, if_pos rfl]
  rfl

theorem setContent_fill (h : i ∉ F.ids) (row : Nodes Unit) :
    (⟨F.fill (.branch i l below rest), n⟩ : Forest).setContent i row =
      ⟨below.branchesOnly ++ F.fill (.branch i l (row.numbered n) rest), n + row.branchCount⟩ := by
  rw [setContent, below_fill h, Frame.updateBelow_fill h, Nodes.updateBelow, if_pos rfl]

theorem relabel_fill (h : i ∉ F.ids) (g : Label → Label) :
    (⟨F.fill (.branch i l below rest), n⟩ : Forest).relabel i g =
      ⟨F.fill (.branch i (g l) below rest), n⟩ := by
  rw [relabel, Frame.relabel_fill h, Nodes.relabel, if_pos rfl]

theorem before_fill {a : Nodes Nat} {j p : Nat} {l' : Label} {below' : Nodes Nat}
    (ho : F.owner = some p) (hi : i ∉ a.ids ++ j :: below'.ids ++ F.ids)
    (hj : j ∉ a.ids ++ F.ids) (hp : p ∉ below'.ids) :
    (⟨a ++ .branch j l' below' (F.fill (.branch i l below rest)), n⟩ : Forest).before i j =
      .ok ⟨a ++ F.fill (.branch j l' below' (.branch i l below rest)), n⟩ := by
  simp only [List.mem_append, List.mem_cons, not_or] at hi hj
  obtain ⟨⟨hia, hij, hib⟩, hiF⟩ := hi
  have hpj : j ≠ p := fun h ↦ hj.2 (h ▸ Frame.owner_mem ho)
  have hF : a ++ Nodes.branch j l' below' (F.fill (.branch i l below rest)) =
      (F.behind (a ++ .branch j l' below' .nil)).fill (.branch i l below rest) := by
    rw [Frame.fill_behind, Nodes.append_assoc]
    rfl
  have hG : a ++ Nodes.branch j l' below' (F.fill (.branch i l below rest)) =
      (Frame.hole.behind a).fill (.branch j l' below' (F.fill (.branch i l below rest))) := by
    rw [Frame.fill_behind]
    rfl
  have hparent : (⟨a ++ Nodes.branch j l' below' (F.fill (.branch i l below rest)), n⟩ :
      Forest).parent? i = some p := by
    rw [hF]
    refine parent?_fill ?_ ((Frame.owner_behind _ _).trans ho)
    simp only [Frame.ids_behind, Nodes.ids_append, Nodes.ids, List.append_nil, List.mem_append,
      List.mem_cons, not_or]
    exact ⟨⟨hia, hij, hib⟩, hiF⟩
  have hja : j ∉ (Frame.hole.behind a).ids := by
    simpa only [Frame.ids_behind, Frame.ids, List.append_nil] using hj.1
  rw [before, hparent]
  simp only [insertBefore, if_neg (Ne.symm hij), hparent, ne_eq, not_true_eq_false, if_false]
  rw [hG, encloses, below_fill hja, subtree_fill hja, Frame.erase_fill hja, Nodes.erase,
    if_pos rfl, if_neg (by simpa [hpj] using hp), Frame.fill_behind, Frame.fill,
    ← Frame.fill_behind, Frame.insertBefore_fill (by simpa [hia] using hiF), Nodes.insertBefore,
    if_pos rfl, Frame.fill_behind]
  rfl

theorem plant_eq_fill (f : Forest) (l : Label) (row : Nodes Unit) :
    (f.plant l row).2 = ⟨Frame.hole.fill (.branch f.next l (row.numbered (f.next + 1)) f.trees),
      f.next + 1 + row.branchCount⟩ :=
  rfl

theorem label_plant (f : Forest) (l : Label) (row : Nodes Unit) :
    (f.plant l row).2.label f.next = l := by
  rw [plant_eq_fill]
  exact label_fill List.not_mem_nil

theorem setContent_plant (f : Forest) (l : Label) {row row' : Nodes Unit} (hrow : row.ids = []) :
    (f.plant l row).2.setContent f.next row' = (f.plant l row').2 := by
  have hcount : row.branchCount = 0 := by
    rw [← Nodes.length_ids, hrow]
    rfl
  have hids : (row.numbered (f.next + 1)).ids = [] := by
    rw [Nodes.ids_numbered, hcount]
    rfl
  rw [plant_eq_fill, setContent_fill List.not_mem_nil, Nodes.branchesOnly_eq_nil hids, hcount]
  rfl

theorem setInner_create (f : Forest) (tag source : String) :
    (f.create tag).2.setInner f.next source =
      (f.plant (.ofTag tag) (readFragment (Text.lower tag) source)).2 := by
  rw [setInner, create, Forest.tag, label_plant]
  exact f.setContent_plant (.ofTag tag) rfl

theorem relabel_plant (f : Forest) (l : Label) (change : Label → Label) :
    (f.plant l .nil).2.relabel f.next change = (f.plant (change l) .nil).2 := by
  rw [plant_eq_fill, relabel_fill List.not_mem_nil]
  rfl

end Forest

end LivePage
