import LivePage.Proofs.Linked.Labelled

namespace LivePage

open Markup

namespace Markup

def Label.Lower (l : Label) : Prop :=
  Text.lower l.tag = l.tag

theorem Label.lower_ofTag (tag : String) : (Label.ofTag tag).Lower :=
  Text.lower_lower tag

theorem lower_copied {ι : Type} (r : Nodes ι) : r.copied.Labelled fun _ ↦ Label.Lower := by
  have hany : r.Labelled fun _ _ ↦ True := r.labelled_of_forall fun _ _ ↦ trivial
  exact hany.copied fun tag _ _ ↦ Text.lower_lower tag

theorem lower_readFragment (tag source : String) :
    (readFragment tag source).Labelled fun _ ↦ Label.Lower := by
  unfold readFragment
  dsimp only
  split
  · exact lower_copied _
  · trivial

theorem lower_readPage (source : String) : (readPage source).Labelled fun _ ↦ Label.Lower := by
  unfold readPage
  dsimp only
  split
  · exact lower_copied _
  · trivial

theorem Label.lasting_lower : Lasting (fun _ ↦ Label.Lower) Label.Lower where
  document := rfl
  ofTag := lower_ofTag
  fragment := lower_readFragment
  page := lower_readPage
  setAttribute {_ l} name value hl := by cases l <;> exact hl
  removeAttribute {_ l} name hl := by cases l <;> exact hl

end Markup

theorem Reach.lower_tag {p : Page} {h : Heap} (hr : Reach p h) (i : NodeId) :
    Text.lower (p.forest.tag i) = p.forest.tag i :=
  hr.label Label.lasting_lower i

end LivePage
