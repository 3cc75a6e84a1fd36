import LivePage.Proofs.Forest.Framed
import LivePage.Proofs.Markup.RoundTrip

namespace LivePage.Forest

open Markup

theorem below_setInner_create (f : Forest) (t source : String) :
    (((f.create t).2.setInner f.next source).below f.next).plain =
      readFragment (Text.lower t) source := by
  rw [setInner_create, plant_eq_fill, below_fill List.not_mem_nil]
  exact Nodes.plain_numbered _ _

/-- The markup of a simple content gives a new element the same content, with neighbouring texts as
one and without empty ones. -/
theorem below_setInner_inner {f : Forest} {i : NodeId} (hi : f.tag i ∈ plainTags)
    (h : (f.below i).Simple) {t : String} (ht : t ∈ plainTags) :
    let (j, g) := f.create t
    ((g.setInner j (f.inner i)).below j).plain = (f.below i).plain.normal := by
  have hread : readFragment t (f.inner i) = (f.below i).plain.normal := readFragment_inner ht hi h
  have hlower : Text.lower t = t := lower_of_plain (isPlainName_of_mem ht)
  change (((f.create t).2.setInner f.next (f.inner i)).below f.next).plain = _
  rw [below_setInner_create, hlower, hread]

def crowded : Forest :=
  (plant {} (.ofTag "div")
    (.text "a < b" (.text " && " (.text "" (.branch () (.element "section"
      [⟨"title", "\"x\" & <y>"⟩, ⟨"data-n0", ""⟩])
      (.branch () (.element "span" []) (.text "" .nil) (.text "c\n" (.text "&amp;" .nil)))
      (.text "\u00a0" .nil)))))).2

theorem below_setInner_inner_crowded :
    (crowded.tag 0 ∈ plainTags ∧ (crowded.below 0).Simple ∧ "div" ∈ plainTags) ∧
      let (j, g) := crowded.create "div"
      ((g.setInner j (crowded.inner 0)).below j).plain =
        .text "a < b && " (.branch () (.element "section"
          [⟨"title", "\"x\" & <y>"⟩, ⟨"data-n0", ""⟩])
          (.branch () (.element "span" []) .nil (.text "c\n&amp;" .nil)) (.text "\u00a0" .nil)) := by
  have hcrowded : crowded.tag 0 ∈ plainTags ∧ (crowded.below 0).Simple ∧ "div" ∈ plainTags := by
    decide +kernel
  refine ⟨hcrowded, (below_setInner_inner hcrowded.1 hcrowded.2.1 hcrowded.2.2).trans ?_⟩
  decide +kernel

end LivePage.Forest
