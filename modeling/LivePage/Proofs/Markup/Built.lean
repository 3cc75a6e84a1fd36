import LivePage.Proofs.Markup.Keyed
import LivePage.Proofs.Markup.Labelled

namespace LivePage.Markup

variable {N : String → Prop}

def Label.Keyed (N : String → Prop) (l : Label) : Prop :=
  Markup.Keyed N l.attributes

def Formatting.Keyed (N : String → Prop) : Formatting → Prop
  | .marker => True
  | .element _ _ attributes => Markup.Keyed N attributes

attribute [grind →] Distinct.keyed

@[grind .] theorem keyed_nil : Keyed N [] :=
  distinct_nil.keyed

namespace Builder

/-- The elements in the tree have keyed attributes, and so have the formatting elements, which may
be made again. -/
structure AllKeyed (N : String → Prop) (b : Builder) : Prop where
  tree : b.tree.Labelled fun _ ↦ Label.Keyed N
  formatting : ∀ f ∈ b.formatting, f.Keyed N

variable {b b' : Builder} {attributes : List Attribute}

theorem AllKeyed.of_subset (h : b.AllKeyed N) (ht : b'.tree = b.tree)
    (hf : b'.formatting ⊆ b.formatting) : b'.AllKeyed N :=
  ⟨ht ▸ h.tree, fun f hmem ↦ h.formatting f (hf hmem)⟩

theorem AllKeyed.ite {c : Prop} [Decidable c] (h : b.AllKeyed N) (h' : b'.AllKeyed N) :
    (if c then b else b').AllKeyed N := by
  split
  · exact h
  · exact h'

namespace AllKeyed

@[grind ←] theorem same (h : b.AllKeyed N)
    (next opened phase origin templates reading legacy hasHead form framesetAllowed dropsNewline
      fostering context pending) :
    AllKeyed N ⟨b.tree, next, opened, b.formatting, phase, origin, templates, reading, legacy,
      hasHead, form, framesetAllowed, dropsNewline, fostering, context, pending⟩ :=
  ⟨h.tree, h.formatting⟩

@[grind ←] theorem pop (h : b.AllKeyed N) : b.pop.AllKeyed N := h.same ..

@[grind ←] theorem popThrough (h : b.AllKeyed N) (p : Open → Bool) : (b.popThrough p).AllKeyed N :=
  h.same ..

@[grind ←] theorem popNamed (h : b.AllKeyed N) (tag : String) :
    (b.popNamed tag).AllKeyed N := h.same ..

@[grind ←] theorem popTo (h : b.AllKeyed N) (p : Open → Bool) : (b.popTo p).AllKeyed N := h.same ..

@[grind ←] theorem closeImplied (h : b.AllKeyed N) : b.closeImplied.AllKeyed N := h.same ..

@[grind ←] theorem closeImpliedExcept (h : b.AllKeyed N) (tag : String) :
    (b.closeImpliedExcept tag).AllKeyed N := h.same ..

@[grind ←] theorem closeImpliedInTemplate (h : b.AllKeyed N) :
    b.closeImpliedInTemplate.AllKeyed N := h.same ..

@[grind ←] theorem removeOpen (h : b.AllKeyed N) (id : Nat) :
    (b.removeOpen id).AllKeyed N := h.same ..

@[grind ←] theorem enter (h : b.AllKeyed N) (phase : Phase) :
    (b.enter phase).AllKeyed N := h.same ..

@[grind ←] theorem readContent (h : b.AllKeyed N) (reading : Reading) :
    (b.readContent reading).AllKeyed N := h.same ..

@[grind ←] theorem resetPhase (h : b.AllKeyed N) : b.resetPhase.AllKeyed N := h.enter _

@[grind ←] theorem closeParagraph (h : b.AllKeyed N) : b.closeParagraph.AllKeyed N :=
  (h.closeImpliedExcept "p").popNamed "p"

@[grind ←] theorem closeOpenParagraph (h : b.AllKeyed N) : b.closeOpenParagraph.AllKeyed N :=
  .ite h.closeParagraph h

theorem empty : (Nodes.nil : Nodes Nat).Labelled fun _ ↦ Label.Keyed N :=
  trivial

theorem comment (s : String) : (Nodes.comment s .nil : Nodes Nat).Labelled fun _ ↦ Label.Keyed N :=
  trivial

theorem element (ha : Markup.Keyed N attributes) (id : Nat) (tag : String) {row : Nodes Nat}
    (hrow : row.Labelled fun _ ↦ Label.Keyed N) :
    (Nodes.branch id (.element tag attributes) row .nil).Labelled fun _ ↦ Label.Keyed N :=
  ⟨ha, hrow, trivial⟩

theorem insertAt (h : b.AllKeyed N) {row : Nodes Nat} (hrow : row.Labelled fun _ ↦ Label.Keyed N)
    (place : Place) : (b.insertAt row place).AllKeyed N := by
  have happend (id : Nat) : (b.tree.updateBelow id (· ++ row)).Labelled fun _ ↦ Label.Keyed N :=
    h.tree.updateBelow fun r hr ↦ (Nodes.labelled_append _ _).2 ⟨hr, hrow⟩
  cases place with
  | inside id => exact ⟨happend id, h.formatting⟩
  | before table outer =>
    apply AllKeyed.ite
    · exact ⟨h.tree.insertBefore hrow, h.formatting⟩
    · exact ⟨happend outer, h.formatting⟩

theorem insertTextAt (h : b.AllKeyed N) (s : String) (place : Place) :
    (b.insertTextAt s place).AllKeyed N := by
  have happend (id : Nat) :
      (b.tree.updateBelow id (·.appendText s)).Labelled fun _ ↦ Label.Keyed N :=
    h.tree.updateBelow fun r hr ↦ hr.appendText s
  cases place with
  | inside id => exact ⟨happend id, h.formatting⟩
  | before table outer =>
    apply AllKeyed.ite
    · exact ⟨h.tree.insertTextBefore s, h.formatting⟩
    · exact ⟨happend outer, h.formatting⟩

@[grind ←] theorem addCharacter (h : b.AllKeyed N) (c : Char) : (b.addCharacter c).AllKeyed N :=
  h.insertTextAt _ _

@[grind ←] theorem addComment (h : b.AllKeyed N) (s : String) : (b.addComment s).AllKeyed N :=
  h.insertAt (comment s) _

@[grind ←] theorem addCommentTo (h : b.AllKeyed N) (id : Nat) (s : String) :
    (b.addCommentTo id s).AllKeyed N :=
  h.insertAt (comment s) _

theorem make (h : b.AllKeyed N) (vocabulary : Vocabulary) (tag : String)
    (attributes : List Attribute) : (b.make vocabulary tag attributes).2.AllKeyed N := h.same ..

@[grind ←] theorem openElement (h : b.AllKeyed N) (ha : Markup.Keyed N attributes)
    (vocabulary : Vocabulary) (tag : String) :
    (b.openElement vocabulary tag attributes).2.AllKeyed N :=
  ((h.make vocabulary tag attributes).insertAt (element ha _ _ empty) _).same ..

@[grind ←] theorem insertHtml (h : b.AllKeyed N) (ha : Markup.Keyed N attributes) (tag : String) :
    (b.insertHtml tag attributes).AllKeyed N :=
  h.openElement ha .html tag

@[grind ←] theorem insertVoid (h : b.AllKeyed N) (ha : Markup.Keyed N attributes) (tag : String) :
    (b.insertVoid tag attributes).AllKeyed N :=
  (h.insertHtml ha tag).pop

@[grind ←] theorem createRoot (h : b.AllKeyed N) (ha : Markup.Keyed N attributes) :
    (b.createRoot attributes).AllKeyed N :=
  ((h.make .html "html" attributes).insertAt (element ha _ _ empty) _).same ..

@[grind ←] theorem addMissing (h : b.AllKeyed N) (ha : Distinct N attributes) (id : Nat) :
    (b.addMissing id attributes).AllKeyed N := by
  refine ⟨h.tree.relabel fun l hl ↦ ?_, h.formatting⟩
  cases l with
  | document => exact hl
  | element tag old => exact Markup.Keyed.addMissing hl ha

@[grind ←] theorem addMarker (h : b.AllKeyed N) : b.addMarker.AllKeyed N :=
  ⟨h.tree, List.forall_mem_cons.2 ⟨trivial, h.formatting⟩⟩

@[grind ←] theorem clearToMarker (h : b.AllKeyed N) : b.clearToMarker.AllKeyed N :=
  h.of_subset rfl
    (((List.drop_sublist 1 _).trans (List.dropWhile_sublist _)).subset)

@[grind ←] theorem removeFormatting (h : b.AllKeyed N) (id : Nat) :
    (b.removeFormatting id).AllKeyed N :=
  h.of_subset rfl List.eraseP_subset

theorem reopen (h : b.AllKeyed N) {done fs : List Formatting} (hdone : ∀ f ∈ done, f.Keyed N)
    (hfs : ∀ f ∈ fs, f.Keyed N) :
    (∀ f ∈ (b.reopen done fs).1, f.Keyed N) ∧ (b.reopen done fs).2.AllKeyed N := by
  induction fs generalizing b done with
  | nil => exact ⟨hdone, h⟩
  | cons f fs ih =>
    obtain ⟨hf, hrest⟩ := List.forall_mem_cons.1 hfs
    cases f with
    | marker => exact ih h (List.forall_mem_cons.2 ⟨hf, hdone⟩) hrest
    | element id tag attributes =>
      exact ih (h.openElement hf .html tag) (List.forall_mem_cons.2 ⟨hf, hdone⟩) hrest

@[grind ←] theorem reconstruct (h : b.AllKeyed N) : b.reconstruct.AllKeyed N := by
  unfold Builder.reconstruct
  extract_lets isClosed
  have hclosed : ∀ f ∈ (b.formatting.takeWhile isClosed).reverse, f.Keyed N := fun f hf ↦
    h.formatting f ((List.takeWhile_sublist _).subset (List.mem_reverse.1 hf))
  obtain ⟨hentries, hopened⟩ := h.reopen (fun _ hf ↦ absurd hf List.not_mem_nil) hclosed
  refine ⟨hopened.tree, List.forall_mem_append.2 ⟨hentries, fun f hf ↦ ?_⟩⟩
  exact h.formatting f ((List.dropWhile_sublist _).subset hf)

@[grind ←] theorem insertFormatting (h : b.AllKeyed N) (ha : Markup.Keyed N attributes)
    (tag : String) : (b.insertFormatting tag attributes).AllKeyed N := by
  unfold Builder.insertFormatting
  extract_lets equal twins fewer
  have hfewer : fewer.AllKeyed N := by
    dsimp only [fewer]
    split
    · exact .ite (h.removeFormatting _) h
    · exact h
  have hopened := hfewer.openElement ha .html tag
  exact ⟨hopened.tree, List.forall_mem_cons.2 ⟨ha, hopened.formatting⟩⟩

@[grind ←] theorem closeGeneric (h : b.AllKeyed N) (tag : String) :
    (b.closeGeneric tag).AllKeyed N := by
  unfold Builder.closeGeneric
  split
  · exact h
  · exact .ite ((h.closeImpliedExcept tag).popNamed tag) h

end AllKeyed

structure Walk.AllKeyed (N : String → Prop) (w : Walk) : Prop where
  builder : w.builder.AllKeyed N
  carried : w.carried.Labelled fun _ ↦ Label.Keyed N

theorem Walk.AllKeyed.pass {w : Walk} (h : w.AllKeyed N) (count : Nat) (e : Open) :
    (w.pass count e).AllKeyed N := by
  unfold Walk.pass
  split
  · next id tag attributes hfound =>
    have ha : Markup.Keyed N attributes :=
      h.builder.formatting _ (List.mem_of_find?_eq_some hfound)
    split
    · exact ⟨h.builder.removeFormatting _, h.carried⟩
    · refine ⟨⟨h.builder.tree, fun f hf ↦ ?_⟩, ha, h.carried, trivial⟩
      obtain ⟨g, hg, rfl⟩ := List.mem_map.1 hf
      split
      · exact ha
      · exact h.builder.formatting g hg
  · exact h

theorem Walk.AllKeyed.passAll {w : Walk} (h : w.AllKeyed N) (count : Nat) (es : List Open) :
    (w.passAll count es).AllKeyed N := by
  induction es generalizing w count with
  | nil => exact h
  | cons e es ih => exact ih (h.pass count e) (count + 1)

theorem replaceFormatting_subset (old : Nat) (bookmark : Option Nat) (new : Formatting)
    (entries : List Formatting) : replaceFormatting old bookmark new entries ⊆ new :: entries := by
  intro f hf
  unfold replaceFormatting at hf
  split at hf
  · obtain ⟨g, hg, rfl⟩ := List.mem_map.1 hf
    split
    · exact List.mem_cons_self
    · exact List.mem_cons_of_mem _ hg
  · have hmem := List.mem_of_mem_eraseP hf
    rcases List.mem_append.1 hmem with hbefore | hafter
    · exact List.mem_cons_of_mem _ ((List.takeWhile_sublist _).subset hbefore)
    · rcases List.mem_cons.1 hafter with rfl | hafter
      · exact List.mem_cons_self
      · exact List.mem_cons_of_mem _ ((List.dropWhile_sublist _).subset hafter)

namespace AllKeyed

theorem splitAt (h : b.AllKeyed N) (ha : Markup.Keyed N attributes) (old : Nat) (tag : String)
    (inner : List Open) (block : Open) (between outer : List Open) :
    (b.splitAt old tag attributes inner block between outer).AllKeyed N := by
  unfold Builder.splitAt
  split
  · exact h
  · next label below hblock =>
    extract_lets start w ancestor b₀ b₁ b₂
    obtain ⟨hlabel, hbelow⟩ := h.tree.find? hblock
    have hstart : start.AllKeyed N := ⟨⟨h.tree.erase, h.formatting⟩, hlabel, hbelow, trivial⟩
    have hw : w.AllKeyed N := hstart.passAll 1 between
    have hplaced : b₂.AllKeyed N := AllKeyed.insertAt (hw.builder.same ..) hw.carried _
    refine ⟨hplaced.tree.updateBelow fun row hrow ↦ element ha _ _ hrow, fun f hf ↦ ?_⟩
    rcases List.mem_cons.1 (replaceFormatting_subset _ _ _ _ hf) with rfl | hf
    · exact ha
    · exact hplaced.formatting f hf

theorem adoptOnce (h : b.AllKeyed N) (subject : String) : (b.adoptOnce subject).2.AllKeyed N := by
  unfold Builder.adoptOnce
  split
  · next id tag attributes hfound =>
    have ha : Markup.Keyed N attributes :=
      h.formatting _ ((List.takeWhile_sublist _).subset (List.mem_of_find?_eq_some hfound))
    split
    · exact h.removeFormatting id
    · split
      · exact h
      · extract_lets inside outer between
        split
        · exact (h.same ..).removeFormatting id
        · exact h.splitAt ha _ _ _ _ _ _
  · exact h.closeGeneric subject

theorem adoptTimes (h : b.AllKeyed N) (subject : String) (n : Nat) :
    (Builder.adoptTimes subject n b).AllKeyed N := by
  induction n generalizing b with
  | zero => exact h
  | succ n ih =>
    have honce := h.adoptOnce subject
    rw [Builder.adoptTimes]
    exact .ite (ih honce) honce

@[grind ←] theorem adopt (h : b.AllKeyed N) (subject : String) : (b.adopt subject).AllKeyed N := by
  unfold Builder.adopt
  split
  · exact .ite h.pop (h.adoptTimes subject 8)
  · exact h

@[grind ←] theorem closeAnchor (h : b.AllKeyed N) : b.closeAnchor.AllKeyed N := by
  unfold Builder.closeAnchor
  split
  · exact ((h.adopt "a").removeFormatting _).removeOpen _
  · exact h

end AllKeyed

end Builder

end LivePage.Markup
