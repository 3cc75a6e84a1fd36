import LivePage.Proofs.Markup.Built

namespace LivePage.Markup

variable {N : String → Prop}

@[grind =] theorem distinct_startTag {tag : String} {attributes : List Attribute}
    {selfClosing : Bool} :
    (Token.startTag tag attributes selfClosing).Distinct N ↔ Distinct N attributes := Iff.rfl

@[grind .] theorem distinct_endTag (tag : String) : (Token.endTag tag).Distinct N := trivial

@[grind .] theorem distinct_character (c : Char) : (Token.character c).Distinct N := trivial

@[grind .] theorem distinct_finish : Token.finish.Distinct N := trivial

namespace Builder

variable {b b' : Builder} {attributes : List Attribute}

def Keeps (N : String → Prop) (r : Builder × Bool) : Prop :=
  r.1.AllKeyed N

theorem Keeps.ite {r r' : Builder × Bool} {c : Prop} [Decidable c] (h : Keeps N r)
    (h' : Keeps N r') : Keeps N (if c then r else r') := by
  split
  · exact h
  · exact h'

namespace AllKeyed

@[grind ←] theorem pair (h : b.AllKeyed N) (retry : Bool) : Keeps N (b, retry) := h

@[grind ←] theorem done (h : b.AllKeyed N) : Keeps N b.done := h

@[grind ←] theorem again (h : b.AllKeyed N) (phase : Phase) :
    Keeps N (b.again phase) := h.enter phase

@[grind ←] theorem noFrameset (h : b.AllKeyed N) : b.noFrameset.AllKeyed N := h.same ..

@[grind ←] theorem mergeRoot (h : b.AllKeyed N) (ha : Distinct N attributes) :
    (b.mergeRoot attributes).AllKeyed N :=
  .ite h (h.addMissing ha _)

@[grind ←] theorem openHead (h : b.AllKeyed N) (ha : Markup.Keyed N attributes) :
    (b.openHead attributes).AllKeyed N :=
  (h.openElement ha .html "head").same ..

@[grind ←] theorem openTemplate (h : b.AllKeyed N) (ha : Markup.Keyed N attributes) :
    (b.openTemplate attributes).AllKeyed N :=
  (h.insertHtml ha "template").addMarker.same ..

@[grind ←] theorem leaveTemplate (h : b.AllKeyed N) : b.leaveTemplate.AllKeyed N :=
  (h.clearToMarker.same ..).resetPhase

@[grind ←] theorem closeTemplate (h : b.AllKeyed N) : b.closeTemplate.AllKeyed N :=
  .ite (h.closeImpliedInTemplate.popNamed "template").leaveTemplate h

@[grind ←] theorem startInHead (h : b.AllKeyed N) (ha : Markup.Keyed N attributes) (tag : String) :
    (b.startInHead tag attributes).AllKeyed N := by
  have hinserted := h.insertHtml ha tag
  exact .ite (hinserted.readContent _) <| .ite (hinserted.readContent _) <|
    .ite (hinserted.readContent _) <| .ite (h.openTemplate ha) (h.insertVoid ha tag)

@[grind ←] theorem startAfterHead (h : b.AllKeyed N) (ha : Markup.Keyed N attributes)
    (tag : String) : (b.startAfterHead tag attributes).AllKeyed N := by
  unfold Builder.startAfterHead
  split
  · exact h.startInHead ha tag
  · exact (AllKeyed.startInHead (h.same ..) ha tag).removeOpen _

@[grind ←] theorem finishInTemplate (h : b.AllKeyed N) : Keeps N b.finishInTemplate :=
  .ite (h.popNamed "template").leaveTemplate h

variable {token : Token}

theorem inInitial (h : b.AllKeyed N) (token : Token) : Keeps N (b.inInitial token) := by
  cases token <;> grind [Builder.inInitial]

theorem inBeforeHtml (h : b.AllKeyed N) (ht : token.Distinct N) :
    Keeps N (b.inBeforeHtml token) := by
  cases token <;> grind [Builder.inBeforeHtml]

theorem inBeforeHead (h : b.AllKeyed N) (ht : token.Distinct N) :
    Keeps N (b.inBeforeHead token) := by
  cases token <;> grind [Builder.inBeforeHead]

theorem inHead (h : b.AllKeyed N) (ht : token.Distinct N) : Keeps N (b.inHead token) := by
  cases token <;> grind [Builder.inHead]

theorem inAfterHead (h : b.AllKeyed N) (ht : token.Distinct N) : Keeps N (b.inAfterHead token) := by
  cases token <;> grind [Builder.inAfterHead]

@[grind ←] theorem closeItem (h : b.AllKeyed N) (closing : List String) :
    (b.closeItem closing).AllKeyed N := by
  unfold Builder.closeItem
  extract_lets stops
  split
  · exact .ite ((h.closeImpliedExcept _).popNamed _) h
  · exact h

@[grind ←] theorem insertForeign (h : b.AllKeyed N) (ha : Distinct N attributes)
    (vocabulary : Vocabulary) (tag : String) (selfClosing : Bool) :
    (b.insertForeign vocabulary tag attributes selfClosing).AllKeyed N := by
  have hinserted := h.openElement ha.foreign vocabulary tag
  exact .ite hinserted.pop hinserted

@[grind ←] theorem openForm (h : b.AllKeyed N) (ha : Markup.Keyed N attributes) :
    (b.openForm attributes).AllKeyed N := by
  have hopened := h.closeOpenParagraph.openElement ha .html "form"
  exact .ite h (.ite hopened (hopened.same ..))

@[grind ←] theorem closeForm (h : b.AllKeyed N) : b.closeForm.AllKeyed N := by
  unfold Builder.closeForm
  split
  · exact .ite (h.closeImplied.popNamed "form") h
  · split
    · exact h
    · have hclosed : AllKeyed N { b with form := none } := h.same ..
      exact .ite (hclosed.closeImplied.removeOpen _) hclosed

@[grind ←] theorem openFrameset (h : b.AllKeyed N) (ha : Markup.Keyed N attributes) :
    (b.openFrameset attributes).AllKeyed N := by
  unfold Builder.openFrameset
  split
  · exact h
  · split
    · exact h
    · next id _ =>
      have herased : AllKeyed N
          { b with tree := b.tree.erase id, opened := b.opened.drop (b.opened.length - 1) } :=
        ⟨h.tree.erase, h.formatting⟩
      exact (herased.insertHtml ha "frameset").enter _

@[grind ←] theorem openSelect (h : b.AllKeyed N) (ha : Markup.Keyed N attributes) :
    (b.openSelect attributes).AllKeyed N :=
  (h.reconstruct.insertHtml ha "select").noFrameset.enter _

@[grind ←] theorem openTable (h : b.AllKeyed N) (ha : Markup.Keyed N attributes) :
    (b.openTable attributes).AllKeyed N :=
  ((AllKeyed.ite h h.closeOpenParagraph).insertHtml ha "table").noFrameset.enter _

@[grind ←] theorem openButton (h : b.AllKeyed N) (ha : Markup.Keyed N attributes) :
    (b.openButton attributes).AllKeyed N :=
  ((AllKeyed.ite (h.closeImplied.popNamed "button") h).reconstruct.insertHtml ha
    "button").noFrameset

@[grind ←] theorem openNobr (h : b.AllKeyed N) (ha : Markup.Keyed N attributes) :
    (b.openNobr attributes).AllKeyed N :=
  (AllKeyed.ite (h.reconstruct.adopt "nobr").reconstruct h.reconstruct).insertFormatting ha "nobr"

@[grind ←] theorem inlineVoid (h : b.AllKeyed N) (ha : Markup.Keyed N attributes) (tag : String) :
    (b.inlineVoid tag attributes).AllKeyed N := by
  have hinserted := h.reconstruct.insertVoid ha tag
  exact .ite hinserted hinserted.noFrameset

@[grind ←] theorem startInBody (h : b.AllKeyed N) (ha : Distinct N attributes) (tag : String)
    (selfClosing : Bool) : (b.startInBody tag attributes selfClosing).AllKeyed N := by
  unfold Builder.startInBody
  repeat' with_reducible apply AllKeyed.ite
  all_goals grind

@[grind ←] theorem endInBody (h : b.AllKeyed N) (tag : String) : Keeps N (b.endInBody tag) := by
  unfold Builder.endInBody
  repeat' with_reducible apply Keeps.ite
  all_goals grind

@[grind ←] theorem characterInBody (h : b.AllKeyed N) (c : Char) :
    (b.characterInBody c).AllKeyed N :=
  .ite h ((AllKeyed.ite h.reconstruct h.reconstruct.noFrameset).addCharacter c)

@[grind ←] theorem inBody (h : b.AllKeyed N) (ht : token.Distinct N) :
    Keeps N (b.inBody token) := by
  cases token <;> grind [Builder.inBody]

theorem inContent (h : b.AllKeyed N) (token : Token) : Keeps N (b.inContent token) := by
  cases token with
  | character c => exact (h.addCharacter c).done
  | endTag tag => exact (h.pop.enter b.origin).done
  | finish => exact h.pop.again b.origin
  | startTag | comment | doctype => exact h.done

theorem inTemplate (h : b.AllKeyed N) (ht : token.Distinct N) : Keeps N (b.inTemplate token) := by
  cases token <;> grind [Builder.inTemplate]

theorem inAfterBody (h : b.AllKeyed N) (ht : token.Distinct N) : Keeps N (b.inAfterBody token) := by
  cases token <;> grind [Builder.inAfterBody]

theorem inAfterAfterBody (h : b.AllKeyed N) (ht : token.Distinct N) :
    Keeps N (b.inAfterAfterBody token) := by
  cases token <;> grind [Builder.inAfterAfterBody]

@[grind ←] theorem fosterInBody (h : b.AllKeyed N) (ht : token.Distinct N) :
    Keeps N (b.fosterInBody token) :=
  AllKeyed.same (AllKeyed.inBody (h.same ..) ht) ..

@[grind ←] theorem textInTable (h : b.AllKeyed N) (ht : token.Distinct N) :
    Keeps N (b.textInTable token) :=
  .ite (AllKeyed.again (h.same ..) _) (h.fosterInBody ht)

@[grind ←] theorem leaveTable (h : b.AllKeyed N) : b.leaveTable.AllKeyed N :=
  (h.popNamed "table").resetPhase

@[grind ←] theorem startInTable (h : b.AllKeyed N) (ha : Distinct N attributes) (tag : String)
    (selfClosing : Bool) : Keeps N (b.startInTable tag attributes selfClosing) := by
  unfold Builder.startInTable
  repeat' with_reducible apply Keeps.ite
  all_goals grind

@[grind ←] theorem inTable (h : b.AllKeyed N) (ht : token.Distinct N) :
    Keeps N (b.inTable token) := by
  cases token <;> grind [Builder.inTable]

@[grind ←] theorem placePending (h : b.AllKeyed N) : b.placePending.AllKeyed N := by
  have hplaced : AllKeyed N { b with pending := [] } := h.same ..
  apply AllKeyed.ite
  · exact List.foldlRecOn _ _ hplaced fun b hb c _ ↦ hb.addCharacter c
  · exact List.foldlRecOn _ _ hplaced fun b hb c _ ↦ hb.fosterInBody (distinct_character c)

theorem inTableText (h : b.AllKeyed N) (token : Token) : Keeps N (b.inTableText token) := by
  cases token <;> grind [Builder.inTableText]

@[grind →] theorem of_closeCaption? (h : b.AllKeyed N) (hclose : b.closeCaption? = some b') :
    b'.AllKeyed N := by
  unfold Builder.closeCaption? at hclose
  split at hclose
  · obtain rfl := Option.some.inj hclose
    exact (h.closeImplied.popNamed "caption").clearToMarker.enter _
  · cases hclose

theorem inCaption (h : b.AllKeyed N) (ht : token.Distinct N) : Keeps N (b.inCaption token) := by
  cases token <;> grind [Builder.inCaption]

@[grind ←] theorem leaveColumnGroup (h : b.AllKeyed N) : Keeps N b.leaveColumnGroup :=
  .ite (h.pop.again _) h.done

theorem inColumnGroup (h : b.AllKeyed N) (ht : token.Distinct N) :
    Keeps N (b.inColumnGroup token) := by
  cases token <;> grind [Builder.inColumnGroup]

@[grind ←] theorem leaveTableBody (h : b.AllKeyed N) : Keeps N b.leaveTableBody :=
  .ite ((h.popTo _).pop.again _) h.done

theorem inTableBody (h : b.AllKeyed N) (ht : token.Distinct N) : Keeps N (b.inTableBody token) := by
  cases token <;> grind [Builder.inTableBody]

@[grind ←] theorem leaveRow (h : b.AllKeyed N) : b.leaveRow.AllKeyed N :=
  (h.popTo _).pop.enter _

theorem inRow (h : b.AllKeyed N) (ht : token.Distinct N) : Keeps N (b.inRow token) := by
  cases token <;> grind [Builder.inRow]

@[grind ←] theorem closeCell (h : b.AllKeyed N) : b.closeCell.AllKeyed N :=
  (h.closeImplied.popThrough _).clearToMarker.enter _

theorem inCell (h : b.AllKeyed N) (ht : token.Distinct N) : Keeps N (b.inCell token) := by
  cases token <;> grind [Builder.inCell]

@[grind ←] theorem popIfCurrent (h : b.AllKeyed N) (tag : String) :
    (b.popIfCurrent tag).AllKeyed N :=
  .ite h.pop h

@[grind ←] theorem leaveSelect (h : b.AllKeyed N) : b.leaveSelect.AllKeyed N :=
  (h.popNamed "select").resetPhase

@[grind ←] theorem startInSelect (h : b.AllKeyed N) (ha : Distinct N attributes) (tag : String) :
    Keeps N (b.startInSelect tag attributes) := by
  unfold Builder.startInSelect
  repeat' with_reducible apply Keeps.ite
  all_goals grind

@[grind ←] theorem closeGroup (h : b.AllKeyed N) : b.closeGroup.AllKeyed N := by
  unfold Builder.closeGroup
  dsimp only
  split
  · exact (AllKeyed.ite h.pop h).popIfCurrent _
  · exact h.popIfCurrent _

@[grind ←] theorem inSelect (h : b.AllKeyed N) (ht : token.Distinct N) :
    Keeps N (b.inSelect token) := by
  cases token <;> grind [Builder.inSelect]

theorem inSelectInTable (h : b.AllKeyed N) (ht : token.Distinct N) :
    Keeps N (b.inSelectInTable token) := by
  cases token <;> grind [Builder.inSelectInTable]

theorem inFrameset (h : b.AllKeyed N) (ht : token.Distinct N) : Keeps N (b.inFrameset token) := by
  cases token <;> grind [Builder.inFrameset]

theorem inAfterFrameset (h : b.AllKeyed N) (ht : token.Distinct N) :
    Keeps N (b.inAfterFrameset token) := by
  cases token <;> grind [Builder.inAfterFrameset]

theorem inAfterAfterFrameset (h : b.AllKeyed N) (ht : token.Distinct N) :
    Keeps N (b.inAfterAfterFrameset token) := by
  cases token <;> grind [Builder.inAfterAfterFrameset]

@[grind ←] theorem inPhase (h : b.AllKeyed N) (ht : token.Distinct N) :
    Keeps N (b.inPhase token) := by
  unfold Builder.inPhase
  split
  · exact h.inInitial token
  · exact h.inBeforeHtml ht
  · exact h.inBeforeHead ht
  · exact h.inHead ht
  · exact h.inAfterHead ht
  · exact h.inBody ht
  · exact h.inContent token
  · exact h.inTable ht
  · exact h.inTableText token
  · exact h.inCaption ht
  · exact h.inColumnGroup ht
  · exact h.inTableBody ht
  · exact h.inRow ht
  · exact h.inCell ht
  · exact h.inSelect ht
  · exact h.inSelectInTable ht
  · exact h.inTemplate ht
  · exact h.inAfterBody ht
  · exact h.inFrameset ht
  · exact h.inAfterFrameset ht
  · exact h.inAfterAfterBody ht
  · exact h.inAfterAfterFrameset ht

@[grind ←] theorem leaveForeign (h : b.AllKeyed N) (ht : token.Distinct N) :
    Keeps N (b.leaveForeign token) :=
  (h.popTo _).inPhase ht

@[grind ←] theorem endInForeign (h : b.AllKeyed N) (tag : String) (first : Bool) (es : List Open) :
    Keeps N (b.endInForeign tag first es) := by
  fun_induction Builder.endInForeign b tag first es with
  | case1 | case2 => exact h.done
  | case3 => exact h.inPhase (distinct_endTag tag)
  | case4 => exact AllKeyed.done (h.same ..)
  | case5 _ _ _ _ _ _ ih => exact ih

theorem inForeignContent (h : b.AllKeyed N) (ht : token.Distinct N) :
    Keeps N (b.inForeignContent token) := by
  cases token <;> grind [Builder.inForeignContent]

theorem handleOnce (h : b.AllKeyed N) (ht : token.Distinct N) : Keeps N (b.handleOnce token) :=
  .ite (h.inForeignContent ht) (h.inPhase ht)

theorem handle (h : b.AllKeyed N) (ht : token.Distinct N) (fuel : Nat) :
    (Builder.handle token fuel b).AllKeyed N := by
  induction fuel generalizing b with
  | zero => exact h
  | succ fuel ih =>
    -- a rule may hand the token on to the phase it enters, so the induction is for every state
    have honce : (b.handleOnce token).1.AllKeyed N := h.handleOnce ht
    exact .ite (ih honce) honce

theorem take (h : b.AllKeyed N) (ht : token.Distinct N) : (b.take token).AllKeyed N := by
  have hkept : AllKeyed N { b with dropsNewline := false } := h.same ..
  exact .ite hkept (hkept.handle ht _)

theorem takeAll {source cs : List Char} (h : b.AllKeyed (Scan.Mentions source)) (last : String)
    (hcs : cs <:+ source) : (b.takeAll last cs).AllKeyed (Scan.Mentions source) := by
  fun_induction Builder.takeAll b last cs with
  | case1 b last => exact h.take distinct_finish
  | case2 b last c rest _ s ih =>
    have hrest : rest <:+ source := Scan.suffix_of_cons hcs
    have hdistinct : ∀ token ∈ s.tokens, token.Distinct (Scan.Mentions source) := by
      intro token ht
      have hstep := Scan.distinct_step b.reading b.inForeign last c rest token ht
      exact hstep.mono fun name hname ↦ hname.of_suffix hrest
    refine ih ?_ ((Scan.step_suffix b.reading b.inForeign last c rest).trans hrest)
    exact List.foldlRecOn _ _ (h.same ..) fun b' hb' token ht ↦ hb'.take (hdistinct token ht)

theorem initial (context : Option String) : (Builder.initial context).AllKeyed N where
  tree := ⟨Markup.keyed_nil, trivial, trivial⟩
  formatting _ hf := absurd hf List.not_mem_nil

end AllKeyed

end Builder

theorem Nodes.Labelled.copied_keyed {ι : Type} {t : Nodes ι}
    (h : t.Labelled fun _ ↦ Label.Keyed N) : t.copied.Labelled fun _ ↦ Label.Keyed N := by
  refine h.copied fun tag attributes (ha : Keyed N attributes) ↦ ?_
  change Keyed N (attributes.map _)
  rw [ha.copied]
  exact ha

/-- In an element that is read, a name stands twice only if the markup mentions it with its
prefix. -/
theorem keyed_readFragment (tag source : String) : (readFragment tag source).Labelled fun _ ↦
    Label.Keyed (Scan.Mentions (prepare source)) := by
  have hinitial := Builder.AllKeyed.initial (N := Scan.Mentions (prepare source)) (some tag)
  have hstart : (fragmentStart tag).AllKeyed (Scan.Mentions (prepare source)) :=
    (Builder.AllKeyed.createRoot (hinitial.same ..) keyed_nil).resetPhase
  unfold readFragment
  dsimp only
  split
  · next label below hroot =>
    exact ((hstart.takeAll "" List.suffix_rfl).tree.find? hroot).2.copied_keyed
  · trivial

theorem keyed_readPage (source : String) : (readPage source).Labelled fun _ ↦
    Label.Keyed (Scan.Mentions (prepare source)) := by
  have hstart := Builder.AllKeyed.initial (N := Scan.Mentions (prepare source)) none
  unfold readPage
  dsimp only
  split
  · next label below hroot =>
    exact ((hstart.takeAll "" List.suffix_rfl).tree.find? hroot).2.copied_keyed
  · trivial

end LivePage.Markup
