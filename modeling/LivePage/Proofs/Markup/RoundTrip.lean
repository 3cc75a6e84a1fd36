import LivePage.Markup.Parsing
import LivePage.Proofs.Markup.Entries
import LivePage.Proofs.Markup.Normal

namespace LivePage.Markup

open Scan

def Fit (c : Char) : Prop :=
  c ≠ '\r' ∧ c ≠ '\ufeff'

theorem joinLines_of_notMem {cs : List Char} (h : '\r' ∉ cs) : joinLines cs = cs := by
  fun_induction joinLines cs with
  | case1 rest ih => exact absurd List.mem_cons_self h
  | case2 rest _ ih => exact absurd List.mem_cons_self h
  | case3 c rest _ _ ih => rw [ih fun hmem ↦ h (List.mem_cons_of_mem _ hmem)]
  | case4 => rfl

theorem prepare_of_fit {s : String} (h : ∀ c ∈ s.toList, Fit c) : prepare s = s.toList := by
  unfold prepare
  rw [joinLines_of_notMem fun hmem ↦ (h _ hmem).1 rfl]
  split
  · next rest heq =>
    have hfirst : '\ufeff' ∈ s.toList := heq ▸ List.mem_cons_self
    exact absurd rfl (h _ hfirst).2
  · rfl

theorem fit_of_plain {c : Char} (h : isPlainChar c = true) : Fit c :=
  ⟨ne_of_isPlainChar h rfl, ne_of_isPlainChar h rfl⟩

instance (c : Char) : Decidable (Fit c) :=
  inferInstanceAs (Decidable (c ≠ '\r' ∧ c ≠ '\ufeff'))

theorem fit_of_all {cs : List Char} (h : cs.all (fun c ↦ decide (Fit c)) = true) :
    ∀ c ∈ cs, Fit c :=
  fun c hc ↦ of_decide_eq_true (List.all_eq_true.1 h c hc)

theorem fit_escapeTextChar {c : Char} (h : Fit c) : ∀ d ∈ escapeTextChar c, Fit d := by
  unfold escapeTextChar
  split
  · exact fit_of_all rfl
  · split
    · exact fit_of_all rfl
    · split
      · exact fit_of_all rfl
      · exact List.forall_mem_singleton.2 h

theorem fit_escapeValueChar {c : Char} (h : Fit c) : ∀ d ∈ escapeValueChar c, Fit d := by
  unfold escapeValueChar
  split
  · exact fit_of_all rfl
  · exact fit_escapeTextChar h

theorem fit_writtenAttributes {as : List Attribute} (h : ∀ a ∈ as, a.Plain) :
    ∀ c ∈ writtenAttributes as, Fit c := by
  have hwrite : ∀ a ∈ as, ∀ c ∈ a.write.toList, Fit c := by
    intro a ha
    have hvalue : ∀ c ∈ a.value.toList.flatMap escapeValueChar, Fit c := by
      intro c hc
      obtain ⟨d, hd, hc⟩ := List.mem_flatMap.1 hc
      exact fit_escapeValueChar ((h a ha).value d hd).2 c hc
    rw [toList_write]
    simp only [List.forall_mem_cons, List.forall_mem_append]
    exact ⟨by decide, fun c hc ↦ fit_of_plain (plain_of_mem (h a ha).name hc), by decide,
      by decide, hvalue, by decide, nofun⟩
  intro c hc
  obtain ⟨a, ha, hc⟩ := List.mem_flatMap.1 hc
  exact hwrite a ha c hc

theorem fit_writeWith {row : Nodes Unit} (h : row.Simple) :
    ∀ c ∈ (row.writeWith false).toList, Fit c := by
  induction row with
  | nil => exact nofun
  | text s rest ih =>
    rw [Nodes.toList_writeWith_text]
    refine List.forall_mem_append.2 ⟨fun d hd ↦ ?_, ih h.2⟩
    obtain ⟨c, hc, hd⟩ := List.mem_flatMap.1 hd
    exact fit_escapeTextChar (h.1 c hc).2 d hd
  | comment s rest _ => exact h.elim
  | branch i l below rest ihb ihr =>
    cases l with
    | document => exact h.1.elim
    | element tag attributes =>
      obtain ⟨⟨htag, -, hattributes⟩, hbelow, hrest⟩ := h
      have hname : ∀ c ∈ tag.toList, Fit c := fun c hc ↦
        fit_of_plain (plain_of_mem (isPlainName_of_mem htag) hc)
      rw [Nodes.toList_writeWith_branch i htag]
      simp only [List.forall_mem_cons, List.forall_mem_append]
      exact ⟨by decide, hname, fit_writtenAttributes hattributes, by decide, ihb hbelow, by decide,
        by decide, hname, by decide, ihr hrest⟩

namespace Builder

variable {b b' b'' : Builder}

/-- Taking in a text leads from one state to another, whatever comes after the text. -/
def Reads (b : Builder) (cs : List Char) (b' : Builder) : Prop :=
  ∀ last rest, ∃ last', b.takeAll last (cs ++ rest) = b'.takeAll last' rest

theorem Reads.nil (b : Builder) : b.Reads [] b :=
  fun last _ ↦ ⟨last, rfl⟩

theorem Reads.append {cs ds : List Char} (h : b.Reads cs b') (h' : b'.Reads ds b'') :
    b.Reads (cs ++ ds) b'' := by
  intro last rest
  obtain ⟨last', hfirst⟩ := h last (ds ++ rest)
  obtain ⟨last'', hsecond⟩ := h' last' rest
  refine ⟨last'', ?_⟩
  rw [List.append_assoc, hfirst, hsecond]

theorem Reads.step {c : Char} {cs : List Char} {token : Token} (hreading : b.reading = .markup)
    (h : ∀ rest, markup b.inForeign c (cs ++ rest) = ⟨[token], rest, .markup⟩) :
    b.Reads (c :: cs) (b.take token) := by
  intro last rest
  have hsame : { b with reading := .markup } = b := by rw [← hreading]
  refine ⟨lastStart last [token], ?_⟩
  rw [List.cons_append, takeAll, hreading]
  simp only [Scan.step, h, hsame, List.foldl_cons, List.foldl_nil]

/-- A state in which tokens are handled by the rules for the body alone. -/
structure Quiet (b : Builder) : Prop where
  phase : b.phase = .inBody
  reading : b.reading = .markup
  formatting : b.formatting = []
  templates : b.templates = []
  dropsNewline : b.dropsNewline = false
  fostering : b.fostering = false
  opened : ∀ o ∈ b.opened, o.vocabulary = .html ∧ o.tag ∈ "html" :: plainTags

namespace Quiet

variable (h : b.Quiet)

include h

theorem isForeign (token : Token) : b.isForeign token = false := by
  unfold Builder.isForeign
  cases hhead : b.opened.head? with
  | none => rfl
  | some e =>
    have hhtml : e.isHtml = true := decide_eq_true (h.opened e (List.mem_of_mem_head? hhead)).1
    cases token <;> simp only [hhtml, Bool.true_or, Bool.not_true]

theorem take {token : Token} (htoken : b.inBody token = b'.done) : b.take token = b' := by
  have hsame : { b with dropsNewline := false } = b := by rw [← h.dropsNewline]
  have honce : b.handleOnce token = (b', false) := by
    rw [handleOnce, h.isForeign, if_neg Bool.false_ne_true, inPhase, h.phase]
    exact htoken
  rw [Builder.take, h.dropsNewline, Bool.false_and, hsame]
  simp only [Bool.false_eq_true, if_false, handleFuel, handle, honce]

theorem reconstruct : b.reconstruct = b := by
  have hsame : { b with formatting := [] } = b := by rw [← h.formatting]
  rw [Builder.reconstruct, h.formatting]
  exact hsame

theorem closeOpenParagraph : b.closeOpenParagraph = b := by
  refine if_neg ?_
  rw [inScopeNamed, inScope]
  split
  · next e he =>
    have htag := (h.opened e (List.mem_of_find?_eq_some he)).2
    have hne : e.tag ≠ "p" := by
      intro hp
      rw [hp] at htag
      revert htag
      decide
    rw [Open.isNamed, decide_eq_false hne, Bool.and_false]
    exact Bool.false_ne_true
  · exact Bool.false_ne_true

theorem startInBody_plain {t : String} (ht : t ∈ plainTags) (as : List Attribute) :
    b.startInBody t as false = b.insertHtml t as := by
  simp only [plainTags, List.mem_cons, List.not_mem_nil, or_false] at ht
  rcases ht with rfl | rfl | rfl
  · change b.closeOpenParagraph.insertHtml "div" as = _
    rw [h.closeOpenParagraph]
  · change b.reconstruct.insertHtml "span" as = _
    rw [h.reconstruct]
  · change b.closeOpenParagraph.insertHtml "section" as = _
    rw [h.closeOpenParagraph]

end Quiet

theorem currentPlace_of_opened {e : Open} {outer : List Open} (hopened : b.opened = e :: outer)
    (hfostering : b.fostering = false) : b.currentPlace = .inside e.id := by
  rw [currentPlace, hopened]
  simp only [List.head?_cons, place, hfostering, Bool.false_and, Bool.false_eq_true, if_false]

theorem insertHtml_of_opened {e : Open} {outer : List Open} (hopened : b.opened = e :: outer)
    (hfostering : b.fostering = false) (t : String) (as : List Attribute) :
    b.insertHtml t as = { b with
      tree := b.tree.updateBelow e.id (· ++ .branch b.next (.element t as) .nil .nil)
      next := b.next + 1
      opened := ⟨b.next, .html, t, false⟩ :: b.opened } := by
  have hplace : { b with next := b.next + 1 }.currentPlace = .inside e.id :=
    currentPlace_of_opened hopened hfostering
  rw [insertHtml, insertElement, openElement]
  simp only [make]
  rw [hplace]
  rfl

theorem endInBody_plain {e' : Open} {outer : List Open} (hopened : b.opened = e' :: outer)
    (ht : e'.tag ∈ plainTags) (hhtml : e'.vocabulary = .html) :
    b.endInBody e'.tag = (b.popNamed e'.tag).done := by
  obtain ⟨i, vocabulary, t, embeds⟩ := e'
  obtain rfl : vocabulary = .html := hhtml
  have hsame : { b with opened := ⟨i, .html, t, embeds⟩ :: outer } = b := by rw [← hopened]
  simp only [plainTags, List.mem_cons, List.not_mem_nil, or_false] at ht
  rw [← hsame]
  rcases ht with rfl | rfl | rfl <;> rfl

/-- The innermost open element, what it has in it so far, and what is around it. -/
structure Inside (b : Builder) (F : Frame Nat) (l : Label) (row rest : Nodes Nat) (e : Open)
    (outer : List Open) : Prop extends Quiet b where
  tree : b.tree = F.fill (.branch e.id l row rest)
  opened_eq : b.opened = e :: outer
  lt_next : ∀ i ∈ b.tree.ids, i < b.next
  not_mem : e.id ∉ F.ids

namespace Inside

variable {F : Frame Nat} {l : Label} {row rest : Nodes Nat} {e : Open} {outer : List Open}

theorem currentPlace (h : b.Inside F l row rest e outer) : b.currentPlace = .inside e.id :=
  currentPlace_of_opened h.opened_eq h.fostering

theorem character (h : b.Inside F l row rest e outer) {c : Char} (hc : c ≠ '\x00') :
    (b.take (.character c)).Inside F l (row.appendText (String.singleton c)) rest e outer := by
  have hids : (row.appendText (String.singleton c)).ids = row.ids := Nodes.ids_appendText _ _
  have htree : (b.tree.updateBelow e.id (·.appendText (String.singleton c))) =
      F.fill (.branch e.id l (row.appendText (String.singleton c)) rest) := by
    rw [h.tree, Frame.updateBelow_fill h.not_mem, Nodes.updateBelow, if_pos rfl]
  have hlt : ∀ i ∈ (F.fill (.branch e.id l (row.appendText (String.singleton c)) rest)).ids,
      i < b.next := by
    have hlt := h.lt_next
    rw [h.tree] at hlt
    intro i hi
    refine hlt i ?_
    simp only [Frame.mem_ids_fill, Nodes.ids, hids] at hi ⊢
    exact hi
  obtain ⟨allowed, htake⟩ : ∃ allowed, b.take (.character c) = { b with
      tree := F.fill (.branch e.id l (row.appendText (String.singleton c)) rest)
      framesetAllowed := allowed } := by
    by_cases hspace : isSpace c = true
    · refine ⟨b.framesetAllowed, h.take ?_⟩
      rw [inBody, characterInBody, if_neg hc, h.reconstruct]
      dsimp only
      rw [if_pos hspace, addCharacter, h.currentPlace, insertTextAt, htree]
    · refine ⟨false, h.take ?_⟩
      have hplace : b.noFrameset.currentPlace = .inside e.id :=
        currentPlace_of_opened h.opened_eq h.fostering
      rw [inBody, characterInBody, if_neg hc, h.reconstruct]
      dsimp only
      rw [if_neg hspace, addCharacter, hplace, insertTextAt, ← htree]
      rfl
  rw [htake]
  exact ⟨⟨h.phase, h.reading, h.formatting, h.templates, h.dropsNewline, h.fostering, h.opened⟩,
    rfl, h.opened_eq, hlt, h.not_mem⟩

theorem startTag (h : b.Inside F l row rest e outer) {t : String} (ht : t ∈ plainTags)
    (as : List Attribute) :
    ∃ e' : Open, e'.tag = t ∧ e'.vocabulary = .html ∧
      (b.take (.startTag t as false)).Inside (F.inRow e.id l row rest) (.element t as) .nil .nil e'
        (e :: outer) := by
  have htree : b.tree.updateBelow e.id (· ++ .branch b.next (.element t as) .nil .nil) =
      (F.inRow e.id l row rest).fill (.branch b.next (.element t as) .nil .nil) := by
    rw [h.tree, Frame.updateBelow_fill h.not_mem, Nodes.updateBelow, if_pos rfl, Frame.fill_inRow]
  have htake : b.take (.startTag t as false) = { b with
      tree := (F.inRow e.id l row rest).fill (.branch b.next (.element t as) .nil .nil)
      next := b.next + 1
      opened := ⟨b.next, .html, t, false⟩ :: b.opened } := by
    refine h.take ?_
    rw [inBody, h.startInBody_plain ht, insertHtml_of_opened h.opened_eq h.fostering,
      htree]
  have hframe : ∀ i ∈ (F.inRow e.id l row rest).ids, i < b.next := by
    intro i hi
    refine h.lt_next i ?_
    have hmem : i ∈ ((F.inRow e.id l row rest).fill .nil).ids := Frame.mem_ids_fill.2 (.inl hi)
    rwa [Frame.fill_inRow, Nodes.append_nil, ← h.tree] at hmem
  refine ⟨⟨b.next, .html, t, false⟩, rfl, rfl, ?_⟩
  rw [htake]
  refine ⟨⟨h.phase, h.reading, h.formatting, h.templates, h.dropsNewline, h.fostering, ?_⟩, rfl,
    congrArg (_ :: ·) h.opened_eq, ?_, fun hmem ↦ Nat.lt_irrefl _ (hframe _ hmem)⟩
  · exact List.forall_mem_cons.2 ⟨⟨rfl, List.mem_cons_of_mem _ ht⟩, h.opened⟩
  · intro i hi
    rcases Frame.mem_ids_fill.1 hi with hi | hi
    · exact Nat.lt_succ_of_lt (hframe i hi)
    · obtain rfl := List.mem_singleton.1 hi
      exact Nat.lt_succ_self _

theorem endTag {l' : Label} {content : Nodes Nat} {e' : Open}
    (h : b.Inside (F.inRow e.id l row rest) l' content .nil e' (e :: outer)) (hF : e.id ∉ F.ids)
    (ht : e'.tag ∈ plainTags) (hhtml : e'.vocabulary = .html) :
    (b.take (.endTag e'.tag)).Inside F l (row ++ .branch e'.id l' content .nil) rest e outer := by
  have hnamed : e'.isNamed e'.tag = true := by
    rw [Open.isNamed, Open.isHtml, hhtml, decide_eq_true rfl, decide_eq_true rfl]
    rfl
  have hpop : b.popNamed e'.tag = { b with opened := e :: outer } := by
    rw [popNamed, popThrough, h.opened_eq, List.dropWhile_cons_of_neg (by rw [hnamed]; decide)]
    rfl
  have hclosed : b.endInBody e'.tag = (b.popNamed e'.tag).done :=
    endInBody_plain h.opened_eq ht hhtml
  have htake : b.take (.endTag e'.tag) = { b with opened := e :: outer } := by
    refine h.take ?_
    rw [inBody, hclosed, hpop]
  have htree := h.tree
  rw [Frame.fill_inRow] at htree
  rw [htake]
  refine ⟨⟨h.phase, h.reading, h.formatting, h.templates, h.dropsNewline, h.fostering,
    fun o ho ↦ h.opened o ?_⟩, htree, rfl, h.lt_next, hF⟩
  rw [h.opened_eq]
  exact List.mem_cons_of_mem _ ho

end Inside

/-- Where an element is open, reading `cs` puts `r` at the end of what is in it, up to how texts are
cut. -/
def Yields (cs : List Char) (r : Nodes Unit) : Prop :=
  ∀ ⦃b : Builder⦄ ⦃F : Frame Nat⦄ ⦃l : Label⦄ ⦃row rest : Nodes Nat⦄ ⦃e : Open⦄ ⦃outer : List Open⦄,
    b.Inside F l row rest e outer → row.plain.Merged →
    ∃ b' row', b.Reads cs b' ∧ b'.Inside F l row' rest e outer ∧ row'.plain.Merged ∧
      row'.plain.normal = (row.plain ++ r).normal

variable {cs ds : List Char} {r r' : Nodes Unit}

theorem Yields.nil : Yields [] .nil := by
  intro b F l row rest e outer h hmerged
  exact ⟨b, row, .nil b, h, hmerged, by rw [Nodes.append_nil]⟩

theorem Yields.append (h : Yields cs r) (h' : Yields ds r') : Yields (cs ++ ds) (r ++ r') := by
  intro b F l row rest e outer hb hmerged
  obtain ⟨b₁, row₁, hreads₁, hb₁, hmerged₁, hnormal₁⟩ := h hb hmerged
  obtain ⟨b₂, row₂, hreads₂, hb₂, hmerged₂, hnormal₂⟩ := h' hb₁ hmerged₁
  refine ⟨b₂, row₂, hreads₁.append hreads₂, hb₂, hmerged₂, ?_⟩
  rw [hnormal₂, Nodes.normal_append_congr_left hnormal₁, Nodes.append_assoc]

theorem Yields.congr (h : Yields cs r) (hr : r.normal = r'.normal) : Yields cs r' := by
  intro b F l row rest e outer hb hmerged
  obtain ⟨b', row', hreads, hb', hmerged', hnormal⟩ := h hb hmerged
  exact ⟨b', row', hreads, hb', hmerged', hnormal.trans (Nodes.normal_append_congr _ hr)⟩

theorem yields_of_reads {c : Char} (hc : c ≠ '\x00')
    (h : ∀ b : Builder, b.reading = .markup → b.Reads cs (b.take (.character c))) :
    Yields cs (.text (String.singleton c) .nil) := by
  intro b F l row rest e outer hb hmerged
  refine ⟨b.take (.character c), _, h b hb.reading, hb.character hc, ?_, ?_⟩
  · rw [Nodes.plain_appendText]
    exact Nodes.merged_appendText String.singleton_ne_empty hmerged
  · rw [Nodes.plain_appendText]
    exact Nodes.normal_appendText _ _

theorem yields_character {c : Char} (hc : c ≠ '\x00') :
    Yields (escapeTextChar c) (.text (String.singleton c) .nil) := by
  apply yields_of_reads hc
  intro b hreading
  obtain ⟨d, ds, hescape, hmarkup⟩ := exists_escapeTextChar b.inForeign c
  rw [hescape]
  exact .step hreading hmarkup

/-- A character that starts no reference and no tag stands for itself. -/
theorem yields_self {c : Char} (hc : c ≠ '\x00') (hamp : c ≠ '&') (hlt : c ≠ '<') :
    Yields [c] (.text (String.singleton c) .nil) := by
  apply yields_of_reads hc
  intro b hreading
  refine .step hreading fun rest ↦ ?_
  simp only [markup, if_neg hamp, if_neg hlt, List.nil_append]

theorem yields_flatMap {g : Char → List Char}
    (hcs : ∀ c ∈ cs, Yields (g c) (.text (String.singleton c) .nil)) :
    Yields (cs.flatMap g) (.text (.ofList cs) .nil) := by
  induction cs with
  | nil => exact Yields.nil.congr rfl
  | cons c cs ih =>
    obtain ⟨hc, hcs⟩ := List.forall_mem_cons.1 hcs
    refine (hc.append (ih hcs)).congr ?_
    have hcons : String.singleton c ++ String.ofList cs = String.ofList (c :: cs) :=
      String.ext (by simp)
    rw [Nodes.text_append, Nodes.nil_append, Nodes.normal, Nodes.normal, Nodes.consText_consText,
      hcons]
    rfl

theorem yields_text (hcs : ∀ c ∈ cs, c ≠ '\x00') :
    Yields (cs.flatMap escapeTextChar) (.text (.ofList cs) .nil) :=
  yields_flatMap fun c hc ↦ yields_character (hcs c hc)

theorem yields_element {t : String} (ht : t ∈ plainTags) {as : List Attribute}
    (has : ∀ a ∈ as, a.Plain) (hnames : (as.map (·.name)).Nodup) {below : Nodes Unit}
    (h : Yields cs below) :
    Yields ('<' :: (t.toList ++ (writtenAttributes as ++ '>' :: (cs ++ '<' :: '/' ::
      (t.toList ++ ['>']))))) (.branch () (.element t as) below .nil) := by
  intro b F l row rest e outer hb hmerged
  have hstart : b.Reads ('<' :: (t.toList ++ (writtenAttributes as ++ ['>'])))
      (b.take (.startTag t as false)) := by
    refine .step hb.reading fun rest ↦ ?_
    simp only [List.append_assoc, List.singleton_append]
    exact markup_startTag b.inForeign ht has hnames rest
  obtain ⟨e', htag, hhtml, hb₁⟩ := hb.startTag ht as
  obtain ⟨b₂, content, hreads, hb₂, hmerged₂, hnormal⟩ := h hb₁ trivial
  have hend : b₂.Reads ('<' :: '/' :: (t.toList ++ ['>'])) (b₂.take (.endTag t)) := by
    refine .step hb₂.reading fun rest ↦ ?_
    simp only [List.append_assoc, List.cons_append]
    exact markup_endTag b₂.inForeign ht rest
  subst htag
  refine ⟨_, _, ?_, hb₂.endTag hb.not_mem ht hhtml, ?_, ?_⟩
  · have hall := hstart.append (hreads.append hend)
    simpa only [List.append_assoc, List.cons_append, List.nil_append] using hall
  · rw [Nodes.plain_append]
    exact Nodes.merged_append_branch hmerged hmerged₂
  · have hcontent : content.plain.normal = below.normal := hnormal
    rw [Nodes.plain_append]
    refine Nodes.normal_append_congr _ ?_
    rw [Nodes.plain, Nodes.normal, Nodes.normal, hcontent]
    rfl

theorem yields_row (hr : r.Simple) : Yields (r.writeWith false).toList r := by
  induction r with
  | nil => exact .nil
  | text s tail ih =>
    have htext := yields_text fun c hc ↦ (hr.1 c hc).1
    rw [String.ofList_toList] at htext
    rw [Nodes.toList_writeWith_text]
    exact htext.append (ih hr.2)
  | comment s tail _ => exact hr.elim
  | branch i l below tail ihb iht =>
    cases l with
    | document => exact hr.1.elim
    | element t as =>
      obtain ⟨⟨ht, hnames, has⟩, hbelow, htail⟩ := hr
      have helement := (yields_element ht has hnames (ihb hbelow)).append (iht htail)
      rw [Nodes.toList_writeWith_branch i ht]
      simp only [List.append_assoc, List.cons_append, List.nil_append] at helement
      exact helement

end Builder

/-- Tags in whose context a fragment is read by the rules for the body from the start. -/
def bodyTags : List String :=
  "li" :: "p" :: plainTags

theorem inside_fragmentStart {t : String} (ht : t ∈ bodyTags) :
    ∃ e, (fragmentStart t).Inside (.within Builder.documentId .document .hole .nil)
      (.element "html" []) .nil .nil e [] ∧ (fragmentStart t).rootId = e.id := by
  simp only [bodyTags, plainTags, List.mem_cons, List.not_mem_nil, or_false] at ht
  refine ⟨⟨1, .html, "html", false⟩, ⟨⟨?_, ?_, ?_, ?_, ?_, ?_, ?_⟩, ?_, ?_, ?_, ?_⟩, ?_⟩
  all_goals rcases ht with rfl | rfl | rfl | rfl | rfl <;> decide

/-- A fragment is read as what it puts into an element that is open. -/
theorem readFragment_of_yields {t : String} (ht : t ∈ bodyTags) {markup : String}
    (hfit : ∀ c ∈ markup.toList, Fit c) {row : Nodes Unit}
    (h : Builder.Yields markup.toList row) : readFragment t markup = row.normal.copied := by
  obtain ⟨e, hstart, hroot⟩ := inside_fragmentStart ht
  obtain ⟨b, content, hreads, hinside, hmerged, hnormal⟩ := h hstart trivial
  obtain ⟨last, hread⟩ := hreads "" []
  have hcontent : content.plain = row.normal := by
    rw [← Nodes.normal_of_merged hmerged, hnormal]
    rfl
  have hfinish : b.take .finish = b := by
    refine hinside.take ?_
    rw [Builder.inBody, if_pos hinside.templates]
  have hall : (fragmentStart t).takeAll "" markup.toList = b := by
    rw [List.append_nil] at hread
    rw [hread, Builder.takeAll, hfinish]
  have hfind : b.tree.find? e.id = some (.element "html" [], content) := by
    rw [hinside.tree, Frame.find?_fill hinside.not_mem, Nodes.find?, if_pos rfl]
  rw [readFragment, prepare_of_fit hfit]
  simp only [hroot, hall, hfind]
  rw [← Nodes.copied_plain, hcontent]

/-- What is written of a simple row is read back as the row, up to how its texts are cut. -/
theorem readFragment_writeWith {t : String} (ht : t ∈ plainTags) {row : Nodes Unit}
    (h : row.Simple) : readFragment t (row.writeWith false) = row.normal := by
  have hbody : t ∈ bodyTags := List.mem_cons_of_mem _ (List.mem_cons_of_mem _ ht)
  rw [readFragment_of_yields hbody (fit_writeWith h) (Builder.yields_row h),
    Nodes.copied_of_simple (Nodes.simple_normal h)]

theorem readFragment_inner {ι : Type} {t : String} (ht : t ∈ plainTags) {l : Label}
    (hl : l.tag ∈ plainTags) {row : Nodes ι} (h : row.Simple) :
    readFragment t (Nodes.inner l row) = row.plain.normal := by
  have hraw : rawTags.contains l.tag = false := by
    revert hl
    generalize l.tag = tag
    revert tag
    decide
  rw [Nodes.inner, hraw, ← Nodes.writeWith_plain]
  exact readFragment_writeWith ht ((Nodes.simple_plain row).2 h)

end LivePage.Markup
