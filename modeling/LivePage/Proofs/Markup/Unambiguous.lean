import LivePage.Forest.Basic
import LivePage.Proofs.Markup.Normal

namespace LivePage.Markup

/-- The character that the front of an escaped text stands for. Reading a page would not tell: it
takes some characters for others. -/
def unescapeFirst : List Char → Option Char
  | '&' :: 'a' :: _ => some '&'
  | '&' :: 'l' :: _ => some '<'
  | '&' :: 'g' :: _ => some '>'
  | '&' :: 'q' :: _ => some '"'
  | c :: _ => some c
  | [] => none

theorem unescapeFirst_cons {c : Char} (h : c ≠ '&') (rest : List Char) :
    unescapeFirst (c :: rest) = some c := by
  unfold unescapeFirst
  split <;> simp_all

theorem unescapeFirst_escapeTextChar (c : Char) (rest : List Char) :
    unescapeFirst (escapeTextChar c ++ rest) = some c := by
  unfold escapeTextChar
  by_cases hamp : c = '&'
  · rw [if_pos hamp, hamp]
    rfl
  · rw [if_neg hamp]
    split
    · next h => rw [h]; rfl
    · split
      · next h => rw [h]; rfl
      · exact unescapeFirst_cons hamp rest

theorem unescapeFirst_escapeValueChar (c : Char) (rest : List Char) :
    unescapeFirst (escapeValueChar c ++ rest) = some c := by
  unfold escapeValueChar
  split
  · next h => rw [h]; rfl
  · exact unescapeFirst_escapeTextChar c rest

/-- What is written for characters can be told apart from the front, and from where it stops. -/
structure Separable (g : Char → List Char) (stop : List Char → Prop) : Prop where
  unique : ∀ {c d : Char} {x y : List Char}, g c ++ x = g d ++ y → c = d
  goes_on : ∀ {c : Char} {x : List Char}, ¬stop (g c ++ x)

theorem Separable.flatMap_append_inj {g : Char → List Char} {stop : List Char → Prop}
    (hg : Separable g stop) {cs ds x y : List Char} (hx : stop x) (hy : stop y)
    (h : cs.flatMap g ++ x = ds.flatMap g ++ y) : cs = ds ∧ x = y := by
  induction cs generalizing ds with
  | nil =>
    cases ds with
    | nil => exact ⟨rfl, h⟩
    | cons d ds =>
      rw [List.flatMap_nil, List.nil_append, List.flatMap_cons, List.append_assoc] at h
      exact absurd (h ▸ hx) hg.goes_on
  | cons c cs ih =>
    rw [List.flatMap_cons, List.append_assoc] at h
    cases ds with
    | nil =>
      rw [List.flatMap_nil, List.nil_append] at h
      exact absurd (h ▸ hy) hg.goes_on
    | cons d ds =>
      rw [List.flatMap_cons, List.append_assoc] at h
      obtain rfl := hg.unique h
      obtain ⟨rfl, hxy⟩ := ih (List.append_cancel_left h)
      exact ⟨rfl, hxy⟩

theorem separable_value : Separable escapeValueChar (·.head? = some '"') where
  unique {c d x y} h := by
    have hfirst := congrArg unescapeFirst h
    rw [unescapeFirst_escapeValueChar, unescapeFirst_escapeValueChar] at hfirst
    exact Option.some.inj hfirst
  goes_on {c x} h := by
    have hquote := quote_notMem_escapeValueChar c
    have hfirst := unescapeFirst_escapeValueChar c []
    cases hwritten : escapeValueChar c with
    | nil =>
      rw [hwritten] at hfirst
      cases hfirst
    | cons d ds =>
      rw [hwritten] at h hquote
      exact hquote (Option.some.inj h ▸ List.mem_cons_self)

/-- What markup goes on with: the end of an element or of all, a text, or an element. -/
inductive Lead
  | closing
  | text
  | opening
deriving DecidableEq

def lead : List Char → Lead
  | [] => .closing
  | '<' :: '/' :: _ => .closing
  | '<' :: _ => .opening
  | _ => .text

theorem lead_cons {c : Char} (h : c ≠ '<') (rest : List Char) : lead (c :: rest) = .text := by
  unfold lead
  split <;> simp_all

theorem lead_opening {c : Char} (h : c ≠ '/') (rest : List Char) :
    lead ('<' :: c :: rest) = .opening := by
  unfold lead
  split <;> simp_all

theorem lead_escapeTextChar (c : Char) (rest : List Char) :
    lead (escapeTextChar c ++ rest) = .text := by
  unfold escapeTextChar
  split
  · rfl
  · split
    · rfl
    · next hlt =>
      split
      · rfl
      · exact lead_cons hlt rest

theorem separable_text : Separable escapeTextChar (lead · ≠ .text) where
  unique {c d x y} h := by
    have hfirst := congrArg unescapeFirst h
    rw [unescapeFirst_escapeTextChar, unescapeFirst_escapeTextChar] at hfirst
    exact Option.some.inj hfirst
  goes_on {c x} h := h (lead_escapeTextChar c x)

theorem plain_append_inj {s t : String} (hs : isPlainName s = true) (ht : isPlainName t = true)
    {x y : List Char} (hx : x.takeWhile isPlainChar = []) (hy : y.takeWhile isPlainChar = [])
    (h : s.toList ++ x = t.toList ++ y) : s = t ∧ x = y := by
  have hname := congrArg (List.takeWhile isPlainChar) h
  rw [List.takeWhile_append_of_pos fun _ ↦ plain_of_mem hs, hx, List.append_nil,
    List.takeWhile_append_of_pos fun _ ↦ plain_of_mem ht, hy, List.append_nil] at hname
  rw [hname] at h
  exact ⟨String.toList_inj.1 hname, List.append_cancel_left h⟩

theorem takeWhile_writtenAttributes (as : List Attribute) (rest : List Char) :
    (writtenAttributes as ++ '>' :: rest).takeWhile isPlainChar = [] := by
  cases as with
  | nil => rfl
  | cons a as =>
    rw [writtenAttributes_cons_append]
    rfl

theorem writtenAttributes_append_inj {as bs : List Attribute}
    (ha : ∀ a ∈ as, isPlainName a.name = true) (hb : ∀ b ∈ bs, isPlainName b.name = true)
    {x y : List Char} (h : writtenAttributes as ++ '>' :: x = writtenAttributes bs ++ '>' :: y) :
    as = bs ∧ x = y := by
  induction as generalizing bs with
  | nil =>
    cases bs with
    | nil => exact ⟨rfl, (List.cons.inj h).2⟩
    | cons b bs =>
      rw [writtenAttributes_cons_append] at h
      cases (List.cons.inj h).1
  | cons a as ih =>
    rw [writtenAttributes_cons_append] at h
    cases bs with
    | nil => cases (List.cons.inj h).1
    | cons b bs =>
      rw [writtenAttributes_cons_append] at h
      obtain ⟨ha, has⟩ := List.forall_mem_cons.1 ha
      obtain ⟨hb, hbs⟩ := List.forall_mem_cons.1 hb
      obtain ⟨hname, hrest⟩ := plain_append_inj ha hb rfl rfl (List.cons.inj h).2
      obtain ⟨hvalue, hrest⟩ := separable_value.flatMap_append_inj rfl rfl
        (List.cons.inj (List.cons.inj hrest).2).2
      obtain ⟨rfl, hxy⟩ := ih has hbs (List.cons.inj hrest).2
      have hab : a = b := by
        cases a
        cases b
        exact congrArg₂ Attribute.mk hname (String.toList_inj.1 hvalue)
      exact ⟨congrArg (· :: as) hab, hxy⟩

theorem startTag_inj {s t : String} (hs : isPlainName s = true) (ht : isPlainName t = true)
    {as bs : List Attribute} (ha : ∀ a ∈ as, isPlainName a.name = true)
    (hb : ∀ b ∈ bs, isPlainName b.name = true) {x y : List Char}
    (h : '<' :: (s.toList ++ (writtenAttributes as ++ '>' :: x)) =
      '<' :: (t.toList ++ (writtenAttributes bs ++ '>' :: y))) :
    s = t ∧ as = bs ∧ x = y := by
  obtain ⟨htag, hrest⟩ := plain_append_inj hs ht (takeWhile_writtenAttributes as x)
    (takeWhile_writtenAttributes bs y) (List.cons.inj h).2
  exact ⟨htag, writtenAttributes_append_inj ha hb hrest⟩

def Label.Ordinary : Label → Prop
  | .document => False
  | .element tag attributes =>
    isPlainName tag = true ∧ tag ∉ rawTags ∧ ∀ a ∈ attributes, isPlainName a.name = true

instance : (l : Label) → Decidable l.Ordinary
  | .document => .isFalse id
  | .element tag attributes => inferInstanceAs (Decidable
      (isPlainName tag = true ∧ tag ∉ rawTags ∧ ∀ a ∈ attributes, isPlainName a.name = true))

namespace Nodes

variable {ι : Type}

/-- A row of texts and ordinary elements, with nothing in those that have no end tag. -/
def Ordinary : Nodes ι → Prop
  | nil => True
  | text _ rest => rest.Ordinary
  | comment _ _ => False
  | branch _ l below rest =>
    l.Ordinary ∧ (l.tag ∈ voidTags → below = nil) ∧ below.Ordinary ∧ rest.Ordinary

def decideOrdinary [DecidableEq ι] : (r : Nodes ι) → Decidable r.Ordinary
  | nil => .isTrue trivial
  | text _ rest => decideOrdinary rest
  | comment _ _ => .isFalse id
  | branch _ l below rest =>
    let _ := decideOrdinary below
    let _ := decideOrdinary rest
    inferInstanceAs (Decidable
      (l.Ordinary ∧ (l.tag ∈ voidTags → below = nil) ∧ below.Ordinary ∧ rest.Ordinary))

instance [DecidableEq ι] (r : Nodes ι) : Decidable r.Ordinary := decideOrdinary r

theorem ordinary_plain {r : Nodes ι} (h : r.Ordinary) : r.plain.Ordinary := by
  induction r with
  | nil => trivial
  | text s rest ih => exact ih h
  | comment s rest _ => exact h
  | branch i l below rest ihb ihr =>
    obtain ⟨hl, hvoid, hbelow, hrest⟩ := h
    refine ⟨hl, fun htag ↦ ?_, ihb hbelow, ihr hrest⟩
    rw [hvoid htag]
    rfl

theorem ordinary_consText {r : Nodes ι} (h : r.Ordinary) (s : String) :
    (r.consText s).Ordinary := by
  rcases r.bare_or with hbare | ⟨t, rest, rfl⟩
  · rw [consText_of_bare hbare]
    split
    · exact h
    · exact h
  · exact h

theorem ordinary_normal {r : Nodes ι} (h : r.Ordinary) : r.normal.Ordinary := by
  induction r with
  | nil => trivial
  | text s rest ih => exact ordinary_consText (ih h) s
  | comment s rest _ => exact h
  | branch i l below rest ihb ihr =>
    obtain ⟨hl, hvoid, hbelow, hrest⟩ := h
    refine ⟨hl, fun htag ↦ ?_, ihb hbelow, ihr hrest⟩
    rw [hvoid htag]
    rfl

def lead : Nodes ι → Lead
  | nil => .closing
  | text _ _ => .text
  | comment _ _ | branch _ _ _ _ => .opening

theorem lead_startTag {tag : String} (h : isPlainName tag = true) (rest : List Char) :
    Markup.lead ('<' :: (tag.toList ++ rest)) = .opening := by
  obtain ⟨c, cs, htag, hc, -⟩ := isPlainName_iff.1 h
  rw [htag, List.cons_append]
  exact lead_opening (ne_of_isPlainChar (isPlainChar_of_isSmall hc) rfl) _

theorem lead_write {r : Nodes ι} (ho : r.Ordinary) (hm : r.Merged) {t : List Char}
    (ht : Markup.lead t = .closing) :
    Markup.lead ((r.writeWith false).toList ++ t) = r.lead := by
  cases r with
  | nil => exact ht
  | comment s rest => exact ho.elim
  | text s rest =>
    rw [toList_writeWith_text, List.append_assoc]
    cases hs : s.toList with
    | nil => exact absurd (String.toList_eq_nil_iff.1 hs) hm.1
    | cons c cs =>
      rw [List.flatMap_cons, List.append_assoc]
      exact lead_escapeTextChar c _
  | branch i l below rest =>
    cases l with
    | document => exact ho.1.elim
    | element tag attributes =>
      obtain ⟨hplain, -, -⟩ := ho.1
      rw [writeWith, String.toList_append, String.toList_append, toList_writeStartTag,
        List.append_assoc, List.append_assoc, List.cons_append, List.append_assoc]
      exact lead_startTag hplain _

theorem lead_ne_text {r : Nodes ι} (h : r.Bare) : r.lead ≠ .text := by
  cases r with
  | text s rest => exact h.elim
  | nil | comment _ _ | branch _ _ _ _ => nofun

theorem lead_eq_of_write_append {r q : Nodes Unit} (hr : r.Ordinary) (hq : q.Ordinary)
    (hrm : r.Merged) (hqm : q.Merged) {t u : List Char} (ht : Markup.lead t = .closing)
    (hu : Markup.lead u = .closing)
    (h : (r.writeWith false).toList ++ t = (q.writeWith false).toList ++ u) : r.lead = q.lead := by
  rw [← lead_write hr hrm ht, h, lead_write hq hqm hu]

def afterStartTag (tag : String) (below rest : Nodes ι) : List Char :=
  if tag ∈ voidTags then (rest.writeWith false).toList
  else (below.writeWith false).toList ++ '<' :: '/' :: (tag.toList ++ '>' ::
    (rest.writeWith false).toList)

theorem toList_writeWith_ordinary (i : ι) {tag : String} (h : tag ∉ rawTags)
    (attributes : List Attribute) (below rest : Nodes ι) :
    ((branch i (.element tag attributes) below rest).writeWith false).toList =
      '<' :: (tag.toList ++ (writtenAttributes attributes ++ '>' ::
        afterStartTag tag below rest)) := by
  have hcontains : ∀ {tags : List String}, tag ∉ tags → tags.contains tag = false := fun hnot ↦
    Bool.eq_false_iff.2 fun hmem ↦ hnot (List.contains_iff_mem.1 hmem)
  unfold afterStartTag
  split
  · next hvoid => exact toList_writeWith_void i (List.contains_iff_mem.2 hvoid) _ _ _
  · next hvoid => exact toList_writeWith_element i (hcontains hvoid) (hcontains h) _ _ _

/-- The markup of merged rows of ordinary elements can be told from what comes after it, and one row
from another. -/
theorem write_append_inj {r q : Nodes Unit} (hr : r.Ordinary) (hq : q.Ordinary) (hrm : r.Merged)
    (hqm : q.Merged) {t u : List Char} (ht : Markup.lead t = .closing)
    (hu : Markup.lead u = .closing)
    (h : (r.writeWith false).toList ++ t = (q.writeWith false).toList ++ u) : r = q ∧ t = u := by
  induction r generalizing q t u with
  | nil =>
    have hlead := lead_eq_of_write_append hr hq hrm hqm ht hu h
    cases q with
    | nil => exact ⟨rfl, h⟩
    | text _ _ | comment _ _ | branch _ _ _ _ => cases hlead
  | comment s rest _ => exact hr.elim
  | text s rest ih =>
    have hlead := lead_eq_of_write_append hr hq hrm hqm ht hu h
    cases q with
    | nil | comment _ _ | branch _ _ _ _ => cases hlead
    | text s' rest' =>
      replace hr : rest.Ordinary := hr
      replace hq : rest'.Ordinary := hq
      obtain ⟨-, hbare, hrm⟩ := hrm
      obtain ⟨-, hbare', hqm⟩ := hqm
      rw [toList_writeWith_text, toList_writeWith_text, List.append_assoc, List.append_assoc] at h
      have hstop : Markup.lead ((rest.writeWith false).toList ++ t) ≠ .text :=
        lead_write hr hrm ht ▸ lead_ne_text hbare
      have hstop' : Markup.lead ((rest'.writeWith false).toList ++ u) ≠ .text :=
        lead_write hq hqm hu ▸ lead_ne_text hbare'
      obtain ⟨hs, hrest⟩ := separable_text.flatMap_append_inj hstop hstop' h
      obtain ⟨rfl, htu⟩ := ih hr hq hrm hqm ht hu hrest
      exact ⟨congrArg (text · rest) (String.toList_inj.1 hs), htu⟩
  | branch i l below rest ihb ihr =>
    have hlead := lead_eq_of_write_append hr hq hrm hqm ht hu h
    cases q with
    | nil | text _ _ => cases hlead
    | comment _ _ => exact hq.elim
    | branch j l' below' rest' =>
      obtain ⟨hl, hvoid, hbelow, hr⟩ := hr
      obtain ⟨hl', hvoid', hbelow', hq⟩ := hq
      obtain ⟨hbm, hrm⟩ := hrm
      obtain ⟨hbm', hqm⟩ := hqm
      cases l with
      | document => exact hl.elim
      | element tag attributes =>
        cases l' with
        | document => exact hl'.elim
        | element tag' attributes' =>
          obtain ⟨htag, hraw, hnames⟩ := hl
          obtain ⟨htag', hraw', hnames'⟩ := hl'
          rw [toList_writeWith_ordinary i hraw, toList_writeWith_ordinary j hraw'] at h
          simp only [List.cons_append, List.append_assoc] at h
          obtain ⟨rfl, rfl, htail⟩ := startTag_inj htag htag' hnames hnames' h
          rw [afterStartTag, afterStartTag] at htail
          by_cases htag : tag ∈ voidTags
          · rw [if_pos htag, if_pos htag] at htail
            obtain ⟨rfl, htu⟩ := ihr hr hq hrm hqm ht hu htail
            obtain rfl := hvoid htag
            obtain rfl := hvoid' htag
            exact ⟨rfl, htu⟩
          · rw [if_neg htag, if_neg htag, List.append_assoc, List.append_assoc] at htail
            obtain ⟨rfl, hend⟩ := ihb hbelow hbelow' hbm hbm' rfl rfl htail
            simp only [List.cons_append, List.append_assoc, List.cons.injEq, true_and,
              List.append_cancel_left_eq] at hend
            obtain ⟨rfl, htu⟩ := ihr hr hq hrm hqm ht hu hend
            exact ⟨rfl, htu⟩

theorem write_eq_write_iff {ι κ : Type} {r : Nodes ι} {q : Nodes κ} (hr : r.Ordinary)
    (hq : q.Ordinary) :
    r.writeWith false = q.writeWith false ↔ r.plain.normal = q.plain.normal := by
  rw [← writeWith_plain false r, ← writeWith_plain false q, ← writeWith_normal false r.plain,
    ← writeWith_normal false q.plain]
  constructor
  · intro h
    have hro := ordinary_normal (ordinary_plain hr)
    have hqo := ordinary_normal (ordinary_plain hq)
    have happend : (r.plain.normal.writeWith false).toList ++ [] =
        (q.plain.normal.writeWith false).toList ++ [] := by rw [h]
    exact (write_append_inj hro hqo (merged_normal _) (merged_normal _) rfl rfl happend).1
  · intro h
    rw [h]

end Nodes

end LivePage.Markup

namespace LivePage.Forest

open Markup

/-- The node is an ordinary element with only texts and ordinary elements below it. -/
def Ordinary (f : Forest) (i : NodeId) : Prop :=
  (Nodes.branch i (f.label i) (f.below i) .nil).Ordinary

instance (f : Forest) (i : NodeId) : Decidable (f.Ordinary i) :=
  inferInstanceAs (Decidable (Nodes.branch i (f.label i) (f.below i) .nil).Ordinary)

section

variable {f g : Forest} {i j : NodeId}

theorem outer_eq_write (f : Forest) (i : NodeId) :
    f.outer i = (Nodes.branch i (f.label i) (f.below i) .nil).writeWith false :=
  Nodes.writeWith_plain false (.branch i (f.label i) (f.below i) .nil)

theorem inner_eq_write (h : f.Ordinary i) : f.inner i = (f.below i).writeWith false := by
  have hl : (f.label i).Ordinary := h.1
  unfold inner Nodes.inner
  cases hlabel : f.label i with
  | document => rw [hlabel] at hl; exact hl.elim
  | element tag attributes =>
    rw [hlabel] at hl
    exact congrArg (fun raw ↦ (f.below i).writeWith raw)
      (Bool.eq_false_iff.2 fun hmem ↦ hl.2.1 (List.contains_iff_mem.1 hmem))

/-- Ordinary elements whose markup is the same have the same tags, attributes, nesting and texts, up
to the way the texts are cut, and the same holds of the markup of their contents. -/
theorem outer_eq_outer_iff (hf : f.Ordinary i) (hg : g.Ordinary j) :
    (f.outer i = g.outer j ↔
      f.label i = g.label j ∧ (f.below i).plain.normal = (g.below j).plain.normal) ∧
    (f.inner i = g.inner j ↔ (f.below i).plain.normal = (g.below j).plain.normal) := by
  constructor
  · rw [outer_eq_write, outer_eq_write, Nodes.write_eq_write_iff hf hg]
    simp only [Nodes.plain, Nodes.normal, Nodes.branch.injEq, true_and, and_true]
  · rw [inner_eq_write hf, inner_eq_write hg]
    exact Nodes.write_eq_write_iff hf.2.2.1 hg.2.2.1

end

/-- An element whose texts and values look like markup, one in which the same texts are cut
otherwise, and one in which the markup is real. -/
def lookalikes : Forest :=
  (plant (plant (plant {}
    (.element "p" [⟨"title", "\"></p><br id=\"x"⟩])
    (.text "<br>" (.text " &lt;" (.branch () (.element "br" []) .nil (.text "a\"b" .nil))))).2
    (.element "p" [⟨"title", "\"></p><br id=\"x"⟩])
    (.text "" (.text "<br> &" (.text "lt;" (.branch () (.element "br" []) .nil
      (.text "a\"b" (.text "" .nil))))))).2
    (.element "p" [⟨"title", ""⟩])
    (.branch () (.element "br" []) .nil (.text " <" (.branch () (.element "br" []) .nil
      (.text "a\"b" .nil))))).2

theorem outer_eq_outer_lookalikes :
    (lookalikes.Ordinary 0 ∧ lookalikes.Ordinary 2 ∧ lookalikes.Ordinary 4) ∧
      lookalikes.outer 0 = lookalikes.outer 2 ∧ lookalikes.inner 0 ≠ lookalikes.inner 4 := by
  have hordinary : lookalikes.Ordinary 0 ∧ lookalikes.Ordinary 2 ∧ lookalikes.Ordinary 4 := by
    decide +kernel
  obtain ⟨hfirst, hcut, hreal⟩ := hordinary
  have hsame : lookalikes.label 0 = lookalikes.label 2 ∧
      (lookalikes.below 0).plain.normal = (lookalikes.below 2).plain.normal := by
    decide +kernel
  have hother : (lookalikes.below 0).plain.normal ≠ (lookalikes.below 4).plain.normal := by
    decide +kernel
  exact ⟨⟨hfirst, hcut, hreal⟩, (outer_eq_outer_iff hfirst hcut).1.2 hsame,
    fun h ↦ hother ((outer_eq_outer_iff hfirst hreal).2.1 h)⟩

end LivePage.Forest
