import LivePage.Proofs.Markup.RoundTrip
import LivePage.Proofs.Template.Escaped
import LivePage.Proofs.Template.Expanding

namespace LivePage

open Markup

namespace Markup

/-- Markup that adds a text to what is in an element that is open. -/
structure ReadsAs (markup text : String) : Prop where
  fit : ∀ c ∈ markup.toList, Fit c
  yields : Builder.Yields markup.toList (.text text .nil)

namespace ReadsAs

variable {s s' t t' : String}

theorem empty : ReadsAs "" "" :=
  ⟨nofun, Builder.Yields.nil.congr rfl⟩

theorem append (h : ReadsAs s t) (h' : ReadsAs s' t') : ReadsAs (s ++ s') (t ++ t') := by
  constructor
  · rw [String.toList_append]
    exact List.forall_mem_append.2 ⟨h.fit, h'.fit⟩
  · rw [String.toList_append]
    refine (h.yields.append h'.yields).congr ?_
    rw [Nodes.text_append, Nodes.nil_append, Nodes.normal, Nodes.normal, Nodes.consText_consText]
    rfl

theorem join {α : Type} {as : List α} {markup text : α → String}
    (h : ∀ a ∈ as, ReadsAs (markup a) (text a)) :
    ReadsAs (String.join (as.map markup)) (String.join (as.map text)) := by
  induction as with
  | nil => exact empty
  | cons a as ih =>
    obtain ⟨ha, has⟩ := List.forall_mem_cons.1 h
    rw [List.map_cons, List.map_cons, String.join_cons, String.join_cons]
    exact ha.append (ih has)

theorem readFragment_eq (h : ReadsAs s t) {tag : String} (htag : tag ∈ bodyTags) :
    readFragment tag s = .ofText t := by
  have hnormal : (Nodes.text t .nil : Nodes Unit).normal = .ofText t := rfl
  rw [readFragment_of_yields htag h.fit h.yields, hnormal, Nodes.ofText]
  split <;> rfl

end ReadsAs

theorem Clean.of_append {s t : String} (h : Clean (s ++ t)) : Clean s ∧ Clean t := by
  rw [Clean, String.toList_append, List.forall_mem_append] at h
  exact h

theorem readsAs_escapeText {text : String} (h : Clean text) : ReadsAs (escapeText text) text := by
  constructor
  · intro d hd
    rw [escapeText, String.toList_ofList] at hd
    obtain ⟨c, hc, hd⟩ := List.mem_flatMap.1 hd
    exact fit_escapeTextChar (h c hc).2 d hd
  · have hyields := Builder.yields_text fun c hc ↦ (h c hc).1
    rw [String.ofList_toList] at hyields
    rwa [escapeText, String.toList_ofList]

theorem readsAs_self {text : String} (h : Clean text) (hamp : '&' ∉ text.toList)
    (hlt : '<' ∉ text.toList) : ReadsAs text text := by
  constructor
  · intro c hc
    exact (h c hc).2
  · have hyields : Builder.Yields (text.toList.flatMap fun c ↦ [c])
        (.text (.ofList text.toList) .nil) := by
      apply Builder.yields_flatMap
      intro c hc
      apply Builder.yields_self (h c hc).1
      · rintro rfl
        exact hamp hc
      · rintro rfl
        exact hlt hc
    rwa [List.flatMap_singleton', String.ofList_toList] at hyields

end Markup

namespace Template

def itemText (item value front : String) (cuts : List Cut) : String :=
  front ++ String.join (cuts.map fun c ↦ (if c.name = item then value else c.raw) ++ c.behind)

section

variable {tag item value template front : String} {cuts : List Cut}

theorem Decomposes.clean (h : Decomposes template front cuts) (hclean : Clean template) :
    Clean front ∧ ∀ c ∈ cuts, Clean c.raw ∧ Clean c.behind := by
  rw [h.text_eq] at hclean
  obtain ⟨hfront, hcuts⟩ := Clean.of_append hclean
  refine ⟨hfront, ?_⟩
  clear h hclean
  induction cuts with
  | nil => nofun
  | cons c cuts ih =>
    rw [List.map_cons, String.join_cons] at hcuts
    obtain ⟨hc, hrest⟩ := Clean.of_append hcuts
    exact List.forall_mem_cons.2 ⟨Clean.of_append hc, ih hrest⟩

theorem readsAs_itemMarkup (h : Decomposes template front cuts) (hclean : Clean template)
    (hraw : rawTags.contains (Text.lower tag) = false) (hvalue : ReadsAs value value) :
    ReadsAs (itemMarkup tag item value front cuts) (itemText item value front cuts) := by
  obtain ⟨hfront, hcuts⟩ := h.clean hclean
  have hwritten : ∀ {text}, Clean text → ReadsAs (written tag text) text := by
    intro text htext
    rw [written, hraw]
    exact readsAs_escapeText htext
  apply (hwritten hfront).append
  apply ReadsAs.join
  intro c hc
  obtain ⟨hname, hbehind⟩ := hcuts c hc
  refine ReadsAs.append ?_ (hwritten hbehind)
  split
  · exact hvalue
  · have hself := hwritten hname
    rwa [written_of_isToken tag (h.tokens c hc)] at hself

theorem Decomposes.itemText_eq (h : Decomposes template front cuts)
    (hitem : item ∉ namesIn template) : itemText item value front cuts = template := by
  rw [h.namesIn_eq] at hitem
  rw [itemText, h.text_eq]
  apply congrArg (front ++ String.join ·)
  apply List.map_congr_left
  intro c hc
  rw [if_neg, Cut.text]
  rintro rfl
  exact hitem (List.mem_map_of_mem hc)

/-- An item without markup in it gets a text as its content. -/
theorem Decomposes.content_eq_ofText (h : Decomposes template front cuts) (hclean : Clean template)
    (htag : tag ∈ bodyTags) (l : Loop) {value : Value}
    (hvalue : ReadsAs value.display value.display) :
    l.content tag template value = .ofText (itemText l.item value.display front cuts) := by
  have hraw : rawTags.contains (Text.lower tag) = false := by
    revert tag
    decide
  rw [h.content_eq]
  split
  · exact (readsAs_itemMarkup h hclean hraw hvalue).readFragment_eq htag
  · next hitem => rw [h.itemText_eq hitem]

end

section

variable {data : Data} {f g : Forest} {i : NodeId} {l : Loop} {generated : List NodeId}

theorem dispatchAttributes_of_expand {as : List Attribute} {a : Attribute}
    (ha : as.find? (·.name = loopAttribute) = some a) (hl : Loop.parse a.value = .ok l)
    (hexpand : l.expand data f i = .ok (generated, g)) :
    dispatchAttributes data f i as = ⟨.expanded generated, g, []⟩ := by
  induction as with
  | nil => cases ha
  | cons b as ih =>
    rw [dispatchAttributes]
    by_cases hb : b.name = loopAttribute
    · simp only [List.find?_cons, hb, decide_true, Option.some.injEq] at ha
      obtain rfl := ha
      have hparse : Directive.parse? b.name b.value = some (.ok (.loop l)) := by
        rw [Directive.parse?, if_pos hb, hl]
        rfl
      simp only [hparse, hexpand]
    · simp only [List.find?_cons, hb, decide_false] at ha
      have hparse : Directive.parse? b.name b.value = none := if_neg hb
      simp only [hparse, ih ha]

theorem dispatch_of_expand {statement : String}
    (hstatement : (f.label i).attribute? loopAttribute = some statement)
    (hl : Loop.parse statement = .ok l) (hexpand : l.expand data f i = .ok (generated, g)) :
    dispatch data f i = ⟨.expanded generated, g, []⟩ := by
  obtain ⟨a, ha, rfl⟩ := Option.map_eq_some_iff.1 hstatement
  have hname : Text.lower loopAttribute = loopAttribute := by decide +kernel
  rw [hname] at ha
  exact dispatchAttributes_of_expand ha hl hexpand

/-- A text without zero characters, returns and byte order marks that starts no reference and no
tag. -/
def Harmless (text : String) : Prop :=
  Clean text ∧ '&' ∉ text.toList ∧ '<' ∉ text.toList

instance (text : String) : Decidable (Harmless text) :=
  inferInstanceAs (Decidable (Clean text ∧ '&' ∉ text.toList ∧ '<' ∉ text.toList))

/-- A loop over items that hold no markup is expanded to one element for each item, in their order
and in the place of the element, that has no element in it and shows the text of the template with
the item in place of its placeholders. The template may hold any markup as text. -/
theorem expands_to_text (hf : f.WellFormed) (htag : f.tag i ∈ ["li", "p", "div", "span"])
    {q : NodeId} (hq : f.parent? i = some q) {statement : String}
    (hstatement : (f.label i).attribute? "d-for" = some statement)
    (hl : Loop.parse statement = .ok l) {items : List Value}
    (hitems : data.get? l.collection = some (.list items))
    (hplaceholder : hasPlaceholder (f.textContent i) = true) (hclean : Clean (f.textContent i))
    (hharmless : ∀ item ∈ items, Harmless item.display) :
    ∃ generated g, l.expand data f i = .ok (generated, g) ∧
      dispatch data f i = ⟨.expanded generated, g, []⟩ ∧ f.TakesPlace i q generated g ∧
      (∃ front cuts, Decomposes (f.textContent i) front cuts) ∧
      ∀ front cuts, Decomposes (f.textContent i) front cuts →
        List.Forall₂ (fun item j ↦ g.label j = .element (f.tag i) [] ∧ g.childCount j = 0 ∧
          g.textContent j = itemText l.item item.display front cuts) items generated := by
  obtain ⟨hbody, hlower⟩ : f.tag i ∈ bodyTags ∧ Text.lower (f.tag i) = f.tag i := by
    revert htag
    generalize f.tag i = tag
    revert tag
    decide +kernel
  have hfind : items = [] ∨ find (f.textContent i) ≠ [] :=
    .inr ((hasPlaceholder_iff _).1 hplaceholder)
  obtain ⟨generated, g, hexpand, hplace, helements⟩ :=
    Loop.expand_takesPlace hf hitems rfl hfind hq
  refine ⟨generated, g, hexpand, dispatch_of_expand hstatement hl hexpand, hplace,
    exists_decomposes _, ?_⟩
  intro front cuts hcuts
  refine ((List.forall₂_and_left _ _).2 ⟨hharmless, helements⟩).imp ?_
  rintro item j ⟨⟨hitem, hamp, hlt⟩, hlabel, hbelow⟩
  have hself : ReadsAs item.display item.display := readsAs_self hitem hamp hlt
  rw [hcuts.content_eq_ofText hclean hbody l hself] at hbelow
  refine ⟨?_, ?_, ?_⟩
  · rw [hlabel, Label.ofTag, hlower]
  · rw [Forest.childCount, ← Nodes.elementCount_plain, hbelow, Nodes.elementCount_ofText]
  · rw [Forest.textContent, ← Nodes.textContent_plain, hbelow, Nodes.textContent_ofText]

end

def angledPage : Forest :=
  ⟨.branch 0 .document (.branch 1 (.element "ul" []) (.branch 2
    (.element "li" [⟨"class", "x in xs"⟩, ⟨"d-for", "x in xs"⟩])
    (.text "a<b&\x7b\x7bx\x7d\x7d>" (.branch 3 (.element "b" [])
      (.text "\x7b\x7b y \x7d\x7d\x7b\x7b x\x7d\x7d" .nil) .nil)) .nil) .nil) .nil, 4⟩

def angledData : Data :=
  .ofPairs [("xs", .list [.string "]]>lt;", .bool true])]

theorem expands_to_text_angled :
    ∃ j k g, dispatch angledData angledPage 2 = ⟨.expanded [j, k], g, []⟩ ∧
      g.childCount j = 0 ∧ g.textContent j = "a<b&]]>lt;>\x7b\x7b y \x7d\x7d]]>lt;" ∧
      g.childCount k = 0 ∧ g.textContent k = "a<b&true>\x7b\x7b y \x7d\x7dtrue" := by
  have hpage : angledPage.WellFormed := by decide +kernel
  have hcuts : Decomposes (angledPage.textContent 2) "a<b&"
      [⟨"\x7b\x7bx\x7d\x7d", "x", ">"⟩, ⟨"\x7b\x7b y \x7d\x7d", "y", ""⟩,
        ⟨"\x7b\x7b x\x7d\x7d", "x", ""⟩] := by
    decide +kernel
  have hvalues : ∀ item ∈ [Value.string "]]>lt;", .bool true], Harmless item.display := by
    decide +kernel
  have hstatement : (angledPage.label 2).attribute? "d-for" = some "x in xs" := by
    decide +kernel
  have hloop : Loop.parse "x in xs" = .ok ⟨"x", "xs"⟩ := by decide +kernel
  have hitems : angledData.get? (Loop.mk "x" "xs").collection =
      some (.list [.string "]]>lt;", .bool true]) := rfl
  obtain ⟨generated, g, -, hdispatch, -, -, hall⟩ :=
    expands_to_text hpage (by decide +kernel) (q := 1) (by decide +kernel) hstatement hloop hitems
      (by decide +kernel) (by decide +kernel) hvalues
  cases hall _ _ hcuts with
  | cons hj hrest =>
    cases hrest with
    | cons hk hnil =>
      cases hnil
      obtain ⟨-, hcount, htext⟩ := hj
      obtain ⟨-, hcount', htext'⟩ := hk
      refine ⟨_, _, g, hdispatch, hcount, ?_, hcount', ?_⟩
      · rw [htext]
        decide +kernel
      · rw [htext']
        decide +kernel

end Template

end LivePage
