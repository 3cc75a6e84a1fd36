import LivePage.Forest.Query
import LivePage.Proofs.Text.Words

namespace LivePage.Markup.Selector

open Text

/-- A part of a selector: a sign and a name. -/
inductive Part
  | identifier (name : String)
  | className (name : String)
deriving DecidableEq, Repr

namespace Part

def sign : Part → Char
  | identifier _ => '#'
  | className _ => '.'

def name : Part → String
  | identifier name | className name => name

def write (q : Part) : String :=
  String.singleton q.sign ++ q.name

end Part

def identifiers (parts : List Part) : List String :=
  parts.filterMap fun q ↦ match q with
    | .identifier name => some name
    | .className _ => none

def classNames (parts : List Part) : List String :=
  parts.filterMap fun q ↦ match q with
    | .identifier _ => none
    | .className name => some name

structure Spelling where
  tag : Option String
  parts : List Part
deriving DecidableEq, Repr

namespace Spelling

def write (p : Spelling) : String :=
  p.tag.getD "" ++ String.join (p.parts.map Part.write)

def selector (p : Spelling) : Selector where
  tag := p.tag.map lower
  id := (identifiers p.parts).head?
  classes := classNames p.parts

/-- The tag and the parts have names, at most one part is an identifier, and something is there. -/
structure Valid (p : Spelling) : Prop where
  tag : ∀ t ∈ p.tag, isName t = true
  parts : ∀ q ∈ p.parts, isName q.name = true
  unique : (identifiers p.parts).length ≤ 1
  nonempty : p.write ≠ ""

end Spelling

def add (s : Selector) : Part → Selector
  | .identifier name => { s with id := some name }
  | .className name => { s with classes := s.classes ++ [name] }

def Admits (s : Selector) (parts : List Part) : Prop :=
  s.id.toList.length + (identifiers parts).length ≤ 1

def written (parts : List Part) : List Char :=
  parts.flatMap fun q ↦ q.sign :: q.name.toList

variable {s s' : Selector} {q : Part} {parts : List Part}

@[simp] theorem identifiers_identifier (name : String) (parts : List Part) :
    identifiers (.identifier name :: parts) = name :: identifiers parts := rfl

@[simp] theorem identifiers_className (name : String) (parts : List Part) :
    identifiers (.className name :: parts) = identifiers parts := rfl

@[simp] theorem classNames_identifier (name : String) (parts : List Part) :
    classNames (.identifier name :: parts) = classNames parts := rfl

@[simp] theorem classNames_className (name : String) (parts : List Part) :
    classNames (.className name :: parts) = name :: classNames parts := rfl

theorem admits_nil (s : Selector) : s.Admits [] := by
  rw [Admits]
  cases s.id with
  | none | some _ => simp [identifiers]

theorem admits_identifier {name : String} : s.Admits (.identifier name :: parts) ↔
    s.id = none ∧ (s.add (.identifier name)).Admits parts := by
  rw [Admits, Admits, identifiers_identifier, add]
  cases s.id with
  | none =>
    simp only [Option.toList_none, Option.toList_some, List.length_nil, List.length_cons, true_and]
    omega
  | some other =>
    simp only [Option.toList_some, List.length_cons, reduceCtorEq, false_and, iff_false]
    omega

theorem admits_className {name : String} : s.Admits (.className name :: parts) ↔
    (s.add (.className name)).Admits parts :=
  Iff.rfl

theorem foldl_add (h : s.Admits parts) : parts.foldl add s =
    ⟨s.tag, s.id.or (identifiers parts).head?, s.classes ++ classNames parts⟩ := by
  induction parts generalizing s with
  | nil => simp [identifiers, classNames]
  | cons q parts ih =>
    cases q with
    | identifier name =>
      obtain ⟨hnone, hparts⟩ := admits_identifier.1 h
      rw [List.foldl_cons, ih hparts]
      simp [add, hnone]
    | className name =>
      rw [List.foldl_cons, ih (admits_className.1 h)]
      simp [add]

theorem addPart_className {name : String} (hname : name.toList ≠ []) :
    s.addPart '.' name.toList = .ok (s.add (.className name)) := by
  rw [addPart, if_pos (.inr rfl), if_neg hname, if_pos rfl, String.ofList_toList, add]

theorem addPart_identifier {name : String} (hname : name.toList ≠ []) (h : s.id = none) :
    s.addPart '#' name.toList = .ok (s.add (.identifier name)) := by
  rw [addPart, if_pos (.inl rfl), if_neg hname, if_neg (by decide), h, Option.isSome_none,
    if_neg Bool.false_ne_true, String.ofList_toList, add]

theorem exists_part_of_addPart {sign : Char} {name : List Char} (h : s.addPart sign name = .ok s') :
    name ≠ [] ∧ ∃ q : Part, q.sign = sign ∧ q.name.toList = name ∧ s' = s.add q ∧
      (∀ parts, s'.Admits parts → s.Admits (q :: parts)) := by
  unfold addPart at h
  split at h
  · next hsign =>
    split at h
    · cases h
    · next hname =>
      refine ⟨hname, ?_⟩
      split at h
      · next hdot =>
        cases h
        exact ⟨.className (.ofList name), hdot.symm, String.toList_ofList, rfl,
          fun _ ↦ admits_className.2⟩
      · next hdot =>
        split at h
        · cases h
        · next hnone =>
          cases h
          rw [Bool.not_eq_true, Option.isSome_eq_false_iff, Option.isNone_iff_eq_none] at hnone
          exact ⟨.identifier (.ofList name), (hsign.resolve_right hdot).symm, String.toList_ofList,
            rfl, fun _ hparts ↦ admits_identifier.2 ⟨hnone, hparts⟩⟩
  · split at h <;> cases h

theorem takeWhile_written {name : List Char} (h : ∀ c ∈ name, isNameChar c = true)
    (parts : List Part) : (name ++ written parts).takeWhile isNameChar = name ∧
      (name ++ written parts).dropWhile isNameChar = written parts := by
  rw [List.takeWhile_append_of_pos h, List.dropWhile_append_of_pos h]
  cases parts with
  | nil => exact ⟨List.append_nil _, rfl⟩
  | cons q parts =>
    have hsign : ¬isNameChar q.sign = true := by
      cases q with
      | identifier _ | className _ => exact Bool.false_ne_true
    rw [written, List.flatMap_cons, List.cons_append, List.takeWhile_cons_of_neg hsign,
      List.dropWhile_cons_of_neg hsign]
    exact ⟨List.append_nil _, rfl⟩

theorem addParts_cons (s : Selector) (sign : Char) (rest : List Char) :
    s.addParts (sign :: rest) = (s.addPart sign (rest.takeWhile isNameChar)).bind fun s ↦
      s.addParts (rest.dropWhile isNameChar) := by
  rw [addParts]
  rfl

theorem addParts_written (hnames : ∀ q ∈ parts, isName q.name = true) (h : s.Admits parts) :
    s.addParts (written parts) = .ok (parts.foldl add s) := by
  induction parts generalizing s with
  | nil => rw [written, List.flatMap_nil, addParts, List.foldl_nil]
  | cons q parts ih =>
    obtain ⟨hname, hrest⟩ := List.forall_mem_cons.1 hnames
    obtain ⟨hne, hchars⟩ := isName_iff.1 hname
    obtain ⟨htake, hdrop⟩ := takeWhile_written hchars parts
    have hwritten : written (q :: parts) = q.sign :: (q.name.toList ++ written parts) := rfl
    rw [hwritten, addParts_cons, htake, hdrop]
    cases q with
    | identifier name =>
      obtain ⟨hnone, hparts⟩ := admits_identifier.1 h
      rw [Part.sign, addPart_identifier hne hnone]
      exact ih hrest hparts
    | className name =>
      rw [Part.sign, addPart_className hne]
      exact ih hrest (admits_className.1 h)

theorem exists_parts_of_addParts {cs : List Char} (h : s.addParts cs = .ok s') :
    ∃ parts, (∀ q ∈ parts, isName q.name = true) ∧ cs = written parts ∧ s.Admits parts ∧
      s' = parts.foldl add s := by
  induction hlength : cs.length using Nat.strong_induction_on generalizing s cs with
  | _ n ih =>
    cases cs with
    | nil =>
      rw [addParts] at h
      cases h
      exact ⟨[], List.forall_mem_nil _, rfl, admits_nil s', rfl⟩
    | cons sign rest =>
      rw [addParts_cons] at h
      cases hpart : s.addPart sign (rest.takeWhile isNameChar) with
      | error fault =>
        rw [hpart] at h
        cases h
      | ok s₁ =>
        rw [hpart] at h
        obtain ⟨hne, q, hsign, hname, rfl, hadmits⟩ := exists_part_of_addPart hpart
        have hshorter : (rest.dropWhile isNameChar).length < n := by
          have hle := (List.dropWhile_suffix (l := rest) isNameChar).length_le
          rw [← hlength, List.length_cons]
          omega
        obtain ⟨parts, hnames, hrest, hparts, rfl⟩ := ih _ hshorter h rfl
        refine ⟨q :: parts, List.forall_mem_cons.2 ⟨?_, hnames⟩, ?_, hadmits parts hparts, rfl⟩
        · rw [isName_iff, hname]
          exact ⟨hne, fun c hc ↦ List.mem_takeWhile_imp hc⟩
        · rw [written, List.flatMap_cons, hsign, hname, ← written, ← hrest, List.cons_append,
            List.takeWhile_append_dropWhile]

namespace Spelling

variable {p : Spelling}

theorem toList_write (p : Spelling) :
    p.write.toList = (p.tag.getD "").toList ++ written p.parts := by
  rw [write, String.toList_append, String.toList_join, List.flatMap_map, written]
  simp only [Part.write, String.toList_append, String.toList_singleton, List.singleton_append]

theorem write_eq_empty_iff (h : ∀ t ∈ p.tag, isName t = true) :
    p.write = "" ↔ p.tag = none ∧ p.parts = [] := by
  rw [← String.toList_eq_nil_iff, toList_write, List.append_eq_nil_iff]
  refine and_congr ?_ ?_
  · cases htag : p.tag with
    | none => exact iff_of_true rfl rfl
    | some t => exact iff_of_false (isName_iff.1 (h t htag)).1 nofun
  · cases p.parts with
    | nil => exact iff_of_true rfl rfl
    | cons q parts => exact iff_of_false nofun nofun

theorem Valid.isWord_write (h : p.Valid) : IsWord p.write.toList := by
  refine ⟨fun hnil ↦ h.nonempty (String.toList_eq_nil_iff.1 hnil), fun c hc ↦ ?_⟩
  rw [toList_write] at hc
  rcases List.mem_append.1 hc with hc | hc
  · cases htag : p.tag with
    | none =>
      rw [htag] at hc
      cases hc
    | some t =>
      rw [htag] at hc
      exact (isWord_of_isName (h.tag t htag)).2 c hc
  · obtain ⟨q, hq, hc⟩ := List.mem_flatMap.1 hc
    rcases List.mem_cons.1 hc with rfl | hc
    · cases q with
      | identifier _ | className _ => rfl
    · exact (isWord_of_isName (h.parts q hq)).2 c hc

theorem Valid.admits (h : p.Valid) (tag : Option String) : Admits { tag } p.parts := by
  rw [Admits, Option.toList_none, List.length_nil, Nat.zero_add]
  exact h.unique

theorem Valid.parse_write (h : p.Valid) {source : String} (hsource : trim source = p.write) :
    parse source = .ok p.selector := by
  have htrim : trimChars source.toList = (p.tag.getD "").toList ++ written p.parts := by
    rw [← toList_write, ← hsource, trim, String.toList_ofList]
  have hne : trimChars source.toList ≠ [] := by
    rw [htrim, ← toList_write]
    exact h.isWord_write.1
  have hchars : ∀ c ∈ (p.tag.getD "").toList, isNameChar c = true := by
    cases htag : p.tag with
    | none => exact List.forall_mem_nil _
    | some t => exact (isName_iff.1 (h.tag t htag)).2
  obtain ⟨htake, hdrop⟩ := takeWhile_written hchars p.parts
  have htag : (if (p.tag.getD "").toList = [] then none
      else some (lower (.ofList (p.tag.getD "").toList))) = p.tag.map lower := by
    cases htag : p.tag with
    | none => rfl
    | some t =>
      rw [Option.getD_some, if_neg (isName_iff.1 (h.tag t htag)).1, String.ofList_toList,
        Option.map_some]
  unfold parse
  split
  · next hnil => exact absurd hnil hne
  · dsimp only
    rw [htrim, htake, hdrop, htag, addParts_written h.parts (h.admits _), foldl_add (h.admits _)]
    rfl

end Spelling

theorem exists_spelling {source : String} (h : parse source = .ok s) :
    ∃ p : Spelling, p.Valid ∧ p.write = trim source ∧ p.selector = s := by
  unfold parse at h
  split at h
  · cases h
  · next hne =>
    dsimp only at h
    obtain ⟨parts, hnames, hrest, hadmits, rfl⟩ := exists_parts_of_addParts h
    have hone : (identifiers parts).length ≤ 1 := (Nat.le_add_left _ _).trans hadmits
    have hchars : ∀ c ∈ (trimChars source.toList).takeWhile isNameChar, isNameChar c = true :=
      fun c hc ↦ List.mem_takeWhile_imp hc
    have hcut := List.takeWhile_append_dropWhile (p := isNameChar) (l := trimChars source.toList)
    have hwrite : ∀ tag : Option String,
        (tag.getD "").toList = (trimChars source.toList).takeWhile isNameChar →
          (⟨tag, parts⟩ : Spelling).write = trim source := by
      intro tag htag
      refine String.ext ?_
      rw [Spelling.toList_write, htag, ← hrest, hcut, trim, String.toList_ofList]
    have htrim : trim source ≠ "" := fun hnil ↦ hne (String.ofList_eq_empty_iff.1 hnil)
    rw [foldl_add hadmits]
    by_cases hname : (trimChars source.toList).takeWhile isNameChar = []
    · have hwrite := hwrite none hname.symm
      refine ⟨⟨none, parts⟩, ⟨fun t ht ↦ ?_, hnames, hone, hwrite ▸ htrim⟩, hwrite, ?_⟩
      · cases ht
      · rw [if_pos hname]
        rfl
    · have htag : isName (.ofList ((trimChars source.toList).takeWhile isNameChar)) = true := by
        rw [isName_iff, String.toList_ofList]
        exact ⟨hname, hchars⟩
      have hwrite := hwrite (some (.ofList _)) String.toList_ofList
      refine ⟨⟨some _, parts⟩, ⟨fun t ht ↦ ?_, hnames, hone, hwrite ▸ htrim⟩, hwrite, ?_⟩
      · exact Option.some.inj ht ▸ htag
      · rw [if_neg hname]
        rfl

theorem read_eq_ok_iff {source : String} :
    Selector.read source = .ok s ↔
      ∃ p : Spelling, p.Valid ∧ p.write = trim source ∧ p.selector = s := by
  have hread : Selector.read source = .ok s ↔ parse source = .ok s := by
    rw [Selector.read]
    cases parse source with
    | ok s' => rw [Except.ok.injEq, Except.ok.injEq]
    | error fault => exact iff_of_false nofun nofun
  rw [hread]
  constructor
  · exact exists_spelling
  · rintro ⟨p, hp, hwrite, rfl⟩
    exact hp.parse_write hwrite.symm

def spelling (s : Selector) : Spelling where
  tag := s.tag
  parts := s.id.toList.map .identifier ++ s.classes.map .className

def write (s : Selector) : String :=
  s.spelling.write

theorem mem_identifiers {name : String} :
    name ∈ identifiers parts ↔ .identifier name ∈ parts := by
  induction parts with
  | nil => simp [identifiers]
  | cons q parts ih => cases q <;> simp [ih]

theorem mem_classNames {name : String} : name ∈ classNames parts ↔ .className name ∈ parts := by
  induction parts with
  | nil => simp [classNames]
  | cons q parts ih => cases q <;> simp [ih]

theorem identifiers_spelling (s : Selector) : identifiers s.spelling.parts = s.id.toList := by
  rw [identifiers, spelling, List.filterMap_append, List.filterMap_map, List.filterMap_map]
  change List.filterMap some s.id.toList ++ List.filterMap (fun _ ↦ none) s.classes = _
  simp

theorem classNames_spelling (s : Selector) : classNames s.spelling.parts = s.classes := by
  rw [classNames, spelling, List.filterMap_append, List.filterMap_map, List.filterMap_map]
  change List.filterMap (fun _ ↦ none) s.id.toList ++ List.filterMap some s.classes = _
  simp

theorem selector_spelling (h : s.tag.map lower = s.tag) : s.spelling.selector = s := by
  rw [Spelling.selector, identifiers_spelling, classNames_spelling]
  obtain ⟨tag, id, classes⟩ := s
  cases id with
  | none => exact congrArg (Selector.mk · none classes) h
  | some name => exact congrArg (Selector.mk · (some name) classes) h

theorem Spelling.Valid.spelling {p : Spelling} (h : p.Valid) : p.selector.spelling.Valid := by
  have htag : ∀ t ∈ p.selector.spelling.tag, isName t = true := by
    intro t ht
    obtain ⟨t', ht', rfl⟩ := Option.map_eq_some_iff.1 ht
    exact isName_lower (h.tag t' ht')
  refine ⟨htag, fun q hq ↦ ?_, ?_, fun hempty ↦ ?_⟩
  · rcases List.mem_append.1 hq with hq | hq
    · obtain ⟨name, hname, rfl⟩ := List.mem_map.1 hq
      refine h.parts (.identifier name) (mem_identifiers.1 ?_)
      exact List.mem_of_mem_head? (Option.mem_toList.1 hname)
    · obtain ⟨name, hname, rfl⟩ := List.mem_map.1 hq
      exact h.parts (.className name) (mem_classNames.1 hname)
  · rw [identifiers_spelling]
    cases p.selector.id with
    | none | some _ => simp
  · obtain ⟨hnone, hparts⟩ := (write_eq_empty_iff htag).1 hempty
    obtain ⟨hid, hclasses⟩ := List.append_eq_nil_iff.1 hparts
    refine h.nonempty ((write_eq_empty_iff h.tag).2 ⟨Option.map_eq_none_iff.1 hnone, ?_⟩)
    refine List.eq_nil_iff_forall_not_mem.2 fun q hq ↦ ?_
    cases q with
    | identifier name =>
      have hnil : identifiers p.parts = [] :=
        List.head?_eq_none_iff.1 (Option.toList_eq_nil_iff.1 (List.map_eq_nil_iff.1 hid))
      exact List.not_mem_nil (hnil ▸ mem_identifiers.2 hq)
    | className name =>
      have hnil : classNames p.parts = [] := List.map_eq_nil_iff.1 hclasses
      exact List.not_mem_nil (hnil ▸ mem_classNames.2 hq)

theorem Spelling.Valid.read_write {p : Spelling} (h : p.Valid) :
    Selector.read p.selector.write = .ok p.selector := by
  refine read_eq_ok_iff.2 ⟨_, h.spelling, (trim_of_isWord h.spelling.isWord_write).symm, ?_⟩
  refine selector_spelling ?_
  rw [Spelling.selector, Option.map_map]
  exact congrArg (p.tag.map ·) (funext lower_lower)

/-- A text is read as a selector exactly if, but for blanks around it, it is spelled as a tag and
parts; the selector is the one that is spelled, and the text that is written of it is read as it
again. Any other text is refused, and the refusal tells the text with its blanks. -/
theorem read_of_spelling (source : String) :
    (∀ s, Selector.read source = .ok s ↔
      ∃ p : Spelling, p.Valid ∧ p.write = trim source ∧ p.selector = s) ∧
    (∀ s, Selector.read source = .ok s → Selector.read s.write = .ok s) ∧
    ((∃ fault, Selector.read source = .error (.invalidSelector source fault)) ↔
      ¬∃ p : Spelling, p.Valid ∧ p.write = trim source) := by
  refine ⟨fun s ↦ read_eq_ok_iff, fun s h ↦ ?_, ?_, ?_⟩
  · obtain ⟨p, hp, -, rfl⟩ := read_eq_ok_iff.1 h
    exact hp.read_write
  · rintro ⟨fault, hfault⟩ ⟨p, hp, hwrite⟩
    have hread := read_eq_ok_iff.2 ⟨p, hp, hwrite, rfl⟩
    rw [hfault] at hread
    cases hread
  · intro hnone
    rw [Selector.read]
    cases hparse : parse source with
    | error fault => exact ⟨fault, rfl⟩
    | ok s =>
      obtain ⟨p, hp, hwrite, -⟩ := exists_spelling hparse
      exact absurd ⟨p, hp, hwrite⟩ hnone

/-- The identifier may stand among the classes, and only the tag loses its case. -/
theorem read_of_spelling_entry :
    Selector.read "\u2003LI.item#First.On\n" =
      .ok { tag := some "li", id := some "First", classes := ["item", "On"] } ∧
    Selector.read "li#First.item.On" =
      .ok { tag := some "li", id := some "First", classes := ["item", "On"] } ∧
    ¬∃ p : Spelling, p.Valid ∧ p.write = trim " li#. " := by
  obtain ⟨hok, hwrite, -⟩ := read_of_spelling "\u2003LI.item#First.On\n"
  obtain ⟨-, -, hrefused⟩ := read_of_spelling " li#. "
  have hread := (hok _).2 ⟨⟨some "LI", [.className "item", .identifier "First", .className "On"]⟩,
    ⟨by decide, by decide, by decide, by decide⟩, by decide, rfl⟩
  have htag : lower "LI" = "li" := by decide
  have hwritten : write { tag := some "li", id := some "First", classes := ["item", "On"] } =
      "li#First.item.On" := by decide
  simp only [Spelling.selector, Option.map_some, htag] at hread
  exact ⟨hread, hwritten ▸ hwrite _ hread, hrefused.1 ⟨.missingName, by decide +kernel⟩⟩

end LivePage.Markup.Selector
