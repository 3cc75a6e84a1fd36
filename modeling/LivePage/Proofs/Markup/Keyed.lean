import LivePage.Markup.Parsing
import LivePage.Proofs.Text.Letters
import Mathlib.Data.List.Infix
import Mathlib.Data.List.Nodup

namespace LivePage.Markup

variable {N N' : String → Prop}

def attributeNames (as : List Attribute) : List String :=
  as.map (·.name)

/-- Attributes as a tag has them, with names of which `N` holds. -/
structure Distinct (N : String → Prop) (as : List Attribute) : Prop where
  lower : ∀ name ∈ attributeNames as, Text.lower name = name
  nodup : (attributeNames as).Nodup
  named : ∀ name ∈ attributeNames as, N name

/-- The names that foreign attributes have with a prefix and without one. -/
def sharedNames : List String :=
  ["actuate", "arcrole", "href", "role", "show", "title", "type", "lang", "space", "xlink"]

def prefixedName (name : String) : String :=
  if name = "lang" then "xml:lang" else if name = "space" then "xml:space"
  else if name = "xlink" then "xmlns:xlink" else "xlink:" ++ name

/-- Attributes as an element has them: a name stands once, or at most twice if it is shared and tags
can have it with its prefix. -/
structure Keyed (N : String → Prop) (as : List Attribute) : Prop where
  lower : ∀ name ∈ attributeNames as, Text.lower name = name
  count_le_two : ∀ name, (attributeNames as).count name ≤ 2
  count_le_one : ∀ name, ¬(name ∈ sharedNames ∧ N (prefixedName name)) →
    (attributeNames as).count name ≤ 1

theorem distinct_nil : Distinct N [] where
  lower _ h := absurd h List.not_mem_nil
  nodup := List.nodup_nil
  named _ h := absurd h List.not_mem_nil

theorem Distinct.keyed {as : List Attribute} (h : Distinct N as) : Keyed N as where
  lower := h.lower
  count_le_two name := Nat.le_succ_of_le (List.nodup_iff_count_le_one.1 h.nodup name)
  count_le_one name _ := List.nodup_iff_count_le_one.1 h.nodup name

theorem Distinct.mono {as : List Attribute} (h : Distinct N as) (hN : ∀ name, N name → N' name) :
    Distinct N' as :=
  ⟨h.lower, h.nodup, fun name hname ↦ hN name (h.named name hname)⟩

theorem Keyed.mono {as : List Attribute} (h : Keyed N as) (hN : ∀ name, N name → N' name) :
    Keyed N' as where
  lower := h.lower
  count_le_two := h.count_le_two
  count_le_one name hname := h.count_le_one name fun hold ↦ hname ⟨hold.1, hN _ hold.2⟩

namespace Scan

/-- The name is somewhere in the text, in lower case or not. -/
def Mentions (cs : List Char) (name : String) : Prop :=
  name.toList <:+: cs.map (Text.lowerChar ∘ shown)

instance (cs : List Char) (name : String) : Decidable (Mentions cs name) :=
  inferInstanceAs (Decidable (name.toList <:+: cs.map (Text.lowerChar ∘ shown)))

theorem Mentions.of_suffix {cs ds : List Char} (h : cs <:+ ds) {name : String}
    (hname : Mentions cs name) : Mentions ds name :=
  hname.trans (h.isInfix.map _)

theorem lower_nameOf (cs : List Char) : Text.lower (nameOf cs) = nameOf cs := by
  rw [Text.lower, nameOf, String.toList_ofList, List.map_map]
  refine congrArg String.ofList (List.map_congr_left fun c _ ↦ ?_)
  exact Text.lowerChar_lowerChar (shown c)

def IsRead (cs : List Char) (name : String) : Prop :=
  ∃ word, word <:+: cs ∧ name = nameOf word

theorem IsRead.of_suffix {cs ds : List Char} (h : cs <:+ ds) {name : String}
    (hname : IsRead cs name) : IsRead ds name := by
  obtain ⟨word, hword, rfl⟩ := hname
  exact ⟨word, hword.trans h.isInfix, rfl⟩

theorem IsRead.lower {cs : List Char} {name : String} (h : IsRead cs name) :
    Text.lower name = name := by
  obtain ⟨word, -, rfl⟩ := h
  exact lower_nameOf word

theorem IsRead.mentions {cs : List Char} {name : String} (h : IsRead cs name) :
    Mentions cs name := by
  obtain ⟨word, hword, rfl⟩ := h
  rw [Mentions, nameOf, String.toList_ofList]
  exact hword.map _

theorem isRead_takeAttributeName (cs : List Char) :
    IsRead cs (nameOf (takeAttributeName cs).1) := by
  refine ⟨_, List.IsPrefix.isInfix ?_, rfl⟩
  cases cs with
  | nil => exact List.prefix_rfl
  | cons c rest => exact (List.prefix_cons_inj c).2 (List.takeWhile_prefix _)

theorem isRead_takeAttribute? {cs rest : List Char} {a : Attribute}
    (h : takeAttribute? cs = some (a, rest)) : IsRead cs a.name := by
  have hread := isRead_takeAttributeName cs
  unfold takeAttribute? at h
  dsimp only at h
  split at h
  · obtain ⟨⟨value, tail⟩, -, heq⟩ := Option.map_eq_some_iff.1 h
    obtain ⟨rfl, -⟩ := Prod.mk.inj heq
    exact hread
  · obtain ⟨rfl, -⟩ := Prod.mk.inj (Option.some.inj h)
    exact hread

theorem isRead_takeAttributes? {fuel : Nat} {cs rest : List Char} {as : List Attribute}
    {selfClosing : Bool} (h : takeAttributes? fuel cs = some (as, selfClosing, rest)) :
    ∀ a ∈ as, IsRead cs a.name := by
  induction fuel generalizing cs rest as selfClosing with
  | zero => cases h
  | succ fuel ih =>
    unfold takeAttributes? at h
    split at h
    · cases h
    · obtain ⟨rfl, -⟩ := Prod.mk.inj (Option.some.inj h)
      exact nofun
    · obtain ⟨rfl, -⟩ := Prod.mk.inj (Option.some.inj h)
      exact nofun
    · next hslash =>
      intro a ha
      exact (ih h a ha).of_suffix (suffix_of_cons (suffix_of_dropWhile hslash))
    · obtain ⟨⟨a, tail⟩, ha, hrest⟩ := Option.bind_eq_some_iff.1 h
      obtain ⟨⟨bs, closing, after⟩, hbs, heq⟩ := Option.bind_eq_some_iff.1 hrest
      obtain ⟨rfl, -⟩ := Prod.mk.inj (Option.some.inj heq)
      have hblank := List.dropWhile_suffix (l := cs) Text.isMarkupBlank
      have htail := (takeAttribute?_suffix ha).trans hblank
      exact List.forall_mem_cons.2 ⟨(isRead_takeAttribute? ha).of_suffix hblank,
        fun b hb ↦ (ih hbs b hb).of_suffix htail⟩

theorem firstOfEach_subset (as : List Attribute) : firstOfEach as ⊆ as := by
  induction as with
  | nil => exact List.Subset.refl _
  | cons a as ih =>
    exact List.cons_subset_cons a fun b hb ↦ ih (List.mem_filter.1 hb).1

theorem nodup_firstOfEach (as : List Attribute) : (attributeNames (firstOfEach as)).Nodup := by
  induction as with
  | nil => exact List.nodup_nil
  | cons a as ih =>
    refine List.nodup_cons.2 ⟨fun hmem ↦ ?_, ih.sublist (List.filter_sublist.map _)⟩
    obtain ⟨b, hb, hname⟩ := List.mem_map.1 hmem
    exact of_decide_eq_true (List.mem_filter.1 hb).2 hname

theorem distinct_firstOfEach {cs : List Char} {as : List Attribute}
    (h : ∀ a ∈ as, IsRead cs a.name) : Distinct (Mentions cs) (firstOfEach as) := by
  have hread : ∀ name ∈ attributeNames (firstOfEach as), IsRead cs name := by
    intro name hname
    obtain ⟨a, ha, rfl⟩ := List.mem_map.1 hname
    exact h a (firstOfEach_subset as ha)
  exact ⟨fun name hname ↦ (hread name hname).lower, nodup_firstOfEach as,
    fun name hname ↦ (hread name hname).mentions⟩

end Scan

def Token.Distinct (N : String → Prop) : Token → Prop
  | .startTag _ attributes _ => Markup.Distinct N attributes
  | _ => True

theorem Token.Distinct.mono {token : Token} (h : token.Distinct N)
    (hN : ∀ name, N name → N' name) : token.Distinct N' := by
  cases token with
  | startTag tag attributes selfClosing => exact Markup.Distinct.mono h hN
  | _ => trivial

namespace Scan

def AllDistinct (N : String → Prop) (s : Scanned) : Prop :=
  ∀ token ∈ s.tokens, token.Distinct N

theorem distinct_one {token : Token} (h : token.Distinct N) (rest : List Char)
    (reading : Reading) : AllDistinct N ⟨[token], rest, reading⟩ :=
  List.forall_mem_singleton.2 h

theorem distinct_closing (cs : List Char) : AllDistinct N (tag true cs) := by
  unfold tag
  extract_lets name rest
  split
  · exact nofun
  · exact distinct_one (by trivial) _ _

theorem distinct_opening (cs : List Char) : AllDistinct (Mentions cs) (tag false cs) := by
  unfold tag
  extract_lets name rest
  split
  · exact nofun
  · next attributes selfClosing rest' h =>
    have hread : ∀ a ∈ attributes, IsRead cs a.name := fun a ha ↦
      (isRead_takeAttributes? h a ha).of_suffix (List.dropWhile_suffix _)
    apply distinct_one
    exact distinct_firstOfEach hread

theorem distinct_comment (cs : List Char) : AllDistinct N (comment cs) := by
  unfold comment
  split <;> exact distinct_one (by trivial) _ _

theorem distinct_mapped (change : Char → Char) (cs rest : List Char) (reading : Reading) :
    AllDistinct N ⟨cs.map fun c ↦ .character (change c), rest, reading⟩ := by
  intro token h
  obtain ⟨c, -, rfl⟩ := List.mem_map.1 h
  trivial

theorem distinct_characterSection (cs : List Char) : AllDistinct N (characterSection cs) :=
  distinct_mapped id _ _ _

theorem distinct_declaration (foreign : Bool) (cs : List Char) :
    AllDistinct N (declaration foreign cs) := by
  unfold declaration
  split
  · exact distinct_comment _
  · split
    · exact distinct_one (by trivial) _ _
    · split
      · exact distinct_characterSection _
      · exact distinct_one (by trivial) _ _

theorem distinct_markup (foreign : Bool) (c : Char) (rest : List Char) :
    AllDistinct (Mentions rest) (markup foreign c rest) := by
  unfold markup
  split
  · split
    · exact distinct_mapped id _ _ _
    · exact distinct_one (by trivial) _ _
  · split
    · split
      · exact distinct_declaration _ _
      · exact distinct_one (by trivial) _ _
      · exact nofun
      · split
        · exact distinct_closing _
        · exact distinct_one (by trivial) _ _
      · split
        · exact distinct_opening _
        · exact distinct_one (by trivial) _ _
      · exact distinct_one (by trivial) _ _
    · exact distinct_one (by trivial) _ _

theorem distinct_content (references : Bool) (reading : Reading) (last : String) (c : Char)
    (rest : List Char) : AllDistinct N (content references reading last c rest) := by
  unfold content
  split
  · exact distinct_closing _
  · split
    · split
      · exact distinct_mapped id _ _ _
      · exact distinct_one (by trivial) _ _
    · exact distinct_one (by trivial) _ _

theorem distinct_characters (cs rest : List Char) (reading : Reading) :
    AllDistinct N ⟨characters cs, rest, reading⟩ :=
  distinct_mapped shown cs rest reading

theorem distinct_scriptWord (opening : List Char) (outside inside : Reading) (cs : List Char) :
    AllDistinct N (scriptWord opening outside inside cs) := by
  unfold scriptWord
  extract_lets word
  split
  · exact distinct_characters _ _ _
  · split <;> exact distinct_characters _ _ _

theorem distinct_script (last : String) (c : Char) (rest : List Char) :
    AllDistinct N (script last c rest) := by
  unfold script
  split
  · split
    · exact distinct_closing _
    · split <;> exact distinct_characters _ _ _
  · exact distinct_characters _ _ _

theorem distinct_escapedScript (hyphens : Nat) (last : String) (c : Char) (rest : List Char) :
    AllDistinct N (escapedScript hyphens last c rest) := by
  unfold escapedScript
  split
  · exact distinct_characters _ _ _
  · split
    · split
      · exact distinct_closing _
      · split
        · split
          · exact distinct_scriptWord _ _ _ _
          · exact distinct_characters _ _ _
        · exact distinct_characters _ _ _
    · split <;> exact distinct_characters _ _ _

theorem distinct_nestedScript (hyphens : Nat) (c : Char) (rest : List Char) :
    AllDistinct N (nestedScript hyphens c rest) := by
  unfold nestedScript
  split
  · exact distinct_characters _ _ _
  · split
    · split
      · exact distinct_scriptWord _ _ _ _
      · exact distinct_characters _ _ _
    · split <;> exact distinct_characters _ _ _

theorem distinct_step (reading : Reading) (foreign : Bool) (last : String) (c : Char)
    (rest : List Char) : AllDistinct (Mentions rest) (step reading foreign last c rest) := by
  cases reading with
  | markup => exact distinct_markup _ _ _
  | references | raw => exact distinct_content _ _ _ _ _
  | script => exact distinct_script _ _ _
  | escaped n => exact distinct_escapedScript _ _ _ _
  | nested n => exact distinct_nestedScript _ _ _
  | plain => exact distinct_one (by trivial) _ _

end Scan

open Builder in
theorem eq_of_foreignName {name n : String} (h : foreignName name = n) :
    name = n ∨ n ∈ sharedNames ∧ name = prefixedName n := by
  subst h
  unfold foreignName
  extract_lets rest
  split_ifs with hxlink hlisted hlang hspace hxmlns
  · right
    obtain ⟨t, ht⟩ := String.startsWith_string_iff.1 hxlink
    have hname : name = "xlink:" ++ rest := by
      have hrest : rest.toList = t := by
        rw [String.toList_ofList, ← ht]
        rfl
      rw [← String.toList_inj, String.toList_append, hrest, ht]
    rw [hname]
    generalize rest = rest at hlisted
    simp only [List.contains_eq_mem, List.mem_cons, List.not_mem_nil, or_false,
      decide_eq_true_eq] at hlisted
    rcases hlisted with rfl | rfl | rfl | rfl | rfl | rfl | rfl <;> decide
  · exact .inl rfl
  · exact .inr ⟨by decide, hlang⟩
  · exact .inr ⟨by decide, hspace⟩
  · exact .inr ⟨by decide, hxmlns⟩
  · exact .inl rfl

open Builder in
theorem lower_foreignName {name : String} (h : Text.lower name = name) :
    Text.lower (foreignName name) = foreignName name := by
  have hshared : ∀ n ∈ sharedNames, Text.lower n = n := by decide
  rcases eq_of_foreignName (rfl : foreignName name = _) with hsame | ⟨hmem, -⟩
  · rw [← hsame, h]
  · exact hshared _ hmem

open Builder in
theorem count_map_foreignName_le (names : List String) (n : String) :
    (names.map foreignName).count n ≤
      names.count n + if n ∈ sharedNames then names.count (prefixedName n) else 0 := by
  induction names with
  | nil => exact Nat.zero_le _
  | cons name names ih =>
    rw [List.map_cons, List.count_cons, List.count_cons, List.count_cons]
    by_cases hforeign : foreignName name = n
    · rcases eq_of_foreignName hforeign with rfl | ⟨hmem, rfl⟩
      · simp only [hforeign, beq_self_eq_true, if_true]
        split at ih <;> simp only [*, if_true, if_false] <;> omega
      · simp only [hmem, hforeign, beq_self_eq_true, if_true] at ih ⊢
        omega
    · simp only [beq_eq_false_iff_ne.2 hforeign, Bool.false_eq_true, if_false]
      split at ih <;> simp only [*, if_true, if_false] <;> omega

/-- A foreign element has an attribute twice if its tag has it with and without a prefix. -/
theorem Distinct.foreign {as : List Attribute} (h : Distinct N as) :
    Keyed N (as.map fun a ↦ { a with name := Builder.foreignName a.name }) := by
  have hnames : attributeNames (as.map fun a ↦ { a with name := Builder.foreignName a.name }) =
      (attributeNames as).map Builder.foreignName := by
    rw [attributeNames, attributeNames, List.map_map, List.map_map]
    rfl
  have hone := List.nodup_iff_count_le_one.1 h.nodup
  constructor
  · intro name hname
    rw [hnames] at hname
    obtain ⟨n, hn, rfl⟩ := List.mem_map.1 hname
    exact lower_foreignName (h.lower n hn)
  · intro name
    rw [hnames]
    refine Nat.le_trans (count_map_foreignName_le _ name) ?_
    have hself := hone name
    have hprefixed := hone (prefixedName name)
    split <;> omega
  · intro name hname
    rw [hnames]
    refine Nat.le_trans (count_map_foreignName_le _ name) ?_
    have hself := hone name
    split
    · next hshared =>
      have hnone : (attributeNames as).count (prefixedName name) = 0 :=
        List.count_eq_zero.2 fun hmem ↦ hname ⟨hshared, h.named _ hmem⟩
      omega
    · exact hself

theorem Keyed.of_count_le {as bs : List Attribute} (h : Keyed N as)
    (hlower : ∀ name ∈ attributeNames bs, Text.lower name = name)
    (hcount : ∀ name, (attributeNames bs).count name ≤ max 1 ((attributeNames as).count name)) :
    Keyed N bs where
  lower := hlower
  count_le_two name := (hcount name).trans (max_le (by decide) (h.count_le_two name))
  count_le_one name hname := (hcount name).trans (max_le le_rfl (h.count_le_one name hname))

theorem Keyed.addMissing {old new : List Attribute} (hold : Keyed N old)
    (hnew : Distinct N new) :
    Keyed N (old ++ new.filter fun a ↦ !old.any (·.name = a.name)) := by
  have hnames : attributeNames (old ++ new.filter fun a ↦ !old.any (·.name = a.name)) =
      attributeNames old ++ (attributeNames new).filter (· ∉ attributeNames old) := by
    rw [attributeNames, List.map_append, ← attributeNames, attributeNames.eq_def new,
      List.filter_map]
    congr 2
    refine List.filter_congr fun a _ ↦ ?_
    rw [Function.comp_apply, attributeNames, Bool.eq_iff_iff]
    simp
  refine hold.of_count_le (fun name hname ↦ ?_) fun name ↦ ?_
  · rw [hnames] at hname
    rcases List.mem_append.1 hname with hmem | hmem
    · exact hold.lower name hmem
    · exact hnew.lower name (List.mem_filter.1 hmem).1
  · rw [hnames, List.count_append]
    by_cases hmem : name ∈ attributeNames old
    · rw [List.count_eq_zero_of_not_mem (l := List.filter _ _) (by simp [hmem])]
      exact le_max_right _ _
    · rw [List.count_eq_zero_of_not_mem hmem, Nat.zero_add]
      refine (List.filter_sublist.count_le name).trans (Nat.le_trans ?_ (le_max_left _ _))
      exact List.nodup_iff_count_le_one.1 hnew.nodup name

theorem attributeNames_setValue (name value : String) (as : List Attribute) :
    attributeNames (Label.setValue name value as) =
      if name ∈ attributeNames as then attributeNames as else attributeNames as ++ [name] := by
  induction as with
  | nil => rfl
  | cons a as ih =>
    rw [Label.setValue]
    by_cases hname : a.name = name
    · simp [attributeNames, hname]
    · rw [if_neg hname]
      change a.name :: attributeNames (Label.setValue name value as) = _
      rw [ih]
      have hmem : name ∈ attributeNames (a :: as) ↔ name ∈ attributeNames as :=
        List.mem_cons.trans (or_iff_right (Ne.symm hname))
      simp only [hmem]
      split <;> rfl

theorem count_setValue_le (name value : String) (as : List Attribute) (other : String) :
    (attributeNames (Label.setValue name value as)).count other ≤
      max 1 ((attributeNames as).count other) := by
  rw [attributeNames_setValue]
  split
  · exact le_max_right _ _
  · next hnew =>
    rw [List.count_append]
    by_cases hsame : name = other
    · rw [← hsame, List.count_eq_zero_of_not_mem hnew, List.count_singleton_self]
      exact le_max_left _ _
    · rw [List.count_singleton, if_neg (by simpa using hsame)]
      exact le_max_right _ _

theorem Keyed.setValue {as : List Attribute} (h : Keyed N as) (name value : String) :
    Keyed N (Label.setValue (Text.lower name) value as) := by
  refine h.of_count_le (fun other hother ↦ ?_) (count_setValue_le _ value as)
  rw [attributeNames_setValue] at hother
  split at hother
  · exact h.lower other hother
  · rcases List.mem_append.1 hother with hmem | hmem
    · exact h.lower other hmem
    · rw [List.mem_singleton.1 hmem, Text.lower_lower]

theorem attributeNames_eraseP (name : String) (as : List Attribute) :
    attributeNames (as.eraseP (·.name = name)) = (attributeNames as).erase name := by
  induction as with
  | nil => rfl
  | cons a as ih =>
    by_cases hname : a.name = name
    · simp [attributeNames, hname]
    · rw [List.eraseP_cons_of_neg (by simpa using hname)]
      change a.name :: attributeNames (as.eraseP _) = (a.name :: attributeNames as).erase name
      rw [ih, List.erase_cons_tail (by simpa using hname)]

theorem count_eraseP_le (name : String) (as : List Attribute) (other : String) :
    (attributeNames (as.eraseP (·.name = name))).count other ≤ (attributeNames as).count other := by
  rw [attributeNames_eraseP]
  exact List.erase_sublist.count_le other

theorem Keyed.eraseP {as : List Attribute} (h : Keyed N as) (name : String) :
    Keyed N (as.eraseP (·.name = name)) := by
  refine h.of_count_le (fun other hother ↦ ?_) fun other ↦ ?_
  · rw [attributeNames_eraseP] at hother
    exact h.lower other (List.mem_of_mem_erase hother)
  · exact (count_eraseP_le name as other).trans (le_max_right _ _)

theorem Keyed.copied {as : List Attribute} (h : Keyed N as) :
    as.map (fun a ↦ .ofPair a.name a.value) = as := by
  have hsame : ∀ a ∈ as, Attribute.ofPair a.name a.value = a := by
    intro a ha
    rw [Attribute.ofPair, h.lower a.name (List.mem_map_of_mem ha)]
  exact (List.map_congr_left hsame).trans (List.map_id as)

end LivePage.Markup
