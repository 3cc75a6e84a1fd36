import LivePage.Proofs.Text.Words
import LivePage.Template.Loop
import Mathlib.Data.List.Count

namespace LivePage.Template.Loop

open Text

/-- Why the words on one side of the keyword are no single name. -/
inductive Faulty (missing : LoopError) : List String → LoopError → Prop
  | missing : Faulty missing [] missing
  | several (first second : String) (rest : List String) :
    Faulty missing (first :: second :: rest) (.unexpectedToken second)
  | unnamed {word : String} (h : isName word = false) :
    Faulty missing [word] (.invalidIdentifier word)

/-- Why some words are no loop. -/
inductive Refused : List String → LoopError → Prop
  | missingIn {ws : List String} (h : keyword ∉ ws) : Refused ws .missingIn
  | multipleIn {ws : List String} (h : 2 ≤ ws.count keyword) :
    Refused ws (.multipleIn (ws.count keyword))
  | item {before after : List String} {e : LoopError} (hbefore : keyword ∉ before)
    (hafter : keyword ∉ after) (h : Faulty .missingItem before e) :
    Refused (before ++ keyword :: after) e
  | collection {item : String} {after : List String} {e : LoopError} (hitem : isName item = true)
    (hne : item ≠ keyword) (hafter : keyword ∉ after) (h : Faulty .missingCollection after e) :
    Refused (item :: keyword :: after) e

/-- Both names are names, and neither is the keyword. -/
structure Named (l : Loop) : Prop where
  item : isName l.item = true
  collection : isName l.collection = true
  item_ne : l.item ≠ keyword
  collection_ne : l.collection ≠ keyword

variable {missing e : LoopError} {ws before after : List String} {l : Loop}

theorem single_eq_ok_iff {name : String} :
    single missing ws = .ok name ↔ ws = [name] ∧ isName name = true := by
  rcases ws with _ | ⟨word, _ | ⟨extra, rest⟩⟩
  · simp [single]
  · cases hword : isName word with
    | true =>
      rw [single, if_pos hword, Except.ok.injEq, List.singleton_inj]
      exact ⟨fun h ↦ ⟨h, h ▸ hword⟩, fun h ↦ h.1⟩
    | false =>
      rw [single, if_neg (Bool.eq_false_iff.1 hword), List.singleton_inj]
      refine iff_of_false nofun ?_
      rintro ⟨rfl, hname⟩
      rw [hword] at hname
      cases hname
  · simp [single]

theorem single_eq_error_iff : single missing ws = .error e ↔ Faulty missing ws e := by
  constructor
  · intro h
    rcases ws with _ | ⟨word, _ | ⟨extra, rest⟩⟩
    · cases h
      exact .missing
    · rw [single] at h
      split at h
      · cases h
      · next hword =>
        cases h
        exact .unnamed (Bool.eq_false_iff.2 hword)
    · cases h
      exact .several word extra rest
  · rintro (_ | ⟨first, second, rest⟩ | hword)
    · rfl
    · rfl
    · rw [single, if_neg (Bool.eq_false_iff.1 hword)]

/-- The keyword is missing, or it cuts the words into two sides, or there are several. -/
theorem cases_keyword (ws : List String) : keyword ∉ ws ∨
    (∃ before after, ws = before ++ keyword :: after ∧ keyword ∉ before ∧ keyword ∉ after) ∨
      2 ≤ ws.count keyword := by
  by_cases hmem : keyword ∈ ws
  · obtain ⟨before, after, rfl, hbefore⟩ := List.eq_append_cons_of_mem hmem
    by_cases hafter : keyword ∈ after
    · refine .inr (.inr ?_)
      have hpos := List.count_pos_iff.2 hafter
      rw [List.count_append, List.count_cons_self]
      omega
    · exact .inr (.inl ⟨before, after, rfl, hbefore, hafter⟩)
  · exact .inl hmem

theorem ofWords_missing (h : keyword ∉ ws) : ofWords ws = .error .missingIn := by
  rw [ofWords, List.count_eq_zero_of_not_mem h]
  rfl

theorem ofWords_several (h : 2 ≤ ws.count keyword) :
    ofWords ws = .error (.multipleIn (ws.count keyword)) := by
  obtain ⟨n, hn⟩ := Nat.exists_eq_add_of_le' h
  rw [ofWords, hn]
  rfl

theorem ofWords_sides (hbefore : keyword ∉ before) (hafter : keyword ∉ after) :
    ofWords (before ++ keyword :: after) =
      (single .missingItem before).bind fun item ↦
        (single .missingCollection after).map fun collection ↦ ⟨item, collection⟩ := by
  have hcount : (before ++ keyword :: after).count keyword = 1 := by
    rw [List.count_append, List.count_cons_self, List.count_eq_zero_of_not_mem hbefore,
      List.count_eq_zero_of_not_mem hafter]
  have hne : ∀ w ∈ before, (decide (w ≠ keyword)) = true := fun w hw ↦
    decide_eq_true fun heq ↦ hbefore (heq ▸ hw)
  have htake : (before ++ keyword :: after).takeWhile (· ≠ keyword) = before := by
    rw [List.takeWhile_append_of_pos hne, List.takeWhile_cons_of_neg (by decide), List.append_nil]
  have hdrop : (before ++ keyword :: after).dropWhile (· ≠ keyword) = keyword :: after := by
    rw [List.dropWhile_append_of_pos hne, List.dropWhile_cons_of_neg (by decide)]
  rw [ofWords, hcount, htake, hdrop]
  rfl

theorem ofWords_sides_eq_ok_iff (hbefore : keyword ∉ before) (hafter : keyword ∉ after) :
    ofWords (before ++ keyword :: after) = .ok l ↔
      single .missingItem before = .ok l.item ∧
        single .missingCollection after = .ok l.collection := by
  rw [ofWords_sides hbefore hafter]
  cases single .missingItem before with
  | error e => exact iff_of_false nofun fun h ↦ nomatch h.1
  | ok item =>
    cases single .missingCollection after with
    | error e => exact iff_of_false nofun fun h ↦ nomatch h.2
    | ok collection =>
      obtain ⟨item', collection'⟩ := l
      simp only [Except.bind, Except.map, Except.ok.injEq, Loop.mk.injEq]

theorem ofWords_sides_eq_error_iff (hbefore : keyword ∉ before) (hafter : keyword ∉ after) :
    ofWords (before ++ keyword :: after) = .error e ↔
      single .missingItem before = .error e ∨
        ∃ item, single .missingItem before = .ok item ∧
          single .missingCollection after = .error e := by
  rw [ofWords_sides hbefore hafter]
  cases single .missingItem before with
  | error e' => simp only [Except.bind, Except.error.injEq, reduceCtorEq, false_and, exists_false,
      or_false]
  | ok item =>
    cases single .missingCollection after with
    | error e' => simp only [Except.bind, Except.map, Except.error.injEq, reduceCtorEq, false_or,
        Except.ok.injEq, exists_eq_left']
    | ok collection => simp only [Except.bind, Except.map, reduceCtorEq, and_false, exists_false,
        or_self]

theorem ofWords_eq_ok_iff :
    ofWords ws = .ok l ↔ ws = [l.item, keyword, l.collection] ∧ l.Named := by
  constructor
  · intro h
    rcases cases_keyword ws with hmissing | ⟨before, after, rfl, hbefore, hafter⟩ | hseveral
    · rw [ofWords_missing hmissing] at h
      cases h
    · obtain ⟨hitem, hcollection⟩ := (ofWords_sides_eq_ok_iff hbefore hafter).1 h
      obtain ⟨rfl, hname⟩ := single_eq_ok_iff.1 hitem
      obtain ⟨rfl, hname'⟩ := single_eq_ok_iff.1 hcollection
      refine ⟨rfl, hname, hname', fun heq ↦ hbefore ?_, fun heq ↦ hafter ?_⟩
      · exact List.mem_singleton.2 heq.symm
      · exact List.mem_singleton.2 heq.symm
    · rw [ofWords_several hseveral] at h
      cases h
  · rintro ⟨rfl, hnamed⟩
    have hbefore : keyword ∉ [l.item] := fun h ↦ hnamed.item_ne (List.mem_singleton.1 h).symm
    have hafter : keyword ∉ [l.collection] := fun h ↦
      hnamed.collection_ne (List.mem_singleton.1 h).symm
    refine (ofWords_sides_eq_ok_iff hbefore hafter).2 ⟨?_, ?_⟩
    · exact single_eq_ok_iff.2 ⟨rfl, hnamed.item⟩
    · exact single_eq_ok_iff.2 ⟨rfl, hnamed.collection⟩

theorem ofWords_eq_error_iff : ofWords ws = .error e ↔ Refused ws e := by
  constructor
  · intro h
    rcases cases_keyword ws with hmissing | ⟨before, after, rfl, hbefore, hafter⟩ | hseveral
    · rw [ofWords_missing hmissing] at h
      cases h
      exact .missingIn hmissing
    · rcases (ofWords_sides_eq_error_iff hbefore hafter).1 h with hitem | ⟨item, hitem, hbehind⟩
      · exact .item hbefore hafter (single_eq_error_iff.1 hitem)
      · obtain ⟨rfl, hname⟩ := single_eq_ok_iff.1 hitem
        refine .collection hname (fun heq ↦ hbefore ?_) hafter (single_eq_error_iff.1 hbehind)
        exact List.mem_singleton.2 heq.symm
    · rw [ofWords_several hseveral] at h
      cases h
      exact .multipleIn hseveral
  · intro h
    cases h with
    | missingIn h => exact ofWords_missing h
    | multipleIn h => exact ofWords_several h
    | item hbefore hafter h =>
      exact (ofWords_sides_eq_error_iff hbefore hafter).2 (.inl (single_eq_error_iff.2 h))
    | @collection item after e hname hne hafter h =>
      have hbefore : keyword ∉ [item] := fun h ↦ hne (List.mem_singleton.1 h).symm
      refine (ofWords_sides_eq_error_iff hbefore hafter).2 (.inr ⟨item, ?_, ?_⟩)
      · exact single_eq_ok_iff.2 ⟨rfl, hname⟩
      · exact single_eq_error_iff.2 h

theorem words_display (h : l.Named) : words l.display = [l.item, keyword, l.collection] := by
  have hnone : IsGap [] := fun c hc ↦ by cases hc
  have hone : IsGap [' '] := fun c hc ↦ (List.mem_singleton.1 hc).symm ▸ rfl
  have hblank : ∀ {rest : List Char}, ∀ c ∈ (' ' :: rest).head?, isBlank c = true :=
    fun c hc ↦ Option.some.inj hc ▸ rfl
  have hlast : Spaced [l.collection.toList] ([' '] ++ (l.collection.toList ++ [])) :=
    .word hone (isWord_of_isName h.collection) nofun (.blank hnone)
  have hbehind : Spaced [keyword.toList, l.collection.toList] _ :=
    .word hone (isWord_of_isName (by decide)) hblank hlast
  have hall : Spaced [l.item.toList, keyword.toList, l.collection.toList] _ :=
    .word hnone (isWord_of_isName h.item) hblank hbehind
  rw [words_eq_iff]
  simpa [display] using hall

theorem parse_display (h : l.Named) : parse l.display = .ok l := by
  rw [parse, words_display h, ofWords_eq_ok_iff]
  exact ⟨rfl, h⟩

/-- A statement is a loop exactly if its words are two names with the keyword between them, and any
other statement is refused for its first fault. What is written of a loop is read as that loop, and
the blanks between the words of a statement do not count. -/
theorem parse_by_words (statement : String) :
    Spaced ((words statement).map String.toList) statement.toList ∧
      (∀ l, parse statement = .ok l ↔
        words statement = [l.item, keyword, l.collection] ∧ l.Named) ∧
      (∀ e, parse statement = .error e ↔ Refused (words statement) e) ∧
      (∀ l, parse statement = .ok l → parse l.display = .ok l) ∧
      ∀ other, words other = words statement → parse other = parse statement := by
  refine ⟨words_eq_iff.1 rfl, fun l ↦ ofWords_eq_ok_iff, fun e ↦ ofWords_eq_error_iff, ?_, ?_⟩
  · intro l h
    exact parse_display (ofWords_eq_ok_iff.1 h).2
  · intro other h
    rw [parse, h, parse]

/-- A word that only contains the keyword is a name, and a fault of the item hides one of the
collection. -/
theorem parse_by_words_stock :
    parse "\u3000shelf\tin  in-stock\n" = .ok ⟨"shelf", "in-stock"⟩ ∧
      parse "shelf in in-stock" = .ok ⟨"shelf", "in-stock"⟩ ∧
        parse "shelf.no in in-stock today" = .error (.invalidIdentifier "shelf.no") := by
  obtain ⟨-, hok, -, hdisplay, -⟩ := parse_by_words "\u3000shelf\tin  in-stock\n"
  obtain ⟨-, -, herror, -, -⟩ := parse_by_words "shelf.no in in-stock today"
  have hparse := (hok ⟨"shelf", "in-stock"⟩).2
    ⟨by decide, by decide, by decide, by decide, by decide⟩
  have hwritten : display ⟨"shelf", "in-stock"⟩ = "shelf in in-stock" := by decide
  refine ⟨hparse, hwritten ▸ hdisplay _ hparse, (herror _).2 ?_⟩
  have hwords : words "shelf.no in in-stock today" =
      ["shelf.no"] ++ "in" :: ["in-stock", "today"] := by decide
  rw [hwords]
  exact .item (by decide) (by decide) (.unnamed (by decide))

end LivePage.Template.Loop
