import LivePage.Mount.Settings
import LivePage.Proofs.Data.Writes
import LivePage.Proofs.Json.Tokens

namespace LivePage

/-- Values with whole numbers up to `10 ^ 14` and with lists at most `depth` levels deep. -/
inductive Value.Plain : Nat → Value → Prop
  | bool {depth : Nat} (b : Bool) : Plain depth (.bool b)
  | number {depth : Nat} {negative : Bool} {rank : Fin (2047 * Nat.pow 2 52)} {n : Nat}
      (h : Number.whole? rank.val = some n) (hn : n ≤ 10 ^ 14) :
      Plain depth (.number (.finite negative rank))
  | string {depth : Nat} (s : String) : Plain depth (.string s)
  | list {depth : Nat} {items : List Value} (h : ∀ v ∈ items, Plain depth v) :
      Plain (depth + 1) (.list items)

theorem Value.Plain.mono {depth depth' : Nat} {v : Value} (h : v.Plain depth)
    (hle : depth ≤ depth') : v.Plain depth' := by
  induction h generalizing depth' with
  | bool b => exact .bool b
  | number hrank hn => exact .number hrank hn
  | string s => exact .string s
  | list _ ih =>
    obtain ⟨depth', rfl⟩ := Nat.exists_eq_succ_of_ne_zero (Nat.ne_zero_of_lt hle)
    exact .list fun v hv ↦ ih v hv (Nat.le_of_succ_le_succ hle)

theorem Value.Plain.ofInt {n : Int} (h : n.natAbs ≤ 10 ^ 14) (depth : Nat) :
    (Value.number (.ofInt n)).Plain depth := by
  obtain ⟨rank, hof, hwhole⟩ := Number.exists_ofInt (n := n) (by omega)
  rw [hof]
  exact .number hwhole h

namespace Json

theorem skipSpace_cons {c : Char} (h : isSpace c = false) (cs : List Char) :
    skipSpace (c :: cs) = c :: cs := by
  rw [skipSpace, List.dropWhile_cons_of_neg (by rw [h]; decide)]

theorem toList_intercalate_comma (s : String) (ss : List String) :
    (",".intercalate (s :: ss)).toList = s.toList ++ ss.flatMap fun t ↦ ',' :: t.toList := by
  induction ss generalizing s with
  | nil => simp
  | cons t ss ih =>
    rw [String.intercalate_cons_cons, String.toList_append, String.toList_append, ih,
      List.flatMap_cons]
    simp

/-- With `depth` levels of nesting allowed the value is read back from its text, whatever comes after
it, and the text starts like no end of a list. -/
structure ReadsBack (depth : Nat) (v : Value) : Prop where
  head : ∃ c cs, (writeValue v).toList = c :: cs ∧ isSpace c = false ∧ c ≠ ']'
  read : ∀ (fuel : Nat) {rest : List Char}, EndsNumeral rest →
    (writeValue v).toList.length ≤ fuel → ∃ content, content.value? = some v ∧
      readContent fuel depth ((writeValue v).toList ++ rest) = .ok (content, rest)

def followers (items : List Value) : List Char :=
  items.flatMap fun v ↦ ',' :: (writeValue v).toList

theorem followers_cons (v : Value) (items : List Value) :
    followers (v :: items) = ',' :: ((writeValue v).toList ++ followers items) :=
  List.flatMap_cons

theorem readItems_close {fuel depth : Nat} (first : Bool) (rest : List Char) :
    readItems (fuel + 1) depth first (']' :: rest) = .ok ([], rest) := by
  rw [readItems, skipSpace_cons (by decide)]
  rfl

theorem endsNumeral_followers (items : List Value) (rest : List Char) :
    EndsNumeral (followers items ++ ']' :: rest) := by
  cases items with
  | nil => exact .cons (by decide) rest
  | cons v items =>
    rw [followers_cons, List.cons_append]
    exact .cons (by decide) _

theorem readItems_followers {depth : Nat} {items : List Value} (fuel : Nat)
    (h : ∀ v ∈ items, ReadsBack depth v) (rest : List Char)
    (hfuel : (followers items).length < fuel) :
    readItems fuel depth false (followers items ++ ']' :: rest) = .ok (items.map some, rest) := by
  induction items generalizing fuel with
  | nil =>
    obtain ⟨fuel, rfl⟩ := Nat.exists_eq_succ_of_ne_zero (Nat.ne_zero_of_lt hfuel)
    exact readItems_close false rest
  | cons v items ih =>
    obtain ⟨fuel, rfl⟩ := Nat.exists_eq_succ_of_ne_zero (Nat.ne_zero_of_lt hfuel)
    rw [followers_cons, List.length_cons, List.length_append] at hfuel
    -- the comma pays for the item, so what is left is enough for its text and for the rest
    obtain ⟨content, hvalue, hread⟩ := (h v List.mem_cons_self).read fuel
      (endsNumeral_followers items rest) (by omega)
    have hitems := ih fuel (fun w hw ↦ h w (List.mem_cons_of_mem v hw)) (by omega)
    rw [followers_cons, List.cons_append, List.append_assoc, readItems, skipSpace_cons (by decide)]
    simp [hvalue, hread, hitems]

theorem writeItems_eq_map (items : List Value) : writeItems items = items.map writeValue := by
  induction items with
  | nil => rfl
  | cons v items ih => rw [writeItems, ih, List.map_cons]

theorem toList_writeValue_list_cons (v : Value) (items : List Value) :
    (writeValue (.list (v :: items))).toList =
      '[' :: ((writeValue v).toList ++ (followers items ++ [']'])) := by
  rw [writeValue, writeItems_eq_map, List.map_cons, String.toList_append, String.toList_append,
    toList_intercalate_comma, List.flatMap_map]
  simp [followers]

theorem readItems_list {depth : Nat} {v : Value} {items : List Value} (fuel : Nat)
    (h : ∀ w ∈ v :: items, ReadsBack depth w) (rest : List Char)
    (hfuel : ((writeValue v).toList ++ followers items).length < fuel) :
    readItems fuel depth true ((writeValue v).toList ++ (followers items ++ ']' :: rest)) =
      .ok ((v :: items).map some, rest) := by
  obtain ⟨fuel, rfl⟩ := Nat.exists_eq_succ_of_ne_zero (Nat.ne_zero_of_lt hfuel)
  obtain ⟨c, cs, hhead, hspace, hclose⟩ := (h v List.mem_cons_self).head
  rw [List.length_append] at hfuel
  have hpos : 0 < (writeValue v).toList.length := by
    rw [hhead]
    exact Nat.succ_pos _
  obtain ⟨content, hvalue, hread⟩ := (h v List.mem_cons_self).read fuel
    (endsNumeral_followers items rest) (by omega)
  have hitems := readItems_followers fuel (fun w hw ↦ h w (List.mem_cons_of_mem v hw)) rest
    (by omega)
  rw [hhead, List.cons_append] at hread ⊢
  rw [readItems, skipSpace_cons hspace]
  simp [hclose, hvalue, hread, hitems]

theorem readsBack_list {depth : Nat} {items : List Value} (h : ∀ v ∈ items, ReadsBack depth v) :
    ReadsBack (depth + 1) (.list items) := by
  cases items with
  | nil =>
    refine ⟨⟨'[', [']'], rfl, by decide, by decide⟩, fun fuel {rest} _ hfuel ↦ ?_⟩
    change 2 ≤ fuel at hfuel
    obtain ⟨fuel, rfl⟩ := Nat.exists_eq_add_of_le' hfuel
    refine ⟨.list [], Content.value?_list [], ?_⟩
    change readContent (fuel + 2) (depth + 1) ('[' :: ']' :: rest) = _
    rw [readContent, skipSpace_cons (by decide)]
    simp [readItems_close, Text.isDigit]
  | cons v items =>
    refine ⟨⟨'[', _, toList_writeValue_list_cons v items, by decide, by decide⟩,
      fun fuel {rest} _ hfuel ↦ ?_⟩
    rw [toList_writeValue_list_cons, List.length_cons] at hfuel
    obtain ⟨fuel, rfl⟩ := Nat.exists_eq_succ_of_ne_zero (Nat.ne_zero_of_lt hfuel)
    have hitems := readItems_list fuel h rest (by
      simp only [List.length_append, List.length_singleton] at hfuel ⊢
      omega)
    refine ⟨.list ((v :: items).map some), Content.value?_list (v :: items), ?_⟩
    rw [toList_writeValue_list_cons, readContent]
    simp only [List.cons_append, List.append_assoc, List.nil_append]
    rw [skipSpace_cons (by decide)]
    simp [hitems, Text.isDigit]

theorem readsBack_bool (depth : Nat) (b : Bool) : ReadsBack depth (.bool b) := by
  cases b with
  | true =>
    refine ⟨⟨'t', ['r', 'u', 'e'], rfl, by decide, by decide⟩, fun fuel {rest} _ hfuel ↦ ?_⟩
    obtain ⟨fuel, rfl⟩ := Nat.exists_eq_succ_of_ne_zero (Nat.ne_zero_of_lt hfuel)
    exact ⟨.bool true, Content.value?_bool true, rfl⟩
  | false =>
    refine ⟨⟨'f', ['a', 'l', 's', 'e'], rfl, by decide, by decide⟩, fun fuel {rest} _ hfuel ↦ ?_⟩
    obtain ⟨fuel, rfl⟩ := Nat.exists_eq_succ_of_ne_zero (Nat.ne_zero_of_lt hfuel)
    exact ⟨.bool false, Content.value?_bool false, rfl⟩

theorem toList_writeString (s : String) : ∃ cs, (writeString s).toList = '"' :: cs := by
  rw [writeString, String.toList_ofList]
  exact ⟨_, rfl⟩

theorem readsBack_string (depth : Nat) (s : String) : ReadsBack depth (.string s) := by
  obtain ⟨cs, hcs⟩ : ∃ cs, (writeValue (.string s)).toList = '"' :: cs := toList_writeString s
  refine ⟨⟨'"', cs, hcs, by decide, by decide⟩, fun fuel {rest} _ hfuel ↦ ?_⟩
  rw [hcs] at hfuel
  obtain ⟨fuel, rfl⟩ := Nat.exists_eq_succ_of_ne_zero (Nat.ne_zero_of_lt hfuel)
  obtain ⟨cs', hcs', hread⟩ := readString_writeString s rest
  refine ⟨.string s, Content.value?_string s, ?_⟩
  rw [writeValue, hcs', readContent, skipSpace_cons (by decide)]
  simp [hread]

theorem numeral_head {c : Char} (h : c = '-' ∨ Text.isDigit c = true) :
    isSpace c = false ∧ c ≠ ']' ∧ c ≠ 'n' ∧ c ≠ 't' ∧ c ≠ 'f' ∧ c ≠ '"' := by
  rcases h with rfl | h
  · decide
  · have hne : ∀ d : Char, Text.isDigit d = false → c ≠ d := by
      rintro d hd rfl
      exact absurd h (by rw [hd]; decide)
    refine ⟨?_, hne _ (by decide), hne _ (by decide), hne _ (by decide), hne _ (by decide),
      hne _ (by decide)⟩
    simp [isSpace, hne ' ' (by decide), hne '\n' (by decide), hne '\t' (by decide),
      hne '\r' (by decide)]

theorem readsBack_number {negative : Bool} {rank : Fin (2047 * Nat.pow 2 52)} {n : Nat}
    (h : Number.whole? rank.val = some n) (hn : n ≤ 10 ^ 14) (depth : Nat) :
    ReadsBack depth (.number (.finite negative rank)) := by
  have hhead : ∃ c cs, (writeNumber (.finite negative rank)).toList = c :: cs ∧
      (c = '-' ∨ Text.isDigit c = true) := by
    have hend : EndsNumeral [] := by rintro c ⟨⟩
    obtain ⟨c, cs, hcs, hc, -⟩ := readNumber_writeNumber negative h hn hend
    exact ⟨c, cs, (List.append_nil _).symm.trans hcs, hc⟩
  obtain ⟨c, cs, hcs, hc⟩ := hhead
  refine ⟨⟨c, cs, hcs, (numeral_head hc).1, (numeral_head hc).2.1⟩, fun fuel {rest} hrest hfuel ↦ ?_⟩
  rw [writeValue, hcs] at hfuel
  obtain ⟨fuel, rfl⟩ := Nat.exists_eq_succ_of_ne_zero (Nat.ne_zero_of_lt hfuel)
  obtain ⟨c', cs', hcs', hc', hread⟩ := readNumber_writeNumber negative h hn hrest
  obtain ⟨hspace, -, hnull, htrue, hfalse, hquote⟩ := numeral_head hc'
  refine ⟨.number (.finite negative rank), Content.value?_number _, ?_⟩
  rw [writeValue, hcs', readContent, skipSpace_cons hspace]
  simp [hnull, htrue, hfalse, hquote, hc', hread]

theorem ReadsBack.readValue_eq {depth : Nat} {v : Value} (h : ReadsBack depth v) (fuel : Nat)
    {rest : List Char} (hrest : EndsNumeral rest) (hfuel : (writeValue v).toList.length ≤ fuel) :
    readValue fuel depth ((writeValue v).toList ++ rest) = .ok (some v, rest) := by
  obtain ⟨content, hvalue, hread⟩ := h.read fuel hrest hfuel
  simp [readValue, hread, hvalue]

theorem readsBack_of_plain {depth : Nat} {v : Value} (h : v.Plain depth) : ReadsBack depth v := by
  induction h with
  | bool b => exact readsBack_bool _ b
  | number hrank hn => exact readsBack_number hrank hn _
  | string s => exact readsBack_string _ s
  | list _ ih => exact readsBack_list ih

def fieldText (e : String × Value) : List Char :=
  (writeString e.1).toList ++ ':' :: (writeValue e.2).toList

def moreFields (es : List (String × Value)) : List Char :=
  es.flatMap fun e ↦ ',' :: fieldText e

theorem moreFields_cons (e : String × Value) (es : List (String × Value)) :
    moreFields (e :: es) = ',' :: (fieldText e ++ moreFields es) :=
  List.flatMap_cons

theorem endsNumeral_moreFields (es : List (String × Value)) (rest : List Char) :
    EndsNumeral (moreFields es ++ '\x7d' :: rest) := by
  cases es with
  | nil => exact .cons (by decide) rest
  | cons e es =>
    rw [moreFields_cons, List.cons_append]
    exact .cons (by decide) _

theorem readKey_first (name : String) (rest : List Char) :
    readKey true ((writeString name).toList ++ rest) = .ok (some name, rest) := by
  obtain ⟨cs, hcs, hread⟩ := readString_writeString name rest
  rw [hcs, readKey, skipSpace_cons (by decide)]
  simp [hread]

theorem readKey_later (name : String) (rest : List Char) :
    readKey false (',' :: ((writeString name).toList ++ rest)) = .ok (some name, rest) := by
  obtain ⟨cs, hcs, hread⟩ := readString_writeString name rest
  rw [hcs, readKey, skipSpace_cons (by decide)]
  simp [hread, skipSpace_cons (show isSpace '"' = false by decide)]

theorem readKey_close (first : Bool) (rest : List Char) :
    readKey first ('\x7d' :: rest) = .ok (none, rest) := by
  rw [readKey, skipSpace_cons (by decide)]
  rfl

theorem readColon_cons (rest : List Char) : readColon (':' :: rest) = .ok rest := by
  rw [readColon, skipSpace_cons (by decide)]
  rfl

theorem readEntries_moreFields {depth : Nat} {es : List (String × Value)} (fuel : Nat) (d : Data)
    (h : ∀ e ∈ es, ReadsBack depth e.2) (rest : List Char)
    (hfuel : (moreFields es).length < fuel) :
    readEntries fuel depth false d (moreFields es ++ '\x7d' :: rest) =
      .ok (es.foldl (fun d e ↦ d.insert e.1 e.2) d, rest) := by
  induction es generalizing fuel d with
  | nil =>
    obtain ⟨fuel, rfl⟩ := Nat.exists_eq_succ_of_ne_zero (Nat.ne_zero_of_lt hfuel)
    change readEntries (fuel + 1) depth false d ('\x7d' :: rest) = _
    simp [readEntries, readKey_close]
  | cons e es ih =>
    obtain ⟨fuel, rfl⟩ := Nat.exists_eq_succ_of_ne_zero (Nat.ne_zero_of_lt hfuel)
    rw [moreFields_cons, List.length_cons, List.length_append, fieldText, List.length_append,
      List.length_cons] at hfuel
    have hvalue := (h e List.mem_cons_self).readValue_eq fuel
      (endsNumeral_moreFields es rest) (by omega)
    have hentries := ih fuel (d.insert e.1 e.2) (fun e' he' ↦ h e' (List.mem_cons_of_mem e he'))
      (by omega)
    rw [moreFields_cons, fieldText]
    simp only [List.cons_append, List.append_assoc, readEntries, readKey_later, readColon_cons,
      hvalue, hentries, ok_bind, List.foldl_cons]

theorem readEntries_fields {depth : Nat} {e : String × Value} {es : List (String × Value)}
    (fuel : Nat) (h : ∀ e' ∈ e :: es, ReadsBack depth e'.2) (rest : List Char)
    (hfuel : (fieldText e ++ moreFields es).length < fuel) :
    readEntries fuel depth true ∅ (fieldText e ++ (moreFields es ++ '\x7d' :: rest)) =
      .ok (Data.ofPairs (e :: es), rest) := by
  obtain ⟨fuel, rfl⟩ := Nat.exists_eq_succ_of_ne_zero (Nat.ne_zero_of_lt hfuel)
  rw [fieldText, List.length_append, List.length_append, List.length_cons] at hfuel
  have hvalue := (h e List.mem_cons_self).readValue_eq fuel
    (endsNumeral_moreFields es rest) (by omega)
  have hentries := readEntries_moreFields fuel ((∅ : Data).insert e.1 e.2)
    (fun e' he' ↦ h e' (List.mem_cons_of_mem e he')) rest (by omega)
  rw [fieldText]
  simp only [List.cons_append, List.append_assoc, readEntries, readKey_first, readColon_cons,
    hvalue, hentries, ok_bind, Data.ofPairs_eq_foldl, List.foldl_cons]

theorem toList_writeObject_cons (f : String × String) (fs : List (String × String)) :
    (writeObject (f :: fs)).toList =
      '\x7b' :: ((writeString f.1).toList ++ ':' :: (f.2.toList ++
        ((fs.flatMap fun g ↦ ',' :: ((writeString g.1).toList ++ ':' :: g.2.toList)) ++
          ['\x7d']))) := by
  rw [writeObject, List.map_cons, String.toList_append, String.toList_append,
    toList_intercalate_comma, List.flatMap_map]
  simp

theorem toList_writeData (d : Data) : ∃ cs, (writeData d).toList = '\x7b' :: cs ∧
    ∀ {depth : Nat} (rest : List Char), (∀ e ∈ d.entries, ReadsBack depth e.2) →
      readEntries ((cs ++ rest).length + 1) depth true ∅ (cs ++ rest) = .ok (d, rest) := by
  have hpairs := d.ofPairs_entries
  rw [writeData]
  cases hentries : d.entries with
  | nil =>
    rw [hentries] at hpairs
    refine ⟨['\x7d'], rfl, fun {depth} rest _ ↦ ?_⟩
    simp [readEntries, readKey_close, ← hpairs]
    rfl
  | cons e es =>
    rw [hentries] at hpairs
    refine ⟨fieldText e ++ (moreFields es ++ ['\x7d']), ?_, fun {depth} rest hall ↦ ?_⟩
    · rw [List.map_cons, toList_writeObject_cons, List.flatMap_map]
      simp [fieldText, moreFields]
    · have hread := readEntries_fields
        ((fieldText e ++ (moreFields es ++ ['\x7d']) ++ rest).length + 1) hall rest (by
          simp only [List.length_append]
          omega)
      rw [hpairs] at hread
      simpa only [List.append_assoc, List.singleton_append] using hread

theorem readData_writeData {depth : Nat} {d : Data} (h : ∀ e ∈ d.entries, ReadsBack depth e.2)
    (rest : List Char) : readData (depth + 1) ((writeData d).toList ++ rest) = .ok (d, rest) := by
  obtain ⟨cs, hcs, hread⟩ := toList_writeData d
  rw [hcs, List.cons_append, readData, skipSpace_cons (by decide)]
  exact hread rest h

def selectorText : Option String → String
  | none => "null"
  | some el => writeString el

theorem readSelector_write (el : Option String) (rest : List Char) :
    readSelector ((selectorText el).toList ++ rest) = .ok (el, rest) := by
  cases el with
  | none => rfl
  | some el =>
    obtain ⟨cs, hcs, hread⟩ := readString_writeString el rest
    change readSelector ((writeString el).toList ++ rest) = _
    rw [hcs, readSelector, skipSpace_cons (by decide)]
    simp [hread]

theorem ofName?_name (strategy : Strategy) : Strategy.ofName? strategy.name = some strategy := by
  cases strategy <;> decide

theorem readStrategy_write (depth : Nat) (strategy : Strategy) (rest : List Char) :
    readStrategy depth ((writeString strategy.name).toList ++ rest) = .ok (strategy, rest) := by
  obtain ⟨cs, hcs, hread⟩ := readString_writeString strategy.name rest
  have hname : readStrategyName ('"' :: cs) = .ok (strategy, rest) := by
    rw [readStrategyName, skipSpace_cons (by decide)]
    simp [hread, ofName?_name]
  rw [hcs, readStrategy, skipSpace_cons (by decide)]
  exact hname

def settingsFields (s : MountSettings) : List Char :=
  (writeString "el").toList ++ ':' :: ((selectorText s.el).toList ++
    ',' :: ((writeString "data").toList ++ ':' :: ((writeData s.data).toList ++
    ',' :: ((writeString "strategy").toList ++ ':' :: ((writeString s.strategy.name).toList ++
    ['\x7d'])))))

theorem toList_writeSettings (s : MountSettings) :
    (writeSettings s).toList = '\x7b' :: settingsFields s := by
  have htext : writeSettings s = writeObject [("el", selectorText s.el),
      ("data", writeData s.data), ("strategy", writeString s.strategy.name)] := rfl
  rw [htext, toList_writeObject_cons]
  simp [settingsFields]

theorem readSettingsFields_write {depth : Nat} {s : MountSettings} (fuel : Nat)
    (hdata : ∀ rest, readData depth ((writeData s.data).toList ++ rest) = .ok (s.data, rest)) :
    readSettingsFields (fuel + 4) depth true {} (settingsFields s) =
      .ok (⟨some s.el, some s.data, some s.strategy⟩, []) := by
  simp [settingsFields, readSettingsFields, readKey_first, readKey_later, readKey_close,
    readColon_cons, readSelector_write, readStrategy_write, hdata]

theorem readSettings_writeSettings {s : MountSettings}
    (h : ∀ e ∈ s.data.entries, ReadsBack (maxDepth - 2) e.2) :
    readSettings (writeSettings s).toList = .ok (s, []) := by
  have hlength : 3 ≤ (settingsFields s).length := by
    simp only [settingsFields, List.length_append, List.length_cons]
    omega
  obtain ⟨fuel, hfuel⟩ := Nat.exists_eq_add_of_le' hlength
  have hfields : readSettingsFields (fuel + 4) (maxDepth - 1) true {} (settingsFields s) = _ :=
    readSettingsFields_write fuel (readData_writeData h)
  rw [toList_writeSettings, readSettings, skipSpace_cons (by decide)]
  simp [hfuel, hfields, Found.settings]

end Json

/-- Data with whole numbers up to `10 ^ 14` and with lists up to a hundred levels deep. -/
def Data.Plain (d : Data) : Prop :=
  ∀ name value, d.get? name = some value → value.Plain 100

theorem Data.Plain.readsBack {d : Data} (h : d.Plain) {depth : Nat} (hdepth : 100 ≤ depth) :
    ∀ e ∈ d.entries, Json.ReadsBack depth e.2 := by
  intro e he
  exact Json.readsBack_of_plain ((h e.1 e.2 (Data.get?_eq_some_iff.2 he)).mono hdepth)

/-- Plain data and settings with it are read back from their text as they are: the same names in the
same order, with the same values. -/
theorem Data.Plain.round_trip {d : Data} (h : d.Plain) :
    Data.ofJson (Json.writeData d) = .ok d ∧
    ∀ (el : Option String) (strategy : Strategy),
      MountSettings.ofJson (Json.writeSettings ⟨el, d, strategy⟩) = .ok ⟨el, d, strategy⟩ := by
  constructor
  · have hdepth : 100 ≤ Json.maxDepth - 1 := by decide
    have hread := Json.readData_writeData (h.readsBack hdepth) []
    rw [List.append_nil] at hread
    change (Json.readData (Json.maxDepth - 1 + 1) (Json.writeData d).toList).bind Json.finish = _
    rw [hread]
    rfl
  · intro el strategy
    have hread := Json.readSettings_writeSettings (s := ⟨el, d, strategy⟩) (h.readsBack (by decide))
    rw [MountSettings.ofJson, hread]
    rfl

theorem Data.Plain.round_trip_nested :
    ∃ d : Data, d.Plain ∧ d.keys = ["size", "a \"quoted\"\nname"] ∧
      Data.ofJson (Json.writeData d) = .ok d ∧
      MountSettings.ofJson (Json.writeSettings ⟨some "#app", d, .inPlace⟩) =
        .ok ⟨some "#app", d, .inPlace⟩ := by
  have hplain : (Data.ofPairs [("size", .number (.ofInt (-100000000000000))),
      ("a \"quoted\"\nname", .list [.bool true, .list [], .string "\x07\\/"])]).Plain := by
    intro name value hvalue
    rcases List.mem_pair.1 (Data.get?_eq_some_iff.1 hvalue) with hsize | hlist
    · obtain ⟨-, rfl⟩ := Prod.ext_iff.1 hsize
      exact .ofInt (by decide) 100
    · obtain ⟨-, rfl⟩ := Prod.ext_iff.1 hlist
      refine .list fun v hv ↦ ?_
      simp only [List.mem_cons, List.not_mem_nil, or_false] at hv
      rcases hv with rfl | rfl | rfl
      · exact .bool true
      · exact .list fun w hw ↦ absurd hw List.not_mem_nil
      · exact .string _
  obtain ⟨hdata, hsettings⟩ := hplain.round_trip
  exact ⟨_, hplain, rfl, hdata, hsettings (some "#app") .inPlace⟩

end LivePage
