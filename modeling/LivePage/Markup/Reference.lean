import LivePage.Markup.ReferenceNames
import LivePage.Text.Letters

namespace LivePage.Markup

open Text

/-- What the numbers from 0x80 to 0x9F stand for, in order; zero where the number stands for
itself. -/
def controlCodes : List Nat :=
  [0x20AC, 0, 0x201A, 0x0192, 0x201E, 0x2026, 0x2020, 0x2021, 0x02C6, 0x2030, 0x0160, 0x2039,
    0x0152, 0, 0x017D, 0, 0, 0x2018, 0x2019, 0x201C, 0x201D, 0x2022, 0x2013, 0x2014, 0x02DC,
    0x2122, 0x0161, 0x203A, 0x0153, 0, 0x017E, 0x0178]

def replacement : Char := '\ufffd'

def codeChar (n : Nat) : Char :=
  if n = 0 ∨ ¬ n.isValidChar then replacement
  else if 0x80 ≤ n ∧ n ≤ 0x9F then
    match controlCodes[n - 0x80]? with
    | some m => if m = 0 then Char.ofNat n else Char.ofNat m
    | none => Char.ofNat n
  else Char.ofNat n

def dropSemicolon : List Char → List Char
  | ';' :: rest => rest
  | cs => cs

def readCode? (base : Nat) (cs : List Char) : Option (List Char × List Char) :=
  let isFigure := fun c ↦ (digitValue? base c).isSome
  let figures := cs.takeWhile isFigure
  if figures = [] then none
  else some ([codeChar (digitsValue base figures)], dropSemicolon (cs.dropWhile isFigure))

def isReferenceChar (c : Char) : Bool :=
  isLetter c || isDigit c

def named? : List Char → Option (List Char)
  | [] => none
  | c :: cs => ((namedCharacters c).lookup (String.ofList (c :: cs))).map String.toList

def readEndedName? (cs : List Char) : Option (List Char × List Char) :=
  match cs.dropWhile isReferenceChar with
  | ';' :: rest => (named? (cs.takeWhile isReferenceChar)).map (·, rest)
  | _ => none

def runsOn : List Char → Bool
  | c :: _ => c = '=' || isReferenceChar c
  | [] => false

/-- The longest name that the text starts with, of those that need no semicolon. In the value of an
attribute a name that runs on does not count. -/
def readShortName? (inValue : Bool) : List Char → Option (List Char × List Char)
  | [] => none
  | c :: cs => do
    let name ← (shortNames c).find? fun name ↦ name.toList.isPrefixOf (c :: cs)
    let rest := (c :: cs).drop name.length
    if inValue && runsOn rest then none else (named? name.toList).map (·, rest)

/-- The characters of a reference and the text after it, for the text after an ampersand; nothing if
the ampersand stands for itself. -/
def readReference? (inValue : Bool) : List Char → Option (List Char × List Char)
  | '#' :: 'x' :: rest => readCode? 16 rest
  | '#' :: 'X' :: rest => readCode? 16 rest
  | '#' :: rest => readCode? 10 rest
  | cs => (readEndedName? cs).or (readShortName? inValue cs)

theorem dropSemicolon_suffix (cs : List Char) : dropSemicolon cs <:+ cs := by
  unfold dropSemicolon
  split
  · exact List.suffix_cons _ _
  · exact List.suffix_rfl

theorem readCode?_suffix {base : Nat} {cs ds rest : List Char}
    (h : readCode? base cs = some (ds, rest)) : rest <:+ cs := by
  unfold readCode? at h
  dsimp only at h
  split at h
  · cases h
  · obtain ⟨-, rfl⟩ := Prod.mk.inj (Option.some.inj h)
    exact (dropSemicolon_suffix _).trans (List.dropWhile_suffix _)

theorem readEndedName?_suffix {cs ds rest : List Char}
    (h : readEndedName? cs = some (ds, rest)) : rest <:+ cs := by
  unfold readEndedName? at h
  split at h
  · next tail hcs =>
    obtain ⟨name, -, hname⟩ := Option.map_eq_some_iff.1 h
    obtain ⟨-, rfl⟩ := Prod.mk.inj hname
    have hsuffix := List.dropWhile_suffix isReferenceChar (l := cs)
    rw [hcs] at hsuffix
    exact (List.suffix_cons _ _).trans hsuffix
  · cases h

theorem readShortName?_suffix {inValue : Bool} {cs ds rest : List Char}
    (h : readShortName? inValue cs = some (ds, rest)) : rest <:+ cs := by
  cases cs with
  | nil => cases h
  | cons c cs =>
    obtain ⟨name, -, h⟩ := Option.bind_eq_some_iff.1 h
    dsimp only at h
    split at h
    · cases h
    · obtain ⟨_, -, hname⟩ := Option.map_eq_some_iff.1 h
      obtain ⟨-, rfl⟩ := Prod.mk.inj hname
      exact List.drop_suffix _ _

theorem readReference?_suffix {inValue : Bool} {cs ds rest : List Char}
    (h : readReference? inValue cs = some (ds, rest)) : rest <:+ cs := by
  unfold readReference? at h
  split at h
  · exact (readCode?_suffix h).trans (List.suffix_append ['#', 'x'] _)
  · exact (readCode?_suffix h).trans (List.suffix_append ['#', 'X'] _)
  · exact (readCode?_suffix h).trans (List.suffix_cons '#' _)
  · rcases Option.or_eq_some_iff.1 h with h | ⟨-, h⟩
    · exact readEndedName?_suffix h
    · exact readShortName?_suffix h

theorem readReference?_length {inValue : Bool} {cs ds rest : List Char}
    (h : readReference? inValue cs = some (ds, rest)) : rest.length ≤ cs.length :=
  (readReference?_suffix h).length_le

def decodeValue (cs : List Char) : List Char :=
  match cs with
  | [] => []
  | c :: rest =>
    if c = '&' then
      match h : readReference? true rest with
      | some (ds, tail) =>
        have := readReference?_length h
        ds ++ decodeValue tail
      | none => c :: decodeValue rest
    else (if c = '\x00' then replacement else c) :: decodeValue rest
termination_by cs.length

end LivePage.Markup
