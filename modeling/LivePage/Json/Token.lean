import LivePage.Number.Reading

namespace LivePage.Json

/-- Why a text is refused: it breaks the grammar, it is well formed so far but is not what is asked
for, or it ends too early. -/
inductive Fault
  | malformed
  | mismatched
  | unfinished
deriving DecidableEq, Repr

def isSpace (c : Char) : Bool :=
  c = ' ' || c = '\n' || c = '\t' || c = '\r'

def skipSpace (cs : List Char) : List Char :=
  cs.dropWhile isSpace

def readLiteral : List Char → List Char → Except Fault (List Char)
  | [], cs => .ok cs
  | _ :: _, [] => .error .unfinished
  | c :: literal, d :: cs => if c = d then readLiteral literal cs else .error .malformed

/-- Four hexadecimal digits. When they are not there, the text counts as too short if fewer than
four bytes remain. -/
def readHex (cs : List Char) : Except Fault (Nat × List Char) :=
  let digits := cs.take 4
  if digits.length = 4 ∧ digits.all fun c ↦ (Text.digitValue? 16 c).isSome then
    .ok (Text.digitsValue 16 digits, cs.drop 4)
  else if Text.byteSize digits < 4 then .error .unfinished
  else .error .malformed

def isHighSurrogate (n : Nat) : Bool := 0xD800 ≤ n && n ≤ 0xDBFF

def isLowSurrogate (n : Nat) : Bool := 0xDC00 ≤ n && n ≤ 0xDFFF

def readLowSurrogate : List Char → Except Fault (Nat × List Char)
  | [] => .error .unfinished
  | '\\' :: [] => .error .unfinished
  | '\\' :: 'u' :: rest => do
    let (n, rest) ← readHex rest
    if isLowSurrogate n then .ok (n, rest) else .error .malformed
  | _ => .error .malformed

def readCode (cs : List Char) : Except Fault (Char × List Char) := do
  let (n, rest) ← readHex cs
  if isLowSurrogate n then .error .malformed
  else if isHighSurrogate n then
    let (m, rest) ← readLowSurrogate rest
    .ok (Char.ofNat (0x10000 + (n - 0xD800) * 0x400 + (m - 0xDC00)), rest)
  else .ok (Char.ofNat n, rest)

def escaped? (c : Char) : Option Char :=
  if c = '"' ∨ c = '\\' ∨ c = '/' then some c
  else if c = 'b' then some '\x08' else if c = 'f' then some '\x0c'
  else if c = 'n' then some '\n' else if c = 'r' then some '\r'
  else if c = 't' then some '\t' else none

def readEscape : List Char → Except Fault (Char × List Char)
  | [] => .error .unfinished
  | c :: rest =>
    if c = 'u' then readCode rest
    else match escaped? c with
      | some d => .ok (d, rest)
      | none => .error .malformed

/-- The rest of a string after its opening quote. `fuel` is at least the length of the text. -/
def readString : Nat → List Char → Except Fault (List Char × List Char)
  | 0, _ => .error .unfinished
  | _ + 1, [] => .error .unfinished
  | fuel + 1, c :: rest =>
    if c = '"' then .ok ([], rest)
    else if c = '\\' then do
      let (d, rest) ← readEscape rest
      let (s, rest) ← readString fuel rest
      .ok (d :: s, rest)
    else if c.toNat < 0x20 then .error .malformed
    else do
      let (s, rest) ← readString fuel rest
      .ok (c :: s, rest)

/-- Skips the rest of a string whose value is not wanted: codes need not form characters. -/
def skipString : Nat → List Char → Except Fault (List Char)
  | 0, _ => .error .unfinished
  | _ + 1, [] => .error .unfinished
  | _ + 1, ['\\'] => .error .unfinished
  | fuel + 1, '\\' :: c :: rest =>
    if c = 'u' then do
      let (_, rest) ← readHex rest
      skipString fuel rest
    else if (escaped? c).isSome then skipString fuel rest
    else .error .malformed
  | fuel + 1, c :: rest =>
    if c = '"' then .ok rest
    else if c.toNat < 0x20 then .error .malformed
    else skipString fuel rest

/-- A numeral as written, the sign apart: figures before the point, after it if there is one, and
the exponent if there is one. -/
structure Numeral where
  whole : List Char
  fraction? : Option (List Char)
  exponent? : Option (Bool × List Char)

def readFigures (atEnd : Fault) : List Char → Except Fault (List Char × List Char)
  | [] => .error atEnd
  | cs =>
    let figures := cs.takeWhile Text.isDigit
    if figures = [] then .error .malformed else .ok (figures, cs.dropWhile Text.isDigit)

def readWhole (atEnd : Fault) (cs : List Char) : Except Fault (List Char × List Char) := do
  let (figures, rest) ← readFigures atEnd cs
  if figures.head? = some '0' ∧ figures.length ≠ 1 then .error .malformed else .ok (figures, rest)

def readFraction (atEnd : Fault) : List Char → Except Fault (Option (List Char) × List Char)
  | '.' :: rest => do
    let (figures, rest) ← readFigures atEnd rest
    .ok (some figures, rest)
  | cs => .ok (none, cs)

def readExponent (atEnd : Fault) : List Char → Except Fault (Option (Bool × List Char) × List Char)
  | c :: rest =>
    if c = 'e' ∨ c = 'E' then do
      let (negative, rest) := Number.Numeral.takeSign rest
      let (figures, rest) ← readFigures atEnd rest
      .ok (some (negative, figures), rest)
    else .ok (none, c :: rest)
  | [] => .ok (none, [])

def readNumeral (atEnd : Fault) (cs : List Char) : Except Fault (Numeral × List Char) := do
  let (whole, rest) ← readWhole atEnd cs
  let (fraction, rest) ← readFraction atEnd rest
  let (exponent, rest) ← readExponent atEnd rest
  .ok (⟨whole, fraction, exponent⟩, rest)

end LivePage.Json
