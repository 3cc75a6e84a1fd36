import LivePage.Toml.Text

namespace LivePage.Toml

open Text

inductive Scalar
  | bool (b : Bool)
  | integer (n : Int)
  | float (n : Number)
  | moment
deriving Repr

def figures? (isFigure : Char → Bool) : List Char → Option (List Char)
  | [] => none
  | [c] => if isFigure c then some [c] else none
  | c :: '_' :: rest => if isFigure c then (figures? isFigure rest).map (c :: ·) else none
  | c :: rest => if isFigure c then (figures? isFigure rest).map (c :: ·) else none

def integer? (n : Int) : Option Scalar :=
  if -Int.ofNat (Nat.pow 2 127) ≤ n ∧ n < Int.ofNat (Nat.pow 2 128) then some (.integer n) else none

def basedInteger? (base : Nat) (cs : List Char) : Option Scalar := do
  let digits ← figures? (fun c ↦ (digitValue? base c).isSome) cs
  integer? (digitsValue base digits)

def wholeFigures? (cs : List Char) : Option (List Char) := do
  let digits ← figures? isDigit cs
  if digits.head? = some '0' ∧ digits.length ≠ 1 then none else some digits

def isFigureChar (c : Char) : Bool := isDigit c || c = '_'

def exponent? : List Char → Option Int
  | [] => some 0
  | c :: rest =>
    if c = 'e' ∨ c = 'E' then do
      let (negative, rest) := Number.Numeral.takeSign rest
      let digits ← figures? isDigit rest
      let n : Int := digitsValue 10 digits
      some (if negative then -n else n)
    else none

/-- An integer or a floating-point number in decimal, after its sign. A number too large to be
finite is refused. -/
def decimal? (negative : Bool) (cs : List Char) : Option Scalar := do
  let whole ← wholeFigures? (cs.takeWhile isFigureChar)
  match cs.dropWhile isFigureChar with
  | [] =>
    let n : Int := digitsValue 10 whole
    integer? (if negative then -n else n)
  | c :: rest =>
    let (fraction, tail) ←
      if c = '.' then do
        let fraction ← figures? isDigit (rest.takeWhile isFigureChar)
        some (fraction, rest.dropWhile isFigureChar)
      else some ([], c :: rest)
    let exponent ← exponent? tail
    match Number.Numeral.number ⟨negative, whole, fraction, exponent⟩ with
    | .infinite _ => none
    | n => some (.float n)

def number? (cs : List Char) : Option Scalar :=
  match cs with
  | '0' :: 'x' :: rest => basedInteger? 16 rest
  | '0' :: 'o' :: rest => basedInteger? 8 rest
  | '0' :: 'b' :: rest => basedInteger? 2 rest
  | _ =>
    let (negative, rest) := Number.Numeral.takeSign cs
    if rest = ['i', 'n', 'f'] then some (.float (.infinite negative))
    else if rest = ['n', 'a', 'n'] then some (.float .nan)
    else decimal? negative rest

def fixedFigures? (width : Nat) (cs : List Char) : Option (Nat × List Char) :=
  let digits := cs.take width
  if digits.length = width ∧ digits.all isDigit then some (digitsValue 10 digits, cs.drop width)
  else none

def isLeapYear (y : Nat) : Bool :=
  y % 4 = 0 && (y % 100 ≠ 0 || y % 400 = 0)

def daysIn (year month : Nat) : Nat :=
  if month = 2 then (if isLeapYear year then 29 else 28)
  else if month = 4 ∨ month = 6 ∨ month = 9 ∨ month = 11 then 30 else 31

def date? (cs : List Char) : Option (List Char) := do
  let (year, rest) ← fixedFigures? 4 cs
  let '-' :: rest := rest | none
  let (month, rest) ← fixedFigures? 2 rest
  let '-' :: rest := rest | none
  let (day, rest) ← fixedFigures? 2 rest
  if 1 ≤ month ∧ month ≤ 12 ∧ 1 ≤ day ∧ day ≤ daysIn year month then some rest else none

def secondFraction? : List Char → Option (List Char)
  | '.' :: rest => if (rest.takeWhile isDigit) = [] then none else some (rest.dropWhile isDigit)
  | cs => some cs

def seconds? : List Char → Option (List Char)
  | ':' :: rest => do
    let (second, rest) ← fixedFigures? 2 rest
    if second ≤ 60 then secondFraction? rest else none
  | cs => some cs

def time? (cs : List Char) : Option (List Char) := do
  let (hour, rest) ← fixedFigures? 2 cs
  let ':' :: rest := rest | none
  let (minute, rest) ← fixedFigures? 2 rest
  if hour ≤ 23 ∧ minute ≤ 59 then seconds? rest else none

def offset? : List Char → Option (List Char)
  | [] => some []
  | c :: rest =>
    if c = 'Z' ∨ c = 'z' then some rest
    else if c = '+' ∨ c = '-' then do
      let (hour, rest) ← fixedFigures? 2 rest
      let ':' :: rest := rest | none
      let (minute, rest) ← fixedFigures? 2 rest
      if hour ≤ 23 ∧ minute ≤ 59 then some rest else none
    else some (c :: rest)

def moment? (cs : List Char) : Option Scalar :=
  match date? cs with
  | some [] => some .moment
  | some (c :: rest) =>
    if c = 'T' ∨ c = 't' ∨ c = ' ' then
      if ((time? rest).bind offset?) = some [] then some .moment else none
    else none
  | none => if time? cs = some [] then some .moment else none

def scalar? (cs : List Char) : Option Scalar :=
  if cs = ['t', 'r', 'u', 'e'] then some (.bool true)
  else if cs = ['f', 'a', 'l', 's', 'e'] then some (.bool false)
  else (number? cs).or (moment? cs)

def endsScalar (c : Char) : Bool :=
  isSpace c || c = '\n' || c = '\r' || c = ',' || c = ']' || c = '\x7d' || c = '#'

/-- Reads a bare scalar. A blank may part a date from its time. -/
def readScalar? (cs : List Char) : Option (Scalar × List Char) :=
  let word := cs.takeWhile (!endsScalar ·)
  let rest := cs.dropWhile (!endsScalar ·)
  match rest with
  | ' ' :: d :: _ =>
    if date? word = some [] ∧ isDigit d then
      let tail := rest.drop 1
      (scalar? (word ++ ' ' :: tail.takeWhile (!endsScalar ·))).map
        (·, tail.dropWhile (!endsScalar ·))
    else (scalar? word).map (·, rest)
  | _ => (scalar? word).map (·, rest)

end LivePage.Toml
