import LivePage.Number.Reading

namespace LivePage.Number

/-- Whether `d * 10 ^ exponent` rounds to the magnitude of `rank`: it lies between the midpoints to
the neighbours, which belong to the magnitude when its rank is even. -/
def readsBack (rank d : Nat) (exponent : Int) : Bool :=
  let value := d * Nat.pow 10 exponent.toNat * (2 * binary64.one)
  let power := Nat.pow 10 (-exponent).toNat
  let low := (binary64.units (rank - 1) + binary64.units rank) * power
  let high := (binary64.units rank + binary64.units (rank + 1)) * power
  if rank % 2 = 0 then low ≤ value && value ≤ high else low < value && value < high

/-- Which of two decimals that are equally near is written. -/
inductive Tie
  | upper
  | even
deriving DecidableEq

/-- The best decimal for `rank` among the multiples of `10 ^ exponent`: of the two multiples around
the magnitude, the nearer one that reads back. -/
def onGrid? (tie : Tie) (rank : Nat) (exponent : Int) : Option Decimal :=
  let num := binary64.units rank * Nat.pow 10 (-exponent).toNat
  let den := Nat.pow 10 exponent.toNat * binary64.one
  let below := num / den
  let twice := 2 * (num % den)
  let upperFirst := den < twice || (den = twice && (tie = .upper || below % 2 = 1))
  let first := if upperFirst then below + 1 else below
  let second := if upperFirst then below else below + 1
  if readsBack rank first exponent then some ⟨first, exponent⟩
  else if readsBack rank second exponent then some ⟨second, exponent⟩
  else none

def searchGrids (tie : Tie) (rank : Nat) : Nat → Int → Option Decimal
  | 0, _ => none
  | fuel + 1, exponent =>
    (onGrid? tie rank exponent).or (searchGrids tie rank fuel (exponent - 1))

/-- A power of ten above the magnitude: the binary logarithm times slightly more than `log10 2`. -/
def topExponent (rank : Nat) : Int :=
  (((binary64.units rank).log2 : Int) - 1073) * 30103 / 100000 + 1

/-- The shortest decimal that reads back as the magnitude of a positive rank. Nineteen grids from
the top always contain one; the exact value stands in after them. -/
def shortest (tie : Tie) (rank : Nat) : Decimal :=
  (searchGrids tie rank 20 (topExponent rank)).getD
    ⟨binary64.units rank * Nat.pow 5 binary64.scale, -binary64.scale⟩

def Decimal.stripZeros : Nat → Decimal → Decimal
  | 0, d => d
  | fuel + 1, d =>
    if d.digits ≠ 0 ∧ d.digits % 10 = 0 then stripZeros fuel ⟨d.digits / 10, d.exponent + 1⟩ else d

structure Style where
  plain? : Option (Int × Int)
  wholeTail : String
  plus : String
  nan : String
  infinite : String
  tie : Tie

namespace Style

variable (style : Style)

def plainText (digits : List Char) (exponent : Int) : String :=
  if 0 ≤ exponent then
    String.ofList (digits ++ List.replicate exponent.toNat '0') ++ style.wholeTail
  else
    let places := (-exponent).toNat
    if places < digits.length then
      let whole := digits.length - places
      String.ofList (digits.take whole ++ '.' :: digits.drop whole)
    else String.ofList ('0' :: '.' :: List.replicate (places - digits.length) '0' ++ digits)

def exponentText (digits : List Char) (lead : Int) : String :=
  let mantissa := match digits with
    | c :: d :: rest => c :: '.' :: d :: rest
    | _ => digits
  let sign := if lead < 0 then "-" else style.plus
  String.ofList mantissa ++ "e" ++ sign ++ Nat.repr lead.natAbs

def decimalText (d : Decimal) : String :=
  let digits := Nat.toDigits 10 d.digits
  let lead := d.exponent + digits.length - 1
  let plainly := match style.plain? with
    | none => true
    | some (low, high) => low ≤ lead && lead < high
  if plainly then style.plainText digits d.exponent else style.exponentText digits lead

def sign (negative : Bool) : String :=
  if negative then "-" else ""

def write : Number → String
  | .nan => style.nan
  | .infinite negative => sign negative ++ style.infinite
  | .finite negative rank =>
    let d := if rank.val = 0 then ⟨0, 0⟩ else (shortest style.tie rank.val).stripZeros 400
    sign negative ++ style.decimalText d

end Style

def plainStyle : Style := ⟨none, "", "", "NaN", "Infinity", .upper⟩

def debugStyle : Style := ⟨some (-4, 16), ".0", "", "NaN", "inf", .upper⟩

def debug (n : Number) : String :=
  debugStyle.write n

def whole? (rank : Nat) : Option Nat :=
  let u := binary64.units rank
  if u % binary64.one = 0 then some (u / binary64.one) else none

/-- The text of a number on a page. Whole numbers below `10 ^ 15` are written as integers, so a
negative zero has no sign. -/
def display : Number → String
  | .finite negative rank =>
    match whole? rank.val with
    | some n =>
      if n < Nat.pow 10 15 then Style.sign (negative && n ≠ 0) ++ Nat.repr n
      else plainStyle.write (.finite negative rank)
    | none => plainStyle.write (.finite negative rank)
  | n => plainStyle.write n

end LivePage.Number
