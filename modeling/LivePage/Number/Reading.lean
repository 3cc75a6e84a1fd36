import LivePage.Number.Basic
import LivePage.Text.Letters

namespace LivePage.Number

/-- A decimal number without sign: `digits * 10 ^ exponent`. -/
structure Decimal where
  digits : Nat
  exponent : Int
deriving DecidableEq, Repr

/-- The rank nearest to a decimal. Decimals far outside the format are cut off before the powers
of ten become large: `digits` has `length` figures. -/
def Grid.ofDecimal (g : Grid) (length : Nat) (d : Decimal) : Nat :=
  if d.digits = 0 ∨ d.exponent + length < -400 then 0
  else if 400 < d.exponent + length then g.count
  else
    let num := d.digits * Nat.pow 10 d.exponent.toNat * g.one
    g.nearest num (Nat.pow 10 (-d.exponent).toNat)

def ofDecimal (negative : Bool) (length : Nat) (d : Decimal) : Number :=
  ofRank negative (binary64.ofDecimal length d)

def ofDecimal32 (negative : Bool) (length : Nat) (d : Decimal) : Number :=
  let rank := binary32.ofDecimal length d
  if rank < binary32.count then ofRatio negative (binary32.units rank) binary32.one
  else .infinite negative

structure Numeral where
  negative : Bool
  whole : List Char
  fraction : List Char
  exponent : Int

namespace Numeral

open Text

def figures (n : Numeral) : List Char :=
  n.whole ++ n.fraction

def decimal (n : Numeral) : Decimal :=
  ⟨digitsValue 10 n.figures, n.exponent - n.fraction.length⟩

def number (n : Numeral) : Number :=
  ofDecimal n.negative n.figures.length n.decimal

def number32 (n : Numeral) : Number :=
  ofDecimal32 n.negative n.figures.length n.decimal

def takeSign : List Char → Bool × List Char
  | '-' :: rest => (true, rest)
  | '+' :: rest => (false, rest)
  | cs => (false, cs)

def readExponent? : List Char → Option Int
  | [] => some 0
  | c :: rest =>
    if c = 'e' ∨ c = 'E' then
      let (negative, figures) := takeSign rest
      if figures ≠ [] ∧ figures.all isDigit then
        let n : Int := digitsValue 10 figures
        some (if negative then -n else n)
      else none
    else none

def takeFraction : List Char → List Char × List Char
  | '.' :: rest => (rest.takeWhile isDigit, rest.dropWhile isDigit)
  | cs => ([], cs)

/-- Reads a whole text as a numeral: an optional sign, figures with at most one point among or
beside them, an optional exponent. -/
def read? (cs : List Char) : Option Numeral :=
  let (negative, rest) := takeSign cs
  let (fraction, tail) := takeFraction (rest.dropWhile isDigit)
  let whole := rest.takeWhile isDigit
  if whole = [] ∧ fraction = [] then none
  else (readExponent? tail).map fun e ↦ ⟨negative, whole, fraction, e⟩

end Numeral

def readSpecial? (cs : List Char) : Option Number :=
  let (negative, rest) := Numeral.takeSign cs
  let name := String.ofList (rest.map Text.lowerChar)
  if name = "inf" ∨ name = "infinity" then some (.infinite negative)
  else if name = "nan" then some .nan
  else none

/-- Reads a text as a number: a special name or a numeral. -/
def read? (s : String) : Option Number :=
  (readSpecial? s.toList).or ((Numeral.read? s.toList).map Numeral.number)

def read32? (s : String) : Option Number :=
  (readSpecial? s.toList).or ((Numeral.read? s.toList).map Numeral.number32)

def readInt? (s : String) : Option Int :=
  let (negative, figures) := Numeral.takeSign s.toList
  if figures ≠ [] ∧ figures.all Text.isDigit then
    let n : Int := Text.digitsValue 10 figures
    some (if negative then -n else n)
  else none

end LivePage.Number
