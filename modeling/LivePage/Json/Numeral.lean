import LivePage.Json.Token

namespace LivePage.Json.Numeral

open Number

/-- Appends figures to `n` while the result stays below `2 ^ 64`, and counts them. -/
def takeFitting (n : Nat) : List Char → Nat × Nat
  | [] => (n, 0)
  | c :: rest =>
    let m := n * 10 + (Text.digitValue? 10 c).getD 0
    if m < Nat.pow 2 64 then
      let (k, used) := takeFitting m rest
      (k, used + 1)
    else (n, 0)

def maxPower : Nat := 308

def powerRank (n : Nat) : Nat :=
  binary64.nearest (Nat.pow 10 n * binary64.one) 1

def divideRank (rank divisor : Nat) : Nat :=
  binary64.nearest (binary64.units rank * binary64.one) (binary64.units divisor)

def multiplyRank (rank factor : Nat) : Nat :=
  binary64.nearest (binary64.units rank * binary64.units factor) (binary64.one)

/-- Divides by a power of ten, at most `10 ^ 308` at a time. -/
def divideByPower (rank n : Nat) : Nat :=
  if rank = 0 then 0
  else if n ≤ maxPower then divideRank rank (powerRank n)
  else divideByPower (divideRank rank (powerRank maxPower)) (n - maxPower)
termination_by n
decreasing_by simp only [maxPower] at *; omega

def scale? (rank : Nat) (exponent : Int) : Option Nat :=
  if exponent < 0 then some (divideByPower rank exponent.natAbs)
  else if exponent ≤ maxPower then
    let product := multiplyRank rank (powerRank exponent.natAbs)
    if product < binary64.count then some product else none
  else if rank = 0 then some 0 else none

def maxExponent : Nat := Nat.pow 2 31 - 1

/-- The magnitude of a numeral; `none` if it is too large. An integer of at most 64 bits is rounded
once. Else the leading figures that fit into 64 bits are rounded, and the power of ten is multiplied
or divided into the result with a second rounding; later figures are dropped. -/
def rank? (n : Numeral) : Option Nat :=
  let (whole, usedWhole) := takeFitting 0 n.whole
  let (digits, usedFraction) := takeFitting whole (n.fraction?.getD [])
  let start : Int := n.whole.length - usedWhole - usedFraction
  let rank := binary64.nearest (digits * binary64.one) 1
  match n.exponent? with
  | none => scale? rank start
  | some (negative, figures) =>
    let e := Text.digitsValue 10 figures
    if maxExponent < e then if digits ≠ 0 ∧ !negative then none else some 0
    else scale? rank (if negative then start - e else start + e)

def number (negative : Bool) (n : Numeral) : Except Fault Number :=
  match n.rank? with
  | some rank => .ok (ofRank negative rank)
  | none => .error .malformed

end LivePage.Json.Numeral
