namespace LivePage.Number

/-- The quotient rounded to the nearest integer, a half to the even one. -/
def roundHalfEven (num den : Nat) : Nat :=
  let q := num / den
  let r := num % den
  if 2 * r < den ∨ (2 * r = den ∧ q % 2 = 0) then q else q + 1

/-- A format: the least positive magnitude is `2 ^ (-scale)`, significands have
`precision` bits, and `count` magnitudes are finite. -/
structure Grid where
  precision : Nat
  scale : Nat
  count : Nat

namespace Grid

variable (g : Grid)

def block : Nat := Nat.pow 2 (g.precision - 1)

def one : Nat := Nat.pow 2 g.scale

def units (rank : Nat) : Nat :=
  if rank < g.block then rank
  else (g.block + rank % g.block) * Nat.pow 2 (rank / g.block - 1)

/-- The rank nearest to a quotient of units, as if there were no largest magnitude. -/
def nearest (num den : Nat) : Nat :=
  let shift := (num / den).log2 - (g.precision - 1)
  shift * g.block + roundHalfEven num (den * Nat.pow 2 shift)

end Grid

def binary64 : Grid := ⟨53, 1074, 2047 * Nat.pow 2 52⟩

def binary32 : Grid := ⟨24, 149, 255 * Nat.pow 2 23⟩

end LivePage.Number
