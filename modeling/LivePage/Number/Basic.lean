import LivePage.Number.Rounding

namespace LivePage

/-- Binary floating-point numbers of 64 bits, with one not-a-number. A finite magnitude is given by
its rank in increasing order. -/
inductive Number
  | nan
  | infinite (negative : Bool)
  | finite (negative : Bool) (rank : Fin (2047 * Nat.pow 2 52))
deriving DecidableEq, Repr

namespace Number

/-- The magnitude at a rank; past the last finite one it is infinite. -/
def ofRank (negative : Bool) (rank : Nat) : Number :=
  if h : rank < 2047 * Nat.pow 2 52 then .finite negative ⟨rank, h⟩ else .infinite negative

def ofRatio (negative : Bool) (num den : Nat) : Number :=
  ofRank negative (binary64.nearest (num * binary64.one) den)

def ofNat (n : Nat) : Number :=
  ofRatio false n 1

def ofInt (n : Int) : Number :=
  ofRatio (n < 0) n.natAbs 1

instance : OfNat Number n := ⟨ofNat n⟩

def zero (negative : Bool) : Number :=
  .finite negative 0

def signedUnits (negative : Bool) (rank : Nat) : Int :=
  if negative then -(binary64.units rank : Int) else binary64.units rank

/-- Equality as numbers: the two zeros are equal, and nothing equals the not-a-number. -/
def same : Number → Number → Bool
  | .infinite a, .infinite b => a = b
  | .finite a m, .finite b n => m = n && (a = b || m.val = 0)
  | _, _ => false

instance : BEq Number := ⟨same⟩

def less : Number → Number → Bool
  | .nan, _ => false
  | _, .nan => false
  | .infinite a, .infinite b => a && !b
  | .infinite a, .finite .. => a
  | .finite .., .infinite b => !b
  | .finite a m, .finite b n => signedUnits a m < signedUnits b n

/-- The sum, rounded; a sum of zero is negative only if both terms are. -/
def add : Number → Number → Number
  | .nan, _ => .nan
  | _, .nan => .nan
  | .infinite a, .infinite b => if a = b then .infinite a else .nan
  | .infinite a, .finite .. => .infinite a
  | .finite .., .infinite b => .infinite b
  | .finite a m, .finite b n =>
    let sum := signedUnits a m + signedUnits b n
    if sum = 0 then zero (a && b) else ofRank (sum < 0) (binary64.nearest sum.natAbs 1)

instance : Add Number := ⟨add⟩

end Number

end LivePage
