import AnnotationExpr.Decimal.Double

/-! The double nearest to a decimal number; a number halfway between two goes to the even one. -/

namespace AnnotationExpr.Decimal

/-- The quotient rounded to an integer, a half to the even neighbour. -/
def roundDiv (num den : Nat) : Nat :=
  let quotient := num / den
  match compare (2 * (num % den)) den with
  | .lt => quotient
  | .eq => quotient + quotient % 2
  | .gt => quotient + 1

/-- The numerator and the denominator of `num / den` measured in units of `base ^ e`. -/
def inUnits (base : Nat) (e : Int) (num den : Nat) : Nat × Nat :=
  (num * Nat.pow base (-e).toNat, den * Nat.pow base e.toNat)

/-- Exponent of the last bit kept of `num / den`: it leaves 53 bits, or fewer at the least exponent. -/
def lastBit (num den : Nat) : Int :=
  let guess : Int := (num.log2 : Int) - den.log2 - (fractionBits + 1)
  let (n, d) := inUnits 2 guess num den
  max leastExponent (if n / d < Nat.pow 2 (fractionBits + 1) then guess else guess + 1)

def nearestBinary (num den : Nat) : Binary :=
  let e := lastBit num den
  let (n, d) := inUnits 2 e num den
  ⟨roundDiv n d, e⟩

/-- Decimal exponents from which on every number is infinite, and below minus which it is zero. -/
def exponentBound : Int := 400

/-- The double nearest to `n · 10 ^ e`. -/
def nearest (n : Nat) (e : Int) : Float :=
  let size := e + (Nat.toDigits 10 n).length
  if n = 0 ∨ size < -exponentBound then Float.ofBits 0
  else if exponentBound < size then Float.ofBits infinityBits.toUInt64
  else
    let (num, den) := inUnits 10 (-e) n 1
    Float.ofBits (nearestBinary num den).toBits.toUInt64

end AnnotationExpr.Decimal
