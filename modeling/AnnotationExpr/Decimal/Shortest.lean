import AnnotationExpr.Decimal.Double

/-!
The shortest decimal that reads back as a double: of the powers of ten with a multiple among the reals
that round to the double, the largest, and of its multiples among them the one nearest to the double.
-/

namespace AnnotationExpr.Decimal

/-- The reals that round to a double, in quarters of its last bit. -/
structure Interval where
  low : Nat
  middle : Nat
  high : Nat
  /-- Both ends belong to it. -/
  closed : Bool
  /-- Exponent of the quarter bit. -/
  exponent : Int
deriving DecidableEq, Repr

/-- Below a power of two the doubles lie twice as close. -/
def Interval.of (b : Binary) : Interval :=
  let narrow := b.significand = Nat.pow 2 fractionBits && leastExponent < b.exponent
  let middle := 4 * b.significand
  ⟨if narrow then middle - 1 else middle - 2, middle, middle + 2, b.significand % 2 = 0, b.exponent - 2⟩

def Interval.holds (i : Interval) (unit point : Nat) : Bool :=
  if i.closed then i.low * unit ≤ point && point ≤ i.high * unit
  else i.low * unit < point && point < i.high * unit

/-- The multiple of `10 ^ k` in the interval that is nearest to its middle, divided by `10 ^ k`; of two at
the same distance the larger. -/
def Interval.multiple? (i : Interval) (k : Int) : Option Nat :=
  let unit := Nat.pow 2 i.exponent.toNat * Nat.pow 10 (-k).toNat
  let step := Nat.pow 10 k.toNat * Nat.pow 2 (-i.exponent).toNat
  let below := i.middle * unit / step
  let upperFits := i.holds unit ((below + 1) * step)
  if i.holds unit (below * step) then
    if upperFits && (2 * below + 1) * step ≤ 2 * (i.middle * unit) then some (below + 1) else some below
  else if upperFits then some (below + 1)
  else none

/-- Exponents of ten are tried from this one less `lowest` downwards. -/
def lowest : Nat := 400

def Interval.shortestBelow (i : Interval) : Nat → Nat × Int
  | 0 => (0, 0)
  | n + 1 =>
    let k : Int := (n : Int) - lowest
    match i.multiple? k with
    | some c => (c, k)
    | none => i.shortestBelow n

/-- Digits and decimal exponent of the shortest decimal for the positive double with these bits. -/
def shortest (bits : Nat) : Nat × Int :=
  (Interval.of (Binary.ofBits bits)).shortestBelow (lowest + 310)

end AnnotationExpr.Decimal
