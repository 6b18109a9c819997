/-!
Doubles as binary numbers. A finite nonnegative double is `m · 2 ^ q` with `m < 2 ^ 53`, and its bits,
read as a number, count the doubles below it; so a carry out of `m` leads to the next larger double.
-/

namespace AnnotationExpr.Decimal

def fractionBits : Nat := 52

/-- Exponent of the last bit of the smallest doubles. -/
def leastExponent : Int := -1074

def infinityBits : Nat := 0x7FF0000000000000

structure Binary where
  significand : Nat
  exponent : Int
deriving DecidableEq, Repr

def Binary.ofBits (bits : Nat) : Binary :=
  let field : Nat := bits / Nat.pow 2 fractionBits % Nat.pow 2 11
  let fraction := bits % Nat.pow 2 fractionBits
  if field = 0 then ⟨fraction, leastExponent⟩
  else ⟨Nat.pow 2 fractionBits + fraction, leastExponent + field - 1⟩

/-- Bits of the double, when the exponent is the least one or the significand has all its bits. -/
def Binary.toBits (b : Binary) : Nat :=
  min infinityBits ((b.exponent - leastExponent).toNat * Nat.pow 2 fractionBits + b.significand)

end AnnotationExpr.Decimal
