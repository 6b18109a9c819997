import AnnotationExpr.Decimal.Shortest

/-! How a double is written: the shortest digits that read back, positional for middle sizes. -/

namespace AnnotationExpr.Decimal

structure Layout where
  /-- Decimal exponents of the first digit that are written positionally. -/
  least : Int
  greatest : Int
  mark : String
  infinity : String
  notANumber : String
deriving Repr

/-- Literals are positional from one ten-thousandth to below `10 ^ 16`, with at least one digit after the
point; other exponents follow an `e`, and only a negative one has a sign. -/
def literalLayout : Layout := ⟨-4, 15, "e", "inf", "NaN"⟩

def zeros (n : Nat) : List Char := List.replicate n '0'

/-- Digits with the point after the first `n` of them. -/
def pointAfter (n : Int) (digits : List Char) : List Char :=
  if n ≤ 0 then '0' :: '.' :: zeros (-n).toNat ++ digits
  else if digits.length ≤ n then digits ++ zeros (n.toNat - digits.length) ++ ['.', '0']
  else digits.take n.toNat ++ '.' :: digits.drop n.toNat

def Layout.positive (l : Layout) (n : Nat) (k : Int) : String :=
  let digits := Nat.toDigits 10 n
  let first : Int := k + digits.length - 1
  if l.least ≤ first ∧ first ≤ l.greatest then String.ofList (pointAfter (first + 1) digits)
  else
    let rest := digits.drop 1
    String.ofList (digits.take 1 ++ if rest.isEmpty then [] else '.' :: rest) ++ l.mark ++ toString first

def Layout.write (l : Layout) (x : Float) : String :=
  let all := x.toBits.toNat
  let bits := all % Nat.pow 2 63
  let sign := if all = bits then "" else "-"
  if infinityBits < bits then l.notANumber
  else if bits = infinityBits then sign ++ l.infinity
  else if bits = 0 then sign ++ "0.0"
  else let (n, k) := shortest bits; sign ++ l.positive n k

def text (x : Float) : String := literalLayout.write x

end AnnotationExpr.Decimal
