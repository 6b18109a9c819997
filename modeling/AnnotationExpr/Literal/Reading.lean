import AnnotationExpr.Decimal.Nearest
import AnnotationExpr.Literal
import AnnotationExpr.Literal.Escape

/-!
The values of literals. Integers may be decimal, octal (a leading zero) or hexadecimal; the last two give
the bit pattern of a word, so they reach twice as far and then denote negative values.
-/

namespace AnnotationExpr.Literal

def dropBars (s : List Char) : List Char := s.filter (· ≠ '_')

/-- The radix and the digits of an integer without its separators. -/
def radixAndDigits : List Char → Nat × List Char
  | '0' :: 'x' :: s => (16, s)
  | '0' :: 'X' :: s => (16, s)
  | '0' :: d :: s => (8, d :: s)
  | s => (10, s)

/-- The number that an integer literal denotes if it fits into a word of `bits` bits; a decimal one must
also be a nonnegative signed value. -/
def integer? (bits : Nat) (lexeme : List Char) : Option Nat :=
  let (radix, digits) := radixAndDigits (dropBars lexeme)
  let bound := if radix = 10 then Nat.pow 2 (bits - 1) else Nat.pow 2 bits
  (Text.number? radix digits).filter (· < bound)

def ofInt (lexeme : List Char) : Except Literal.Error Value :=
  match integer? 32 lexeme with
  | some n => .ok (.int (Int32.ofNat n))
  | none => .error .intTooLarge

def ofLong (lexeme : List Char) : Except Literal.Error Value :=
  match integer? 64 lexeme.dropLast with
  | some n => .ok (.long (Int64.ofNat n))
  | none => .error .longTooLarge

/-- The sign and the digits of an exponent. -/
def exponent? : List Char → Option Int
  | [] => some 0
  | c :: s =>
    if c = 'e' ∨ c = 'E' then
      match s with
      | '-' :: r => (Text.number? 10 r).map fun n => -(n : Int)
      | '+' :: r => (Text.number? 10 r).map Int.ofNat
      | r => (Text.number? 10 r).map Int.ofNat
    else none

def dropRealSuffix (s : List Char) : List Char :=
  if s.getLast?.any (fun c => c = 'd' || c = 'D' || c = 'f' || c = 'F') then s.dropLast else s

/-- Reads digits, a point with digits after it, and an exponent, of which some may be absent. -/
def real? (lexeme : List Char) : Option Float :=
  let s := dropRealSuffix (dropBars lexeme)
  let (whole, s) := s.span (Text.isDigit 10)
  let (part, s) := match s with
    | '.' :: r => r.span (Text.isDigit 10)
    | r => ([], r)
  (exponent? s).bind fun e =>
    (Text.number? 10 (whole ++ part)).map fun n => Decimal.nearest n (e - part.length)

def ofDouble (lexeme : List Char) : Except Literal.Error Value :=
  match real? lexeme with
  | some x => .ok (.double x)
  | none => .error .notReal

/-- The characters between the quotes. -/
def body (lexeme : List Char) : List Char := (lexeme.drop 1).dropLast

def ofChar (lexeme : List Char) : Except Literal.Error Value :=
  match unescape (body lexeme) with
  | .ok [c] => .ok (.char c)
  | .ok _ => .error .notOneCharacter
  | .error e => .error e

def ofString (lexeme : List Char) : Except Literal.Error Value :=
  match unescape (body lexeme) with
  | .ok s => .ok (.string (String.ofList s))
  | .error e => .error e

end AnnotationExpr.Literal
