import AnnotationExpr.Text.Digits

/-!
Parameter markers. A marker `#N`, with `N` in decimal and without a leading zero, stands for a formal
parameter. Before an expression is read each marker becomes a plain name; the scan is textual, so markers
inside string literals count too.
-/

namespace AnnotationExpr.Marker

/-- A marker with its digits, or a character outside every marker. -/
inductive Piece where
  | marker (digits : List Char)
  | plain (c : Char)
deriving DecidableEq, Repr

def isFirstDigit (c : Char) : Bool := '1' ≤ c && c ≤ '9'

/-- Cuts a text into its markers, each with all the digits that follow it, and single characters. -/
def pieces : List Char → List Piece
  | [] => []
  | [c] => [.plain c]
  | c :: d :: s =>
    if c = '#' ∧ isFirstDigit d then
      .marker (d :: s.takeWhile (Text.isDigit 10)) :: pieces (s.dropWhile (Text.isDigit 10))
    else .plain c :: pieces (d :: s)
termination_by s => s.length
decreasing_by
  · have := (List.dropWhile_sublist (l := s) (Text.isDigit 10)).length_le
    simp only [List.length_cons]; omega
  · simp

/-- The name that replaces a marker starts so. -/
def stem : List Char := "_param_".toList

/-- Indices from here on have no place in a machine word. -/
def indexBound : Nat := Nat.pow 2 64

def Piece.index? : Piece → Option Nat
  | .marker digits => let n := Text.value 10 digits; if n < indexBound then some n else none
  | .plain _ => none

def Piece.expand : Piece → List Char
  | .marker digits => stem ++ digits
  | .plain c => [c]

/-- The index of each marker in order of occurrence; one beyond the bound is left out. -/
def indices (text : String) : List Nat := (pieces text.toList).filterMap Piece.index?

/-- The text with a name in place of each marker. -/
def expand (text : String) : String := String.ofList ((pieces text.toList).flatMap Piece.expand)

/-- A text that is ready to be read, and the distinct indices it refers to in order of first occurrence. -/
structure Prepared where
  text : String
  indices : List Nat
deriving DecidableEq, Repr

def prepare (text : String) : Prepared := ⟨expand text, (indices text).eraseDups⟩

/-- The digits in a name that stands for a marker. They are not checked: `0` and leading zeros are kept. -/
def digits? (name : String) : Option (List Char) :=
  if stem.isPrefixOf name.toList then
    let digits := name.toList.drop stem.length
    if digits.isEmpty || !digits.all (Text.isDigit 10) then none else some digits
  else none

end AnnotationExpr.Marker
