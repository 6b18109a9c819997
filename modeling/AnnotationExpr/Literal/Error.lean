/-! Why a literal that looks well formed has no value. -/

namespace AnnotationExpr

inductive Literal.Error where
  | intTooLarge
  | longTooLarge
  | notReal
  | notOneCharacter
  | danglingEscape
  | unknownEscape (c : Char)
  | badCodePoint (digits : List Char)
deriving DecidableEq, Repr

def Literal.Error.text : Literal.Error → String
  | intTooLarge => "integer number too large"
  | longTooLarge => "long number too large"
  | notReal => "invalid float literal"
  | notOneCharacter => "a character literal must hold exactly one character"
  | danglingEscape => "dangling `\\` at the end of the literal"
  | unknownEscape c => "invalid escape sequence `\\" ++ String.ofList [c] ++ "`"
  | badCodePoint digits => "invalid unicode escape `\\u" ++ String.ofList digits ++ "`"

end AnnotationExpr
