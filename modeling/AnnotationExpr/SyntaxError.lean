import AnnotationExpr.Literal.Error
import AnnotationExpr.Token

/-! Why a text is no expression, where it shows, and how that is worded. -/

namespace AnnotationExpr

/-- What may stand next where something else was found. -/
inductive Wanted where
  | token (kind : Token.Kind)
  | member
  | expression
deriving DecidableEq, Repr

def Wanted.describe : Wanted → String
  | .token kind => kind.describe
  | .member => "a member name after `.`"
  | .expression => "an expression"

inductive SyntaxError where
  | unrecognized (lexeme : List Char) (span : Span)
  | unexpected (wanted : Wanted) (found : Token.Kind) (span : Span)
  | missing (wanted : Wanted) (span : Span)
  | trailing (found : Token.Kind) (span : Span)
  | notTypeName (text : String) (span : Span)
  | invalidLiteral (lexeme : List Char) (reason : Literal.Error) (span : Span)
deriving DecidableEq, Repr

namespace SyntaxError

def span : SyntaxError → Span
  | unrecognized _ s | unexpected _ _ s | missing _ s | trailing _ s | notTypeName _ s
  | invalidLiteral _ _ s => s

def message : SyntaxError → String
  | unrecognized lexeme _ => "Lexer error: Unrecognized token: '" ++ String.ofList lexeme ++ "'"
  | unexpected wanted found _ =>
    "Parse error: Expected " ++ wanted.describe ++ ", found " ++ found.describe
  | missing wanted _ => "Unexpected end of input: expected " ++ wanted.describe
  | trailing found _ =>
    "Parse error: Unexpected " ++ found.describe ++ " after the end of the expression"
  | notTypeName text _ =>
    "Parse error: `" ++ text ++ "` is not a type name and cannot precede `.class`"
  | invalidLiteral lexeme reason _ =>
    "Invalid literal `" ++ String.ofList lexeme ++ "`: " ++ reason.text

end SyntaxError
end AnnotationExpr
