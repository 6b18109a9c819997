import AnnotationExpr.Span

/-! The words of an expression: kinds of tokens, and tokens with the characters and the place they were read from. -/

namespace AnnotationExpr

inductive Token.Kind where
  | this | super | null | true | false | «class»
  | andAnd | orOr | eqEq | notEq | ltEq | gtEq
  | plus | minus | star | slash | percent | bang | lt | gt
  | dot | comma | lparen | rparen | lbracket | rbracket
  | paramRef | ident
  | longLit | intLit | doubleLit | stringLit | charLit
deriving DecidableEq, Repr

namespace Token.Kind

/-- How messages call a token of this kind. -/
def describe : Token.Kind → String
  | this => "`this`"
  | super => "`super`"
  | null => "`null`"
  | true => "`true`"
  | false => "`false`"
  | «class» => "`class`"
  | andAnd => "`&&`"
  | orOr => "`||`"
  | eqEq => "`==`"
  | notEq => "`!=`"
  | ltEq => "`<=`"
  | gtEq => "`>=`"
  | plus => "`+`"
  | minus => "`-`"
  | star => "`*`"
  | slash => "`/`"
  | percent => "`%`"
  | bang => "`!`"
  | lt => "`<`"
  | gt => "`>`"
  | dot => "`.`"
  | comma => "`,`"
  | lparen => "`(`"
  | rparen => "`)`"
  | lbracket => "`[`"
  | rbracket => "`]`"
  | paramRef => "parameter reference"
  | ident => "identifier"
  | longLit => "long literal"
  | intLit => "integer literal"
  | doubleLit => "floating-point literal"
  | stringLit => "string literal"
  | charLit => "character literal"

/-- The kind of a word: a keyword, or else an identifier. -/
def ofWord (word : List Char) : Token.Kind :=
  if word = "this".toList then this
  else if word = "super".toList then super
  else if word = "null".toList then null
  else if word = "true".toList then true
  else if word = "false".toList then false
  else if word = "class".toList then «class»
  else ident

end Token.Kind

structure Token where
  kind : Token.Kind
  lexeme : List Char
  span : Span
deriving DecidableEq, Repr

end AnnotationExpr
