import AnnotationExpr.Literal
import AnnotationExpr.Span

/-!
Trees of expressions. Operators are kept although nothing refers to their values, so that a message can
quote the text they stand in; `Expr.text` writes a tree with one space around binary operators and after
commas.
-/

namespace AnnotationExpr

inductive UnaryOp where
  | neg | not
deriving DecidableEq, Repr

def UnaryOp.text : UnaryOp → String
  | neg => "-"
  | not => "!"

inductive BinaryOp where
  | or | and | eq | ne | lt | le | gt | ge | add | sub | mul | div | rem
deriving DecidableEq, Repr

def BinaryOp.text : BinaryOp → String
  | or => "||"
  | and => "&&"
  | eq => "=="
  | ne => "!="
  | lt => "<"
  | le => "<="
  | gt => ">"
  | ge => ">="
  | add => "+"
  | sub => "-"
  | mul => "*"
  | div => "/"
  | rem => "%"

/-- A greater number binds tighter. -/
def BinaryOp.precedence : BinaryOp → Nat
  | or => 1
  | and => 2
  | eq | ne => 3
  | lt | le | gt | ge => 4
  | add | sub => 5
  | mul | div | rem => 6

/-- The type in a class literal: a dotted name and a number of array dimensions. -/
structure TypeName where
  root : String
  members : List String
  dimensions : Nat
  span : Span
deriving DecidableEq, Repr

def TypeName.segments (t : TypeName) : List String := t.root :: t.members

def TypeName.text (t : TypeName) : String :=
  ".".intercalate t.segments ++ String.join (List.replicate t.dimensions "[]")

inductive Expr where
  | literal (span : Span) (value : Literal)
  | this (span : Span)
  | super (span : Span)
  | name (span : Span) (name : String)
  | enclosed (span : Span) (inner : Expr)
  | field (span : Span) (scope : Expr) (name : String)
  | element (span : Span) (array index : Expr)
  /-- A call without a scope. -/
  | call (span : Span) (name : String) (arguments : List Expr)
  | memberCall (span : Span) (scope : Expr) (name : String) (arguments : List Expr)
  | classLiteral (span : Span) (type : TypeName)
  | unary (span : Span) (op : UnaryOp) (operand : Expr)
  | binary (span : Span) (op : BinaryOp) (left right : Expr)
deriving Repr

namespace Expr

def span : Expr → Span
  | literal s _ | this s | super s | name s _ | enclosed s _ | field s _ _ | element s _ _
  | call s _ _ | memberCall s _ _ _ | classLiteral s _ | unary s _ _ | binary s _ _ _ => s

def argumentsText (arguments : List String) : String := "(" ++ ", ".intercalate arguments ++ ")"

mutual

def text : Expr → String
  | literal _ value => value.text
  | this _ => "this"
  | super _ => "super"
  | name _ n => n
  | enclosed _ inner => "(" ++ inner.text ++ ")"
  | field _ scope n => scope.text ++ "." ++ n
  | element _ array index => array.text ++ "[" ++ index.text ++ "]"
  | call _ n arguments => n ++ argumentsText (texts arguments)
  | memberCall _ scope n arguments => scope.text ++ "." ++ n ++ argumentsText (texts arguments)
  | classLiteral _ type => type.text ++ ".class"
  | unary _ op operand => op.text ++ operand.text
  | binary _ op left right => left.text ++ " " ++ op.text ++ " " ++ right.text

def texts : List Expr → List String
  | [] => []
  | e :: es => e.text :: texts es

end

/-- Root and members of a name, or of field accesses over a name; the members come outermost last. -/
def dotted? : Expr → Option (String × List String)
  | name _ n => some (n, [])
  | field _ scope n => scope.dotted?.map fun (root, members) => (root, members ++ [n])
  | _ => none

/-- The dotted text of such an expression. -/
def dottedText? (e : Expr) : Option String :=
  e.dotted?.map fun (root, members) => ".".intercalate (root :: members)

end Expr
end AnnotationExpr
