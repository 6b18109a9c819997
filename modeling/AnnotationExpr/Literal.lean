import AnnotationExpr.Decimal.Layout
import AnnotationExpr.Text.Quoted

/-! Literals and how they are written. All but the two truth values denote a value that an expression may refer to. -/

namespace AnnotationExpr

inductive Value where
  | null
  | int (n : Int32)
  | long (n : Int64)
  | double (x : Float)
  | char (c : Char)
  | string (s : String)
deriving Repr

def Value.text : Value → String
  | null => "null"
  | int n => toString n.toInt
  | long n => toString n.toInt ++ "L"
  | double x => Decimal.text x
  | char c => Text.quoteChar c
  | string s => Text.quoteString s

inductive Literal where
  | boolean (b : Bool)
  | value (v : Value)
deriving Repr

def Literal.text : Literal → String
  | boolean b => if b then "true" else "false"
  | value v => v.text

end AnnotationExpr
