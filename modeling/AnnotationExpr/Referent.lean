import AnnotationExpr.Literal
import AnnotationExpr.Symbol

/-! What expressions refer to. -/

namespace AnnotationExpr

def Value.type : Value → Ty
  | null => .null
  | int _ => .int
  | long _ => .primitive .long
  | double _ => .primitive .double
  | char _ => .primitive .char
  | string _ => .string

inductive Referent where
  | value (v : Value)
  /-- The object at hand; its type is not known where nothing encloses the expression. -/
  | this (type : Option Ty)
  /-- A class, for its static members or as a class literal. -/
  | className (type : Ty)
  | var (v : Variable)
  | field (receiver : Referent) (type : Ty) (field : Field)
  | element (type : Ty) (array index : Referent)
  | call (type : Ty) (method : Method) (receiver : Referent) (arguments : List Referent)
  /-- An object that no expression denotes, such as a new one. -/
  | unknown (type : Ty)
deriving Repr

namespace Referent

def type? : Referent → Option Ty
  | value v => some v.type
  | this type => type
  | className type | field _ type _ | element type _ _ | call type _ _ _ | unknown type => some type
  | var v => some v.type

mutual

/-- Whether an unknown object occurs anywhere in it. -/
def hasUnknown : Referent → Bool
  | unknown _ => true
  | field receiver _ _ => receiver.hasUnknown
  | element _ array index => array.hasUnknown || index.hasUnknown
  | call _ _ receiver arguments => receiver.hasUnknown || anyUnknown arguments
  | value _ | this _ | className _ | var _ => false

def anyUnknown : List Referent → Bool
  | [] => false
  | r :: rs => r.hasUnknown || anyUnknown rs

end

def isClassName : Referent → Bool
  | className _ => true
  | _ => false

def isThis : Referent → Bool
  | this _ => true
  | _ => false

def kindName : Referent → String
  | value _ => "ValueLiteral"
  | this _ => "ThisReference"
  | className _ => "ClassName"
  | var _ => "LocalVariable"
  | field _ _ _ => "FieldAccess"
  | element _ _ _ => "ArrayAccess"
  | call _ _ _ _ => "MethodCall"
  | unknown _ => "Unknown"

mutual

def text : Referent → String
  | value v => v.text
  | this _ => "this"
  | className type => type.text
  | var v => v.name
  | field receiver _ f => receiver.text ++ "." ++ f.name
  | element _ array index => array.text ++ "[" ++ index.text ++ "]"
  | call _ m receiver arguments =>
    receiver.text ++ "." ++ m.name ++ "(" ++ ", ".intercalate (texts arguments) ++ ")"
  | unknown type => "?" ++ type.text

def texts : List Referent → List String
  | [] => []
  | r :: rs => r.text :: texts rs

end

/-- The receiver of a member that is named without one: the class for a static member, else `this`. -/
def implicit (owner : Ty) (isStatic : Bool) : Referent :=
  if isStatic then className owner else this (some owner)

end Referent
end AnnotationExpr
