import AnnotationExpr.Text.Dotted
import AnnotationExpr.Ty

/-! What names in a program stand for: variables, fields, methods and classes. -/

namespace AnnotationExpr

inductive Variable.Kind where
  | localVariable | parameter | exceptionParameter | resource
deriving DecidableEq, Repr

/-- A local variable or a formal parameter; `id` tells apart declarations of one name. -/
structure Variable where
  name : String
  type : Ty
  kind : Variable.Kind
  id : Nat
deriving DecidableEq, Repr

structure Field where
  name : String
  type : Ty
  /-- The declaring class, or the array type whose length this is. -/
  owner : Ty
  isStatic : Bool
  isFinal : Bool
deriving DecidableEq, Repr

/-- The length that every array has. -/
def Field.arrayLength (array : Ty) : Field := ⟨"length", .int, array, false, true⟩

inductive Method.Kind where
  | method | constructor
deriving DecidableEq, Repr

structure Method where
  name : String
  owner : Ty
  parameters : List Variable
  returns : Ty
  isStatic : Bool
  isVariadic : Bool
  kind : Method.Kind
deriving DecidableEq, Repr

def Method.isMethod (m : Method) : Bool := m.kind = .method

def Method.parameterTypes (m : Method) : List Ty := m.parameters.map Variable.type

def Method.parameterNames (m : Method) : List String := m.parameters.map Variable.name

structure ClassSymbol where
  /-- The type of `this` in the class: its type parameters are its arguments. -/
  type : ClassType
  isInterface : Bool
deriving DecidableEq, Repr

namespace ClassSymbol

def of (name : String) (parameters : List String) (isInterface : Bool) : ClassSymbol :=
  ⟨⟨name, parameters.map .var⟩, isInterface⟩

def qualifiedName (c : ClassSymbol) : String := c.type.name

def simpleName (c : ClassSymbol) : String := Text.lastSegment c.type.name

def selfType (c : ClassSymbol) : Ty := c.type.toTy

end ClassSymbol

/-- What a bare name stands for in the text around it. -/
inductive Named where
  | var (v : Variable)
  | field (f : Field)
deriving DecidableEq, Repr

def Named.name : Named → String
  | var v => v.name
  | field f => f.name

def Named.type : Named → Ty
  | var v => v.type
  | field f => f.type

end AnnotationExpr
