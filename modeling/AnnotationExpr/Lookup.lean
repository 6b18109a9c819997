import AnnotationExpr.Symbol

/-!
The service that knows the program, as seen from one place in it. Resolution decides which lookups to make
and in which order; visibility, inheritance and the choice among overloads are the service's. A lookup that
finds nothing answers `none`; one that fails says why, or is at fault itself.
-/

namespace AnnotationExpr

structure LookupFailure where
  message : Option String
deriving DecidableEq, Repr

def LookupFailure.text (f : LookupFailure) : String := f.message.getD "lookup failed"

abbrev Answer (α : Type) := Except LookupFailure (Option α)

/-- The factory of a boxing class, as every such class has it. -/
def Method.valueOf? (boxed : Ty) : Option Method :=
  boxed.unboxed?.map fun p =>
    ⟨"valueOf", boxed, [⟨"value", .primitive p, .parameter, 0⟩], boxed, true, false, .method⟩

structure Lookup where
  bareName : String → Answer Named
  field : String → Ty → Answer Field
  classNamed : String → Answer ClassSymbol
  method : String → Ty → List Ty → Answer Method
  /-- A package by its name; the answer is the name under which classes are looked up in it. -/
  package : String → Answer String
  classIn : String → String → Answer ClassSymbol
  supertypes : Ty → List Ty
  isInterface : ClassType → Bool
  /-- The classes around a class, innermost first. -/
  enclosing : ClassType → List ClassType
  /-- The factory by which a boxing class boxes a value. -/
  valueOf : Ty → Option Method := Method.valueOf?
  /-- The return type of a method for a receiver of the given type. -/
  returnType : Method → Ty → Ty := fun m _ => m.returns
  /-- Parameter names of the method around the place. -/
  methodParameters : Option (List String)
  /-- The class that declares this method. -/
  methodOwner : Option Ty := none

end AnnotationExpr
