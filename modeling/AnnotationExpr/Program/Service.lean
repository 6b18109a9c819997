import AnnotationExpr.Program.Overload
import AnnotationExpr.Program.Scopes

/-! A program as the service that resolution asks. -/

namespace AnnotationExpr.Program

variable (p : Program)

def findField? (name : String) : Ty → Option Field
  | .declared n as => p.inheritedField? ⟨n, as⟩ name
  | .array c => if name = "length" then some (.arrayLength (.array c)) else none
  | _ => none

def directSupertypes : Ty → List Ty
  | .declared n as => (p.supertypesOf ⟨n, as⟩).map ClassType.toTy
  | .array _ => [.object]
  | _ => []

def isInterface (d : ClassType) : Bool := (p.class? d.name).any (·.isInterface)

def lookupFrom (scope : Nat) : Lookup where
  bareName name := .ok (p.findVariable? scope name)
  field name type := .ok (p.findField? name type)
  classNamed name := .ok ((p.findClass? scope name).map (·.symbol))
  method name type actuals := p.findMethod name type actuals
  package name := .ok (p.package? name)
  classIn name package := .ok ((p.classInPackage? package name).map (·.symbol))
  supertypes := p.directSupertypes
  isInterface := p.isInterface
  enclosing d := (p.outerClasses d.name).map (·.selfClass)
  valueOf := p.valueOf?
  returnType := p.returnTypeFor
  methodParameters := p.methodParameters? scope
  methodOwner := p.methodOwner? scope

end AnnotationExpr.Program
