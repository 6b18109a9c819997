/-!
Types of a program: the primitive types and the classes that box them, class types with arguments, arrays,
type variables. Type variables are replaced by `substitute`; `erasure` forgets arguments and variables.
-/

namespace AnnotationExpr

inductive Primitive where
  | boolean | byte | short | char | int | long | float | double
deriving DecidableEq, Repr

namespace Primitive

def all : List Primitive := [boolean, byte, short, char, int, long, float, double]

def name : Primitive → String
  | boolean => "boolean"
  | byte => "byte"
  | short => "short"
  | char => "char"
  | int => "int"
  | long => "long"
  | float => "float"
  | double => "double"

/-- Simple name of the class that boxes the type. -/
def boxName : Primitive → String
  | boolean => "Boolean"
  | byte => "Byte"
  | short => "Short"
  | char => "Character"
  | int => "Integer"
  | long => "Long"
  | float => "Float"
  | double => "Double"

def boxClass (p : Primitive) : String := "java.lang." ++ p.boxName

def ofName? (name : String) : Option Primitive := all.find? (·.name = name)

def ofBoxClass? (name : String) : Option Primitive := all.find? (·.boxClass = name)

/-- The types that a value widens to, apart from its own. -/
def wider : Primitive → List Primitive
  | byte => [short, int, long, float, double]
  | short | char => [int, long, float, double]
  | int => [long, float, double]
  | long => [float, double]
  | float => [double]
  | boolean | double => []

def widensTo (p q : Primitive) : Bool := p = q || p.wider.contains q

end Primitive

inductive Ty where
  | primitive (p : Primitive)
  /-- A class or interface by its qualified name; a dot also parts a member class from its outer class. -/
  | declared (name : String) (arguments : List Ty)
  | array (component : Ty)
  | var (name : String)
  /-- The type of `null`. -/
  | null
  | void
  /-- No type at all. -/
  | none
deriving Repr

/-- A class type on its own. -/
structure ClassType where
  name : String
  arguments : List Ty
deriving Repr

def objectClass : String := "java.lang.Object"
def stringClass : String := "java.lang.String"
def classClass : String := "java.lang.Class"
def cloneableClass : String := "java.lang.Cloneable"
def serializableClass : String := "java.io.Serializable"

namespace Ty

mutual

def same : Ty → Ty → Bool
  | primitive p, primitive q => p = q
  | declared m as, declared n bs => m = n && sameAll as bs
  | array a, array b => same a b
  | var m, var n => m = n
  | null, null => true
  | void, void => true
  | none, none => true
  | _, _ => false

def sameAll : List Ty → List Ty → Bool
  | [], [] => true
  | a :: as, b :: bs => same a b && sameAll as bs
  | _, _ => false

end

mutual

theorem same_iff (a b : Ty) : same a b = true ↔ a = b := by
  cases a <;> cases b <;> simp [same]
  case declared.declared m as n bs => intro _; exact sameAll_iff as bs
  case array.array a b => exact same_iff a b

theorem sameAll_iff (as bs : List Ty) : sameAll as bs = true ↔ as = bs := by
  cases as <;> cases bs <;> simp [sameAll]
  case cons.cons a as b bs => rw [same_iff a b, sameAll_iff as bs]

end

instance : DecidableEq Ty := fun a b => decidable_of_iff _ (same_iff a b)

end Ty

deriving instance DecidableEq for ClassType

def ClassType.toTy (d : ClassType) : Ty := .declared d.name d.arguments

def ClassType.object : ClassType := ⟨objectClass, []⟩

namespace Ty

def int : Ty := primitive .int
def object : Ty := declared objectClass []
def string : Ty := declared stringClass []

mutual

def text : Ty → String
  | primitive p => p.name
  | declared name arguments =>
    if arguments.isEmpty then name else name ++ "<" ++ ", ".intercalate (texts arguments) ++ ">"
  | array component => component.text ++ "[]"
  | var name => name
  | null => "null"
  | void => "void"
  | none => "none"

def texts : List Ty → List String
  | [] => []
  | t :: ts => t.text :: texts ts

end

def isArray : Ty → Bool
  | array _ => true
  | _ => false

def component? : Ty → Option Ty
  | array component => some component
  | _ => Option.none

def class? : Ty → Option ClassType
  | declared name arguments => some ⟨name, arguments⟩
  | _ => Option.none

def primitive? : Ty → Option Primitive
  | primitive p => some p
  | _ => Option.none

/-- The primitive type that this class boxes. -/
def unboxed? (t : Ty) : Option Primitive := t.class?.bind fun d => Primitive.ofBoxClass? d.name

/-- The class that boxes this primitive type. -/
def boxed? (t : Ty) : Option Ty := t.primitive?.map fun p => declared p.boxClass []

def erasure : Ty → Ty
  | declared name _ => declared name []
  | array component => array component.erasure
  | var _ => object
  | t => t

mutual

/-- Puts the given types in place of type variables; a variable without one stays. -/
def substitute (s : String → Option Ty) : Ty → Ty
  | var name => (s name).getD (var name)
  | declared name arguments => declared name (substituteAll s arguments)
  | array component => array (component.substitute s)
  | primitive p => primitive p
  | null => null
  | void => void
  | none => none

def substituteAll (s : String → Option Ty) : List Ty → List Ty
  | [] => []
  | t :: ts => t.substitute s :: substituteAll s ts

end

mutual

/-- The classes named anywhere in a type. -/
def classNames : Ty → List String
  | declared name arguments => name :: classNamesAll arguments
  | array component => component.classNames
  | _ => []

def classNamesAll : List Ty → List String
  | [] => []
  | t :: ts => t.classNames ++ classNamesAll ts

end

end Ty

/-- What each name is bound to; of several bindings of one name the last counts. -/
def bindings (names : List String) (types : List Ty) : String → Option Ty :=
  fun name => (names.zip types).reverse.lookup name

end AnnotationExpr
