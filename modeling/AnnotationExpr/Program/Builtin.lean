import AnnotationExpr.Program.Declaration

/-! The classes that every program has: those of all objects, of classes, of strings, and those that box primitives. -/

namespace AnnotationExpr.Program

def builtinPackage : String := "java.lang"

def instanceMethod (name : String) (parameters : List (String × Ty)) (returns : Ty) : MethodOutline :=
  .method name parameters returns false false

def builtin (name : String) (typeParameters : List String) (methods : List MethodOutline) : ClassOutline :=
  ⟨builtinPackage, none, name, false, typeParameters, none, [], [], methods⟩

def boxOutline (b : Primitive) : ClassOutline :=
  builtin b.boxName [] [
    .method "valueOf" [("value", .primitive b)] (.declared b.boxClass []) true false,
    instanceMethod (b.name ++ "Value") [] (.primitive b)]

def builtins : List ClassOutline := [
  builtin "Object" [] [
    instanceMethod "toString" [] .string,
    instanceMethod "hashCode" [] .int,
    instanceMethod "equals" [("obj", .object)] (.primitive .boolean),
    instanceMethod "getClass" [] (.declared classClass [])],
  builtin "Class" ["T"] [],
  builtin "String" [] [
    instanceMethod "length" [] .int,
    instanceMethod "isEmpty" [] (.primitive .boolean),
    instanceMethod "charAt" [("index", .int)] (.primitive .char)]] ++
  Primitive.all.map boxOutline

/-- A program without classes of its own. -/
def initial : Program := builtins.foldl declare empty

end AnnotationExpr.Program
