import AnnotationExpr.Context
import AnnotationExpr.Description
import AnnotationExpr.Program.Builtin
import AnnotationExpr.Program.Scopes
import AnnotationExpr.ProgramError
import AnnotationExpr.Ty.Reading

/-!
Programs from their descriptions, and the context and scope of an expression that is written on a class or
a method. The first fault is reported: in a class its types come first, in the order superclass, interfaces,
fields, methods, and then the class around it.
-/

namespace AnnotationExpr

namespace ClassDescription

variable (c : ClassDescription)

def type (text : String) : Except ProgramError Ty :=
  match Ty.ofText? c.typeParameters text with
  | some t => .ok t
  | none => .error (.invalidType text c.qualifiedName)

def optionalType : Option String → Except ProgramError (Option Ty)
  | some text => some <$> c.type text
  | none => .ok none

def field (f : FieldDescription) : Except ProgramError FieldOutline :=
  return ⟨f.name, ← c.type f.type, f.isStatic, f.isFinal⟩

def parameter (q : String × String) : Except ProgramError (String × Ty) :=
  return (q.1, ← c.type q.2)

def method (m : MethodDescription) : Except ProgramError MethodOutline :=
  return .method m.name (← m.parameters.mapM c.parameter) (← c.type m.returns) m.isStatic m.isVariadic

def outline : Except ProgramError ClassOutline := do
  let superclass ← c.optionalType c.superclass
  let interfaces ← c.interfaces.mapM c.type
  let fields ← c.fields.mapM c.field
  let methods ← c.methods.mapM c.method
  return ⟨c.package, c.enclosing, c.name, c.isInterface, c.typeParameters, superclass, interfaces, fields,
    methods⟩

end ClassDescription

namespace Program

def addClass (p : Program) (c : ClassDescription) : Except ProgramError Program := do
  let outline ← c.outline
  match c.enclosing with
  | some outer =>
    if (p.class? outer).isNone then .error (.unknownEnclosing c.qualifiedName outer)
    else return p.declare outline
  | none => return p.declare outline

def load (d : Description) : Except ProgramError Program :=
  d.classes.foldlM addClass { initial with imports := d.imports }

/-- The scopes of a class and of the classes around it, the outermost one first. -/
def pushClasses (p : Program) (names : List String) : Program × Nat :=
  names.foldr (fun name (p, scope) => p.pushClass scope name) (p, rootScope)

/-- The context and scope of an expression on a class, or on the first method of it with a name. The scopes
of the classes stay even where there is no such method. -/
def enter (p : Program) (className : String) (method : Option String) :
    Program × Except ProgramError (Context × Nat) :=
  match p.class? className with
  | none => (p, .error (.unknownClass className))
  | some e =>
    let (p', scope) := p.pushClasses (className :: p.outerNames className)
    match method with
    | none => (p', .ok (.classDeclaration e.selfType, scope))
    | some name =>
      match e.method? name with
      | none => (p', .error (.unknownMethod className name))
      | some m =>
        let (p'', inner) := p'.pushMethod scope m
        (p'', .ok (.methodDeclaration m e.selfType, inner))

end Program
end AnnotationExpr
