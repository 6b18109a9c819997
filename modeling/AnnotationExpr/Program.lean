import AnnotationExpr.Symbol

/-!
Programs: their classes, their packages, the imports every class sees, and the scopes in which expressions
stand. The qualified name of a class is made of the names around it, so a class around another always has
the shorter name; the chain of classes around a class is finite for that reason.
-/

namespace AnnotationExpr

structure ClassEntry where
  package : String
  /-- Qualified name of the class around a member class. -/
  enclosing : Option String
  name : String
  isInterface : Bool
  typeParameters : List String
  /-- Superclass and interfaces in terms of the type parameters. -/
  superclass : Option Ty
  interfaces : List Ty
  fields : List Field
  methods : List Method
deriving DecidableEq, Repr

namespace ClassEntry

def qualifiedName (e : ClassEntry) : String :=
  match e.enclosing with
  | some outer => outer ++ "." ++ e.name
  | none => Text.qualify e.package e.name

def symbol (e : ClassEntry) : ClassSymbol := .of e.qualifiedName e.typeParameters e.isInterface

def selfClass (e : ClassEntry) : ClassType := e.symbol.type

def selfType (e : ClassEntry) : Ty := e.selfClass.toTy

theorem length_enclosing_lt {e : ClassEntry} {outer : String} (h : e.enclosing = some outer) :
    outer.length < e.qualifiedName.length := by
  simp only [qualifiedName, h, String.length_append]
  have : ".".length = 1 := rfl
  omega

def method? (e : ClassEntry) (name : String) : Option Method := e.methods.find? (·.name = name)

def field? (e : ClassEntry) (name : String) : Option Field := e.fields.find? (·.name = name)

end ClassEntry

inductive Scope.Kind where
  | root
  /-- The body of the class with this qualified name. -/
  | classBody (name : String)
  | method (name : String) (parameters : List String)
  | block
deriving DecidableEq, Repr

structure Scope where
  parent : Option Nat
  kind : Scope.Kind
  /-- The last declared first. -/
  declared : List Variable
deriving DecidableEq, Repr

def Scope.isMethod (s : Scope) : Bool :=
  match s.kind with
  | .method _ _ => true
  | _ => false

def Scope.variable? (s : Scope) (name : String) : Option Variable := s.declared.find? (·.name = name)

/-- Scopes are numbered by their place in the list, and so are their parents; the root comes first. -/
structure Program where
  /-- The last declared first, which replaces an earlier one of its name. -/
  classes : List ClassEntry
  packages : List String
  imports : List String
  scopes : List Scope
  /-- The last number given to a variable. -/
  lastId : Nat
deriving DecidableEq, Repr

namespace Program

def empty : Program := ⟨[], [], [], [⟨none, .root, []⟩], 0⟩

def rootScope : Nat := 0

def class? (p : Program) (name : String) : Option ClassEntry := p.classes.find? (·.qualifiedName = name)

theorem qualifiedName_of_class? {p : Program} {name : String} {e : ClassEntry} (h : p.class? name = some e) :
    e.qualifiedName = name := by
  simpa using List.find?_some h

def declaredMethod? (p : Program) (className name : String) : Option Method :=
  (p.class? className).bind (·.method? name)

def declaredField? (p : Program) (className name : String) : Option Field :=
  (p.class? className).bind (·.field? name)

/-- Passes over some numbers, so that no variable gets them. -/
def skipIds (p : Program) (n : Nat) : Program := { p with lastId := p.lastId + n }

def addImport (p : Program) (name : String) : Program := { p with imports := p.imports ++ [name] }

/-- Qualified names of the classes around a class, innermost first; the last may be unknown. -/
def outerNames (p : Program) (name : String) : List String :=
  match h : p.class? name with
  | none => []
  | some e =>
    match ho : e.enclosing with
    | none => []
    | some outer =>
      have : outer.length < name.length :=
        qualifiedName_of_class? h ▸ ClassEntry.length_enclosing_lt ho
      outer :: outerNames p outer
termination_by name.length

/-- The known classes around a class, innermost first. -/
def outerClasses (p : Program) (name : String) : List ClassEntry := (p.outerNames name).filterMap p.class?

/-- The class right around a class. -/
def enclosingClass? (p : Program) (d : ClassType) : Option ClassType :=
  ((p.class? d.name).bind (·.enclosing)).bind fun outer => (p.class? outer).map (·.selfClass)

end Program
end AnnotationExpr
