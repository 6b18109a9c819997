import AnnotationExpr.Program.Hierarchy

/-!
Scopes, and what is looked up through them. A scope that does not exist has no parents and no names.
-/

namespace AnnotationExpr.Program

/-- A new scope inside another, and its number. -/
def push (p : Program) (parent : Nat) (kind : Scope.Kind) (declared : List Variable) : Program × Nat :=
  ({ p with scopes := p.scopes ++ [⟨some parent, kind, declared⟩] }, p.scopes.length)

def pushClass (p : Program) (parent : Nat) (name : String) : Program × Nat :=
  p.push parent (.classBody name) []

/-- The body of a method, in which its parameters are declared. -/
def pushMethod (p : Program) (parent : Nat) (m : Method) : Program × Nat :=
  p.push parent (.method m.name m.parameterNames) m.parameters.reverse

def pushBlock (p : Program) (parent : Nat) : Program × Nat := p.push parent .block []

def declareVariable (p : Program) (scope : Nat) (v : Variable) : Program :=
  { p with scopes := p.scopes.modify scope fun s => { s with declared := v :: s.declared } }

/-- A new local variable. It takes a number even where the scope does not exist. -/
def declareLocal (p : Program) (scope : Nat) (name : String) (type : Ty) : Program × Variable :=
  let v : Variable := ⟨name, type, .localVariable, p.lastId + 1⟩
  ((p.skipIds 1).declareVariable scope v, v)

variable (p : Program)

/-- At most `n` scopes from the given one outwards. -/
def chainUpTo : Nat → Nat → List Scope
  | 0, _ => []
  | n + 1, scope =>
    match p.scopes[scope]? with
    | none => []
    | some s => s :: match s.parent with
      | some parent => chainUpTo n parent
      | none => []

/-- The scopes from the given one outwards to the root. Where each scope was put into one that existed, the root comes
before the bound on their number is met. -/
def chain (scope : Nat) : List Scope := p.chainUpTo p.scopes.length scope

/-- The known class whose body a scope is. -/
def classOf? (s : Scope) : Option ClassEntry :=
  match s.kind with
  | .classBody name => p.class? name
  | _ => none

def scopeKind? (scope : Nat) : Option Scope.Kind := p.scopes[scope]?.map (·.kind)

/-- What a bare name means in a scope alone: a variable there, or a field of the class whose body it is. -/
def namedIn? (name : String) (s : Scope) : Option Named :=
  match s.variable? name with
  | some v => some (.var v)
  | none => (p.classOf? s).bind fun e => (p.inheritedField? e.selfClass name).map .field

def findVariable? (scope : Nat) (name : String) : Option Named := (p.chain scope).findSome? (p.namedIn? name)

/-- The package of the outermost known class around a place. -/
def packageAt (scope : Nat) : String :=
  (((p.chain scope).filterMap p.classOf?).getLast?.map (·.package)).getD ""

/-- A class that a scope alone brings in: a member of the class whose body it is, or that class. -/
def classIn? (name : String) (s : Scope) : Option ClassEntry :=
  match s.kind with
  | .classBody outer =>
    (p.memberClass? outer name).or ((p.class? outer).filter (·.symbol.simpleName = name))
  | _ => none

def importedClass? (name : String) : Option ClassEntry :=
  (p.imports.filter (Text.lastSegment · = name)).findSome? p.class?

/-- A class by a qualified name, or by a simple one as the place sees it: first the classes around it with
their members, then its package, the imports, the classes known everywhere, and those in no package. -/
def findClass? (scope : Nat) (name : String) : Option ClassEntry :=
  if name.contains '.' then p.class? name
  else
    ((p.chain scope).findSome? (p.classIn? name)).or <|
    (p.class? (Text.qualify (p.packageAt scope) name)).or <|
    (p.importedClass? name).or <|
    (p.class? ("java.lang." ++ name)).or <|
    p.class? name

/-- A class right in a package, not a member of another class. -/
def classInPackage? (package name : String) : Option ClassEntry :=
  (p.class? (package ++ "." ++ name)).filter (·.enclosing.isNone)

def package? (name : String) : Option String := p.packages.find? (· = name)

def methodParameters? (scope : Nat) : Option (List String) :=
  (p.chain scope).findSome? fun s =>
    match s.kind with
    | .method _ parameters => some parameters
    | _ => none

/-- The class that declares the method around a place. -/
def methodOwner? (scope : Nat) : Option Ty :=
  (((p.chain scope).dropWhile (!·.isMethod)).findSome? p.classOf?).map (·.selfType)

end AnnotationExpr.Program
