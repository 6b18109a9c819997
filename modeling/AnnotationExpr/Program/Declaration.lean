import AnnotationExpr.Program

/-!
Declaring classes. An outline holds what is written in a class; declaring it gives its members their owner
and numbers the parameters of its methods in the order in which they are written.
-/

namespace AnnotationExpr

structure FieldOutline where
  name : String
  type : Ty
  isStatic : Bool
  isFinal : Bool
deriving DecidableEq, Repr

inductive MethodOutline where
  | method (name : String) (parameters : List (String × Ty)) (returns : Ty) (isStatic isVariadic : Bool)
  | constructor (parameters : List (String × Ty))
deriving DecidableEq, Repr

def MethodOutline.parameters : MethodOutline → List (String × Ty)
  | method _ parameters _ _ _ | constructor parameters => parameters

structure ClassOutline where
  /-- The package of a member class is that of the class around it. -/
  package : String
  enclosing : Option String
  name : String
  isInterface : Bool
  typeParameters : List String
  superclass : Option Ty
  interfaces : List Ty
  fields : List FieldOutline
  methods : List MethodOutline
deriving DecidableEq, Repr

def constructorName : String := "<init>"

/-- Parameters numbered from the number after `last`. -/
def numbered (last : Nat) : List (String × Ty) → List Variable
  | [] => []
  | (name, type) :: rest => ⟨name, type, .parameter, last + 1⟩ :: numbered (last + 1) rest

namespace MethodOutline

def declare (owner : Ty) (last : Nat) : MethodOutline → Method
  | method name parameters returns isStatic isVariadic =>
    ⟨name, owner, numbered last parameters, returns, isStatic, isVariadic, .method⟩
  | constructor parameters =>
    ⟨constructorName, owner, numbered last parameters, .void, false, false, .constructor⟩

def declareAll (owner : Ty) (last : Nat) : List MethodOutline → List Method
  | [] => []
  | m :: ms => m.declare owner last :: declareAll owner (last + m.parameters.length) ms

/-- How many numbers the parameters of some methods take. -/
def idCount : List MethodOutline → Nat
  | [] => 0
  | m :: ms => m.parameters.length + idCount ms

end MethodOutline

/-- A package and the packages around it, the outermost first. Empty segments are left out. -/
def packagesOf (package : String) : List String :=
  ((Text.segments package).filter (!·.isEmpty)).foldl
    (fun found segment => found ++ [Text.qualify (found.getLastD "") segment]) []

namespace Program

/-- The package of a class: that of the known class around it, or else the given one. -/
def packageIn (p : Program) (enclosing : Option String) (package : String) : String :=
  match enclosing with
  | some outer => ((p.class? outer).map (·.package)).getD ""
  | none => package

def packageOf (p : Program) (o : ClassOutline) : String := p.packageIn o.enclosing o.package

def entry (p : Program) (o : ClassOutline) : ClassEntry :=
  let bare : ClassEntry :=
    ⟨p.packageOf o, o.enclosing, o.name, o.isInterface, o.typeParameters, o.superclass, o.interfaces, [], []⟩
  { bare with
    fields := o.fields.map fun f => ⟨f.name, f.type, bare.selfType, f.isStatic, f.isFinal⟩
    methods := MethodOutline.declareAll bare.selfType p.lastId o.methods }

def declare (p : Program) (o : ClassOutline) : Program :=
  let e := p.entry o
  { p with
    classes := e :: p.classes
    packages := p.packages ++ packagesOf e.package
    lastId := p.lastId + MethodOutline.idCount o.methods }

end Program
end AnnotationExpr
