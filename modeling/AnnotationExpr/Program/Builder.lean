import AnnotationExpr.Program.Declaration

/-!
Declaring a class part by part. The parts may come in any order; a member belongs to the class with the type
parameters it has when the member is added. An outline is the declaration of its parts in one fixed order.
-/

namespace AnnotationExpr

inductive ClassPart where
  | typeParameters (names : List String)
  | interface
  | superclass (type : Ty)
  | implemented (type : Ty)
  | field (f : FieldOutline)
  | method (m : MethodOutline)
deriving DecidableEq, Repr

/-- A class that is not in the program yet, and the last number given to a variable. -/
structure ClassDraft where
  entry : ClassEntry
  lastId : Nat
deriving DecidableEq, Repr

def ClassDraft.add (d : ClassDraft) : ClassPart → ClassDraft
  | .typeParameters names => { d with entry := { d.entry with typeParameters := names } }
  | .interface => { d with entry := { d.entry with isInterface := true } }
  | .superclass type => { d with entry := { d.entry with superclass := some type } }
  | .implemented type => { d with entry := { d.entry with interfaces := d.entry.interfaces ++ [type] } }
  | .field f =>
    let f : Field := ⟨f.name, f.type, d.entry.selfType, f.isStatic, f.isFinal⟩
    { d with entry := { d.entry with fields := d.entry.fields ++ [f] } }
  | .method m =>
    { entry := { d.entry with methods := d.entry.methods ++ [m.declare d.entry.selfType d.lastId] }
      lastId := d.lastId + m.parameters.length }

def ClassOutline.parts (o : ClassOutline) : List ClassPart :=
  .typeParameters o.typeParameters :: ((if o.isInterface then [.interface] else []) ++
    o.superclass.toList.map .superclass ++ o.interfaces.map .implemented ++ o.fields.map .field ++
    o.methods.map .method)

namespace Program

def draft (p : Program) (package : String) (enclosing : Option String) (name : String) : ClassDraft :=
  ⟨⟨p.packageIn enclosing package, enclosing, name, false, [], none, [], [], []⟩, p.lastId⟩

def register (p : Program) (d : ClassDraft) : Program :=
  { p with
    classes := d.entry :: p.classes
    packages := p.packages ++ packagesOf d.entry.package
    lastId := d.lastId }

def build (p : Program) (package : String) (enclosing : Option String) (name : String)
    (parts : List ClassPart) : Program :=
  p.register (parts.foldl ClassDraft.add (p.draft package enclosing name))

end Program

theorem ClassDraft.foldl_implemented (d : ClassDraft) (types : List Ty) :
    (types.map .implemented).foldl add d =
      { d with entry := { d.entry with interfaces := d.entry.interfaces ++ types } } := by
  induction types generalizing d with
  | nil => simp
  | cons t ts ih => simp [ih, add]

theorem ClassDraft.foldl_field (d : ClassDraft) (fs : List FieldOutline) :
    (fs.map .field).foldl add d =
      { d with entry := { d.entry with
          fields := d.entry.fields ++ fs.map fun f => ⟨f.name, f.type, d.entry.selfType, f.isStatic, f.isFinal⟩ } } := by
  induction fs generalizing d with
  | nil => simp
  | cons f fs ih =>
    simp only [List.map_cons, List.foldl_cons, ih, add, List.append_assoc, List.singleton_append]
    rfl

theorem ClassDraft.foldl_method (d : ClassDraft) (ms : List MethodOutline) :
    (ms.map .method).foldl add d =
      { entry := { d.entry with
          methods := d.entry.methods ++ MethodOutline.declareAll d.entry.selfType d.lastId ms }
        lastId := d.lastId + MethodOutline.idCount ms } := by
  induction ms generalizing d with
  | nil => simp [MethodOutline.declareAll, MethodOutline.idCount]
  | cons m ms ih =>
    simp only [List.map_cons, List.foldl_cons, ih, add, List.append_assoc, List.singleton_append,
      MethodOutline.declareAll, MethodOutline.idCount, Nat.add_assoc]
    rfl

theorem Program.declare_eq_build (p : Program) (o : ClassOutline) :
    p.declare o = p.build o.package o.enclosing o.name o.parts := by
  have hstart : (o.superclass.toList.map ClassPart.superclass).foldl ClassDraft.add
      ((if o.isInterface then [ClassPart.interface] else []).foldl ClassDraft.add
        ((p.draft o.package o.enclosing o.name).add (.typeParameters o.typeParameters))) =
      ⟨⟨p.packageOf o, o.enclosing, o.name, o.isInterface, o.typeParameters, o.superclass, [], [], []⟩,
        p.lastId⟩ := by
    cases o.superclass <;> cases o.isInterface <;> rfl
  simp only [build, ClassOutline.parts, List.foldl_cons, List.foldl_append, hstart,
    ClassDraft.foldl_implemented, ClassDraft.foldl_field, ClassDraft.foldl_method, List.nil_append]
  rfl

end AnnotationExpr
