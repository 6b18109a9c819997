import AnnotationExpr.Program

/-!
Supertypes. The hierarchy of a class type lists it and all its supertypes breadth first, with type
arguments put in place of type parameters on the way, and always holds the class of all objects. The walk
ends because it takes each class name at most once, out of the finitely many that the program mentions.
-/

namespace AnnotationExpr.Program

variable (p : Program)

/-- What the type parameters of the class stand for, if the type has as many arguments. -/
def bindingsOf (d : ClassType) : String → Option Ty :=
  match p.class? d.name with
  | some e => if e.typeParameters.length = d.arguments.length then bindings e.typeParameters d.arguments
    else fun _ => none
  | none => fun _ => none

/-- The superclass and the interfaces of a class type. Unknown classes, and known ones without a superclass
that are no interfaces, extend the class of all objects. -/
def supertypesOf (d : ClassType) : List ClassType :=
  match p.class? d.name with
  | none => if d.name = objectClass then [] else [.object]
  | some e =>
    let seen (t : Ty) : Option ClassType := (t.substitute (p.bindingsOf d)).class?
    let superclass := match e.superclass with
      | some t => (seen t).toList
      | none => if d.name ≠ objectClass ∧ !e.isInterface then [.object] else []
    superclass ++ e.interfaces.filterMap seen

/-- The class names that the types above the given one may have. -/
def reachableNames (d : ClassType) : List String :=
  d.toTy.classNames ++ (p.classes.flatMap fun e => (e.superclass.toList ++ e.interfaces).flatMap Ty.classNames) ++
    [objectClass]

def without (name : String) (names : List String) : List String := names.filter (· ≠ name)

omit p in
theorem length_without_lt {name : String} {names : List String} (h : name ∈ names) :
    (without name names).length < names.length := by
  refine Nat.lt_of_le_of_ne (List.length_filter_le ..) fun heq => ?_
  simpa using List.length_filter_eq_length_iff.1 heq _ h

omit p in
theorem mem_of_dropWhile {remaining : List String} {queue rest : List ClassType} {d : ClassType}
    (h : queue.dropWhile (fun d => d.name ∉ remaining) = d :: rest) : d.name ∈ remaining := by
  have := List.head?_dropWhile_not (fun d : ClassType => decide (d.name ∉ remaining)) queue
  rw [h] at this
  simpa using this

/-- Takes the first type from the queue whose name remains, and puts its supertypes at the end. -/
def walk (remaining : List String) (queue : List ClassType) : List ClassType :=
  match h : queue.dropWhile fun d => d.name ∉ remaining with
  | [] => []
  | d :: rest =>
    have : (without d.name remaining).length < remaining.length :=
      length_without_lt (mem_of_dropWhile h)
    d :: walk (without d.name remaining) (rest ++ p.supertypesOf d)
termination_by remaining.length

def hierarchy (d : ClassType) : List ClassType :=
  let order := p.walk (p.reachableNames d) [d]
  if order.any (·.name = objectClass) then order else order ++ [.object]

/-- Subtyping, where type arguments are not compared and every type may stand for a type variable. -/
def isSubtype (sub sup : Ty) : Bool :=
  sub = sup || match sub, sup with
    | .primitive a, .primitive b => a.widensTo b
    | .primitive _, _ => false
    | _, .primitive _ => false
    | .null, _ => true
    | _, .var _ => true
    | .declared m as, .declared n _ => n = objectClass || (p.hierarchy ⟨m, as⟩).any (·.name = n)
    | .array _, .declared n _ => n = objectClass || n = cloneableClass || n = serializableClass
    | _, .declared n _ => n = objectClass
    | .array (.primitive _), .array _ => false
    | .array _, .array (.primitive _) => false
    | .array a, .array b => isSubtype a b
    | _, _ => false

/-- Subtyping that also lets values be boxed and unboxed. -/
def isAssignable (actual formal : Ty) : Bool :=
  p.isSubtype actual formal ||
    match actual.boxed? with
    | some boxed => p.isSubtype boxed formal
    | none => match actual.unboxed?, formal.primitive? with
      | some a, some b => a.widensTo b
      | _, _ => false

/-- A field of the type or of one above it, with its type as seen from there. -/
def inheritedField? (d : ClassType) (name : String) : Option Field :=
  (p.hierarchy d).findSome? fun t =>
    (p.class? t.name).bind fun e =>
      (e.field? name).map fun f => { f with type := f.type.substitute (p.bindingsOf t) }

/-- The return type of a method as seen from a receiver of the given type. -/
def returnTypeFor (m : Method) (receiver : Ty) : Ty :=
  match receiver.class?, m.owner.class? with
  | some r, some owner =>
    match (p.hierarchy r).find? (·.name = owner.name) with
    | some t => m.returns.substitute (p.bindingsOf t)
    | none => m.returns
  | _, _ => m.returns

/-- A member class of the class or of one above it. -/
def memberClass? (className name : String) : Option ClassEntry :=
  (p.class? className).bind fun e =>
    (p.hierarchy e.selfClass).findSome? fun t => p.class? (t.name ++ "." ++ name)

end AnnotationExpr.Program
