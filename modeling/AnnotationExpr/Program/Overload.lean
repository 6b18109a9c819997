import AnnotationExpr.Lookup
import AnnotationExpr.Program.Hierarchy

/-!
The choice among methods of one name. Candidates are the methods visible on a type, less those that another
candidate overrides. They are tried in three phases: by subtyping alone, then with boxing, then with a
variable number of arguments. In the first phase in which some apply, one has to be more specific than all.
-/

namespace AnnotationExpr.Program

/-- A method with the types of its parameters as seen from the receiver. -/
structure Candidate where
  method : Method
  formals : List Ty
deriving DecidableEq, Repr

def Candidate.erased (c : Candidate) : List Ty := c.formals.map Ty.erasure

/-- Keeps a candidate unless an earlier one has the same erased parameters. -/
def addCandidate (found : List Candidate) (c : Candidate) : List Candidate :=
  if found.any (·.erased = c.erased) then found else found ++ [c]

/-- The way an array is copied. -/
def cloneOf (array : Ty) : Method := ⟨"clone", array, [], array, false, false, .method⟩

variable (p : Program)

/-- The candidates that one class of a hierarchy declares. -/
def declaredCandidates (name : String) (d : ClassType) : List Candidate :=
  match p.class? d.name with
  | none => []
  | some e =>
    (e.methods.filter fun m => m.name = name && m.isMethod).map fun m =>
      ⟨m, m.parameterTypes.map (Ty.substitute (p.bindingsOf d))⟩

def candidatesIn (name : String) (start : List Candidate) (d : ClassType) : List Candidate :=
  ((p.hierarchy d).flatMap (p.declaredCandidates name)).foldl addCandidate start

/-- The candidates on a type. Arrays and type variables have the methods of all objects. -/
def candidates (type : Ty) (name : String) : List Candidate :=
  match type with
  | .declared n as => p.candidatesIn name [] ⟨n, as⟩
  | .array _ => p.candidatesIn name (if name = "clone" then [⟨cloneOf type, []⟩] else []) .object
  | .var _ => p.candidatesIn name [] .object
  | _ => []

inductive Phase where
  | strict | loose | variadic
deriving DecidableEq, Repr

def Phase.all : List Phase := [.strict, .loose, .variadic]

/-- Whether lists of the same length are related item by item. -/
def pairwise (related : Ty → Ty → Bool) : List Ty → List Ty → Bool
  | [], [] => true
  | a :: as, b :: bs => related a b && pairwise related as bs
  | _, _ => false

def applies (phase : Phase) (actuals : List Ty) (c : Candidate) : Bool :=
  match phase with
  | .strict => pairwise p.isSubtype actuals c.formals
  | .loose => pairwise p.isAssignable actuals c.formals
  | .variadic =>
    c.method.isVariadic &&
      match c.formals.getLast? with
      | some (.array component) =>
        let fixed := c.formals.dropLast
        decide (fixed.length ≤ actuals.length) && pairwise p.isAssignable (actuals.take fixed.length) fixed &&
          (actuals.drop fixed.length).all (p.isAssignable · component)
      | _ => false

def isMoreSpecific (c d : Candidate) : Bool := pairwise p.isSubtype c.formals d.formals

/-- Those that are more specific than all. -/
def mostSpecific (cs : List Candidate) : List Candidate := cs.filter fun c => cs.all (p.isMoreSpecific c)

def ambiguous (name : String) (count : Nat) : LookupFailure :=
  ⟨some ("reference to " ++ name ++ " is ambiguous: " ++ toString count ++ " candidates apply")⟩

/-- The choice in the first of the phases in which a candidate applies. -/
def choose (name : String) (actuals : List Ty) (cs : List Candidate) : List Phase → Answer Method
  | [] => .ok none
  | phase :: phases =>
    match cs.filter (p.applies phase actuals) with
    | [] => choose name actuals cs phases
    | applicable =>
      match p.mostSpecific applicable with
      | [c] => .ok (some c.method)
      | _ => .error (ambiguous name applicable.length)

def findMethod (name : String) (type : Ty) (actuals : List Ty) : Answer Method :=
  p.choose name actuals (p.candidates type name) Phase.all

/-- The static method by which a boxing class boxes exactly its primitive type. -/
def valueOf? (boxed : Ty) : Option Method := do
  let primitive ← boxed.unboxed?
  let e ← (boxed.class?).bind fun d => p.class? d.name
  e.methods.find? fun m => m.name = "valueOf" && m.isStatic && m.parameterTypes = [.primitive primitive]

end AnnotationExpr.Program
