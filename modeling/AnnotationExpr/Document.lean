/-! Structured documents: values, lists of them, and objects with named members. -/

namespace AnnotationExpr

inductive Document where
  | null
  | boolean (b : Bool)
  | number (text : String)
  | string (s : String)
  | list (items : List Document)
  | object (members : List (String × Document))
deriving Repr, Inhabited

namespace Document

def string? : Document → Option String
  | string s => some s
  | _ => none

def boolean? : Document → Option Bool
  | boolean b => some b
  | _ => none

def list? : Document → Option (List Document)
  | list items => some items
  | _ => none

/-- The member of an object; the last one counts where a name is given twice. -/
def member? (name : String) : Document → Option Document
  | object members => members.reverse.lookup name
  | _ => none

def isObject : Document → Bool
  | object _ => true
  | _ => false

variable {α : Type}

/-- A member that has to be there. -/
def required (name : String) (read : Document → Option α) (d : Document) : Option α :=
  (d.member? name).bind read

/-- A member that may be absent, but has to be well formed otherwise. -/
def optional (name : String) (read : Document → Option α) (d : Document) : Option (Option α) :=
  match d.member? name with
  | some m => (read m).map some
  | none => some none

def withDefault (name : String) (read : Document → Option α) (fallback : α) (d : Document) : Option α :=
  (optional name read d).map (·.getD fallback)

def listOf (read : Document → Option α) (d : Document) : Option (List α) := d.list?.bind (·.mapM read)

end Document
end AnnotationExpr
