import AnnotationExpr.Program.Loading
import AnnotationExpr.Program.Service
import AnnotationExpr.Resolution

/-!
The commands: `params` shows the markers of an expression, `resolve` what an expression refers to at a place
in a program. Both give the text that they print, or why they fail.
-/

namespace AnnotationExpr

/-- An expression and the place in a program that it stands at. -/
structure Request where
  expression : String
  className : String
  method : Option String
  localScope : Bool
deriving DecidableEq, Repr

inductive CommandError where
  | program (e : ProgramError)
  | resolution (e : ResolveError)
deriving DecidableEq, Repr

def CommandError.message : CommandError → String
  | program e => e.message
  | resolution e => e.message

namespace Command

def showParameters (expression : String) : String :=
  let p := Marker.prepare expression
  p.text ++ "\nparameters: [" ++ ", ".intercalate (p.indices.map toString) ++ "]\n"

def showReferent (r : Referent) : String :=
  r.text ++ "\nkind: " ++ r.kindName ++ "\n" ++
    match r.type? with
    | some t => "type: " ++ t.text ++ "\n"
    | none => ""

/-- The program that a document describes; `path` is where the document is from. -/
def program (path : String) (document : Option Document) : Except ProgramError Program :=
  match document.bind Description.ofDocument? with
  | some d => Program.load d
  | none => .error (.malformed path)

def referent (p : Program) (r : Request) : Except CommandError Referent :=
  match p.enter r.className r.method with
  | (_, .error e) => .error (.program e)
  | (p', .ok (context, scope)) =>
    ((p'.lookupFrom scope).refer context r.localScope r.expression).mapError .resolution

def resolve (path : String) (document : Option Document) (r : Request) : Except CommandError String :=
  match program path document with
  | .error e => .error (.program e)
  | .ok p => showReferent <$> referent p r

end Command
end AnnotationExpr
