import AnnotationExpr.Command
import AnnotationExpr.Document.Reading

/-! The command line. -/

namespace AnnotationExpr.Main

/-- What the words after `resolve` ask for, as far as they are read. -/
structure Options where
  expression : Option String := none
  path : Option String := none
  className : Option String := none
  method : Option String := none
  localScope : Bool := true

/-- Options may stand in any order; after `--` no word is an option. -/
def Options.read (o : Options) : List String → Option Options
  | [] => some o
  | ["--", e] => if o.expression.isNone then some { o with expression := some e } else none
  | "--no-local-scope" :: ws => { o with localScope := false }.read ws
  | w :: ws =>
    if w.startsWith "-" then
      match ws with
      | [] => none
      | v :: ws =>
        if w = "-p" ∨ w = "--program" then { o with path := some v }.read ws
        else if w = "-c" ∨ w = "--class" then { o with className := some v }.read ws
        else if w = "-m" ∨ w = "--method" then { o with method := some v }.read ws
        else none
    else if o.expression.isNone then { o with expression := some w }.read ws
    else none

def usage : String :=
  "usage: params EXPR | resolve EXPR --program FILE --class NAME [--method NAME] [--no-local-scope]"

def fail (code : UInt32) (message : String) : IO UInt32 := do
  IO.eprintln message
  return code

def resolve (path : String) (r : Request) : IO UInt32 := do
  let contents ← (IO.FS.readFile path).toBaseIO
  match contents with
  | .error _ => fail 1 (ProgramError.unreadable path).message
  | .ok text =>
    match Command.resolve path (Document.ofJson? text) r with
    | .ok output => IO.print output; return 0
    | .error e => fail 1 e.message

def run : List String → IO UInt32
  | ["params", e] | ["params", "--", e] => do
    IO.print (Command.showParameters e)
    return 0
  | "resolve" :: ws =>
    match Options.read {} ws with
    | some ⟨some e, some path, some className, method, localScope⟩ =>
      resolve path ⟨e, className, method, localScope⟩
    | _ => fail 2 usage
  | _ => fail 2 usage

end AnnotationExpr.Main

def main (arguments : List String) : IO UInt32 := AnnotationExpr.Main.run arguments
