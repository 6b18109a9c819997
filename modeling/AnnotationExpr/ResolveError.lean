import AnnotationExpr.Ty

/-! Why an expression refers to nothing, and how that is worded. -/

namespace AnnotationExpr

/-- What is wrong with an expression. -/
inductive Reason where
  | notAnExpression
  /-- `inMember` when the member of another expression was read. -/
  | unrecognized (inMember : Bool)
  | classNameAtEnd
  | noSuperclass
  | notAnArray (array : String) (type : Option Ty)
  | indexZero
  | leadingZero
  | noParameters
  | notFound
  | fieldOfClassName
  | callOnClassName
  | noValueOf (formal : Ty)
  | notAMethod (name : String)
  | noMethod (name : String) (arguments : List Ty) (receiver : Ty)
  | notInPackage (name package : String)
  | notAClassName (text : String)
  /-- What a failed lookup said. -/
  | lookup (message : String)
deriving DecidableEq, Repr

def Reason.text : Reason → String
  | notAnExpression => "is an invalid expression"
  | unrecognized inMember =>
    "is an unrecognized expression" ++ if inMember then " in a context with parsingMember=true" else ""
  | classNameAtEnd => "a class name cannot terminate a flow expression string"
  | noSuperclass => "super class not found"
  | notAnArray array type => "receiver not an array: " ++ array ++ " : " ++ (type.getD .none).text
  | indexZero =>
    "one should use \"this\" for the receiver or \"#1\" for the first formal parameter"
  | leadingZero => "is not a valid parameter reference"
  | noParameters => "no parameter found"
  | notFound => "identifier not found"
  | fieldOfClassName => "a non-static field cannot have a class name as a receiver."
  | callOnClassName => "a non-static method call cannot have a class name as a receiver"
  | noValueOf formal => "no valueOf method for " ++ formal.text
  | notAMethod name => name ++ " resolves to a Constructor, not a method"
  | noMethod name arguments receiver =>
    "no method " ++ name ++ "(" ++ ", ".intercalate (arguments.map Ty.text) ++ ") found in " ++ receiver.text
  | notInPackage name package => "could not find class " ++ name ++ " inside " ++ package
  | notAClassName text => text ++ " is not a class name"
  | lookup message => message

inductive ResolveError where
  | invalid (expression : String) (reason : Reason)
  /-- A formal parameter was named where only its index may stand. -/
  | parameterName (name : String) (index : Nat)
  | indexTooBig (index count : Nat)
  /-- A lookup failed and did not say why. -/
  | silentLookup (expression : String)
deriving DecidableEq, Repr

namespace ResolveError

/-- What a silent failure tells in place of a reason. -/
def silence (expression : String) : String :=
  "no detail message in lookup failure while resolving '" ++ expression ++ "'"

def message : ResolveError → String
  | invalid expression reason => "Invalid '" ++ expression ++ "' because " ++ reason.text
  | parameterName name index =>
    "Invalid '" ++ name ++ "' because use \"#" ++ toString index ++ "\" rather than \"" ++ name ++ "\""
  | indexTooBig index count =>
    "Parameter index " ++ toString index ++ " is too big: only " ++ toString count ++ " parameter(s) available"
  | silentLookup expression => "Internal error: " ++ silence expression

def parseErrorKey : String := "flowexpr.parse.error"

/-- The key under which a catalogue of messages holds the message. -/
def key : ResolveError → String
  | invalid _ _ | parameterName _ _ => parseErrorKey
  | indexTooBig _ _ => "flowexpr.parse.index.too.big"
  | silentLookup _ => "flowexpr.internal.error"

/-- What is put into the catalogue's message. -/
def arguments : ResolveError → List String
  | indexTooBig index _ => [toString index]
  | silentLookup expression => [silence expression]
  | e => [e.message]

def isParseError (e : ResolveError) : Bool := e.key = parseErrorKey

/-- Whether the lookup is at fault and not the expression. -/
def isFatal : ResolveError → Bool
  | silentLookup _ => true
  | _ => false

def help? : ResolveError → Option String
  | parameterName _ _ => some "formal parameters are written positionally, starting at #1"
  | _ => none

end ResolveError
end AnnotationExpr
