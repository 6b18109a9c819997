import AnnotationExpr.Referent
import AnnotationExpr.ResolveError

/-!
What `this` and the parameter markers mean while an expression is resolved. A member is resolved against
the expression before it; arguments and indices go back to the outer receiver.
-/

namespace AnnotationExpr

structure Context where
  receiver : Option Referent
  outer : Option Referent
  /-- What the markers refer to; nothing where no method encloses the expression. -/
  arguments : Option (List Referent)
  inMember : Bool
  localScope : Bool
deriving Repr

namespace Context

def new (receiver : Option Referent) (arguments : Option (List Referent)) : Context :=
  ⟨receiver, receiver, arguments, false, true⟩

/-- Inside the declaration of a method of the given class. -/
def methodDeclaration (m : Method) (enclosing : Ty) : Context :=
  new (some (.implicit enclosing m.isStatic)) (some (m.parameters.map .var))

/-- Inside a lambda body in the given class. -/
def lambda (parameters : List Variable) (enclosing : Ty) : Context :=
  new (some (.this (some enclosing))) (some (parameters.map .var))

/-- At the declaration of a class, which has no parameters. -/
def classDeclaration (type : Ty) : Context := new (some (.this (some type))) (some [])

/-- At a call with a receiver. -/
def methodUse (receiver : Referent) (arguments : List Referent) : Context :=
  new (some receiver) (some arguments)

/-- At a call without a receiver. -/
def implicitMethodUse (m : Method) (arguments : List Referent) : Context :=
  new (some (.implicit m.owner m.isStatic)) (some arguments)

/-- At the creation of an object. -/
def newObject (type : Ty) (arguments : List Referent) : Context :=
  new (some (.unknown type)) (some arguments)

def withLocalScope (c : Context) (localScope : Bool) : Context := { c with localScope }

/-- For what follows `receiver` and a point. -/
def memberOf (c : Context) (receiver : Referent) : Context :=
  { c with receiver := some receiver, inMember := true }

/-- For arguments and indices. -/
def toOuter (c : Context) : Context := { c with receiver := c.outer, inMember := false }

def receiverType? (c : Context) : Option Ty := c.receiver.bind Referent.type?

/-- The argument that the marker with this index stands for; the first has index one. -/
def argument (c : Context) (index : Nat) : Except ResolveError Referent :=
  if index = 0 then .error (.invalid "#0" .indexZero)
  else match c.arguments with
    | none => .error (.invalid ("#" ++ toString index) .noParameters)
    | some arguments => match arguments[index - 1]? with
      | some r => .ok r
      | none => .error (.indexTooBig index arguments.length)

end Context
end AnnotationExpr
