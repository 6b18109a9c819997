import AnnotationExpr.Context
import AnnotationExpr.Expr.Parser
import AnnotationExpr.Lookup

/-!
Finding what an expression refers to. A bare name is a marker, then a local variable or a field in scope,
then a field of the receiver's type or of a class around it, then a class; a member is a field or a class of
the expression before the point, unless that expression names a package. Operators refer to nothing.
-/

namespace AnnotationExpr

def ResolveError.ofLookup (expression : String) (f : LookupFailure) : ResolveError :=
  match f.message with
  | some message => .invalid expression (.lookup message)
  | none => .silentLookup expression

namespace Lookup

/-- The answer to a lookup made for the given expression. -/
def asked {α : Type} (expression : String) : Answer α → Except ResolveError (Option α)
  | .ok a => .ok a
  | .error f => .error (.ofLookup expression f)

def unrecognized (c : Context) (e : Expr) : ResolveError := .invalid e.text (.unrecognized c.inMember)

def thisReferent (c : Context) : Referent :=
  match c.receiver with
  | some r => if r.hasUnknown then .this r.type? else r
  | none => .this none

variable (l : Lookup)

/-- The first of the supertypes that is a class and no interface. -/
def superclass? (type : Ty) : Option Ty :=
  (l.supertypes type).find? fun t => t.class?.any fun d => !l.isInterface d

def superReferent (c : Context) : Except ResolveError Referent :=
  match c.receiverType?.bind l.superclass? with
  | some t => .ok (.this (some t))
  | none => .error (.invalid "super" .noSuperclass)

/-- Indices from here on stand for this one; no argument list is as long. -/
def greatestIndex : Nat := Marker.indexBound - 1

def parameter (c : Context) (digits : List Char) : Except ResolveError Referent :=
  if 1 < digits.length ∧ digits.head? = some '0' then
    .error (.invalid (String.ofList ('#' :: digits)) .leadingZero)
  else c.argument (min (Text.value 10 digits) greatestIndex)

/-- Access to a field that was found by name. It belongs to the receiver of the context if it was found
there, and to the `this` of its own class if it was found in a class around that. -/
def access (c : Context) (name : String) (onReceiver : Bool) (f : Field) : Except ResolveError Referent :=
  if f.isStatic then .ok (.field (.className f.owner) f.type f)
  else
    let base := (if onReceiver then c.receiver else none).getD (.this (some f.owner))
    if base.isClassName then .error (.invalid name .fieldOfClassName)
    else .ok (.field base f.type f)

def firstField (name : String) : List ClassType → Except ResolveError (Option Field)
  | [] => .ok none
  | d :: ds => do
    match ← asked name (l.field name d.toTy) with
    | some f => return some f
    | none => firstField name ds

/-- A field of the type, or else of a class around it; the flag tells which. An array has only its length. -/
def findField (name : String) (type : Ty) : Except ResolveError (Option (Field × Bool)) :=
  match type with
  | .array _ =>
    if name = "length" then do
      let f ← asked name (l.field name type)
      return some (f.getD (.arrayLength type), true)
    else .ok none
  | .declared n as => do
    match ← asked name (l.field name type) with
    | some f => return some (f, true)
    | none => return (← l.firstField name (l.enclosing ⟨n, as⟩)).map (·, false)
  | _ => .ok none

/-- Position, from one on, of a parameter of the method around the place. -/
def parameterIndex? (name : String) : Option Nat :=
  l.methodParameters.bind fun ps => (ps.findIdx? (· = name)).map (· + 1)

/-- Whether the expression stands on the method around the place and not on a call of it. -/
def onOwnMethod (c : Context) : Bool :=
  match c.outer, l.methodOwner with
  | some (.this (some t)), some owner => t.erasure = owner.erasure
  | _, _ => false

/-- A name that is neither a marker nor found in the local scope. Without the local scope the name of a
parameter is refused before a field of the same name can take its place. -/
def fieldOrClass (c : Context) (name : String) : Except ResolveError Referent :=
  match if !c.inMember && !c.localScope && l.onOwnMethod c then l.parameterIndex? name else none with
  | some index => .error (.parameterName name index)
  | none => do
    match ← l.findField name (c.receiverType?.getD .none) with
    | some (f, onReceiver) => access c name onReceiver f
    | none =>
      match ← asked name (l.classNamed name) with
      | some k => return .className k.selfType
      | none =>
        match l.parameterIndex? name with
        | some index => .error (.parameterName name index)
        | none => .error (.invalid name .notFound)

def named (c : Context) (name : String) : Except ResolveError Referent :=
  match if c.inMember then none else Marker.digits? name with
  | some digits => parameter c digits
  | none =>
    if c.inMember || !c.localScope then l.fieldOrClass c name
    else do
      match ← asked name (l.bareName name) with
      | some (.var v) => return .var v
      | some (.field f) => access c name (c.receiver.any Referent.isThis) f
      | none => l.fieldOrClass c name

/-- The member `name` of an expression: a class if the expression is the name of a package, and else what
the name means for the referent of the expression. `text` is the whole. -/
def member (c : Context) (text : String) (scopeName : Option String) (name : String)
    (scope : Except ResolveError Referent) : Except ResolveError Referent := do
  match scopeName with
  | some outer =>
    match ← asked text (l.package outer) with
    | some package =>
      match ← asked text (l.classIn name package) with
      | some k => return .className k.selfType
      | none => .error (.invalid text (.notInPackage name outer))
    | none => l.named (c.memberOf (← scope)) name
  | none => l.named (c.memberOf (← scope)) name

/-- What a dotted name refers to. -/
def dotted (c : Context) (root : String) (members : List String) : Except ResolveError Referent :=
  (members.foldl (fun (outer, scope) name =>
    let text := outer ++ "." ++ name
    (text, l.member c text (some outer) name scope)) (root, l.named c root)).2

def arrayOf (type : Ty) : Nat → Ty
  | 0 => type
  | n + 1 => .array (arrayOf type n)

/-- What stands before the dimensions of a class literal: a primitive type, or what the name refers to. -/
def classBase (c : Context) (t : TypeName) : Except ResolveError Referent :=
  match if t.members.isEmpty then Primitive.ofName? t.root else none with
  | some p => .ok (.className (.primitive p))
  | none => l.dotted c t.root t.members

def classLiteral (c : Context) (span : Span) (t : TypeName) : Except ResolveError Referent := do
  let base ← l.classBase c t
  if t.dimensions = 0 then return base
  match base with
  | .className type => return .className (arrayOf type t.dimensions)
  | other => .error (.invalid (Expr.classLiteral span t).text (.notAClassName other.text))

/-- The method that the first of the classes to have one answers; a constructor only if it comes last. -/
def firstMethod (text name : String) (types : List Ty) : List ClassType → Except ResolveError (Option Method)
  | [] => .ok none
  | d :: ds => do
    let found ← asked text (l.method name d.toTy types)
    if found.any Method.isMethod || ds.isEmpty then return found else firstMethod text name types ds

def answeredMethod (text name : String) (receiver : Ty) (types : List Ty) : Except ResolveError (Option Method) :=
  match receiver with
  | .array _ => asked text (l.method name receiver types)
  | .declared n as => l.firstMethod text name types (⟨n, as⟩ :: l.enclosing ⟨n, as⟩)
  | _ => .ok none

def findMethod (text name : String) (receiver : Ty) (types : List Ty) : Except ResolveError Method := do
  match ← l.answeredMethod text name receiver types with
  | some m => if m.isMethod then return m else .error (.invalid text (.notAMethod m.name))
  | none => .error (.invalid text (.noMethod name types receiver))

/-- An argument as it is passed: a primitive value for a parameter of a boxing class is boxed. -/
def box (text : String) (formal : Ty) (actual : Referent) : Except ResolveError Referent :=
  if formal.unboxed?.isSome && (actual.type?.bind Ty.primitive?).isSome then
    match l.valueOf formal with
    | some m => .ok (.call formal m (.className formal) [actual])
    | none => .error (.invalid text (.noValueOf formal))
  else .ok actual

/-- Arguments beyond the last parameter stay as they are. -/
def boxAll (text : String) : List Ty → List Referent → Except ResolveError (List Referent)
  | t :: ts, a :: as => do return (← l.box text t a) :: (← boxAll text ts as)
  | _, as => .ok as

/-- The call of a method on the receiver of the context. -/
def invoke (c : Context) (text name : String) (actuals : List Referent) : Except ResolveError Referent := do
  let receiverType := c.receiverType?.getD .none
  let m ← l.findMethod text name receiverType (actuals.map fun a => a.type?.getD .none)
  let passed ← l.boxAll text m.parameterTypes actuals
  if m.isStatic then return .call m.returns m (.className m.owner) passed
  let receiver := c.receiver.getD (.this none)
  if receiver.isClassName then .error (.invalid text .callOnClassName)
  else return .call (l.returnType m receiverType) m receiver passed

mutual

def resolve (c : Context) : Expr → Except ResolveError Referent
  | .literal _ (.value v) => .ok (.value v)
  | .literal s (.boolean b) => .error (unrecognized c (.literal s (.boolean b)))
  | .this _ => .ok (thisReferent c)
  | .super _ => l.superReferent c
  | .name _ n => l.named c n
  | .enclosed _ inner => resolve c inner
  | .field s scope n =>
    l.member c (Expr.field s scope n).text scope.dottedText? n (resolve c scope)
  | .element s array index => do
    let a ← resolve c array
    let i ← resolve c.toOuter index
    match a.type? with
    | some (.array component) => return .element component a i
    | type => .error (.invalid (Expr.element s array index).text (.notAnArray a.text type))
  | .call _ n arguments => do
    let actuals ← resolveAll c.toOuter arguments
    l.invoke c (n ++ Expr.argumentsText (Expr.texts arguments)) n actuals
  | .memberCall _ scope n arguments => do
    let r ← resolve c scope
    let actuals ← resolveAll c.toOuter arguments
    l.invoke (c.memberOf r) (n ++ Expr.argumentsText (Expr.texts arguments)) n actuals
  | .classLiteral s type => l.classLiteral c s type
  | .unary s op e => .error (unrecognized c (.unary s op e))
  | .binary s op a b => .error (unrecognized c (.binary s op a b))

def resolveAll (c : Context) : List Expr → Except ResolveError (List Referent)
  | [] => .ok []
  | e :: es => do return (← resolve c e) :: (← resolveAll c es)

end

/-- What a text refers to. A class name alone refers to nothing; only a class literal, which ends in the
word `class`, does. -/
def refer (c : Context) (localScope : Bool) (text : String) : Except ResolveError Referent :=
  match Expr.read (Marker.expand text) with
  | .error _ => .error (.invalid text .notAnExpression)
  | .ok e => do
    let r ← l.resolve (c.withLocalScope localScope) e
    if r.isClassName && !"class".toList.isSuffixOf text.toList then .error (.invalid text .classNameAtEnd)
    else return r

/-- The referent of a declared variable. A field is resolved by its name from its own class. -/
def referentOf : Named → Except ResolveError Referent
  | .var v => .ok (.var v)
  | .field f => l.refer (.new (some (.implicit f.owner f.isStatic)) none) false f.name

end Lookup
end AnnotationExpr
