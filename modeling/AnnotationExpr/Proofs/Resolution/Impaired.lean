import AnnotationExpr.Resolution

/-!
One service impaired over another: it fails at some of the lookups that the other answers, and does all else as
the other does. An expression has the same result over both, or the failure of one of these lookups: resolution
stops at the first lookup that fails, and no later step takes the failure for something that was not found.
-/

namespace AnnotationExpr

/-- The second answer is the first one, or a failure in its place. -/
def Answer.Impaired {α : Type} (failed : LookupFailure → Prop) (a b : Answer α) : Prop :=
  b = a ∨ ∃ f, failed f ∧ b = .error f

/-- Whether the error does not come from what the service answers. -/
def ResolveError.isOwn : ResolveError → Bool
  | .silentLookup _ | .invalid _ (.noValueOf _) => false
  | _ => true

theorem ResolveError.isFatal_of_isOwn {e : ResolveError} (h : e.isOwn = true) : e.isFatal = false := by
  cases e with
  | silentLookup => cases h
  | _ => rfl

namespace Lookup

/-- The second service fails where the first may answer. What it says of bare names counts only if it is asked. -/
structure Impaired (failed : LookupFailure → Prop) (asksScope : Bool) (l l' : Lookup) : Prop where
  bareName : asksScope = true → ∀ name, Answer.Impaired failed (l.bareName name) (l'.bareName name)
  field : ∀ name type, Answer.Impaired failed (l.field name type) (l'.field name type)
  classNamed : ∀ name, Answer.Impaired failed (l.classNamed name) (l'.classNamed name)
  method : ∀ name type types, Answer.Impaired failed (l.method name type types) (l'.method name type types)
  package : ∀ name, Answer.Impaired failed (l.package name) (l'.package name)
  classIn : ∀ name package, Answer.Impaired failed (l.classIn name package) (l'.classIn name package)
  supertypes : l'.supertypes = l.supertypes
  isInterface : l'.isInterface = l.isInterface
  enclosing : l'.enclosing = l.enclosing
  valueOf : l'.valueOf = l.valueOf
  returnType : l'.returnType = l.returnType
  methodParameters : l'.methodParameters = l.methodParameters
  methodOwner : l'.methodOwner = l.methodOwner

/-- The failures of a service. -/
inductive FailsWith (l : Lookup) : LookupFailure → Prop where
  | bareName {name : String} {f : LookupFailure} (h : l.bareName name = .error f) : FailsWith l f
  | field {name : String} {type : Ty} {f : LookupFailure} (h : l.field name type = .error f) : FailsWith l f
  | classNamed {name : String} {f : LookupFailure} (h : l.classNamed name = .error f) : FailsWith l f
  | method {name : String} {type : Ty} {types : List Ty} {f : LookupFailure}
      (h : l.method name type types = .error f) : FailsWith l f
  | package {name : String} {f : LookupFailure} (h : l.package name = .error f) : FailsWith l f
  | classIn {name package : String} {f : LookupFailure} (h : l.classIn name package = .error f) : FailsWith l f

/-- The errors of resolution: its own, for which the service is not at fault, those of failed lookups, and that the
service knows no method that boxes for a class. -/
inductive Raises (l : Lookup) : ResolveError → Prop where
  | own {e : ResolveError} (h : e.isOwn = true) : Raises l e
  | noValueOf (expression : String) {formal : Ty} (hf : formal.unboxed?.isSome = true) (h : l.valueOf formal = none) :
      Raises l (.invalid expression (.noValueOf formal))
  | lookup (expression : String) {f : LookupFailure} (h : l.FailsWith f) : Raises l (.ofLookup expression f)

/-- What a result becomes over an impaired service. -/
inductive Becomes {α : Type} (l : Lookup) (failed : LookupFailure → Prop) :
    Except ResolveError α → Except ResolveError α → Prop where
  | ok (a : α) : Becomes l failed (.ok a) (.ok a)
  | error {e : ResolveError} (h : l.Raises e) : Becomes l failed (.error e) (.error e)
  | failed (x : Except ResolveError α) (expression : String) {f : LookupFailure} (h : failed f) :
      Becomes l failed x (.error (.ofLookup expression f))

section

variable {α β : Type} {l l' : Lookup} {failed : LookupFailure → Prop} {asksScope : Bool} {c : Context}

theorem Becomes.bind {x x' : Except ResolveError α} {f f' : α → Except ResolveError β}
    (hx : Becomes l failed x x') (hf : ∀ a, Becomes l failed (f a) (f' a)) :
    Becomes l failed (x >>= f) (x' >>= f') := by
  cases hx with
  | ok a => exact hf a
  | error h => exact .error h
  | failed x expression h => exact .failed (x >>= f) expression h

theorem Becomes.own (e : ResolveError) (h : e.isOwn = true) : Becomes (α := α) l failed (.error e) (.error e) :=
  .error (.own h)

theorem becomes_asked {a b : Answer α} (h : Answer.Impaired failed a b) (ha : ∀ {f}, a = .error f → l.FailsWith f)
    (expression : String) : Becomes l failed (asked expression a) (asked expression b) := by
  rcases h with rfl | ⟨f, hf, rfl⟩
  · cases b with
    | ok found => exact .ok found
    | error f => exact .error (.lookup expression (ha rfl))
  · exact .failed _ expression hf

section

variable (h : l.Impaired failed asksScope l')

include h

theorem becomes_firstField (name : String) (ds : List ClassType) :
    Becomes l failed (l.firstField name ds) (l'.firstField name ds) := by
  induction ds with
  | nil => exact .ok none
  | cons d ds ih =>
    refine (becomes_asked (h.field name d.toTy) .field name).bind fun found => ?_
    cases found with
    | some f => exact .ok (some f)
    | none => exact ih

theorem becomes_findField (name : String) (type : Ty) :
    Becomes l failed (l.findField name type) (l'.findField name type) := by
  unfold findField
  cases type with
  | array component =>
    dsimp only
    split
    · exact (becomes_asked (h.field name _) .field name).bind fun f => .ok _
    · exact .ok none
  | declared n as =>
    refine (becomes_asked (h.field name _) .field name).bind fun found => ?_
    cases found with
    | some f => exact .ok _
    | none =>
      dsimp only
      rw [h.enclosing]
      exact (becomes_firstField h name _).bind fun f => .ok _
  | _ => exact .ok none

omit h in
theorem becomes_access (name : String) (onReceiver : Bool) (f : Field) :
    Becomes l failed (access c name onReceiver f) (access c name onReceiver f) := by
  unfold access
  split
  · exact .ok _
  · extract_lets base
    split
    · exact .own _ rfl
    · exact .ok _

theorem Impaired.parameterIndex? (name : String) : l'.parameterIndex? name = l.parameterIndex? name := by
  rw [Lookup.parameterIndex?, h.methodParameters]
  rfl

theorem Impaired.onOwnMethod (c : Context) : l'.onOwnMethod c = l.onOwnMethod c := by
  rw [Lookup.onOwnMethod, h.methodOwner]
  rfl

theorem becomes_fieldOrClass (name : String) :
    Becomes l failed (l.fieldOrClass c name) (l'.fieldOrClass c name) := by
  unfold fieldOrClass
  rw [h.parameterIndex?, h.onOwnMethod]
  cases if !c.inMember && !c.localScope && l.onOwnMethod c then l.parameterIndex? name else none with
  | some index => exact .own _ rfl
  | none =>
    refine (becomes_findField h name _).bind fun found => ?_
    rcases found with _ | ⟨f, onReceiver⟩
    · refine (becomes_asked (h.classNamed name) .classNamed name).bind fun known => ?_
      cases known with
      | some k => exact .ok _
      | none =>
        dsimp only
        cases l.parameterIndex? name with
        | some index => exact .own _ rfl
        | none => exact .own _ rfl
    · exact becomes_access name onReceiver f

omit h in
theorem becomes_argument (index : Nat) : Becomes l failed (c.argument index) (c.argument index) := by
  unfold Context.argument
  split
  · exact .own _ rfl
  · split
    · exact .own _ rfl
    · split
      · exact .ok _
      · exact .own _ rfl

omit h in
theorem becomes_parameter (digits : List Char) : Becomes l failed (parameter c digits) (parameter c digits) := by
  unfold parameter
  split
  · exact .own _ rfl
  · exact becomes_argument _

theorem becomes_named (hc : c.localScope = true → asksScope = true) (name : String) :
    Becomes l failed (l.named c name) (l'.named c name) := by
  unfold named
  cases if c.inMember then none else Marker.digits? name with
  | some digits => exact becomes_parameter digits
  | none =>
    dsimp only
    split
    next => exact becomes_fieldOrClass h name
    next hm =>
      have hs : c.localScope = true := by
        have : c.inMember = false ∧ c.localScope = true := by simpa using hm
        exact this.2
      refine (becomes_asked (h.bareName (hc hs) name) .bareName name).bind fun found => ?_
      rcases found with _ | (v | f)
      · exact becomes_fieldOrClass h name
      · exact .ok _
      · exact becomes_access name _ f

theorem becomes_member (hc : c.localScope = true → asksScope = true) (text name : String) (outer : Option String)
    {scope scope' : Except ResolveError Referent} (hscope : Becomes l failed scope scope') :
    Becomes l failed (l.member c text outer name scope) (l'.member c text outer name scope') := by
  have hmember : Becomes l failed (scope >>= fun r => l.named (c.memberOf r) name)
      (scope' >>= fun r => l'.named (c.memberOf r) name) :=
    hscope.bind fun r => becomes_named h (c := c.memberOf r) hc name
  cases outer with
  | none => exact hmember
  | some outer =>
    refine (becomes_asked (h.package outer) .package text).bind fun package => ?_
    cases package with
    | none => exact hmember
    | some package =>
      refine (becomes_asked (h.classIn name package) .classIn text).bind fun known => ?_
      cases known with
      | some k => exact .ok _
      | none => exact .own _ rfl

theorem becomes_dotted (hc : c.localScope = true → asksScope = true) (root : String) (members : List String) :
    Becomes l failed (l.dotted c root members) (l'.dotted c root members) := by
  have hfold : ∀ (ms : List String) (text : String) (x x' : Except ResolveError Referent), Becomes l failed x x' →
      Becomes l failed
        (ms.foldl (fun (q : String × Except ResolveError Referent) n =>
          (q.1 ++ "." ++ n, l.member c (q.1 ++ "." ++ n) (some q.1) n q.2)) (text, x)).2
        (ms.foldl (fun (q : String × Except ResolveError Referent) n =>
          (q.1 ++ "." ++ n, l'.member c (q.1 ++ "." ++ n) (some q.1) n q.2)) (text, x')).2 := by
    intro ms
    induction ms with
    | nil => intro text x x' hx; exact hx
    | cons n ms ih => intro text x x' hx; exact ih _ _ _ (becomes_member h hc _ n _ hx)
  exact hfold members root _ _ (becomes_named h hc root)

theorem becomes_classLiteral (hc : c.localScope = true → asksScope = true) (s : Span) (t : TypeName) :
    Becomes l failed (l.classLiteral c s t) (l'.classLiteral c s t) := by
  have hbase : Becomes l failed (l.classBase c t) (l'.classBase c t) := by
    unfold classBase
    cases if t.members.isEmpty then Primitive.ofName? t.root else none with
    | some p => exact .ok _
    | none => exact becomes_dotted h hc t.root t.members
  refine hbase.bind fun base => ?_
  split
  · exact .ok base
  · cases base with
    | className type => exact .ok _
    | _ => exact .own _ rfl

theorem becomes_firstMethod (text name : String) (types : List Ty) (ds : List ClassType) :
    Becomes l failed (l.firstMethod text name types ds) (l'.firstMethod text name types ds) := by
  induction ds with
  | nil => exact .ok none
  | cons d ds ih =>
    refine (becomes_asked (h.method name d.toTy types) .method text).bind fun found => ?_
    split
    · exact .ok found
    · exact ih

theorem becomes_findMethod (text name : String) (receiver : Ty) (types : List Ty) :
    Becomes l failed (l.findMethod text name receiver types) (l'.findMethod text name receiver types) := by
  have hanswered : Becomes l failed (l.answeredMethod text name receiver types)
      (l'.answeredMethod text name receiver types) := by
    unfold answeredMethod
    cases receiver with
    | array component => exact becomes_asked (h.method name _ types) .method text
    | declared n as =>
      dsimp only
      rw [h.enclosing]
      exact becomes_firstMethod h text name types _
    | _ => exact .ok none
  refine hanswered.bind fun found => ?_
  cases found with
  | none => exact .own _ rfl
  | some m =>
    dsimp only
    split
    · exact .ok m
    · exact .own _ rfl

theorem becomes_box (text : String) (formal : Ty) (actual : Referent) :
    Becomes l failed (l.box text formal actual) (l'.box text formal actual) := by
  unfold box
  rw [h.valueOf]
  split
  next hbox =>
    rw [Bool.and_eq_true] at hbox
    cases hv : l.valueOf formal with
    | some m => exact .ok _
    | none => exact .error (.noValueOf text hbox.1 hv)
  next => exact .ok actual

theorem becomes_boxAll (text : String) : ∀ (formals : List Ty) (actuals : List Referent),
    Becomes l failed (l.boxAll text formals actuals) (l'.boxAll text formals actuals)
  | [], actuals => .ok actuals
  | _ :: _, [] => .ok []
  | t :: ts, a :: as =>
    (becomes_box h text t a).bind fun _ => (becomes_boxAll text ts as).bind fun _ => .ok _

theorem becomes_invoke (text name : String) (actuals : List Referent) :
    Becomes l failed (l.invoke c text name actuals) (l'.invoke c text name actuals) := by
  unfold invoke
  rw [h.returnType]
  refine (becomes_findMethod h text name _ _).bind fun m => (becomes_boxAll h text _ actuals).bind fun passed => ?_
  dsimp only
  split
  · exact .ok _
  · split
    · exact .own _ rfl
    · exact .ok _

theorem becomes_superReferent (c : Context) : Becomes l failed (l.superReferent c) (l'.superReferent c) := by
  have hsame : l'.superReferent c = l.superReferent c := by
    unfold superReferent superclass?
    rw [h.supertypes, h.isInterface]
  rw [hsame]
  unfold superReferent
  split
  · exact .ok _
  · exact .own _ rfl

end

mutual

theorem becomes_resolve (h : l.Impaired failed asksScope l') (c : Context)
    (hc : c.localScope = true → asksScope = true) (e : Expr) :
    Becomes l failed (l.resolve c e) (l'.resolve c e) := by
  cases e with
  | literal s v =>
    cases v with
    | value v => exact .ok _
    | boolean b => exact .own _ rfl
  | this s => exact .ok _
  | super s => exact becomes_superReferent h c
  | name s n => exact becomes_named h hc n
  | enclosed s e => exact becomes_resolve h c hc e
  | field s e n => exact becomes_member h hc _ n _ (becomes_resolve h c hc e)
  | element s a i =>
    refine (becomes_resolve h c hc a).bind fun array => (becomes_resolve h c.toOuter hc i).bind fun index => ?_
    split
    · exact .ok _
    · exact .own _ rfl
  | call s n es => exact (becomes_resolveAll h c.toOuter hc es).bind fun actuals => becomes_invoke h _ n actuals
  | memberCall s e n es =>
    refine (becomes_resolve h c hc e).bind fun r => (becomes_resolveAll h c.toOuter hc es).bind fun actuals => ?_
    exact becomes_invoke h _ n actuals
  | classLiteral s t => exact becomes_classLiteral h hc s t
  | unary s op e => exact .own _ rfl
  | binary s op a b => exact .own _ rfl

theorem becomes_resolveAll (h : l.Impaired failed asksScope l') (c : Context)
    (hc : c.localScope = true → asksScope = true) (es : List Expr) :
    Becomes l failed (l.resolveAll c es) (l'.resolveAll c es) := by
  cases es with
  | nil => exact .ok []
  | cons e es =>
    exact (becomes_resolve h c hc e).bind fun r => (becomes_resolveAll h c hc es).bind fun rs => .ok (r :: rs)

end

theorem becomes_refer (h : l.Impaired failed asksScope l') (c : Context) (localScope : Bool)
    (hc : localScope = true → asksScope = true) (text : String) :
    Becomes l failed (l.refer c localScope text) (l'.refer c localScope text) := by
  unfold refer
  cases Expr.read (Marker.expand text) with
  | error e => exact .own _ rfl
  | ok e =>
    refine (becomes_resolve h (c.withLocalScope localScope) hc e).bind fun r => ?_
    split
    · exact .own _ rfl
    · exact .ok r

theorem Becomes.eq_or_failed {x x' : Except ResolveError α} (h : Becomes l failed x x') :
    x' = x ∨ ∃ f expression, failed f ∧ x' = .error (.ofLookup expression f) := by
  cases h with
  | ok a => exact .inl rfl
  | error h => exact .inl rfl
  | failed x expression h => exact .inr ⟨_, expression, h, rfl⟩

theorem Becomes.raises {x : Except ResolveError α} {e : ResolveError}
    (h : Becomes l (fun _ => False) x (.error e)) : l.Raises e := by
  cases h with
  | error h => exact h
  | failed x expression h => exact h.elim

theorem Raises.isFatal_eq_false (hl : ∀ f, l.FailsWith f → f.message ≠ none) {e : ResolveError} (h : l.Raises e) :
    e.isFatal = false := by
  cases h with
  | own h => exact ResolveError.isFatal_of_isOwn h
  | noValueOf => rfl
  | lookup expression hf =>
    unfold ResolveError.ofLookup
    split
    · rfl
    next hm => exact absurd hm (hl _ hf)

theorem Impaired.refl (l : Lookup) (failed : LookupFailure → Prop) : l.Impaired failed true l where
  bareName _ _ := .inl rfl
  field _ _ := .inl rfl
  classNamed _ := .inl rfl
  method _ _ _ := .inl rfl
  package _ := .inl rfl
  classIn _ _ := .inl rfl
  supertypes := rfl
  isInterface := rfl
  enclosing := rfl
  valueOf := rfl
  returnType := rfl
  methodParameters := rfl
  methodOwner := rfl

end

end Lookup
end AnnotationExpr
