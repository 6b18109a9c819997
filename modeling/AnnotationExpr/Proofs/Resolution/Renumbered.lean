import AnnotationExpr.Proofs.Referent.Renumbered
import AnnotationExpr.Resolution

/-!
Resolution over a service that numbers variables in another way. Every step of it commutes with the renumbering: the
referent is the same up to the numbers of variables, and an error is the same.
-/

namespace AnnotationExpr

/-- The answer with what was found seen in another way. -/
def Answer.map {α β : Type} (f : α → β) (a : Answer α) : Answer β := Except.map (Option.map f) a

namespace Lookup

/-- The service with other numbers in its answers. -/
def renumber (ρ : Equiv.Perm Nat) (l : Lookup) : Lookup :=
  { l with
    bareName := fun name => (l.bareName name).map (·.renumber ρ)
    method := fun name type actuals => (l.method name type actuals).map (·.renumber ρ)
    valueOf := fun boxed => (l.valueOf boxed).map (·.renumber ρ)
    returnType := fun m => l.returnType (m.renumber ρ.symm) }

variable {ρ : Equiv.Perm Nat} {l : Lookup} {c : Context}

theorem asked_map {α β : Type} (f : α → β) (expression : String) (a : Answer α) :
    asked expression (a.map f) = Option.map f <$> asked expression a := by
  cases a <;> rfl

theorem thisReferent_renumber : thisReferent (c.renumber ρ) = (thisReferent c).renumber ρ := by
  unfold thisReferent
  cases h : c.receiver with
  | none => simp [Context.renumber, h, Referent.renumber]
  | some r =>
    simp only [Context.renumber, h, Option.map_some, Referent.hasUnknown_renumber, Referent.type?_renumber]
    split <;> rfl

theorem superReferent_renumber :
    (l.renumber ρ).superReferent (c.renumber ρ) = (·.renumber ρ) <$> l.superReferent c := by
  have hsuperclass : (l.renumber ρ).superclass? = l.superclass? := rfl
  unfold superReferent
  rw [Context.receiverType?_renumber, hsuperclass]
  cases c.receiverType?.bind l.superclass? <;> rfl

theorem firstField_renumber (name : String) (ds : List ClassType) :
    (l.renumber ρ).firstField name ds = l.firstField name ds := by
  induction ds with
  | nil => rfl
  | cons d ds ih => rw [firstField, firstField, ih]; rfl

theorem findField_renumber (name : String) (type : Ty) :
    (l.renumber ρ).findField name type = l.findField name type := by
  unfold findField
  cases type with
  | declared n as => simp only [firstField_renumber]; rfl
  | _ => rfl

theorem access_renumber (name : String) (onReceiver : Bool) (f : Field) :
    access (c.renumber ρ) name onReceiver f = (·.renumber ρ) <$> access c name onReceiver f := by
  unfold access
  by_cases hs : f.isStatic
  · rw [if_pos hs, if_pos hs]
    rfl
  · rw [if_neg hs, if_neg hs]
    have hbase : (if onReceiver then (c.renumber ρ).receiver else none).getD (.this (some f.owner)) =
        ((if onReceiver then c.receiver else none).getD (.this (some f.owner))).renumber ρ := by
      cases onReceiver <;> cases h : c.receiver <;> simp [Context.renumber, h, Referent.renumber]
    extract_lets base' base
    rw [show base' = base.renumber ρ from hbase, Referent.isClassName_renumber]
    split <;> rfl

theorem onOwnMethod_renumber : (l.renumber ρ).onOwnMethod (c.renumber ρ) = l.onOwnMethod c := by
  unfold onOwnMethod
  cases h : c.outer with
  | none => simp [Context.renumber, h]
  | some r =>
    simp only [Context.renumber, h, Option.map_some]
    cases r <;> rfl

theorem fieldOrClass_renumber (name : String) :
    (l.renumber ρ).fieldOrClass (c.renumber ρ) name = (·.renumber ρ) <$> l.fieldOrClass c name := by
  have hindex : (l.renumber ρ).parameterIndex? name = l.parameterIndex? name := rfl
  have hnamed : (l.renumber ρ).classNamed name = l.classNamed name := rfl
  unfold fieldOrClass
  rw [onOwnMethod_renumber, Context.receiverType?_renumber, Context.inMember_renumber, Context.localScope_renumber,
    findField_renumber, hindex, hnamed]
  cases if !c.inMember && !c.localScope && l.onOwnMethod c then l.parameterIndex? name else none with
  | some index => rfl
  | none =>
    dsimp only
    rw [map_bind]
    refine bind_congr fun found => ?_
    rcases found with _ | ⟨f, onReceiver⟩
    · dsimp only
      rw [map_bind]
      refine bind_congr fun known => ?_
      cases known with
      | some k => rfl
      | none =>
        dsimp only
        cases l.parameterIndex? name <;> rfl
    · exact access_renumber name onReceiver f

theorem parameter_renumber (digits : List Char) :
    parameter (c.renumber ρ) digits = (·.renumber ρ) <$> parameter c digits := by
  unfold parameter
  split
  · rfl
  · exact Context.argument_renumber ρ c _

theorem named_renumber (name : String) :
    (l.renumber ρ).named (c.renumber ρ) name = (·.renumber ρ) <$> l.named c name := by
  unfold named
  rw [Context.inMember_renumber, Context.localScope_renumber]
  cases if c.inMember then none else Marker.digits? name with
  | some digits => exact parameter_renumber digits
  | none =>
    dsimp only
    split
    · exact fieldOrClass_renumber name
    · rw [map_bind]
      change (asked name ((l.bareName name).map (·.renumber ρ)) >>= _) = _
      rw [asked_map, bind_map_left]
      refine bind_congr fun found => ?_
      rcases found with _ | (v | f)
      · exact fieldOrClass_renumber name
      · rfl
      · have hthis : (c.renumber ρ).receiver.any Referent.isThis = c.receiver.any Referent.isThis := by
          cases h : c.receiver <;> simp [Context.renumber, h]
        refine Eq.trans ?_ (access_renumber name _ f)
        rw [← hthis]
        rfl

theorem member_renumber (text name : String) (outer : Option String) (scope : Except ResolveError Referent) :
    (l.renumber ρ).member (c.renumber ρ) text outer name ((·.renumber ρ) <$> scope) =
      (·.renumber ρ) <$> l.member c text outer name scope := by
  have hmember : (do (l.renumber ρ).named ((c.renumber ρ).memberOf (← (·.renumber ρ) <$> scope)) name) =
      (·.renumber ρ) <$> (do l.named (c.memberOf (← scope)) name) := by
    rw [bind_map_left, map_bind]
    exact bind_congr fun r => named_renumber (c := c.memberOf r) name
  cases outer with
  | none => exact hmember
  | some outer =>
    unfold member
    dsimp only
    rw [map_bind]
    refine bind_congr (x := asked text (l.package outer)) fun package => ?_
    cases package with
    | none => exact hmember
    | some package =>
      dsimp only
      rw [map_bind]
      refine bind_congr fun known => ?_
      cases known <;> rfl

theorem dotted_renumber (root : String) (members : List String) :
    (l.renumber ρ).dotted (c.renumber ρ) root members = (·.renumber ρ) <$> l.dotted c root members := by
  have hfold : ∀ (ms : List String) (text : String) (x : Except ResolveError Referent),
      (ms.foldl (fun (q : String × Except ResolveError Referent) n =>
        (q.1 ++ "." ++ n, (l.renumber ρ).member (c.renumber ρ) (q.1 ++ "." ++ n) (some q.1) n q.2))
          (text, (·.renumber ρ) <$> x)).2 =
      (·.renumber ρ) <$> (ms.foldl (fun (q : String × Except ResolveError Referent) n =>
        (q.1 ++ "." ++ n, l.member c (q.1 ++ "." ++ n) (some q.1) n q.2)) (text, x)).2 := by
    intro ms
    induction ms with
    | nil => intro text x; rfl
    | cons n ms ih =>
      intro text x
      rw [List.foldl_cons, List.foldl_cons, ← ih, member_renumber]
  unfold dotted
  rw [named_renumber]
  exact hfold members root _

theorem classLiteral_renumber (s : Span) (t : TypeName) :
    (l.renumber ρ).classLiteral (c.renumber ρ) s t = (·.renumber ρ) <$> l.classLiteral c s t := by
  have hbase : (l.renumber ρ).classBase (c.renumber ρ) t = (·.renumber ρ) <$> l.classBase c t := by
    unfold classBase
    cases if t.members.isEmpty then Primitive.ofName? t.root else none with
    | some p => rfl
    | none => exact dotted_renumber t.root t.members
  unfold classLiteral
  rw [hbase, bind_map_left, map_bind]
  refine bind_congr fun base => ?_
  by_cases ht : t.dimensions = 0
  · rw [if_pos ht, if_pos ht]
    rfl
  · rw [if_neg ht, if_neg ht]
    have htext := Referent.text_renumber ρ base
    cases base with
    | className type => rfl
    | _ => exact congrArg (Except.error <| ResolveError.invalid (Expr.classLiteral s t).text <| .notAClassName ·) htext

theorem firstMethod_renumber (text name : String) (types : List Ty) (ds : List ClassType) :
    (l.renumber ρ).firstMethod text name types ds = Option.map (·.renumber ρ) <$> l.firstMethod text name types ds := by
  induction ds with
  | nil => rfl
  | cons d ds ih =>
    unfold firstMethod
    change (asked text ((l.method name d.toTy types).map (·.renumber ρ)) >>= _) = _
    rw [asked_map, bind_map_left, map_bind]
    refine bind_congr fun found => ?_
    have hany : (found.map (·.renumber ρ)).any Method.isMethod = found.any Method.isMethod := by
      cases found <;> rfl
    rw [hany, ih]
    split <;> rfl

theorem findMethod_renumber (text name : String) (receiver : Ty) (types : List Ty) :
    (l.renumber ρ).findMethod text name receiver types = (·.renumber ρ) <$> l.findMethod text name receiver types := by
  have hanswered : (l.renumber ρ).answeredMethod text name receiver types =
      Option.map (·.renumber ρ) <$> l.answeredMethod text name receiver types := by
    unfold answeredMethod
    cases receiver with
    | array component => exact asked_map _ text _
    | declared n as => exact firstMethod_renumber text name types _
    | _ => rfl
  unfold findMethod
  rw [hanswered, bind_map_left, map_bind]
  refine bind_congr fun found => ?_
  cases found with
  | none => rfl
  | some m =>
    dsimp only [Option.map_some]
    rw [Method.isMethod_renumber]
    split <;> rfl

theorem box_renumber (text : String) (formal : Ty) (actual : Referent) :
    (l.renumber ρ).box text formal (actual.renumber ρ) = (·.renumber ρ) <$> l.box text formal actual := by
  unfold box
  have hvalueOf : (l.renumber ρ).valueOf formal = (l.valueOf formal).map (·.renumber ρ) := rfl
  rw [Referent.type?_renumber, hvalueOf]
  split
  · cases l.valueOf formal <;> rfl
  · rfl

theorem boxAll_renumber (text : String) : ∀ (formals : List Ty) (actuals : List Referent),
    (l.renumber ρ).boxAll text formals (actuals.map (·.renumber ρ)) =
      List.map (·.renumber ρ) <$> l.boxAll text formals actuals
  | [], actuals => rfl
  | _ :: _, [] => rfl
  | t :: ts, a :: as => by
    rw [List.map_cons, boxAll, boxAll, box_renumber, boxAll_renumber text ts as]
    simp only [bind_map_left, map_bind, map_pure, List.map_cons]

theorem invoke_renumber (text name : String) (actuals : List Referent) :
    (l.renumber ρ).invoke (c.renumber ρ) text name (actuals.map (·.renumber ρ)) =
      (·.renumber ρ) <$> l.invoke c text name actuals := by
  have htypes : (actuals.map (·.renumber ρ)).map (fun a => a.type?.getD .none) =
      actuals.map fun a => a.type?.getD .none := by
    simp [Function.comp_def]
  unfold invoke
  rw [Context.receiverType?_renumber]
  extract_lets type receiver' receiver
  rw [htypes, findMethod_renumber, bind_map_left, map_bind]
  refine bind_congr fun m => ?_
  rw [Method.parameterTypes_renumber, boxAll_renumber, bind_map_left, map_bind]
  refine bind_congr fun passed => ?_
  by_cases hs : m.isStatic
  · rw [if_pos (show (m.renumber ρ).isStatic = true from hs), if_pos hs, map_pure, Referent.renumber,
      Referent.renumberAll_eq_map]
    rfl
  · have hreceiver : receiver' = receiver.renumber ρ := by
      unfold receiver' receiver
      cases h : c.receiver <;> simp [Context.renumber, h, Referent.renumber]
    have hreturns : (l.renumber ρ).returnType (m.renumber ρ) type = l.returnType m type :=
      congrArg (l.returnType · type) (m.renumber_symm ρ)
    rw [if_neg (show ¬(m.renumber ρ).isStatic = true from hs), if_neg hs, hreceiver, hreturns,
      Referent.isClassName_renumber]
    split
    · rfl
    · rw [map_pure, Referent.renumber, Referent.renumberAll_eq_map]

mutual

theorem resolve_renumber (ρ : Equiv.Perm Nat) (l : Lookup) (c : Context) (e : Expr) :
    (l.renumber ρ).resolve (c.renumber ρ) e = (·.renumber ρ) <$> l.resolve c e := by
  cases e with
  | literal s v => cases v <;> rfl
  | this s => exact congrArg Except.ok thisReferent_renumber
  | super s => exact superReferent_renumber
  | name s n => exact named_renumber n
  | enclosed s e => exact resolve_renumber ρ l c e
  | field s e n =>
    unfold resolve
    rw [resolve_renumber ρ l c e, member_renumber]
  | element s a i =>
    unfold resolve
    rw [resolve_renumber ρ l c a, bind_map_left, map_bind]
    refine bind_congr fun array => ?_
    rw [Context.toOuter_renumber, resolve_renumber ρ l c.toOuter i, bind_map_left, map_bind]
    refine bind_congr fun index => ?_
    rw [Referent.type?_renumber, Referent.text_renumber]
    split <;> rfl
  | call s n es =>
    unfold resolve
    rw [Context.toOuter_renumber, resolveAll_renumber ρ l c.toOuter es, bind_map_left, map_bind]
    exact bind_congr fun actuals => invoke_renumber _ n actuals
  | memberCall s e n es =>
    unfold resolve
    rw [resolve_renumber ρ l c e, bind_map_left, map_bind]
    refine bind_congr fun r => ?_
    rw [Context.toOuter_renumber, resolveAll_renumber ρ l c.toOuter es, bind_map_left, map_bind]
    exact bind_congr fun actuals => invoke_renumber (c := c.memberOf r) _ n actuals
  | classLiteral s t => exact classLiteral_renumber s t
  | unary s op e => rfl
  | binary s op a b => rfl

theorem resolveAll_renumber (ρ : Equiv.Perm Nat) (l : Lookup) (c : Context) (es : List Expr) :
    (l.renumber ρ).resolveAll (c.renumber ρ) es = List.map (·.renumber ρ) <$> l.resolveAll c es := by
  cases es with
  | nil => rfl
  | cons e es =>
    unfold resolveAll
    rw [resolve_renumber ρ l c e, resolveAll_renumber ρ l c es]
    simp only [bind_map_left, map_bind, map_pure, List.map_cons]

end

theorem refer_renumber (ρ : Equiv.Perm Nat) (l : Lookup) (c : Context) (localScope : Bool) (text : String) :
    (l.renumber ρ).refer (c.renumber ρ) localScope text = (·.renumber ρ) <$> l.refer c localScope text := by
  unfold refer
  cases Expr.read (Marker.expand text) with
  | error e => rfl
  | ok e =>
    dsimp only
    rw [show (c.renumber ρ).withLocalScope localScope = (c.withLocalScope localScope).renumber ρ from rfl,
      resolve_renumber, bind_map_left, map_bind]
    refine bind_congr fun r => ?_
    rw [Referent.isClassName_renumber]
    split <;> rfl

end Lookup
end AnnotationExpr
