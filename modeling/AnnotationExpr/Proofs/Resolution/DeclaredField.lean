import AnnotationExpr.Proofs.Program.OwnFields
import AnnotationExpr.Proofs.Resolution.ParameterName

/-!
The referent of a declared field, which is found by the field's name. It is the field under `this` or, if it is static,
under its class; only in a method of the field's own class with a parameter of that name it is refused.
-/

namespace AnnotationExpr.Program

/-- The place is in a method of the field's class whose parameter with this index, from zero on, has the name of the
field, and the field needs an object. -/
structure Shadowed (p : Program) (scope : Nat) (f : Field) (k : Nat) : Prop where
  isStatic : f.isStatic = false
  owner : ∃ t, p.methodOwner? scope = some t ∧ t.erasure = f.owner.erasure
  index : ∃ names, p.methodParameters? scope = some names ∧ names.findIdx? (· = f.name) = some k

variable {p : Program} {e : ClassEntry} {f : Field} {scope : Nat}

/-- The context in which the name of a field is resolved. -/
def fieldContext (f : Field) : Context := .new (some (.implicit f.owner f.isStatic)) none

/-- A field that its class is the first to declare under its name has a referent from every place that does not shadow
it, and no referent from those that do. -/
theorem BuiltInOrder.referentOf_field (hp : p.BuiltInOrder) (he : p.class? e.qualifiedName = some e)
    (hf : e.field? f.name = some f) (hx : Token.IsName f.name) (hmark : Marker.digits? f.name = none) (scope : Nat) :
    (∀ k, p.Shadowed scope f k →
      (p.lookupFrom scope).referentOf (.field f) = .error (.parameterName f.name (k + 1))) ∧
    ((∀ k, ¬ p.Shadowed scope f k) →
      (p.lookupFrom scope).referentOf (.field f) = .ok (.field (.implicit f.owner f.isStatic) f.type f)) := by
  have hrefer : (p.lookupFrom scope).referentOf (.field f) =
      (p.lookupFrom scope).refer (fieldContext f) false f.name := rfl
  have hown := @onOwnMethod_iff p (fieldContext f) scope _ _ rfl
  have htype : (fieldContext f).receiverType? = some f.owner := by
    unfold Context.receiverType? fieldContext Referent.implicit
    cases f.isStatic <;> rfl
  have hfield : (p.lookupFrom scope).findField f.name ((fieldContext f).receiverType?.getD .none) =
      .ok (some (f, true)) := by
    rw [htype]
    exact findField_owner hp.ownsFields he hf scope
  rw [hrefer]
  refine ⟨fun k hk => ?_, fun hk => ?_⟩
  · obtain ⟨names, hnames, hindex⟩ := hk.index
    exact Lookup.refer_of_named_eq_error hx (Lookup.named_of_onOwnMethod rfl hmark
      (hown.2 ⟨hk.isStatic, hk.owner⟩) (parameterIndex?_eq_some.2 ⟨names, k, hnames, hindex, rfl⟩))
  · have hopen : (p.lookupFrom scope).Open (fieldContext f) f.name := by
      refine ⟨rfl, hmark, fun ho => Option.eq_none_iff_forall_ne_some.2 fun index hindex => ?_⟩
      obtain ⟨hstatic, howner⟩ := hown.1 ho
      obtain ⟨names, k, hnames, hindex, -⟩ := parameterIndex?_eq_some.1 hindex
      exact hk k ⟨hstatic, howner, names, hnames, hindex⟩
    refine Lookup.refer_of_named_eq_field hx ?_
    rw [hopen.named_of_field hfield]
    cases hs : f.isStatic with
    | true => exact Lookup.access_static hs true
    | false =>
      refine Lookup.access_onThis hs ?_
      rw [fieldContext, hs]
      rfl

/-- The field of a class with a setter that names its parameter after the field. -/
def setterField : Field := ⟨"x", .int, .declared "demo.A" [], false, false⟩

def setterMethod : Method :=
  ⟨"setX", .declared "demo.A" [], [⟨"x", .int, .parameter, 11⟩], .void, false, false, .method⟩

/-- That class, with a place in its body and one in the setter. -/
def setter : Program :=
  let declared := initial.build "demo" none "A"
    [.field ⟨"x", .int, false, false⟩, .method (.method "setX" [("x", .int)] .void false false)]
  let body := declared.pushClass rootScope "demo.A"
  (body.1.pushMethod body.2 setterMethod).1

def setterClass : ClassEntry := ⟨"demo", none, "A", false, [], none, [], [setterField], [setterMethod]⟩

theorem builtInOrder_setter : setter.BuiltInOrder := by
  have hparts : ClassPart.InOrder
      [.field ⟨"x", .int, false, false⟩, .method (.method "setX" [("x", .int)] .void false false)] := by
    unfold ClassPart.InOrder
    decide
  exact ((BuiltInOrder.initial.build "demo" none "A" hparts).push (by decide) ..).push (by decide) ..

theorem class?_setter : setter.class? "demo.A" = some setterClass := by decide +kernel

theorem isName_setterField : Token.IsName setterField.name :=
  Token.isName_of_toOption ⟨0, 1⟩ (by decide +kernel)

theorem shadowed_setter : setter.Shadowed 2 setterField 0 where
  isStatic := rfl
  owner := ⟨.declared "demo.A" [], by decide +kernel, rfl⟩
  index := ⟨["x"], by decide +kernel, by decide +kernel⟩

/-- From the body of the class the field has a referent, and from the setter it has none. -/
theorem referentOf_field_setter : setter.BuiltInOrder ∧ setter.class? "demo.A" = some setterClass ∧
    setterClass.field? "x" = some setterField ∧ Token.IsName "x" ∧ Marker.digits? "x" = none ∧
    (∀ k, ¬ setter.Shadowed 1 setterField k) ∧ setter.Shadowed 2 setterField 0 ∧
    (setter.lookupFrom 1).referentOf (.field setterField) =
      .ok (.field (.this (some (.declared "demo.A" []))) .int setterField) ∧
    (setter.lookupFrom 2).referentOf (.field setterField) = .error (.parameterName "x" 1) := by
  have hopen : ∀ k, ¬ setter.Shadowed 1 setterField k := by
    rintro k ⟨-, ⟨t, ht, -⟩, -⟩
    have hnone : setter.methodOwner? 1 = none := by decide +kernel
    rw [hnone] at ht
    cases ht
  have hmark : Marker.digits? setterField.name = none := by decide +kernel
  have h := builtInOrder_setter.referentOf_field (e := setterClass) (f := setterField) class?_setter rfl
    isName_setterField hmark
  exact ⟨builtInOrder_setter, class?_setter, rfl, isName_setterField, hmark, hopen, shadowed_setter, (h 1).2 hopen,
    (h 2).1 0 shadowed_setter⟩

theorem not_referentOf_field : ¬ ∀ (p : Program) (e : ClassEntry) (f : Field) (scope : Nat), p.BuiltInOrder →
    p.class? e.qualifiedName = some e → e.field? f.name = some f → Token.IsName f.name →
    Marker.digits? f.name = none →
    (p.lookupFrom scope).referentOf (.field f) = .ok (.field (.implicit f.owner f.isStatic) f.type f) := by
  intro hall
  have hrefer := hall setter setterClass setterField 2 builtInOrder_setter class?_setter rfl isName_setterField
    (by decide +kernel)
  have hfails : ((setter.lookupFrom 2).referentOf (.field setterField)).toOption.map Referent.text = none := by
    decide +kernel
  rw [hrefer] at hfails
  cases hfails

end AnnotationExpr.Program
