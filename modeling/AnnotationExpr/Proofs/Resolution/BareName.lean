import AnnotationExpr.Proofs.Expr.Name
import AnnotationExpr.Proofs.Program.FieldAround
import AnnotationExpr.Proofs.Resolution.Answers

/-!
The two lookups of a bare name. With the local scope a name is looked up through the scopes around the place, and
without it in the type of the receiver and then in the classes around that. Both find the same field first, but
they put it under different objects: the first asks whether the receiver is `this`, the second whether the field
was found in the receiver's own type.
-/

namespace AnnotationExpr

namespace Lookup

variable {l : Lookup} {c : Context} {name : String}

/-- The field of that name that is found first, and whether the receiver's own type has it. -/
structure Finds (l : Lookup) (c : Context) (name : String) (found : Option (Field × Bool)) : Prop where
  noMarker : Marker.digits? name = none
  noParameter : l.parameterIndex? name = none
  inMember : c.inMember = false
  bareName : l.bareName name = .ok (found.map fun q => .field q.1)
  findField : l.findField name (c.receiverType?.getD .none) = .ok found

theorem fieldOrClass_withLocalScope (h : l.parameterIndex? name = none) (a b : Bool) :
    l.fieldOrClass (c.withLocalScope a) name = l.fieldOrClass (c.withLocalScope b) name := by
  unfold fieldOrClass
  rw [h, ite_self, ite_self]
  rfl

theorem named_withoutScope (hm : c.inMember = false) (hd : Marker.digits? name = none) :
    l.named (c.withLocalScope false) name = l.fieldOrClass (c.withLocalScope false) name := by
  have hm : (c.withLocalScope false).inMember = false := hm
  unfold named
  rw [hm, if_neg (by decide), hd]
  rfl

theorem Finds.withoutScope {found : Option (Field × Bool)} (h : l.Finds c name found) :
    l.named (c.withLocalScope false) name = l.fieldOrClass (c.withLocalScope false) name :=
  named_withoutScope h.inMember h.noMarker

/-- No parameter comes before the fields and classes of the name. -/
structure Open (l : Lookup) (c : Context) (name : String) : Prop where
  inMember : c.inMember = false
  noMarker : Marker.digits? name = none
  noParameter : l.onOwnMethod c = true → l.parameterIndex? name = none

theorem Open.unhidden (h : l.Open c name) :
    (if !(c.withLocalScope false).inMember && !(c.withLocalScope false).localScope &&
      l.onOwnMethod (c.withLocalScope false) then l.parameterIndex? name else none) = none := by
  refine ite_eq_right_iff.2 fun ho => ?_
  rw [Bool.and_eq_true] at ho
  exact h.noParameter ho.2

theorem Open.named_of_field (h : l.Open c name) {f : Field} {own : Bool}
    (hf : l.findField name (c.receiverType?.getD .none) = .ok (some (f, own))) :
    l.named (c.withLocalScope false) name = access c name own f := by
  have hf : l.findField name ((c.withLocalScope false).receiverType?.getD .none) = .ok (some (f, own)) := hf
  rw [named_withoutScope h.inMember h.noMarker, fieldOrClass, h.unhidden, hf]
  rfl

theorem Finds.isOpen {found : Option (Field × Bool)} (h : l.Finds c name found) : l.Open c name :=
  ⟨h.inMember, h.noMarker, fun _ => h.noParameter⟩

theorem Finds.field_withoutScope {f : Field} {own : Bool} (h : l.Finds c name (some (f, own))) :
    l.named (c.withLocalScope false) name = access c name own f :=
  h.isOpen.named_of_field h.findField

theorem Finds.withScope {found : Option (Field × Bool)} (h : l.Finds c name found) :
    l.named (c.withLocalScope true) name =
      (found.map fun q => access c name (c.receiver.any Referent.isThis) q.1).getD
        (l.fieldOrClass (c.withLocalScope true) name) := by
  have hm : (c.withLocalScope true).inMember = false := h.inMember
  unfold named
  rw [hm, if_neg (by decide), h.noMarker, h.bareName]
  cases found <;> rfl

theorem access_static {f : Field} (hs : f.isStatic = true) (onReceiver : Bool) :
    access c name onReceiver f = .ok (.field (.className f.owner) f.type f) := by
  unfold access
  rw [if_pos hs]

theorem access_onThis {f : Field} {type : Ty} (hs : f.isStatic = false)
    (hr : c.receiver = some (.this (some type))) :
    access c name true f = .ok (.field (.this (some type)) f.type f) := by
  unfold access
  rw [hs, hr]
  rfl

theorem access_onClassName {f : Field} {type : Ty} (hs : f.isStatic = false)
    (hr : c.receiver = some (.className type)) :
    access c name true f = .error (.invalid name .fieldOfClassName) := by
  unfold access
  rw [hs, hr]
  rfl

theorem access_onOwner {f : Field} (hs : f.isStatic = false) :
    access c name false f = .ok (.field (.this (some f.owner)) f.type f) := by
  unfold access
  rw [hs]
  rfl

/-- The two lookups agree where nothing is found, where the field is static, and where the receiver is `this` just
if its type has the field. -/
theorem Finds.named_eq {found : Option (Field × Bool)} (h : l.Finds c name found)
    (hfound : ∀ f own, found = some (f, own) → f.isStatic = true ∨ own = c.receiver.any Referent.isThis) :
    l.named (c.withLocalScope true) name = l.named (c.withLocalScope false) name := by
  rw [h.withScope]
  cases found with
  | none =>
    rw [h.withoutScope, Option.map_none, Option.getD_none]
    exact fieldOrClass_withLocalScope h.noParameter true false
  | some q =>
    obtain ⟨f, own⟩ := q
    rw [h.field_withoutScope, Option.map_some, Option.getD_some]
    rcases hfound f own rfl with hs | rfl
    · rw [access_static hs, access_static hs]
    · rfl

/-- What a text that is a name refers to. -/
theorem refer_of_isName (h : Token.IsName name) (localScope : Bool) :
    l.refer c localScope name = l.named (c.withLocalScope localScope) name >>= fun r =>
      if r.isClassName && !"class".toList.isSuffixOf name.toList then .error (.invalid name .classNameAtEnd)
      else pure r := by
  obtain ⟨span, hread⟩ := h.read
  unfold refer
  rw [h.expand, hread]
  rfl

theorem refer_of_named_eq_field (h : Token.IsName name) {localScope : Bool} {base : Referent} {type : Ty}
    {f : Field} (hn : l.named (c.withLocalScope localScope) name = .ok (.field base type f)) :
    l.refer c localScope name = .ok (.field base type f) := by
  rw [refer_of_isName h, hn]
  rfl

end Lookup

namespace Program

variable {p q : Program} {className name : String} {method : Option String} {c : Context} {scope : Nat}
  {e : ClassEntry} {m : Option Method}

theorem Entered.finds (h : Entered p className method q c scope e m) (hm : ∀ d ∈ m, name ∉ d.parameterNames)
    (hd : Marker.digits? name = none) :
    (q.lookupFrom scope).Finds c name (q.fieldAround? className name) := by
  refine ⟨hd, h.parameterIndex? hm, ?_, congrArg Except.ok (h.findVariable? hm), h.findField name⟩
  rw [h.context]
  cases m <;> rfl

/-- With and without the local scope a name refers to the same, or fails alike, but for two kinds of non-static
fields. In a static method the class's own field stands under the `this` of its owner, or cannot stand under the
class. Where there is a `this`, a field that only a class around has stands under that `this`, or under the `this`
of its owner, which has another type. -/
theorem Loaded.refer_withoutScope (hp : p.Loaded) (h : p.enter className method = (q, .ok (c, scope)))
    (hx : Token.IsName name) (hd : Marker.digits? name = none)
    (hm : ∀ n ∈ method, ∀ d ∈ p.declaredMethod? className n, name ∉ d.parameterNames) :
    ((∀ f own, q.fieldAround? className name = some (f, own) →
        f.isStatic = true ∨ own = c.receiver.any Referent.isThis) →
      (q.lookupFrom scope).refer c true name = (q.lookupFrom scope).refer c false name) ∧
    (∀ f, q.fieldAround? className name = some (f, true) → f.isStatic = false →
      c.receiver.any Referent.isThis = false →
      (q.lookupFrom scope).refer c true name = .ok (.field (.this (some f.owner)) f.type f) ∧
      (q.lookupFrom scope).refer c false name = .error (.invalid name .fieldOfClassName)) ∧
    (∀ f, q.fieldAround? className name = some (f, false) → f.isStatic = false →
      c.receiver.any Referent.isThis = true →
      ∃ type, c.receiver = some (.this (some type)) ∧ type ≠ f.owner ∧
        (q.lookupFrom scope).refer c true name = .ok (.field (.this (some type)) f.type f) ∧
        (q.lookupFrom scope).refer c false name = .ok (.field (.this (some f.owner)) f.type f)) := by
  obtain ⟨e, m, he⟩ := enter_eq_ok hp.nested h
  have hparams : ∀ d ∈ m, name ∉ d.parameterNames := by
    rintro d rfl
    obtain ⟨n, rfl, hn⟩ := Option.map_eq_some_iff.1 he.method?
    exact hm n rfl d (by rw [declaredMethod?, he.class?]; exact hn)
  have hfinds := he.finds hparams hd
  refine ⟨fun hf => ?_, fun f hf hs hr => ?_, fun f hf hs hr => ?_⟩
  · rw [Lookup.refer_of_isName hx, Lookup.refer_of_isName hx, hfinds.named_eq hf]
  · rw [hf] at hfinds
    rcases he.receiver with hthis | hclass
    · rw [hthis] at hr; cases hr
    · refine ⟨Lookup.refer_of_named_eq_field hx ?_, ?_⟩
      · rw [hfinds.withScope, Option.map_some, Option.getD_some, hr, Lookup.access_onOwner hs]
      · rw [Lookup.refer_of_isName hx, hfinds.field_withoutScope, Lookup.access_onClassName hs hclass]
        rfl
  · rw [hf] at hfinds
    rcases he.receiver with hthis | hclass
    · refine ⟨e.selfType, hthis, ?_, Lookup.refer_of_named_eq_field hx ?_, Lookup.refer_of_named_eq_field hx ?_⟩
      · have howns : q.OwnsMembers := fun e' he' => hp.built.ownsMembers e' (he.classes ▸ he')
        have hclass : q.class? className = some e := by rw [class?_congr he.classes]; exact he.class?
        exact selfType_ne_owner howns hclass hf
      · rw [hfinds.withScope, Option.map_some, Option.getD_some, hr, Lookup.access_onThis hs hthis]
      · rw [hfinds.field_withoutScope, Lookup.access_onOwner hs]
    · rw [hclass] at hr; cases hr

/-- A class with a field and a static method, and a class inside it. -/
def counter : Description where
  imports := []
  classes := [
    ⟨"demo", "Counter", none, false, [], none, [], [⟨"count", "int", false, false⟩],
      [⟨"reset", [], "void", true, false⟩]⟩,
    ⟨"", "Step", some "demo.Counter", false, [], none, [], [], []⟩]

theorem isName_count : Token.IsName "count" := Token.isName_of_toOption ⟨0, 5⟩ (by decide +kernel)

/-- Inside `Step` the name `count` means the field under the `this` of `Step` or under that of `Counter`. -/
theorem refer_withoutScope_outer : ∃ (p q : Program) (c : Context) (scope : Nat) (f : Field) (type : Ty),
    p.Loaded ∧ p.enter "demo.Counter.Step" none = (q, .ok (c, scope)) ∧
      q.fieldAround? "demo.Counter.Step" "count" = some (f, false) ∧
      c.receiver = some (.this (some type)) ∧ type ≠ f.owner ∧
      (q.lookupFrom scope).refer c true "count" = .ok (.field (.this (some type)) f.type f) ∧
      (q.lookupFrom scope).refer c false "count" = .ok (.field (.this (some f.owner)) f.type f) := by
  let f : Field := ⟨"count", .int, .declared "demo.Counter" [], false, false⟩
  obtain ⟨p, q, c, scope, hp, h, hr⟩ := of_load_enter counter "demo.Counter.Step" none
    (fun _ q c _ => (q.fieldAround? "demo.Counter.Step" "count", c.receiver.any Referent.isThis))
    (a := (some (f, false), true)) (by decide +kernel)
  obtain ⟨hf, hthis⟩ := Prod.mk.inj hr
  obtain ⟨type, hthis', hne, hon, hoff⟩ :=
    (hp.refer_withoutScope h isName_count (by decide +kernel) (fun _ hn => nomatch hn)).2.2 f hf rfl hthis
  exact ⟨p, q, c, scope, f, type, hp, h, hf, hthis', hne, hon, hoff⟩

/-- In the static method `reset` the name `count` has a referent with the local scope, and none without it. -/
theorem not_refer_withoutScope_agrees : ¬ ∀ (p q : Program) (className : String) (method : Option String)
    (c : Context) (scope : Nat) (name : String), p.Loaded → p.enter className method = (q, .ok (c, scope)) →
    Token.IsName name → Marker.digits? name = none →
    (∀ n ∈ method, ∀ d ∈ p.declaredMethod? className n, name ∉ d.parameterNames) →
    (∃ r, (q.lookupFrom scope).refer c true name = .ok r ∧ (q.lookupFrom scope).refer c false name = .ok r) ∨
      (∃ a b, (q.lookupFrom scope).refer c true name = .error a ∧
        (q.lookupFrom scope).refer c false name = .error b) := by
  intro hall
  obtain ⟨p, q, c, scope, hp, h, hr⟩ := of_load_enter counter "demo.Counter" (some "reset")
    (fun p q c scope => ((p.declaredMethod? "demo.Counter" "reset").map Method.parameterNames,
      (((q.lookupFrom scope).refer c true "count").toOption.map Referent.text,
        ((q.lookupFrom scope).refer c false "count").toOption.map Referent.text)))
    (a := (some [], some "this.count", none)) (by decide +kernel)
  obtain ⟨hm, hr⟩ := Prod.mk.inj hr
  obtain ⟨hon, hoff⟩ := Prod.mk.inj hr
  have hparams : ∀ n ∈ some "reset", ∀ d ∈ p.declaredMethod? "demo.Counter" n, "count" ∉ d.parameterNames := by
    rintro n ⟨⟩ d hd
    rw [Option.mem_def.1 hd] at hm
    rw [Option.some.inj hm]
    exact List.not_mem_nil
  rcases hall p q _ _ c scope "count" hp h isName_count (by decide +kernel) hparams with ⟨r, -, hr⟩ | ⟨a, -, ha, -⟩
  · rw [hr] at hoff; cases hoff
  · rw [ha] at hon; cases hon

end Program
end AnnotationExpr
