import AnnotationExpr.Proofs.Program.Owners
import AnnotationExpr.Proofs.Resolution.Origin

/-!
The objects under which members stand. Where an expression is resolved in a class or a method of a loaded program,
the base of a field or of a call has the members of the owner, unless a class around it has them: so it is with
fields that the local scope gives to the `this` of a class inside.
-/

namespace AnnotationExpr.Program

variable {p q : Program} {className : String} {method : Option String} {c : Context} {scope : Nat} {e : ClassEntry}
  {m : Option Method}

/-- What holds of the receiver's type, and not of no type at all, holds of the type of a receiver that is there. -/
theorem receiver_of_receiverType {P : Ty → Prop} (hnone : ¬ P .none) {here : Context}
    (h : P (here.receiverType?.getD .none)) : ∃ b t, here.receiver = some b ∧ b.type? = some t ∧ P t := by
  cases ht : here.receiverType? with
  | none =>
    rw [ht] at h
    exact absurd h hnone
  | some t =>
    obtain ⟨b, hb, hbt⟩ := Option.bind_eq_some_iff.1 ht
    rw [ht] at h
    exact ⟨b, t, hb, hbt, h⟩

theorem hasMembersOf_of_findField (hp : p.OwnsMembers) {name : String} {type : Ty} {f : Field} {onReceiver : Bool}
    (h : (p.lookupFrom scope).findField name type = .ok (some (f, onReceiver))) :
    ∃ t, p.HasMembersOf f.owner t ∧ (onReceiver = true → t = type) := by
  obtain ⟨t, ht, hr⟩ | ⟨component, rfl, rfl⟩ := Lookup.field_of_findField h
  · exact ⟨t, hasMembersOf_of_findField? hp (Except.ok.inj ht), hr⟩
  · exact ⟨.array component, .inl rfl, fun _ => rfl⟩

/-- A method is found on the type of the receiver, or on a class around it. -/
theorem hasMembersOf_or_hasAround (hp : p.OwnsMembers) {text name : String} {receiver : Ty} {types : List Ty}
    {m : Method} (h : (p.lookupFrom scope).findMethod text name receiver types = .ok m) :
    p.HasMembersOf m.owner receiver ∨ p.HasAround m.owner receiver := by
  obtain ⟨-, t, ht, hm⟩ := Lookup.method_of_findMethod h
  have hmembers := hasMembersOf_of_findMethod hp hm
  rcases List.mem_cons.1 ht with rfl | ht
  · exact .inl hmembers
  · obtain ⟨d, hd, rfl⟩ := List.mem_map.1 ht
    cases hr : receiver.class? with
    | none => rw [hr] at hd; cases hd
    | some r =>
      rw [hr] at hd
      obtain ⟨e, he, rfl⟩ := List.mem_map.1 hd
      exact .inr ⟨r, hr, e, he, hmembers⟩

/-- The context of a class or of a method has the same receiver outside, and no member in what it brings. -/
theorem Entered.outer (h : Entered p className method q c scope e m) : c.outer = c.receiver := by
  rw [h.context]
  cases m <;> rfl

theorem Entered.not_member (h : Entered p className method q c scope e m) {s n : Referent} (hs : s ∈ c.referents)
    (hn : n ∈ s.nodes) : (∀ base type f, n ≠ .field base type f) ∧ ∀ type d base as, n ≠ .call type d base as := by
  have hleaf : (∃ t, s = .this t) ∨ (∃ t, s = .className t) ∨ ∃ v, s = .var v := by
    have hreceiver : s ∈ c.receiver → (∃ t, s = .this t) ∨ (∃ t, s = .className t) ∨ ∃ v, s = .var v := by
      intro hr
      rcases h.receiver with h | h
      · rw [h] at hr; exact .inl ⟨_, (Option.mem_some_iff.1 hr).symm⟩
      · rw [h] at hr; exact .inr (.inl ⟨_, (Option.mem_some_iff.1 hr).symm⟩)
    simp only [Context.referents, List.mem_append, Option.mem_toList, h.outer, or_self] at hs
    rcases hs with hs | hs
    · exact hreceiver hs
    · rw [h.context] at hs
      cases m with
      | none => cases hs
      | some d =>
        obtain ⟨v, -, rfl⟩ := List.mem_map.1 hs
        exact .inr (.inr ⟨v, rfl⟩)
  obtain ⟨t, rfl⟩ | ⟨t, rfl⟩ | ⟨v, rfl⟩ := hleaf
  all_goals
    rw [List.mem_singleton.1 hn]
    constructor
    · intro base type f h
      cases h
    · intro type d base as h
      cases h

/-- The base of a field has it, but for a field that the local scope finds in a class around: it stands under the
`this` of the place. -/
theorem Entered.base_of_field (h : Entered p className method q c scope e m) (hq : q.OwnsMembers) {localScope : Bool}
    {d : Expr} {base : Referent} {type : Ty} {f : Field} (hs : f.isStatic = false)
    (hf : (q.lookupFrom scope).Made (c.withLocalScope localScope) d (.field base type f)) :
    ∃ t, base.type? = some t ∧ (q.HasMembersOf f.owner t ∨
      localScope = true ∧ c.receiver = some base ∧ base.isThis = true ∧ q.HasAround f.owner t) := by
  have hbase {here : Context} {name : String} {onReceiver : Bool}
      (ha : Lookup.access here name onReceiver f = .ok (.field base type f)) :
      base = (if onReceiver then here.receiver else none).getD (.this (some f.owner)) := by
    obtain ⟨b, hr, hb⟩ := Lookup.access_eq_ok.1 ha
    cases hr
    rw [hs] at hb
    exact hb.1
  obtain ⟨here, name, hh, hls, hn, ha⟩ | ⟨here, name, onReceiver, hn, ha⟩ := hf.source
  · obtain ⟨hown, hclass⟩ := h.hasMembersOf_of_findVariable? hq (Except.ok.inj hn)
    have hreceiver : here.receiver = c.receiver := by
      rcases hh with rfl | rfl
      · rfl
      · exact h.outer
    have hb := hbase ha
    rw [hreceiver] at hb
    rcases h.receiver with hthis | hclassName
    · rw [hthis] at hb
      obtain rfl : base = .this (some e.selfType) := hb
      exact ⟨_, rfl, hclass.imp_right fun ha => ⟨hls, hthis, rfl, ha⟩⟩
    · rw [hclassName] at hb
      obtain rfl : base = .this (some f.owner) := hb
      exact ⟨_, rfl, .inl hown⟩
  · obtain ⟨t, ht, hr⟩ := hasMembersOf_of_findField hq hn
    have hb := hbase ha
    cases onReceiver with
    | true =>
      rw [hr rfl] at ht
      obtain ⟨b, t, hb', hbt, ht⟩ := receiver_of_receiverType (P := q.HasMembersOf f.owner) id ht
      rw [if_pos rfl, hb', Option.getD_some] at hb
      exact ⟨t, hb ▸ hbt, .inl ht⟩
    | false =>
      obtain rfl : base = .this (some f.owner) := hb
      exact ⟨_, rfl, .inl (hasMembersOf_owner ht)⟩

/-- The base of a call has the method, or a class around it has. -/
theorem base_of_call (hp : p.OwnsMembers) {d : Expr} {base : Referent} {type : Ty} {n : Method}
    {passed : List Referent} (hs : n.isStatic = false)
    (hn : (p.lookupFrom scope).Made c d (.call type n base passed)) :
    ∃ t, base.type? = some t ∧ (p.HasMembersOf n.owner t ∨ p.HasAround n.owner t) := by
  obtain ⟨here, text, name, actuals, -, h⟩ | ⟨hv, -⟩ := hn.source
  · obtain ⟨n', passed', hfind, -, hr⟩ := Lookup.invoke_eq_ok h
    split at hr
    next hs' => cases hr; rw [hs] at hs'; cases hs'
    next =>
      obtain ⟨-, hr⟩ := hr
      cases hr
      obtain ⟨b, t, hb, hbt, ht⟩ := receiver_of_receiverType
        (P := fun t => p.HasMembersOf n.owner t ∨ p.HasAround n.owner t)
        (fun h => h.elim id fun ⟨d, hd, _⟩ => nomatch hd) (hasMembersOf_or_hasAround hp hfind)
      exact ⟨t, by rw [hb]; exact hbt, ht⟩
  · rw [(valueOf?_eq_some hv).1] at hs
    cases hs

/-- Where a text is resolved in a class or a method, every non-static field stands under an object that has it, but
for the fields that the local scope finds in a class around: these stand under the `this` of the place. Every call of
a method that is not static stands under an object that has it, or that stands in a class that does. -/
theorem Loaded.members_of_base (hp : p.Loaded) (h : p.enter className method = (q, .ok (c, scope)))
    {localScope : Bool} {text : String} {r : Referent} (hr : (q.lookupFrom scope).refer c localScope text = .ok r) :
    (∀ base type f, .field base type f ∈ r.nodes → f.isStatic = false →
      ∃ t, base.type? = some t ∧ (q.HasMembersOf f.owner t ∨
        localScope = true ∧ c.receiver = some base ∧ base.isThis = true ∧ q.HasAround f.owner t)) ∧
    (∀ type m base passed, .call type m base passed ∈ r.nodes → m.isStatic = false →
      ∃ t, base.type? = some t ∧ (q.HasMembersOf m.owner t ∨ q.HasAround m.owner t)) := by
  obtain ⟨e, m, he⟩ := enter_eq_ok hp.nested h
  have hq : q.OwnsMembers := fun d hd => hp.built.ownsMembers d (he.classes ▸ hd)
  obtain ⟨d, -, hd, -⟩ := Lookup.refer_eq_ok.1 hr
  refine ⟨fun base type f hn hs => ?_, fun type n base passed hn hs => ?_⟩
  · rcases hd.known _ hn with ⟨s, hmem, hns⟩ | hmade
    · exact absurd rfl ((he.not_member hmem hns).1 base type f)
    · exact he.base_of_field hq hs hmade
  · rcases hd.known _ hn with ⟨s, hmem, hns⟩ | hmade
    · exact absurd rfl ((he.not_member hmem hns).2 type n base passed)
    · exact base_of_call hq hs hmade

/-- A class with a field and a method, and a class inside it. -/
def counting : Description where
  imports := []
  classes := [
    ⟨"demo", "Counter", none, false, [], none, [], [⟨"count", "int", false, false⟩],
      [⟨"after", [("n", "int")], "int", false, false⟩]⟩,
    ⟨"", "Step", some "demo.Counter", false, [], none, [], [], []⟩]

/-- Inside `Step` both `count` and `after` stand under the `this` of `Step`, and a class around it has them. -/
theorem members_of_base_around : ∃ (p q : Program) (c : Context) (scope : Nat) (r : Referent),
    p.Loaded ∧ p.enter "demo.Counter.Step" none = (q, .ok (c, scope)) ∧
      (q.lookupFrom scope).refer c true "after(count)" = .ok r ∧ r.text = "this.after(this.count)" ∧
      (∀ base type f, .field base type f ∈ r.nodes → f.isStatic = false →
        ∃ t, base.type? = some t ∧ (q.HasMembersOf f.owner t ∨
          c.receiver = some base ∧ base.isThis = true ∧ q.HasAround f.owner t)) ∧
      (∀ type m base passed, .call type m base passed ∈ r.nodes → m.isStatic = false →
        ∃ t, base.type? = some t ∧ (q.HasMembersOf m.owner t ∨ q.HasAround m.owner t)) := by
  obtain ⟨p, q, c, scope, hp, h, hr⟩ := of_load_enter counting "demo.Counter.Step" none
    (fun _ q c scope => ((q.lookupFrom scope).refer c true "after(count)").toOption.map Referent.text)
    (a := some "this.after(this.count)") (by decide +kernel)
  obtain ⟨r, hr, htext⟩ := of_toOption_map hr
  obtain ⟨hfield, hcall⟩ := hp.members_of_base h hr
  refine ⟨p, q, c, scope, r, hp, h, hr, htext, fun base type f hn hs => ?_, hcall⟩
  obtain ⟨t, ht, hm⟩ := hfield base type f hn hs
  exact ⟨t, ht, hm.imp_right And.right⟩

/-- The type of the base of a field, and the field. -/
def fieldUnder? : Referent → Option (Option Ty × Field)
  | .field base _ f => some (base.type?, f)
  | _ => none

/-- Inside `Step` the local scope puts `count` under the `this` of `Step`, which has no field of `Counter`. -/
theorem not_members_of_base : ¬ ∀ (p q : Program) (className : String) (method : Option String) (c : Context)
    (scope : Nat) (localScope : Bool) (text : String) (r : Referent), p.Loaded →
    p.enter className method = (q, .ok (c, scope)) → (q.lookupFrom scope).refer c localScope text = .ok r →
    (∀ base type f, .field base type f ∈ r.nodes → f.isStatic = false →
      ∃ t, base.type? = some t ∧ q.HasMembersOf f.owner t) ∧
    (∀ type m base passed, .call type m base passed ∈ r.nodes → m.isStatic = false →
      ∃ t, base.type? = some t ∧ q.HasMembersOf m.owner t) := by
  intro hall
  let step : ClassType := ⟨"demo.Counter.Step", []⟩
  let count : Field := ⟨"count", .int, .declared "demo.Counter" [], false, false⟩
  obtain ⟨p, q, c, scope, hp, h, hr⟩ := of_load_enter counting "demo.Counter.Step" none
    (fun _ q c scope => (((q.lookupFrom scope).refer c true "count").toOption.map fieldUnder?,
      (q.hierarchy step).map ClassType.name))
    (a := (some (some (some step.toTy, count)), ["demo.Counter.Step", objectClass])) (by decide +kernel)
  obtain ⟨hr, hnames⟩ := Prod.mk.inj hr
  obtain ⟨r, hr, hunder⟩ := of_toOption_map hr
  obtain ⟨base, type, f, rfl⟩ : ∃ base type f, r = .field base type f := by
    cases r with
    | field base type f => exact ⟨base, type, f, rfl⟩
    | _ => cases hunder
  obtain ⟨hbase, rfl⟩ := Prod.mk.inj (Option.some.inj hunder)
  obtain ⟨t, ht, habove⟩ := (hall p q _ _ c scope true "count" _ hp h hr).1 base type count List.mem_cons_self rfl
  rw [hbase] at ht
  cases ht
  obtain ⟨d, hd, as, howner⟩ := habove
  have hname : d.name ∈ ["demo.Counter.Step", objectClass] := hnames ▸ List.mem_map_of_mem hd
  rw [← (Ty.declared.inj howner).1] at hname
  exact absurd hname (by decide)

end AnnotationExpr.Program
