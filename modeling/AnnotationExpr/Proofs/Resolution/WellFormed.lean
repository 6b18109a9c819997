import AnnotationExpr.Proofs.Program.Choice
import AnnotationExpr.Proofs.Resolution.Origin

/-!
Resolution gives well-formed referents for well-formed contexts: what one step makes is as the language has it. It
is shown for every service whose answers fit together, and then that a program that was built is such a service.
-/

namespace AnnotationExpr

structure Context.WellFormed (c : Context) : Prop where
  receiver : ∀ r ∈ c.receiver, r.WellFormed
  outer : ∀ r ∈ c.outer, r.WellFormed
  arguments : ∀ rs ∈ c.arguments, ∀ r ∈ rs, r.WellFormed

theorem Context.WellFormed.of_referents {c : Context} (hc : c.WellFormed) {r : Referent} (hr : r ∈ c.referents) :
    r.WellFormed := by
  rw [Context.referents, List.mem_append, List.mem_append] at hr
  rcases hr with (hr | hr) | hr
  · exact hc.receiver r (Option.mem_toList.1 hr)
  · exact hc.outer r (Option.mem_toList.1 hr)
  · cases ha : c.arguments with
    | none => rw [ha] at hr; cases hr
    | some rs => rw [ha] at hr; exact hc.arguments rs ha r hr

namespace Lookup

/-- Static members belong to classes, methods are chosen for arguments they take, and a boxing class boxes by
a static method of its own with one parameter. -/
structure Consistent (l : Lookup) : Prop where
  bareName : ∀ {name f}, l.bareName name = .ok (some (.field f)) → f.isStatic = true →
    ∃ n as, f.owner = .declared n as
  field : ∀ {name type f}, l.field name type = .ok (some f) → f.isStatic = true → ∃ n as, f.owner = .declared n as
  method : ∀ {name type types m}, l.method name type types = .ok (some m) →
    m.Accepts types.length ∧ (m.isStatic = true → ∃ n as, m.owner = .declared n as)
  valueOf : ∀ {type m}, l.valueOf type = some m → m.isStatic = true ∧ m.kind = .method ∧ m.parameters.length = 1 ∧
    ∃ n as bs, type = .declared n as ∧ m.owner = .declared n bs

variable {l : Lookup} {c : Context} {e : Expr}

theorem proper_of_access {name : String} {onReceiver : Bool} {f : Field} {n : Referent}
    (hf : f.isStatic = true → ∃ n as, f.owner = .declared n as) (h : access c name onReceiver f = .ok n) :
    n.Proper := by
  obtain ⟨base, rfl, hbase⟩ := access_eq_ok.1 h
  refine ⟨?_, rfl⟩
  unfold Referent.Roots
  split at hbase
  next hs =>
    obtain ⟨n, as, ho⟩ := hf hs
    rw [if_pos hs, hbase]
    exact ⟨n, as, as, congrArg _ ho, ho⟩
  next hs =>
    rw [if_neg hs]
    exact hbase.2

theorem proper_of_invoke (hl : l.Consistent) {text name : String} {actuals : List Referent} {n : Referent}
    (h : l.invoke c text name actuals = .ok n) : n.Proper := by
  obtain ⟨m, passed, hm, hp, h⟩ := invoke_eq_ok h
  obtain ⟨hk, t, -, ht⟩ := method_of_findMethod hm
  obtain ⟨haccepts, howner⟩ := hl.method ht
  have hkind : m.kind = .method := by simpa [Method.isMethod] using hk
  have hcount : m.Accepts passed.length := by simpa [(boxed_of_boxAll hp).length_eq] using haccepts
  split at h
  next hs =>
    obtain ⟨n, as, ho⟩ := howner hs
    subst h
    refine ⟨?_, hkind, hcount⟩
    rw [Referent.Roots, if_pos hs]
    exact ⟨n, as, as, congrArg _ ho, ho⟩
  next hs =>
    obtain ⟨hbase, rfl⟩ := h
    refine ⟨?_, hkind, hcount⟩
    rw [Referent.Roots, if_neg hs]
    exact hbase

/-- What one step makes is as the language has it. -/
theorem Made.proper (hl : l.Consistent) {n : Referent} (h : l.Made c e n) : n.Proper := by
  cases h with
  | value | this | className | var => trivial
  | inScope _ _ hf ha => exact proper_of_access (hl.bareName hf) ha
  | field hf ha =>
    refine proper_of_access ?_ ha
    rcases field_of_findField hf with ⟨t, hf, -⟩ | ⟨component, -, rfl⟩
    · exact hl.field hf
    · intro hs
      cases hs
  | element _ _ ht => exact ht
  | call _ h => exact proper_of_invoke hl h
  | boxed _ h =>
    obtain ⟨hs, hk, hlen, n, as, bs, rfl, ho⟩ := hl.valueOf h
    refine ⟨?_, hk, .inl hlen.symm⟩
    rw [Referent.Roots, if_pos hs]
    exact ⟨n, as, bs, rfl, ho⟩

theorem wellFormed_resolve (hl : l.Consistent) {c : Context} (hc : c.WellFormed) {r : Referent} (e : Expr)
    (h : l.resolve c e = .ok r) : r.WellFormed := by
  intro n hn
  rcases (resolve_eq_ok_iff.1 h).known n hn with ⟨s, hs, hns⟩ | hmade
  · exact hc.of_referents hs n hns
  · exact hmade.proper hl

end Lookup

namespace Program

theorem owner_of_inheritedField? {p : Program} (hp : p.OwnsMembers) {d : ClassType} {name : String} {f : Field}
    (h : p.inheritedField? d name = some f) : ∃ n as, f.owner = .declared n as := by
  obtain ⟨t, -, e, he, g, hg, -, rfl⟩ := inheritedField?_eq_some h
  obtain ⟨as, ho⟩ := (hp e (mem_of_class? he)).field g hg
  exact ⟨_, as, ho⟩

theorem owner_of_findVariable? {p : Program} (hp : p.OwnsMembers) {scope : Nat} {name : String} {f : Field}
    (h : p.findVariable? scope name = some (.field f)) : ∃ n as, f.owner = .declared n as := by
  obtain ⟨s, -, h⟩ := List.exists_of_findSome?_eq_some h
  unfold namedIn? at h
  split at h
  · cases h
  · obtain ⟨e, -, h⟩ := Option.bind_eq_some_iff.1 h
    obtain ⟨g, hg, h⟩ := Option.map_eq_some_iff.1 h
    cases h
    exact owner_of_inheritedField? hp hg

theorem consistent_lookupFrom {p : Program} (hp : p.OwnsMembers) (scope : Nat) :
    (p.lookupFrom scope).Consistent where
  bareName h _ := owner_of_findVariable? hp (Except.ok.inj h)
  field {_ type _} h hs := by
    cases type with
    | declared n as => exact owner_of_inheritedField? hp (Except.ok.inj h)
    | array component =>
      obtain ⟨-, hlength⟩ := Option.ite_none_right_eq_some.1 (Except.ok.inj h)
      cases hlength
      cases hs
    | _ => cases h
  method h := by
    obtain ⟨-, ha, ho⟩ := findMethod_eq_some h
    refine ⟨ha, fun hs => ?_⟩
    rcases ho with ⟨component, -, rfl⟩ | ⟨d, -, t, -, e, he, hm⟩
    · cases hs
    · exact ⟨_, (hp e (mem_of_class? he)).method _ hm⟩
  valueOf h := by
    obtain ⟨hs, hlen, n, as, e, rfl, he, hm⟩ := valueOf?_eq_some h
    have hk := (hp e (mem_of_class? he)).isMethod _ hm hs
    obtain ⟨bs, ho⟩ := (hp e (mem_of_class? he)).method _ hm
    exact ⟨hs, by simpa [Method.isMethod] using hk, hlen, n, as, bs, rfl, qualifiedName_of_class? he ▸ ho⟩

/-- In a program that was built, what an expression refers to is well-formed at every node. -/
theorem Built.wellFormed_referent {p : Program} (hp : p.Built) (scope : Nat) {c : Context} (hc : c.WellFormed)
    {e : Expr} {r : Referent} (h : (p.lookupFrom scope).resolve c e = .ok r) : r.WellFormed :=
  Lookup.wellFormed_resolve (consistent_lookupFrom hp.ownsMembers scope) hc e h

/-- `this.take(#1)` for a number, where `take` wants an `Integer` and then any number of objects. -/
theorem wellFormed_referent_boxed : ∃ (p : Program) (c : Context) (e : Expr) (r : Referent),
    p.Built ∧ c.WellFormed ∧ (p.lookupFrom 0).resolve c e = .ok r ∧
      r.text = "this.take(java.lang.Integer.valueOf(5))" ∧ r.WellFormed := by
  let p := initial.build "demo" none "A" [.method (.method "take"
    [("n", .declared "java.lang.Integer" []), ("rest", .array .object)] .int false true)]
  let c := Context.methodUse (.this (some (.declared "demo.A" []))) [.value (.int 5)]
  let e : Expr := .memberCall ⟨0, 13⟩ (.this ⟨0, 4⟩) "take" [.name ⟨10, 2⟩ "_param_1"]
  have hp : p.Built := Built.initial.build ..
  have hc : c.WellFormed :=
    have hthis : ∀ r ∈ c.receiver, r.WellFormed := by
      rintro r ⟨⟩; exact Referent.wellFormed_this _
    ⟨hthis, hthis, by rintro rs ⟨⟩ r hr; rw [List.mem_singleton.1 hr]; exact Referent.wellFormed_value _⟩
  have hr : ((p.lookupFrom 0).resolve c e).toOption.map Referent.text =
      some "this.take(java.lang.Integer.valueOf(5))" := by decide +kernel
  obtain ⟨r, h, htext⟩ := of_toOption_map hr
  exact ⟨p, c, e, r, hp, hc, h, htext, hp.wellFormed_referent 0 hc h⟩

end Program
end AnnotationExpr
