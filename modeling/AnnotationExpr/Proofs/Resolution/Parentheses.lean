import AnnotationExpr.Proofs.Expr.Tree
import AnnotationExpr.Proofs.Resolution.Answers
import AnnotationExpr.Proofs.Resolution.Chain

/-!
Parentheses do not change what an expression refers to. Without them a field access may have a dotted scope that it
had not before, so this takes that no such scope is the name of a package. Every other step reads only the referents
of the parts; the text of the expression goes into errors and nowhere else.
-/

namespace AnnotationExpr

/-- The computations have the same results. Where they fail, they may fail in different ways. -/
def SameResults {ε α : Type} (x y : Except ε α) : Prop := ∀ a, x = .ok a ↔ y = .ok a

namespace SameResults

variable {ε α β : Type} {x y : Except ε α} {f g : α → Except ε β}

theorem refl (x : Except ε α) : SameResults x x := fun _ => Iff.rfl

theorem error (e e' : ε) : SameResults (.error e : Except ε α) (.error e') := fun _ => ⟨nofun, nofun⟩

theorem bind (h : SameResults x y) (hf : ∀ a, SameResults (f a) (g a)) : SameResults (x >>= f) (y >>= g) := by
  intro b
  rw [bind_eq_ok, bind_eq_ok]
  exact exists_congr fun a => and_congr (h a) (hf a b)

end SameResults

namespace Expr

mutual

/-- The expression with what is between parentheses in place of each pair of them. -/
def unenclosed : Expr → Expr
  | literal s v => literal s v
  | this s => this s
  | super s => super s
  | name s n => name s n
  | enclosed _ e => e.unenclosed
  | field s e n => field s e.unenclosed n
  | element s a i => element s a.unenclosed i.unenclosed
  | call s n es => call s n (unenclosedAll es)
  | memberCall s e n es => memberCall s e.unenclosed n (unenclosedAll es)
  | classLiteral s t => classLiteral s t
  | unary s op e => unary s op e.unenclosed
  | binary s op a b => binary s op a.unenclosed b.unenclosed

def unenclosedAll : List Expr → List Expr
  | [] => []
  | e :: es => e.unenclosed :: unenclosedAll es

end

def fieldScope? : Expr → Option Expr
  | field _ e _ => some e
  | _ => none

/-- The scopes of all field accesses inside the expression. -/
def fieldScopes (e : Expr) : List Expr := e.nodes.filterMap fieldScope?

end Expr

namespace Lookup

variable {l : Lookup} {c : Context}

/-- No field access among the expressions has the name of a package as its scope. -/
def NoPackageScope (l : Lookup) (nodes : List Expr) : Prop := ∀ d ∈ nodes.filterMap Expr.fieldScope?, l.NoPackage d

theorem noPackageScope_append {ns ns' : List Expr} :
    l.NoPackageScope (ns ++ ns') ↔ l.NoPackageScope ns ∧ l.NoPackageScope ns' := by
  simp only [NoPackageScope, List.filterMap_append, List.mem_append, or_imp, forall_and]

theorem noPackageScope_field {s : Span} {e : Expr} {n : String} :
    l.NoPackageScope (Expr.field s e n).nodes ↔ l.NoPackage e ∧ l.NoPackageScope e.nodes := by
  have hcons : (Expr.field s e n).nodes.filterMap Expr.fieldScope? = e :: e.nodes.filterMap Expr.fieldScope? :=
    List.filterMap_cons_some rfl
  rw [NoPackageScope, hcons, List.forall_mem_cons]
  rfl

section Text

variable (text text' : String)

theorem sameResults_asked {α : Type} (answer : Answer α) : SameResults (asked text answer) (asked text' answer) :=
  fun _ => asked_eq_ok.trans asked_eq_ok.symm

theorem sameResults_firstMethod (name : String) (types : List Ty) (ds : List ClassType) :
    SameResults (l.firstMethod text name types ds) (l.firstMethod text' name types ds) := by
  induction ds with
  | nil => exact .refl _
  | cons d ds ih =>
    refine (sameResults_asked text text' _).bind fun found => ?_
    split
    · exact .refl _
    · exact ih

theorem sameResults_findMethod (name : String) (receiver : Ty) (types : List Ty) :
    SameResults (l.findMethod text name receiver types) (l.findMethod text' name receiver types) := by
  have hanswered :
      SameResults (l.answeredMethod text name receiver types) (l.answeredMethod text' name receiver types) := by
    unfold answeredMethod
    cases receiver with
    | array component => exact sameResults_asked text text' _
    | declared n as => exact sameResults_firstMethod text text' name types _
    | _ => exact .refl _
  refine hanswered.bind fun found => ?_
  cases found with
  | none => exact .error _ _
  | some m =>
    dsimp only
    split
    · exact .refl _
    · exact .error _ _

theorem sameResults_box (formal : Ty) (actual : Referent) :
    SameResults (l.box text formal actual) (l.box text' formal actual) := by
  unfold box
  split
  · cases l.valueOf formal with
    | some m => exact .refl _
    | none => exact .error _ _
  · exact .refl _

theorem sameResults_boxAll :
    ∀ (formals : List Ty) (actuals : List Referent),
      SameResults (l.boxAll text formals actuals) (l.boxAll text' formals actuals)
  | [], _ => .refl _
  | _ :: _, [] => .refl _
  | t :: ts, a :: as =>
    (sameResults_box text text' t a).bind fun _ => (sameResults_boxAll ts as).bind fun _ => .refl _

/-- The text of a call does not decide what it refers to. -/
theorem sameResults_invoke (c : Context) (name : String) (actuals : List Referent) :
    SameResults (l.invoke c text name actuals) (l.invoke c text' name actuals) := by
  unfold invoke
  refine (sameResults_findMethod text text' name _ _).bind fun m => ?_
  refine (sameResults_boxAll text text' m.parameterTypes actuals).bind fun passed => ?_
  split
  · exact .refl _
  · dsimp only
    split
    · exact .error _ _
    · exact .refl _

end Text

/-- The expressions refer to the same in a context. -/
def Coincide (l : Lookup) (c : Context) (e e' : Expr) : Prop := SameResults (l.resolve c e) (l.resolve c e')

def CoincideAll (l : Lookup) (c : Context) (es es' : List Expr) : Prop :=
  SameResults (l.resolveAll c es) (l.resolveAll c es')

theorem Coincide.field {s : Span} {e e' : Expr} {n : String} (h : l.Coincide c e e') (he : l.NoPackage e)
    (he' : l.NoPackage e') : l.Coincide c (.field s e n) (.field s e' n) := by
  unfold Coincide
  rw [resolve_field he, resolve_field he']
  exact h.bind fun _ => .refl _

theorem Coincide.element {s : Span} {a a' i i' : Expr} (ha : l.Coincide c a a') (hi : l.Coincide c.toOuter i i') :
    l.Coincide c (.element s a i) (.element s a' i') := by
  unfold Coincide
  rw [resolve, resolve]
  refine ha.bind fun array => hi.bind fun index => ?_
  split
  · exact .refl _
  · exact .error _ _

theorem CoincideAll.call {s : Span} {n : String} {es es' : List Expr} (h : l.CoincideAll c.toOuter es es') :
    l.Coincide c (.call s n es) (.call s n es') := by
  unfold Coincide
  rw [resolve, resolve]
  exact h.bind fun actuals => sameResults_invoke _ _ c n actuals

theorem CoincideAll.memberCall {s : Span} {e e' : Expr} {n : String} {es es' : List Expr}
    (h : l.CoincideAll c.toOuter es es') (he : l.Coincide c e e') :
    l.Coincide c (.memberCall s e n es) (.memberCall s e' n es') := by
  unfold Coincide
  rw [resolve, resolve]
  exact he.bind fun before => h.bind fun actuals => sameResults_invoke _ _ (c.memberOf before) n actuals

theorem CoincideAll.cons {e e' : Expr} {es es' : List Expr} (h : l.CoincideAll c es es') (he : l.Coincide c e e') :
    l.CoincideAll c (e :: es) (e' :: es') := by
  unfold CoincideAll
  rw [resolveAll, resolveAll]
  exact he.bind fun r => h.bind fun rs => .refl _

mutual

theorem coincide_unenclosed (c : Context) (e : Expr) (h : l.NoPackageScope e.nodes)
    (h' : l.NoPackageScope e.unenclosed.nodes) : l.Coincide c e e.unenclosed := by
  cases e with
  | literal s v => exact .refl _
  | this s => exact .refl _
  | super s => exact .refl _
  | name s n => exact .refl _
  | classLiteral s t => exact .refl _
  | enclosed s e =>
    unfold Coincide
    rw [resolve]
    exact coincide_unenclosed c e h h'
  | field s e n =>
    rw [Expr.unenclosed] at h' ⊢
    rw [noPackageScope_field] at h h'
    exact (coincide_unenclosed c e h.2 h'.2).field h.1 h'.1
  | element s a i =>
    rw [Expr.unenclosed] at h' ⊢
    have ⟨ha, hi⟩ := noPackageScope_append.1 h
    have ⟨ha', hi'⟩ := noPackageScope_append.1 h'
    exact (coincide_unenclosed c a ha ha').element (coincide_unenclosed c.toOuter i hi hi')
  | call s n es => exact (coincide_unenclosedAll c.toOuter es h h').call
  | memberCall s e n es =>
    rw [Expr.unenclosed] at h' ⊢
    have ⟨he, hes⟩ := noPackageScope_append.1 h
    have ⟨he', hes'⟩ := noPackageScope_append.1 h'
    exact (coincide_unenclosedAll c.toOuter es hes hes').memberCall (coincide_unenclosed c e he he')
  -- an operator refers to nothing, whatever its operands are
  | unary s op e => exact .error _ _
  | binary s op a b => exact .error _ _

theorem coincide_unenclosedAll (c : Context) (es : List Expr) (h : l.NoPackageScope (Expr.nodesAll es))
    (h' : l.NoPackageScope (Expr.nodesAll (Expr.unenclosedAll es))) : l.CoincideAll c es (Expr.unenclosedAll es) := by
  cases es with
  | nil => exact .refl _
  | cons e es =>
    rw [Expr.unenclosedAll] at h' ⊢
    have ⟨he, hes⟩ := noPackageScope_append.1 h
    have ⟨he', hes'⟩ := noPackageScope_append.1 h'
    exact (coincide_unenclosedAll c es hes hes').cons (coincide_unenclosed c e he he')

end

end Lookup

namespace Program

/-- An expression refers to what it refers to without its parentheses, where no scope of a field access with or
without them is the name of a package. -/
theorem resolve_unenclosed (p : Program) (scope : Nat) (c : Context) (e : Expr)
    (h : ∀ d ∈ e.fieldScopes ++ e.unenclosed.fieldScopes, ∀ text ∈ d.dottedText?, p.package? text = none)
    (r : Referent) :
    (p.lookupFrom scope).resolve c e = .ok r ↔ (p.lookupFrom scope).resolve c e.unenclosed = .ok r := by
  refine Lookup.coincide_unenclosed c e ?_ ?_ r
  · exact fun d hd text ht => congrArg Except.ok (h d (List.mem_append_left _ hd) text ht)
  · exact fun d hd text ht => congrArg Except.ok (h d (List.mem_append_right _ hd) text ht)

/-- `((this).next).all[(0)].pick(((#1)))` -/
theorem resolve_unenclosed_pick : ∃ (p : Program) (c : Context) (e : Expr) (r : Referent),
    e.text = "((this).next).all[(0)].pick(((_param_1)))" ∧
      e.unenclosed.text = "this.next.all[0].pick(_param_1)" ∧
      (∀ d ∈ e.fieldScopes ++ e.unenclosed.fieldScopes, ∀ text ∈ d.dottedText?, p.package? text = none) ∧
      r.text = "this.next.all[0].pick(5)" ∧ (p.lookupFrom 0).resolve c e = .ok r ∧
      (p.lookupFrom 0).resolve c e.unenclosed = .ok r := by
  let a : Ty := .declared "demo.A" []
  let p := initial.build "demo" none "A" [.field ⟨"next", a, false, false⟩, .field ⟨"all", .array a, false, false⟩,
    .method (.method "pick" [("n", .int)] a false false)]
  let c := Context.methodUse (.this (some a)) [.value (.int 5)]
  let index : Expr := .enclosed ⟨18, 3⟩ (.literal ⟨19, 1⟩ (.value (.int 0)))
  let argument : Expr := .enclosed ⟨28, 6⟩ (.enclosed ⟨29, 4⟩ (.name ⟨30, 2⟩ "_param_1"))
  let e : Expr := .memberCall ⟨0, 35⟩
    (.element ⟨0, 22⟩ (.field ⟨0, 17⟩ (.enclosed ⟨0, 13⟩ (.field ⟨1, 11⟩ (.enclosed ⟨1, 6⟩ (.this ⟨2, 4⟩)) "next"))
      "all") index) "pick" [argument]
  have h : ∀ d ∈ e.fieldScopes ++ e.unenclosed.fieldScopes, ∀ text ∈ d.dottedText?, p.package? text = none := by
    decide +kernel
  have hr : ((p.lookupFrom 0).resolve c e).toOption.map Referent.text = some "this.next.all[0].pick(5)" := by
    decide +kernel
  obtain ⟨r, hr, htext⟩ := of_toOption_map hr
  exact ⟨p, c, e, r, by decide +kernel, by decide +kernel, h, htext, hr, (p.resolve_unenclosed 0 c e h r).1 hr⟩

/-- `(java.lang).String` has no referent, as no name alone stands for a package. Without the parentheses it has one. -/
example :
    let s : Span := ⟨0, 0⟩
    let e : Expr := .field s (.enclosed s (.field s (.name s "java") "lang")) "String"
    let l := initial.lookupFrom rootScope
    (l.resolve (.new none none) e).isOk = false ∧ (l.resolve (.new none none) e.unenclosed).isOk = true := by
  decide +kernel

end Program
end AnnotationExpr
