import AnnotationExpr.Program.Service
import AnnotationExpr.Proofs.Program.Built
import AnnotationExpr.Resolution

/-!
Chains of members. A chain has a root, which is a name or a call, and links that follow it. Behind an
expression `a` the root becomes a member of `a`, and the chain then refers to what it refers to as a member of
the referent of `a`: each link reads its receiver from the expression before it, and its arguments and indices
go back to the outer receiver, which no member changes.
-/

namespace AnnotationExpr

/-- What may follow an expression. -/
inductive Link where
  | field (span : Span) (name : String)
  | element (span : Span) (index : Expr)
  | call (span : Span) (name : String) (arguments : List Expr)

def Link.onto (e : Expr) : Link → Expr
  | field s name => .field s e name
  | element s index => .element s e index
  | call s name arguments => .memberCall s e name arguments

inductive Root where
  | name (span : Span) (name : String)
  | call (span : Span) (name : String) (arguments : List Expr)

namespace Root

def expr : Root → Expr
  | name s n => .name s n
  | call s n arguments => .call s n arguments

/-- What the root becomes behind an expression. -/
def link : Root → Link
  | name s n => .field s n
  | call s n arguments => .call s n arguments

end Root

structure Chain where
  root : Root
  links : List Link

namespace Chain

def expr (s : Chain) : Expr := s.links.foldl Link.onto s.root.expr

/-- The chain with the scope `a` at its root. -/
def under (a : Expr) (s : Chain) : Expr := (s.root.link :: s.links).foldl Link.onto a

/-- The scopes of the field accesses among the links that follow `e`. -/
def fieldScopes (e : Expr) : List Link → List Expr
  | [] => []
  | .field s name :: links => e :: fieldScopes ((Link.field s name).onto e) links
  | link :: links => fieldScopes (link.onto e) links

theorem fieldScopes_cons (e : Expr) (link : Link) (links : List Link) :
    fieldScopes e (link :: links) = fieldScopes e [link] ++ fieldScopes (link.onto e) links := by
  cases link <;> rfl

/-- The scopes of the field accesses of a chain and of the chain behind `a`, from the root on. -/
def scopes (a : Expr) (s : Chain) : List Expr :=
  fieldScopes s.root.expr s.links ++ fieldScopes a (s.root.link :: s.links)

end Chain

namespace Lookup

variable {l : Lookup} {c : Context}

/-- The expression is not the name of a package. -/
def NoPackage (l : Lookup) (e : Expr) : Prop := ∀ text ∈ e.dottedText?, l.package text = .ok none

/-- The ways in which a link that follows an expression with the referent `before` has the referent `r`. -/
inductive Follows (l : Lookup) (c : Context) (before : Referent) : Link → Referent → Prop where
  | field {s : Span} {name : String} {r : Referent} (h : l.named (c.memberOf before) name = .ok r) :
      Follows l c before (.field s name) r
  | element {s : Span} {index : Expr} {component : Ty} {i : Referent}
      (hi : l.resolve c.toOuter index = .ok i) (ht : before.type? = some (.array component)) :
      Follows l c before (.element s index) (.element component before i)
  | call {s : Span} {name : String} {arguments : List Expr} {actuals : List Referent} {r : Referent}
      (ha : l.resolveAll c.toOuter arguments = .ok actuals)
      (h : l.invoke (c.memberOf before) (name ++ Expr.argumentsText (Expr.texts arguments)) name actuals = .ok r) :
      Follows l c before (.call s name arguments) r

theorem member_of_noPackage {text name outer : String} {scope : Except ResolveError Referent}
    (h : l.package outer = .ok none) :
    l.member c text (some outer) name scope = l.member c text none name scope := by
  unfold member
  dsimp only
  rw [h]
  rfl

theorem resolve_field {s : Span} {e : Expr} {name : String} (he : l.NoPackage e) :
    l.resolve c (.field s e name) = l.resolve c e >>= fun r => l.named (c.memberOf r) name := by
  rw [resolve]
  cases ht : e.dottedText? with
  | none => rfl
  | some text => exact member_of_noPackage (he text ht)

/-- The referent of a link comes from the referent of what it follows. -/
theorem resolve_onto {link : Link} {e : Expr} {r : Referent}
    (he : ∀ d ∈ Chain.fieldScopes e [link], l.NoPackage d) :
    l.resolve c (link.onto e) = .ok r ↔ ∃ before, l.resolve c e = .ok before ∧ l.Follows c before link r := by
  cases link with
  | field s name =>
    rw [Link.onto, resolve_field (he e (by simp [Chain.fieldScopes])), bind_eq_ok]
    refine exists_congr fun before => and_congr_right fun _ => ⟨.field, ?_⟩
    rintro ⟨h⟩
    exact h
  | element s index =>
    rw [Link.onto, resolve, bind_eq_ok]
    refine exists_congr fun before => and_congr_right fun _ => ?_
    rw [bind_eq_ok]
    constructor
    · rintro ⟨i, hi, h⟩
      split at h
      next component ht => cases h; exact .element hi ht
      next => cases h
    · intro h
      cases h with
      | element hi ht => exact ⟨_, hi, by rw [ht]; rfl⟩
  | call s name arguments =>
    rw [Link.onto, resolve, bind_eq_ok]
    refine exists_congr fun before => and_congr_right fun _ => ?_
    rw [bind_eq_ok]
    constructor
    · rintro ⟨actuals, ha, h⟩
      exact .call ha h
    · intro h
      cases h with
      | call ha h => exact ⟨_, ha, h⟩

/-- The expression before a link decides the receiver, so the receiver of the context does not matter. -/
theorem follows_memberOf {a before r : Referent} {link : Link} :
    l.Follows (c.memberOf a) before link r ↔ l.Follows c before link r := by
  constructor
  · rintro (h | ⟨hi, ht⟩ | ⟨ha, h⟩)
    · exact .field h
    · exact .element hi ht
    · exact .call ha h
  · rintro (h | ⟨hi, ht⟩ | ⟨ha, h⟩)
    · exact .field h
    · exact .element hi ht
    · exact .call ha h

theorem follows_root {root : Root} {a r : Referent} :
    l.Follows c a root.link r ↔ l.resolve (c.memberOf a) root.expr = .ok r := by
  cases root with
  | name s n =>
    refine ⟨?_, .field⟩
    rintro ⟨h⟩
    exact h
  | call s n arguments =>
    rw [Root.expr, resolve, bind_eq_ok]
    constructor
    · intro h
      cases h with
      | call ha h => exact ⟨_, ha, h⟩
    · rintro ⟨actuals, ha, h⟩
      exact .call ha h

/-- `whole` refers to what `part` refers to as a member of `a`. -/
def Splits (l : Lookup) (c : Context) (a part whole : Expr) : Prop :=
  ∀ r, l.resolve c whole = .ok r ↔ ∃ ra, l.resolve c a = .ok ra ∧ l.resolve (c.memberOf ra) part = .ok r

/-- A link on both sides keeps the split. -/
theorem Splits.onto {a part whole : Expr} {link : Link} (h : l.Splits c a part whole)
    (hpart : ∀ d ∈ Chain.fieldScopes part [link], l.NoPackage d)
    (hwhole : ∀ d ∈ Chain.fieldScopes whole [link], l.NoPackage d) :
    l.Splits c a (link.onto part) (link.onto whole) := by
  intro r
  rw [resolve_onto hwhole]
  constructor
  · rintro ⟨before, hb, hr⟩
    obtain ⟨ra, ha, hp⟩ := (h before).1 hb
    exact ⟨ra, ha, (resolve_onto hpart).2 ⟨before, hp, follows_memberOf.2 hr⟩⟩
  · rintro ⟨ra, ha, hr⟩
    obtain ⟨before, hp, hf⟩ := (resolve_onto hpart).1 hr
    exact ⟨before, (h before).2 ⟨ra, ha, hp⟩, follows_memberOf.1 hf⟩

/-- So do all links of a chain, one after the other. -/
theorem Splits.foldl {a : Expr} (links : List Link) :
    ∀ {part whole : Expr}, l.Splits c a part whole →
      (∀ d ∈ Chain.fieldScopes part links ++ Chain.fieldScopes whole links, l.NoPackage d) →
      l.Splits c a (links.foldl Link.onto part) (links.foldl Link.onto whole) := by
  induction links with
  | nil =>
    intro part whole h _
    exact h
  | cons link links ih =>
    intro part whole h hd
    simp only [Chain.fieldScopes_cons _ link links, List.mem_append] at hd
    refine ih (h.onto ?_ ?_) ?_
    · exact fun d hm => hd d (.inl (.inl hm))
    · exact fun d hm => hd d (.inr (.inl hm))
    · intro d hm
      rcases List.mem_append.1 hm with hm | hm
      · exact hd d (.inl (.inr hm))
      · exact hd d (.inr (.inr hm))

theorem splits_under {a : Expr} {s : Chain} (h : ∀ d ∈ s.scopes a, l.NoPackage d) :
    l.Splits c a s.expr (s.under a) := by
  unfold Chain.scopes at h
  rw [Chain.fieldScopes_cons] at h
  simp only [List.mem_append] at h
  refine Splits.foldl s.links ?_ ?_
  · intro r
    rw [resolve_onto fun d hm => h d (.inr (.inl hm))]
    exact exists_congr fun ra => and_congr_right fun _ => follows_root
  · intro d hm
    rcases List.mem_append.1 hm with hm | hm
    · exact h d (.inl hm)
    · exact h d (.inr (.inr hm))

end Lookup

namespace Program

/-- A chain behind `a` refers to what the chain refers to as a member of `a`, where no scope of a field access in
either of them is the name of a package. -/
theorem resolve_under (p : Program) (scope : Nat) (c : Context) (a : Expr) (s : Chain)
    (h : ∀ d ∈ s.scopes a, ∀ text ∈ d.dottedText?, p.package? text = none) (r : Referent) :
    (p.lookupFrom scope).resolve c (s.under a) = .ok r ↔
      ∃ ra, (p.lookupFrom scope).resolve c a = .ok ra ∧
        (p.lookupFrom scope).resolve (c.memberOf ra) s.expr = .ok r :=
  Lookup.splits_under (fun d hd text ht => congrArg Except.ok (h d hd text ht)) r

/-- `next.all[0].pick(#1)` behind `this`, where the argument is no member of anything. -/
theorem resolve_under_this : ∃ (p : Program) (c : Context) (s : Chain) (r : Referent),
    (∀ d ∈ s.scopes (.this ⟨0, 4⟩), ∀ text ∈ d.dottedText?, p.package? text = none) ∧
      r.text = "this.next.all[0].pick(5)" ∧ (p.lookupFrom 0).resolve c (s.under (.this ⟨0, 4⟩)) = .ok r ∧
      ∃ ra, (p.lookupFrom 0).resolve c (.this ⟨0, 4⟩) = .ok ra ∧
        (p.lookupFrom 0).resolve (c.memberOf ra) s.expr = .ok r := by
  let a : Ty := .declared "demo.A" []
  let p := initial.build "demo" none "A" [.field ⟨"next", a, false, false⟩, .field ⟨"all", .array a, false, false⟩,
    .method (.method "pick" [("n", .int)] a false false)]
  let c := Context.methodUse (.this (some a)) [.value (.int 5)]
  let s : Chain := ⟨.name ⟨5, 4⟩ "next", [.field ⟨5, 8⟩ "all",
    .element ⟨5, 11⟩ (.literal ⟨14, 1⟩ (.value (.int 0))), .call ⟨5, 20⟩ "pick" [.name ⟨22, 2⟩ "_param_1"]]⟩
  have h : ∀ d ∈ s.scopes (.this ⟨0, 4⟩), ∀ text ∈ d.dottedText?, p.package? text = none := by decide +kernel
  have hr : ((p.lookupFrom 0).resolve c (s.under (.this ⟨0, 4⟩))).toOption.map Referent.text =
      some "this.next.all[0].pick(5)" := by decide +kernel
  obtain ⟨r, hr, htext⟩ := of_toOption_map hr
  exact ⟨p, c, s, r, h, htext, hr, (p.resolve_under 0 c (.this ⟨0, 4⟩) s h r).1 hr⟩

end Program
end AnnotationExpr
