import AnnotationExpr.Proofs.Resolution.Answers
import AnnotationExpr.Proofs.Resolution.Chain

/-!
The rules of resolution, as a relation between an expression and what it refers to. There is one rule for each
shape of expression and each way in which it can have a referent; the resolver succeeds exactly by the rules, so
what every rule keeps holds of all referents.
-/

namespace AnnotationExpr

/-- Field accesses over a name, as they are read from a dotted text. -/
def Expr.ofNames (span : Span) (root : String) (members : List String) : Expr :=
  members.foldl (.field span) (.name span root)

theorem intercalate_concat (sep s last : String) (ss : List String) :
    sep.intercalate (s :: (ss ++ [last])) = sep.intercalate (s :: ss) ++ sep ++ last := by
  induction ss generalizing s with
  | nil => rfl
  | cons t ss ih => exact ih (s ++ sep ++ t)

theorem Expr.dottedText?_field {e : Expr} (h : e.dottedText? = some e.text) (s : Span) (n : String) :
    (Expr.field s e n).dottedText? = some (Expr.field s e n).text := by
  obtain ⟨⟨root, members⟩, hd, ht⟩ := Option.map_eq_some_iff.1 h
  have hfield : (Expr.field s e n).dotted? = some (root, members ++ [n]) := by rw [dotted?, hd, Option.map_some]
  rw [dottedText?, hfield, Option.map_some]
  exact congrArg some ((intercalate_concat ..).trans (congrArg (· ++ "." ++ n) ht))

/-- The primitive type that the name in a class literal names by itself. -/
def TypeName.primitive? (t : TypeName) : Option Primitive :=
  if t.members.isEmpty then Primitive.ofName? t.root else none

theorem exists_zip_of_mem {α β : Type} {as : List α} {bs : List β} (h : as.length = bs.length) {b : β} (hb : b ∈ bs) :
    ∃ a ∈ as, (a, b) ∈ as.zip bs := by
  obtain ⟨i, hi, rfl⟩ := List.getElem_of_mem hb
  have hz : i < (as.zip bs).length := by rw [List.length_zip]; omega
  refine ⟨as[i], List.getElem_mem _, ?_⟩
  have := List.getElem_mem hz
  rwa [List.getElem_zip] at this

namespace Lookup

/-- What an expression refers to in a context. Arguments and indices go back to the outer receiver. -/
inductive Refers (l : Lookup) : Context → Expr → Referent → Prop where
  | value {c : Context} {s : Span} {v : Value} : Refers l c (.literal s (.value v)) (.value v)
  | this {c : Context} {s : Span} : Refers l c (.this s) (thisReferent c)
  | super {c : Context} {s : Span} {r : Referent} (h : l.superReferent c = .ok r) : Refers l c (.super s) r
  | name {c : Context} {s : Span} {n : String} {r : Referent} (h : l.named c n = .ok r) : Refers l c (.name s n) r
  | enclosed {c : Context} {s : Span} {e : Expr} {r : Referent} (h : Refers l c e r) : Refers l c (.enclosed s e) r
  | ofPackage {c : Context} {s : Span} {e : Expr} {n outer package : String} {k : ClassSymbol}
      (ho : e.dottedText? = some outer) (hp : l.package outer = .ok (some package))
      (hk : l.classIn n package = .ok (some k)) : Refers l c (.field s e n) (.className k.selfType)
  | field {c : Context} {s : Span} {e : Expr} {n : String} {before r : Referent} (hp : l.NoPackage e)
      (h : Refers l c e before) (hn : l.named (c.memberOf before) n = .ok r) : Refers l c (.field s e n) r
  | element {c : Context} {s : Span} {array index : Expr} {a i : Referent} {component : Ty}
      (ha : Refers l c array a) (hi : Refers l c.toOuter index i) (ht : a.type? = some (.array component)) :
      Refers l c (.element s array index) (.element component a i)
  | call {c : Context} {s : Span} {n : String} {es : List Expr} {actuals : List Referent} {r : Referent}
      (hlen : es.length = actuals.length) (ha : ∀ q ∈ es.zip actuals, Refers l c.toOuter q.1 q.2)
      (h : l.invoke c (n ++ Expr.argumentsText (Expr.texts es)) n actuals = .ok r) : Refers l c (.call s n es) r
  | memberCall {c : Context} {s : Span} {e : Expr} {n : String} {es : List Expr} {before : Referent}
      {actuals : List Referent} {r : Referent} (hb : Refers l c e before) (hlen : es.length = actuals.length)
      (ha : ∀ q ∈ es.zip actuals, Refers l c.toOuter q.1 q.2)
      (h : l.invoke (c.memberOf before) (n ++ Expr.argumentsText (Expr.texts es)) n actuals = .ok r) :
      Refers l c (.memberCall s e n es) r
  | primitiveLiteral {c : Context} {s : Span} {t : TypeName} {p : Primitive} (hp : t.primitive? = some p) :
      Refers l c (.classLiteral s t) (.className (arrayOf (.primitive p) t.dimensions))
  /-- The class literal of a name, which need not be the name of a class, without dimensions. -/
  | nameLiteral {c : Context} {s : Span} {t : TypeName} {r : Referent} (hp : t.primitive? = none)
      (hd : t.dimensions = 0)
      (h : Refers l c (.ofNames t.span t.root t.members) r) : Refers l c (.classLiteral s t) r
  | arrayLiteral {c : Context} {s : Span} {t : TypeName} {type : Ty} (hp : t.primitive? = none)
      (hd : t.dimensions ≠ 0)
      (h : Refers l c (.ofNames t.span t.root t.members) (.className type)) :
      Refers l c (.classLiteral s t) (.className (arrayOf type t.dimensions))

variable {l : Lookup} {c : Context}

/-- The rules are exact for an expression. -/
def Ruled (l : Lookup) (c : Context) (e : Expr) : Prop := ∀ r, l.resolve c e = .ok r ↔ l.Refers c e r

theorem ruled_name {s : Span} {n : String} : l.Ruled c (.name s n) := fun _ => by
  constructor
  · intro h
    exact .name h
  · rintro ⟨⟩
    assumption

theorem Ruled.field {s : Span} {e : Expr} {n : String} (he : l.Ruled c e) : l.Ruled c (.field s e n) := by
  intro r
  constructor
  · intro h
    by_cases hp : l.NoPackage e
    · rw [resolve_field hp] at h
      obtain ⟨before, hb, hn⟩ := bind_eq_ok.1 h
      exact .field hp ((he before).1 hb) hn
    · obtain ⟨outer, ho, hp⟩ : ∃ outer, e.dottedText? = some outer ∧ l.package outer ≠ .ok none := by
        simpa [NoPackage] using hp
      rw [resolve, ho] at h
      obtain ⟨package, ha, h⟩ := bind_eq_ok.1 h
      rw [asked_eq_ok] at ha
      cases package with
      | none => exact absurd ha hp
      | some package =>
        obtain ⟨known, hk, h⟩ := bind_eq_ok.1 h
        rw [asked_eq_ok] at hk
        cases known with
        | some k => cases h; exact .ofPackage ho ha hk
        | none => cases h
  · intro h
    cases h with
    | ofPackage ho hp hk =>
      rw [resolve, ho]
      exact bind_eq_ok.2 ⟨_, asked_eq_ok.2 hp, bind_eq_ok.2 ⟨_, asked_eq_ok.2 hk, rfl⟩⟩
    | field hp hb hn => rw [resolve_field hp, (he _).2 hb]; exact hn

theorem ruled_ofNames {s : Span} {root : String} (members : List String) : l.Ruled c (.ofNames s root members) :=
  List.foldlRecOn (motive := l.Ruled c) members _ ruled_name fun _ he _ _ => he.field

/-- A dotted name refers to what the field accesses that it stands for refer to. -/
theorem dotted_eq_resolve (s : Span) (root : String) (members : List String) :
    l.dotted c root members = l.resolve c (.ofNames s root members) := by
  have hfold : ∀ (ms : List String) (e : Expr), e.dottedText? = some e.text →
      (ms.foldl (fun (q : String × Except ResolveError Referent) n =>
        (q.1 ++ "." ++ n, l.member c (q.1 ++ "." ++ n) (some q.1) n q.2)) (e.text, l.resolve c e)).2 =
        l.resolve c (ms.foldl (.field s) e) := by
    intro ms
    induction ms with
    | nil => intro e _; rfl
    | cons n ms ih =>
      intro e he
      have hstep : l.resolve c (.field s e n) =
          l.member c (e.text ++ "." ++ n) (some e.text) n (l.resolve c e) := by
        rw [resolve, he]
        rfl
      rw [List.foldl_cons, List.foldl_cons, ← ih (.field s e n) (Expr.dottedText?_field he s n), hstep]
      rfl
  exact hfold members (.name s root) rfl

theorem ruled_classLiteral {s : Span} {t : TypeName} : l.Ruled c (.classLiteral s t) := by
  have hnames : ∀ r, l.dotted c t.root t.members = .ok r ↔ l.Refers c (.ofNames t.span t.root t.members) r := by
    rw [dotted_eq_resolve t.span]
    exact ruled_ofNames t.members
  have hprimitive {p : Primitive} (hp : t.primitive? = some p) : l.classBase c t = .ok (.className (.primitive p)) := by
    rw [classBase, ← TypeName.primitive?, hp]
  have hname (hp : t.primitive? = none) : l.classBase c t = l.dotted c t.root t.members := by
    rw [classBase, ← TypeName.primitive?, hp]
  intro r
  rw [resolve, classLiteral, bind_eq_ok]
  constructor
  · rintro ⟨base, hb, h⟩
    cases hp : t.primitive? with
    | some p =>
      rw [hprimitive hp] at hb
      cases hb
      split at h
      next hd =>
        cases h
        have := Refers.primitiveLiteral (l := l) (c := c) (s := s) hp
        rwa [hd] at this
      next => cases h; exact .primitiveLiteral hp
    | none =>
      rw [hname hp] at hb
      have hb := (hnames base).1 hb
      split at h
      next hd => cases h; exact .nameLiteral hp hd hb
      next hd =>
        cases base with
        | className type => cases h; exact .arrayLiteral hp hd hb
        | _ => cases h
  · intro h
    cases h with
    | @primitiveLiteral _ _ _ p hp =>
      refine ⟨.className (.primitive p), hprimitive hp, ?_⟩
      split
      next hd => rw [hd]; rfl
      next => rfl
    | nameLiteral hp hd h =>
      refine ⟨r, ?_, by rw [if_pos hd]; rfl⟩
      rw [hname hp]
      exact (hnames r).2 h
    | @arrayLiteral _ _ _ type hp hd h =>
      refine ⟨.className type, ?_, by rw [if_neg hd]; rfl⟩
      rw [hname hp]
      exact (hnames _).2 h

theorem ruled_literal {s : Span} {v : Literal} : l.Ruled c (.literal s v) := by
  intro r
  constructor
  · intro h
    cases v with
    | value v => cases h; exact .value
    | boolean b => cases h
  · rintro ⟨⟩
    rfl

theorem ruled_this {s : Span} : l.Ruled c (.this s) := by
  intro r
  constructor
  · intro h
    cases h
    exact .this
  · rintro ⟨⟩
    rfl

theorem ruled_super {s : Span} : l.Ruled c (.super s) := by
  intro r
  constructor
  · intro h
    exact .super h
  · rintro ⟨⟩
    assumption

theorem Ruled.enclosed {s : Span} {e : Expr} (he : l.Ruled c e) : l.Ruled c (.enclosed s e) := by
  intro r
  constructor
  · intro h
    exact .enclosed ((he r).1 h)
  · intro h
    cases h with
    | enclosed h => exact (he r).2 h

theorem Ruled.element {s : Span} {array index : Expr} (harray : l.Ruled c array) (hindex : l.Ruled c.toOuter index) :
    l.Ruled c (.element s array index) := by
  intro r
  rw [resolve, bind_eq_ok]
  constructor
  · rintro ⟨a, ha, h⟩
    obtain ⟨i, hi, h⟩ := bind_eq_ok.1 h
    split at h
    next component ht => cases h; exact .element ((harray a).1 ha) ((hindex i).1 hi) ht
    next => cases h
  · intro h
    cases h with
    | @element _ _ _ _ a i _ ha hi ht =>
      refine ⟨a, (harray a).2 ha, ?_⟩
      rw [(hindex i).2 hi, ht]
      rfl

theorem ruled_unary {s : Span} {op : UnaryOp} {e : Expr} : l.Ruled c (.unary s op e) := by
  intro r
  constructor <;> (intro h; cases h)

theorem ruled_binary {s : Span} {op : BinaryOp} {a b : Expr} : l.Ruled c (.binary s op a b) := by
  intro r
  constructor <;> (intro h; cases h)

/-- The rules are exact for each of the expressions. -/
def RuledAll (l : Lookup) (c : Context) (es : List Expr) : Prop :=
  ∀ rs, l.resolveAll c es = .ok rs ↔ es.length = rs.length ∧ ∀ q ∈ es.zip rs, l.Refers c q.1 q.2

theorem ruledAll_nil : l.RuledAll c [] := by
  intro rs
  constructor
  · intro h
    cases h
    exact ⟨rfl, List.forall_mem_nil _⟩
  · rintro ⟨hlen, -⟩
    rw [List.length_eq_zero_iff.1 hlen.symm]
    rfl

theorem RuledAll.cons {e : Expr} {es : List Expr} (he : l.Ruled c e) (hes : l.RuledAll c es) :
    l.RuledAll c (e :: es) := by
  intro rs
  rw [resolveAll, bind_eq_ok]
  constructor
  · rintro ⟨r, hr, h⟩
    obtain ⟨rs', hrs, h⟩ := bind_eq_ok.1 h
    cases h
    obtain ⟨hlen, hall⟩ := (hes rs').1 hrs
    exact ⟨congrArg (· + 1) hlen, List.forall_mem_cons.2 ⟨(he r).1 hr, hall⟩⟩
  · rintro ⟨hlen, hall⟩
    cases rs with
    | nil => cases hlen
    | cons r rs =>
      obtain ⟨hr, hrs⟩ := List.forall_mem_cons.1 hall
      refine ⟨r, (he r).2 hr, ?_⟩
      rw [(hes rs).2 ⟨Nat.succ.inj hlen, hrs⟩]
      rfl

theorem RuledAll.call {s : Span} {n : String} {es : List Expr} (hes : l.RuledAll c.toOuter es) :
    l.Ruled c (.call s n es) := by
  intro r
  rw [resolve, bind_eq_ok]
  constructor
  · rintro ⟨actuals, ha, h⟩
    obtain ⟨hlen, ha⟩ := (hes actuals).1 ha
    exact .call hlen ha h
  · intro h
    cases h with
    | call hlen ha h => exact ⟨_, (hes _).2 ⟨hlen, ha⟩, h⟩

theorem RuledAll.memberCall {s : Span} {e : Expr} {n : String} {es : List Expr} (hes : l.RuledAll c.toOuter es)
    (he : l.Ruled c e) : l.Ruled c (.memberCall s e n es) := by
  intro r
  rw [resolve, bind_eq_ok]
  constructor
  · rintro ⟨before, hb, h⟩
    obtain ⟨actuals, ha, h⟩ := bind_eq_ok.1 h
    obtain ⟨hlen, ha⟩ := (hes actuals).1 ha
    exact .memberCall ((he before).1 hb) hlen ha h
  · intro h
    cases h with
    | @memberCall _ _ _ _ _ before actuals _ hb hlen ha h =>
      refine ⟨before, (he before).2 hb, ?_⟩
      rw [(hes actuals).2 ⟨hlen, ha⟩]
      exact h

mutual

theorem ruled (l : Lookup) (c : Context) (e : Expr) : l.Ruled c e := by
  cases e with
  | literal s v => exact ruled_literal
  | this s => exact ruled_this
  | super s => exact ruled_super
  | name s n => exact ruled_name
  | enclosed s e => exact (ruled l c e).enclosed
  | field s e n => exact (ruled l c e).field
  | element s array index => exact (ruled l c array).element (ruled l c.toOuter index)
  | call s n es => exact (ruledAll l c.toOuter es).call
  | memberCall s e n es => exact (ruledAll l c.toOuter es).memberCall (ruled l c e)
  | classLiteral s t => exact ruled_classLiteral
  | unary s op e => exact ruled_unary
  | binary s op a b => exact ruled_binary

theorem ruledAll (l : Lookup) (c : Context) (es : List Expr) : l.RuledAll c es := by
  cases es with
  | nil => exact ruledAll_nil
  | cons e es => exact .cons (ruled l c e) (ruledAll l c es)

end

/-- The resolver finds a referent exactly where a rule gives it. -/
theorem resolve_eq_ok_iff {e : Expr} {r : Referent} : l.resolve c e = .ok r ↔ l.Refers c e r := ruled l c e r

theorem refer_eq_ok {localScope : Bool} {text : String} {r : Referent} :
    l.refer c localScope text = .ok r ↔
      ∃ e, Expr.read (Marker.expand text) = .ok e ∧ l.Refers (c.withLocalScope localScope) e r ∧
        (r.isClassName = true → "class".toList <:+ text.toList) := by
  unfold refer
  cases Expr.read (Marker.expand text) with
  | error e => exact ⟨fun h => (nomatch h), fun ⟨_, h, _⟩ => (nomatch h)⟩
  | ok e =>
    simp only [bind_eq_ok, Except.ok.injEq, exists_eq_left', ← resolve_eq_ok_iff]
    constructor
    · rintro ⟨x, hx, h⟩
      split at h
      · cases h
      next hn =>
        cases h
        exact ⟨hx, by simpa using hn⟩
    · rintro ⟨hx, hn⟩
      exact ⟨r, hx, by rw [if_neg (by simpa using hn)]; rfl⟩

end Lookup
end AnnotationExpr
