import AnnotationExpr.Proofs.Expr.Spelling
import AnnotationExpr.Proofs.Outcome

/-!
The parser one step at a time: for each of its functions, what it gives and what it leaves, in terms of what the
functions it calls give and leave. What follows about the parser goes by these equations and not by its text.
-/

namespace AnnotationExpr.Expr.Parser

/-- What a reading gives, and the tokens it leaves. -/
def Gives {α : Type} {n : Nat} (x : Result α n) (a : α) (rest : List Token) : Prop := ∃ h, x = .ok ⟨a, rest, h⟩

variable {stop : Span} {t : Token} {ts rest : List Token}

theorem Gives.bound {α : Type} {n : Nat} {x : Result α n} {a : α} (h : Gives x a rest) : rest.length < n := h.1

theorem gives_ok {α : Type} {n : Nat} {a b : α} {h : ts.length < n} :
    Gives (.ok ⟨a, ts, h⟩) b rest ↔ b = a ∧ rest = ts := by
  constructor
  · rintro ⟨_, h⟩
    cases h
    exact ⟨rfl, rfl⟩
  · rintro ⟨rfl, rfl⟩
    exact ⟨h, rfl⟩

theorem not_gives_error {α : Type} {n : Nat} {e : SyntaxError} {a : α} :
    ¬ Gives (.error e : Result α n) a rest := by
  rintro ⟨_, h⟩
  cases h

/-- A reading after another, whatever bounds they come with. -/
theorem gives_bind {α β : Type} {m n : Nat} {x : Result α m} {f : Parsed α m → Result β n} {b : β} :
    Gives (x >>= f) b rest ↔ ∃ a mid, ∃ h : mid.length < m, x = .ok ⟨a, mid, h⟩ ∧ Gives (f ⟨a, mid, h⟩) b rest := by
  constructor
  · rintro ⟨h, hx⟩
    obtain ⟨⟨a, mid, hmid⟩, ha, hf⟩ := bind_eq_ok.1 hx
    exact ⟨a, mid, hmid, ha, h, hf⟩
  · rintro ⟨a, mid, hmid, rfl, h⟩
    exact h

theorem gives_except {α β : Type} {n : Nat} {x : Except SyntaxError α} {f : α → Result β n} {b : β} :
    Gives (x >>= f) b rest ↔ ∃ a, x = .ok a ∧ Gives (f a) b rest := by
  constructor
  · rintro ⟨h, hx⟩
    obtain ⟨a, ha, hf⟩ := bind_eq_ok.1 hx
    exact ⟨a, ha, h, hf⟩
  · rintro ⟨a, rfl, h⟩
    exact h

theorem gives_within {α : Type} {m n : Nat} {x : Result α m} (hle : m ≤ n) {a : α} :
    Gives (x >>= fun p => (pure (p.within hle) : Result α n)) a rest ↔ Gives x a rest := by
  rw [gives_bind]
  constructor
  · rintro ⟨b, mid, hmid, hx, h⟩
    obtain ⟨rfl, rfl⟩ := gives_ok.1 h
    exact ⟨hmid, hx⟩
  · rintro ⟨h, hx⟩
    exact ⟨a, rest, h, hx, gives_ok.2 ⟨rfl, rfl⟩⟩

theorem gives_expect {kind : Token.Kind} {u : Token} :
    Gives (expect stop kind ts) u rest ↔ ts = u :: rest ∧ u.kind = kind := by
  cases ts with
  | nil => simp [expect, not_gives_error]
  | cons t ts =>
    rw [expect]
    split
    next ht =>
      rw [gives_ok]
      constructor
      · rintro ⟨rfl, rfl⟩
        exact ⟨rfl, ht⟩
      · rintro ⟨h, -⟩
        cases h
        exact ⟨rfl, rfl⟩
    next ht =>
      simp only [not_gives_error, false_iff]
      rintro ⟨h, hu⟩
      cases h
      exact ht hu

theorem gives_binary {least : Nat} {e : Expr} :
    Gives (binary stop least ts) e rest ↔
      ∃ left mid, Gives (unary stop ts) left mid ∧ Gives (climb stop least left mid) e rest := by
  rw [Parser.binary, gives_bind]
  constructor
  · rintro ⟨left, mid, hmid, hleft, h⟩
    exact ⟨left, mid, ⟨hmid, hleft⟩, (gives_within _).1 h⟩
  · rintro ⟨left, mid, ⟨hmid, hleft⟩, h⟩
    exact ⟨left, mid, hmid, hleft, (gives_within _).2 h⟩

/-- No operator stands next that binds at least so tightly. -/
def Calm (least : Nat) (ts : List Token) : Prop :=
  ∀ t ∈ ts.head?, ∀ op, BinaryOp.ofKind? t.kind = some op → op.precedence < least

theorem gives_climb_calm {least : Nat} {left e : Expr} (h : Calm least ts) :
    Gives (climb stop least left ts) e rest ↔ e = left ∧ rest = ts := by
  cases ts with
  | nil => rw [climb, gives_ok]
  | cons t ts =>
    rw [climb]
    split
    next => rw [gives_ok]
    next op hop => rw [if_pos (h t rfl op hop), gives_ok]

theorem gives_climb_cons {least : Nat} {left e : Expr} {op : BinaryOp} (hop : BinaryOp.ofKind? t.kind = some op)
    (hle : least ≤ op.precedence) :
    Gives (climb stop least left (t :: ts)) e rest ↔
      ∃ right mid, Gives (binary stop (op.precedence + 1) ts) right mid ∧
        Gives (climb stop least (.binary (left.span.join right.span) op left right) mid) e rest := by
  rw [climb]
  split
  next h => rw [hop] at h; cases h
  next op' hop' =>
    obtain rfl : op = op' := Option.some.inj (hop.symm.trans hop')
    rw [if_neg (Nat.not_lt.2 hle), gives_bind]
    constructor
    · rintro ⟨right, mid, hmid, hright, h⟩
      exact ⟨right, mid, ⟨hmid, hright⟩, (gives_within _).1 h⟩
    · rintro ⟨right, mid, ⟨hmid, hright⟩, h⟩
      exact ⟨right, mid, hmid, hright, (gives_within _).2 h⟩

theorem gives_unary_sign {e : Expr} {op : UnaryOp} (hop : UnaryOp.ofKind? t.kind = some op) :
    Gives (unary stop (t :: ts)) e rest ↔
      ∃ operand, e = .unary (t.span.join operand.span) op operand ∧ Gives (unary stop ts) operand rest := by
  rw [Parser.unary]
  split
  next op' hop' =>
    obtain rfl : op = op' := Option.some.inj (hop.symm.trans hop')
    rw [gives_bind]
    constructor
    · rintro ⟨operand, mid, hmid, hoperand, h⟩
      obtain ⟨rfl, rfl⟩ := gives_ok.1 h
      exact ⟨operand, rfl, hmid, hoperand⟩
    · rintro ⟨operand, rfl, hmid, hoperand⟩
      exact ⟨operand, rest, hmid, hoperand, gives_ok.2 ⟨rfl, rfl⟩⟩
  next h => rw [hop] at h; cases h

theorem gives_unary {e : Expr} (hop : UnaryOp.ofKind? t.kind = none) :
    Gives (unary stop (t :: ts)) e rest ↔
      ∃ base mid, Gives (primary stop t ts) base mid ∧ Gives (suffixes stop base mid) e rest := by
  rw [Parser.unary]
  split
  next h => rw [hop] at h; cases h
  next =>
    rw [gives_bind]
    constructor
    · rintro ⟨base, mid, hmid, hbase, h⟩
      exact ⟨base, mid, ⟨hmid, hbase⟩, (gives_within _).1 h⟩
    · rintro ⟨base, mid, ⟨hmid, hbase⟩, h⟩
      exact ⟨base, mid, hmid, hbase, (gives_within _).2 h⟩

theorem gives_dimensions {ts rest : List Token} {n : Nat} :
    Gives (dimensions stop ts) n rest ↔
      ∃ bs, Brackets n bs ∧ ts = bs ++ rest ∧ nextIs .lbracket rest = false := by
  cases ts with
  | nil =>
    rw [dimensions, gives_ok]
    constructor
    · rintro ⟨rfl, rfl⟩
      exact ⟨[], .zero, rfl, rfl⟩
    · rintro ⟨bs, hb, hts, -⟩
      obtain ⟨rfl, rfl⟩ := List.nil_eq_append_iff.1 hts
      cases hb
      exact ⟨rfl, rfl⟩
  | cons t ts =>
    rw [dimensions]
    split
    next ht =>
      rw [gives_bind]
      constructor
      · rintro ⟨u, mid, hmid, hu, h⟩
        obtain ⟨rfl, hclosed⟩ := gives_expect.1 ⟨hmid, hu⟩
        obtain ⟨m, rest', hrest, hm, h⟩ := gives_bind.1 h
        obtain ⟨rfl, rfl⟩ := gives_ok.1 h
        obtain ⟨bs, hb, rfl, hnext⟩ := gives_dimensions.1 ⟨hrest, hm⟩
        exact ⟨t :: u :: bs, .succ ht hclosed hb, rfl, hnext⟩
      · rintro ⟨bs, hb, hts, hnext⟩
        cases hb with
        | zero =>
          subst hts
          simp [nextIs, ht] at hnext
        | @succ _ u m bs _ hu hb =>
          simp only [List.cons_append, List.cons.injEq] at hts
          obtain ⟨rfl, rfl⟩ := hts
          obtain ⟨hmid, hu⟩ := gives_expect.2 ⟨rfl, hu⟩
          obtain ⟨hrest, hm⟩ := gives_dimensions.2 ⟨bs, hb, rfl, hnext⟩
          exact ⟨u, bs ++ rest, hmid, hu, gives_bind.2 ⟨m, rest, hrest, hm, gives_ok.2 ⟨rfl, rfl⟩⟩⟩
    next ht =>
      rw [gives_ok]
      constructor
      · rintro ⟨rfl, rfl⟩
        exact ⟨[], .zero, rfl, by simp [nextIs, ht]⟩
      · rintro ⟨bs, hb, hts, -⟩
        cases hb with
        | zero => exact ⟨rfl, hts.symm⟩
        | succ hl _ _ =>
          cases hts
          exact absurd hl ht
termination_by ts.length
decreasing_by all_goals subst_vars; simp only [List.length_cons]; omega

theorem classLiteral_eq_ok {base e : Expr} {n : Nat} {last : Span} :
    classLiteral base n last = .ok e ↔ ∃ root members, base.dotted? = some (root, members) ∧
      e = .classLiteral (base.span.join last) ⟨root, members, n, base.span⟩ := by
  unfold classLiteral
  split
  next root members hd =>
    constructor
    · rintro ⟨⟩
      exact ⟨root, members, hd, rfl⟩
    · rintro ⟨root', members', hd', rfl⟩
      cases hd.symm.trans hd'
      rfl
  next hd => simp [hd]

/-- One suffix, from the expression before it to the one with it. -/
inductive Suffix (stop : Span) (base : Expr) : List Token → Expr → List Token → Prop where
  | field {t m : Token} {rest : List Token} (ht : t.kind = .dot) (hm : m.kind = .ident)
      (hrest : nextIs .lparen rest = false) :
      Suffix stop base (t :: m :: rest) (.field (base.span.join m.span) base (String.ofList m.lexeme)) rest
  | memberCall {t m : Token} {ts rest : List Token} {es : List Expr} {last : Span} (ht : t.kind = .dot)
      (hm : m.kind = .ident) (hts : nextIs .lparen ts = true) (h : Gives (arguments stop ts) (es, last) rest) :
      Suffix stop base (t :: m :: ts) (.memberCall (base.span.join last) base (String.ofList m.lexeme) es) rest
  | element {t u : Token} {ts rest : List Token} {index : Expr} (ht : t.kind = .lbracket)
      (hts : nextIs .rbracket ts = false) (h : Gives (binary stop 1 ts) index (u :: rest)) (hu : u.kind = .rbracket) :
      Suffix stop base (t :: ts) (.element (base.span.join u.span) base index) rest
  | classLiteral {t u : Token} {bs rest : List Token} {n : Nat} {root : String} {members : List String}
      (hb : Brackets n bs) (ht : t.kind = .dot) (hu : u.kind = .class) (hd : base.dotted? = some (root, members)) :
      Suffix stop base (bs ++ t :: u :: rest) (.classLiteral (base.span.join u.span) ⟨root, members, n, base.span⟩)
        rest

/-- Neither a member nor an element is next. -/
def Bare (ts : List Token) : Prop := nextIs .dot ts = false ∧ nextIs .lbracket ts = false

theorem gives_suffixes_bare {base e : Expr} (h : Bare ts) :
    Gives (suffixes stop base ts) e rest ↔ e = base ∧ rest = ts := by
  obtain ⟨hdot, hbracket⟩ := h
  cases ts with
  | nil => rw [suffixes, gives_ok]
  | cons t ts =>
    have hdot : t.kind ≠ .dot := by simpa [nextIs] using hdot
    have hbracket : t.kind ≠ .lbracket := by simpa [nextIs] using hbracket
    rw [suffixes.eq_def]
    dsimp only
    split
    · contradiction
    · contradiction
    · rw [gives_ok]

theorem suffix_of_gives {base e : Expr} (h : ¬ Bare ts) (hg : Gives (suffixes stop base ts) e rest) :
    ∃ base' mid, Suffix stop base ts base' mid ∧ Gives (suffixes stop base' mid) e rest := by
  cases ts with
  | nil => exact absurd ⟨rfl, rfl⟩ h
  | cons t ts =>
    rw [suffixes.eq_def] at hg
    dsimp only at hg
    split at hg
    next ht =>
      split at hg
      · exact absurd hg not_gives_error
      next m ts =>
        split at hg
        next hm =>
          split at hg
          next hts =>
            obtain ⟨⟨es, last⟩, mid, hmid, hes, hg⟩ := gives_bind.1 hg
            exact ⟨_, mid, .memberCall ht hm hts ⟨hmid, hes⟩, (gives_within _).1 hg⟩
          next hts => exact ⟨_, ts, .field ht hm (Bool.eq_false_iff.2 hts), (gives_within _).1 hg⟩
        next hm =>
          obtain ⟨base', hb, hg⟩ := gives_except.1 hg
          obtain ⟨root, members, hd, rfl⟩ := classLiteral_eq_ok.1 hb
          exact ⟨_, ts, .classLiteral .zero ht hm hd, (gives_within _).1 hg⟩
        · exact absurd hg not_gives_error
    next ht =>
      split at hg
      next hts =>
        obtain ⟨n, mid, hmid, hn, hg⟩ := gives_bind.1 hg
        obtain ⟨d, mid', hmid', hdot, hg⟩ := gives_bind.1 hg
        obtain ⟨u, mid'', hmid'', hu, hg⟩ := gives_bind.1 hg
        obtain ⟨base', hb, hg⟩ := gives_except.1 hg
        obtain ⟨root, members, hd, rfl⟩ := classLiteral_eq_ok.1 hb
        obtain ⟨bs, hbs, hts, -⟩ := gives_dimensions.1 ⟨hmid, hn⟩
        obtain ⟨rfl, hpoint⟩ := gives_expect.1 ⟨hmid', hdot⟩
        obtain ⟨rfl, hclass⟩ := gives_expect.1 ⟨hmid'', hu⟩
        have hs : Suffix stop base (bs ++ d :: u :: mid'') _ mid'' := .classLiteral hbs hpoint hclass hd
        rw [← hts] at hs
        exact ⟨_, mid'', hs, (gives_within _).1 hg⟩
      next hts =>
        obtain ⟨index, mid, hmid, hindex, hg⟩ := gives_bind.1 hg
        obtain ⟨u, mid', hmid', hu, hg⟩ := gives_bind.1 hg
        obtain ⟨rfl, hclosed⟩ := gives_expect.1 ⟨hmid', hu⟩
        exact ⟨_, mid', .element ht (Bool.eq_false_iff.2 hts) ⟨hmid, hindex⟩ hclosed, (gives_within _).1 hg⟩
    next hdot hbracket =>
      exact absurd ⟨decide_eq_false hdot, decide_eq_false hbracket⟩ h

theorem Suffix.gives {base base' e : Expr} {mid : List Token} (hs : Suffix stop base ts base' mid)
    (hg : Gives (suffixes stop base' mid) e rest) : Gives (suffixes stop base ts) e rest := by
  cases hs with
  | field ht hm hrest =>
    rw [suffixes.eq_def]
    simp only [ht, hm, hrest]
    exact (gives_within _).2 hg
  | memberCall ht hm hts ha =>
    rw [suffixes.eq_def]
    simp only [ht, hm, hts]
    obtain ⟨hmid, ha⟩ := ha
    exact gives_bind.2 ⟨_, _, hmid, ha, (gives_within _).2 hg⟩
  | element ht hts hi hu =>
    rw [suffixes.eq_def]
    simp only [ht, hts]
    obtain ⟨hmid, hi⟩ := hi
    obtain ⟨hmid', hu⟩ := gives_expect.2 ⟨rfl, hu⟩
    exact gives_bind.2 ⟨_, _, hmid, hi, gives_bind.2 ⟨_, _, hmid', hu, (gives_within _).2 hg⟩⟩
  | @classLiteral t u bs _ n root members hb ht hu hd =>
    have hc : Parser.classLiteral base n u.span = .ok _ := classLiteral_eq_ok.2 ⟨root, members, hd, rfl⟩
    cases hb with
    | zero =>
      rw [List.nil_append, suffixes.eq_def]
      simp only [ht, hu]
      exact gives_except.2 ⟨_, hc, (gives_within _).2 hg⟩
    | @succ l r m bs hl hr hb =>
      have hnext : nextIs .rbracket (r :: (bs ++ t :: u :: mid)) = true := by simp [nextIs, hr]
      have hdot : nextIs .lbracket (t :: u :: mid) = false := by simp [nextIs, ht]
      obtain ⟨hmid, hn⟩ := gives_dimensions.2 ⟨_, .succ hl hr hb, rfl, hdot⟩
      obtain ⟨hmid', ht⟩ := gives_expect.2 ⟨rfl, ht⟩
      obtain ⟨hmid'', hu⟩ := gives_expect.2 ⟨rfl, hu⟩
      rw [List.cons_append, suffixes.eq_def]
      simp only [hl, List.cons_append, hnext, if_true]
      refine gives_bind.2 ⟨_, _, hmid, hn, gives_bind.2 ⟨_, _, hmid', ht, gives_bind.2 ⟨_, _, hmid'', hu, ?_⟩⟩⟩
      exact gives_except.2 ⟨_, hc, (gives_within _).2 hg⟩

theorem gives_arguments {es : List Expr} {last : Span} :
    Gives (arguments stop ts) (es, last) rest ↔ ∃ o mid, ts = o :: mid ∧ o.kind = .lparen ∧
      ((∃ u, mid = u :: rest ∧ u.kind = .rparen ∧ es = [] ∧ last = u.span) ∨
        nextIs .rparen mid = false ∧ Gives (list stop mid) (es, last) rest) := by
  rw [Parser.arguments, gives_bind]
  constructor
  · rintro ⟨o, mid, hmid, ho, h⟩
    obtain ⟨rfl, hopen⟩ := gives_expect.1 ⟨hmid, ho⟩
    refine ⟨o, mid, rfl, hopen, ?_⟩
    cases mid with
    | nil => exact absurd h not_gives_error
    | cons t mid =>
      dsimp only at h
      split at h
      next ht =>
        obtain ⟨he, rfl⟩ := gives_ok.1 h
        cases he
        exact .inl ⟨t, rfl, ht, rfl, rfl⟩
      next ht => exact .inr ⟨decide_eq_false ht, (gives_within _).1 h⟩
  · rintro ⟨o, mid, rfl, ho, h⟩
    obtain ⟨hmid, ho⟩ := gives_expect.2 ⟨rfl, ho⟩
    refine ⟨o, mid, hmid, ho, ?_⟩
    rcases h with ⟨u, rfl, hu, rfl, rfl⟩ | ⟨hmid, h⟩
    · dsimp only
      rw [if_pos hu]
      exact gives_ok.2 ⟨rfl, rfl⟩
    · cases mid with
      | nil => exact absurd h.bound (by simp)
      | cons t mid =>
        dsimp only
        rw [if_neg (of_decide_eq_false hmid)]
        exact (gives_within _).2 h

theorem gives_list {es : List Expr} {last : Span} :
    Gives (list stop ts) (es, last) rest ↔ ∃ e mid, Gives (binary stop 1 ts) e mid ∧
      ((∃ u, mid = u :: rest ∧ u.kind = .rparen ∧ es = [e] ∧ last = u.span) ∨
        ∃ u mid' es', mid = u :: mid' ∧ u.kind = .comma ∧ es = e :: es' ∧
          Gives (list stop mid') (es', last) rest) := by
  rw [Parser.list, gives_bind]
  constructor
  · rintro ⟨e, mid, hmid, he, h⟩
    refine ⟨e, mid, ⟨hmid, he⟩, ?_⟩
    cases mid with
    | nil => exact absurd h not_gives_error
    | cons u mid =>
      dsimp only at h
      split at h
      next hu =>
        obtain ⟨⟨es', last'⟩, mid', hmid', hes, h⟩ := gives_bind.1 h
        obtain ⟨heq, rfl⟩ := gives_ok.1 h
        cases heq
        exact .inr ⟨u, mid, es', rfl, hu, rfl, hmid', hes⟩
      next hu =>
        obtain ⟨u', mid', hmid', hu', h⟩ := gives_bind.1 h
        obtain ⟨heq, hclosed⟩ := gives_expect.1 ⟨hmid', hu'⟩
        cases heq
        obtain ⟨heq, rfl⟩ := gives_ok.1 h
        cases heq
        exact .inl ⟨u, rfl, hclosed, rfl, rfl⟩
  · rintro ⟨e, mid, ⟨hmid, he⟩, h⟩
    refine ⟨e, mid, hmid, he, ?_⟩
    rcases h with ⟨u, rfl, hu, rfl, rfl⟩ | ⟨u, mid', es', rfl, hu, rfl, hmid', hes⟩
    · have hcomma : u.kind ≠ .comma := by simp [hu]
      obtain ⟨hrest, hu⟩ := gives_expect.2 ⟨rfl, hu⟩
      dsimp only
      rw [if_neg hcomma]
      exact gives_bind.2 ⟨u, rest, hrest, hu, gives_ok.2 ⟨rfl, rfl⟩⟩
    · dsimp only
      rw [if_pos hu]
      exact gives_bind.2 ⟨_, _, hmid', hes, gives_ok.2 ⟨rfl, rfl⟩⟩

/-- An expression without suffixes, from its first token on. -/
inductive Head (stop : Span) (t : Token) : List Token → Expr → List Token → Prop where
  | literal {v : Literal} {rest : List Token} (h : literal? t = some (.ok v)) :
      Head stop t rest (.literal t.span v) rest
  | this {rest : List Token} (h : t.kind = .this) : Head stop t rest (.this t.span) rest
  | super {rest : List Token} (h : t.kind = .super) : Head stop t rest (.super t.span) rest
  | paramRef {rest : List Token} (h : t.kind = .paramRef) :
      Head stop t rest (.name t.span (String.ofList (Marker.stem ++ t.lexeme.drop 1))) rest
  | name {rest : List Token} (h : t.kind = .ident) (hrest : nextIs .lparen rest = false) :
      Head stop t rest (.name t.span (String.ofList t.lexeme)) rest
  | call {ts rest : List Token} {es : List Expr} {last : Span} (ht : t.kind = .ident)
      (hts : nextIs .lparen ts = true) (h : Gives (arguments stop ts) (es, last) rest) :
      Head stop t ts (.call (t.span.join last) (String.ofList t.lexeme) es) rest
  | enclosed {ts rest : List Token} {u : Token} {e : Expr} (ht : t.kind = .lparen)
      (h : Gives (binary stop 1 ts) e (u :: rest)) (hu : u.kind = .rparen) :
      Head stop t ts (.enclosed (t.span.join u.span) e) rest

theorem head_of_gives {e : Expr} (h : Gives (primary stop t ts) e rest) : Head stop t ts e rest := by
  rw [primary] at h
  split at h
  next v hv =>
    obtain ⟨rfl, rfl⟩ := gives_ok.1 h
    exact .literal hv
  · exact absurd h not_gives_error
  · split at h
    next ht =>
      obtain ⟨rfl, rfl⟩ := gives_ok.1 h
      exact .this ht
    next ht =>
      obtain ⟨rfl, rfl⟩ := gives_ok.1 h
      exact .super ht
    next ht =>
      obtain ⟨rfl, rfl⟩ := gives_ok.1 h
      exact .paramRef ht
    next ht =>
      obtain ⟨inner, mid, hmid, hinner, h⟩ := gives_bind.1 h
      obtain ⟨u, mid', hmid', hu, h⟩ := gives_bind.1 h
      obtain ⟨rfl, hclosed⟩ := gives_expect.1 ⟨hmid', hu⟩
      obtain ⟨rfl, rfl⟩ := gives_ok.1 h
      exact .enclosed ht ⟨hmid, hinner⟩ hclosed
    next ht =>
      split at h
      next hts =>
        obtain ⟨⟨es, last⟩, mid, hmid, hes, h⟩ := gives_bind.1 h
        obtain ⟨rfl, rfl⟩ := gives_ok.1 h
        exact .call ht hts ⟨hmid, hes⟩
      next hts =>
        obtain ⟨rfl, rfl⟩ := gives_ok.1 h
        exact .name ht (Bool.eq_false_iff.2 hts)
    · exact absurd h not_gives_error

theorem Head.gives {e : Expr} (h : Head stop t ts e rest) : Gives (primary stop t ts) e rest := by
  rw [primary]
  cases h with
  | literal h =>
    rw [h]
    exact gives_ok.2 ⟨rfl, rfl⟩
  | this h | super h | paramRef h =>
    simp only [literal?, h]
    exact gives_ok.2 ⟨rfl, rfl⟩
  | name h hrest =>
    simp only [literal?, h, hrest]
    exact gives_ok.2 ⟨rfl, rfl⟩
  | call ht hts h =>
    obtain ⟨hmid, h⟩ := h
    simp only [literal?, ht, hts]
    exact gives_bind.2 ⟨_, _, hmid, h, gives_ok.2 ⟨rfl, rfl⟩⟩
  | enclosed ht h hu =>
    obtain ⟨hmid, h⟩ := h
    obtain ⟨hrest, hu⟩ := gives_expect.2 ⟨rfl, hu⟩
    simp only [literal?, ht]
    exact gives_bind.2 ⟨_, _, hmid, h, gives_bind.2 ⟨_, _, hrest, hu, gives_ok.2 ⟨rfl, rfl⟩⟩⟩

end AnnotationExpr.Expr.Parser
