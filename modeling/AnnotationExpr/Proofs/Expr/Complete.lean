import AnnotationExpr.Proofs.Expr.Sound

/-!
What tokens spell, the parser reads. Where it stops depends on the token after: an expression is taken whole if what
follows cannot go on with it, and then handed to the loop that was reading. With what the parser reads being spelled
by its tokens, a list of tokens is read as a tree exactly if it spells that tree.
-/

namespace AnnotationExpr.Expr.Parser

variable {stop : Span}

/-- What follows is no part of an expression without binary operators. -/
structure Still (ts : List Token) : Prop where
  bare : Bare ts
  closed : nextIs .lparen ts = false

theorem still_of_kind {t : Token} (rest : List Token) (hdot : t.kind ≠ .dot) (hbracket : t.kind ≠ .lbracket)
    (hparen : t.kind ≠ .lparen) : Still (t :: rest) :=
  ⟨⟨decide_eq_false hdot, decide_eq_false hbracket⟩, decide_eq_false hparen⟩

theorem still_nil : Still [] := ⟨⟨rfl, rfl⟩, rfl⟩

/-- How an expression is taken from the tokens that spell it: by the function for operands, with its suffixes
before it or after it, and by the one for binary operators, as the left operand of what follows. -/
structure Taken (stop : Span) (ts : List Token) (e : Expr) : Prop where
  suffixes : e.tightness = 8 → ∀ {rest rest' e'}, nextIs .lparen rest = false →
    Gives (suffixes stop e rest) e' rest' → Gives (unary stop (ts ++ rest)) e' rest'
  unary : 7 ≤ e.tightness → ∀ {rest}, Still rest → Gives (unary stop (ts ++ rest)) e rest
  binary : ∀ {least rest rest' e'}, least ≤ e.tightness → Still rest → Calm (e.tightness + 1) rest →
    Gives (climb stop least e rest) e' rest' → Gives (binary stop least (ts ++ rest)) e' rest'

theorem Taken.of_unary {ts : List Token} {e : Expr} (htight : e.tightness = 7)
    (h : ∀ {rest}, Still rest → Gives (Parser.unary stop (ts ++ rest)) e rest) : Taken stop ts e where
  suffixes h8 := by omega
  unary _ _ hrest := h hrest
  binary _ hrest _ hg := gives_binary.2 ⟨e, _, h hrest, hg⟩

theorem Taken.of_suffixes {ts : List Token} {e : Expr}
    (h : ∀ {rest rest' e'}, nextIs .lparen rest = false → Gives (Parser.suffixes stop e rest) e' rest' →
      Gives (Parser.unary stop (ts ++ rest)) e' rest') : Taken stop ts e := by
  have hunary {rest : List Token} (hrest : Still rest) : Gives (Parser.unary stop (ts ++ rest)) e rest :=
    h hrest.closed ((gives_suffixes_bare hrest.bare).2 ⟨rfl, rfl⟩)
  exact ⟨fun _ => h, fun _ => hunary, fun _ hrest _ hg => gives_binary.2 ⟨e, _, hunary hrest, hg⟩⟩

/-- The expression is read whole where a token follows that ends it. -/
theorem Taken.gives {ts rest : List Token} {e : Expr} {least : Nat} (h : Taken stop ts e) (hle : least ≤ e.tightness)
    (hrest : Still rest) (hcalm : Calm least rest) : Gives (Parser.binary stop least (ts ++ rest)) e rest :=
  h.binary hle hrest (hcalm.mono (Nat.le_succ_of_le hle)) ((gives_climb_calm hcalm).2 ⟨rfl, rfl⟩)

theorem taken_of_head {t : Token} {ts : List Token} {e : Expr} (ht : UnaryOp.ofKind? t.kind = none)
    (h : ∀ {rest}, nextIs .lparen rest = false → Head stop t (ts ++ rest) e rest) : Taken stop (t :: ts) e :=
  .of_suffixes fun hrest hg => (gives_unary ht).2 ⟨e, _, (h hrest).gives, hg⟩

theorem Taken.suffix {u : Token} {ts us : List Token} {e e' : Expr} (h : Taken stop ts e) (he : e.tightness = 8)
    (hu : u.kind ≠ .lparen)
    (hs : ∀ {rest}, nextIs .lparen rest = false → Suffix stop e (u :: us ++ rest) e' rest) :
    Taken stop (ts ++ u :: us) e' := by
  refine .of_suffixes fun {rest _ _} hrest hg => ?_
  rw [List.append_assoc]
  exact h.suffixes he (decide_eq_false hu) ((hs hrest).gives hg)

/-- No expression starts with a bracket that closes something. -/
theorem nextIs_of_gives {least : Nat} {ts rest : List Token} {e : Expr} {k : Token.Kind}
    (hk : k = .rparen ∨ k = .rbracket) (h : Gives (binary stop least ts) e rest) : nextIs k ts = false := by
  obtain ⟨left, mid, hleft, -⟩ := gives_binary.1 h
  cases ts with
  | nil => rfl
  | cons t ts =>
    refine decide_eq_false ?_
    rintro rfl
    have hsign : UnaryOp.ofKind? t.kind = none := by rcases hk with hk | hk <;> simp [hk, UnaryOp.ofKind?]
    obtain ⟨base, _, hbase, -⟩ := (gives_unary hsign).1 hleft
    rcases hk with hk | hk <;> cases head_of_gives hbase <;> simp_all [literal?]

theorem calm_of_kind {least : Nat} {t : Token} (rest : List Token) (h : BinaryOp.ofKind? t.kind = none) :
    Calm least (t :: rest) := by
  intro t' ht op hop
  cases ht
  rw [h] at hop
  cases hop

/-- An expression is read whole before a sign that only ends expressions. -/
theorem Taken.before {ts rest : List Token} {e : Expr} {u : Token} (h : Taken stop ts e)
    (hu : u.kind = .rparen ∨ u.kind = .rbracket ∨ u.kind = .comma) :
    Gives (Parser.binary stop 1 (ts ++ u :: rest)) e (u :: rest) := by
  refine h.gives (tightness_pos e) ?_ ?_
  · rcases hu with hu | hu | hu <;> exact still_of_kind rest (by simp [hu]) (by simp [hu]) (by simp [hu])
  · rcases hu with hu | hu | hu <;> exact calm_of_kind rest (by simp [hu, BinaryOp.ofKind?])

/-- How arguments are taken, up to the parenthesis that closes them. -/
def TakenAll (stop : Span) (ts : List Token) (es : List Expr) : Prop :=
  es ≠ [] → ∀ {u rest}, u.kind = .rparen → Gives (list stop (ts ++ u :: rest)) (es, u.span) rest

theorem TakenAll.gives {o u : Token} {ts rest : List Token} {es : List Expr} (hs : Spells ts (.list es))
    (h : TakenAll stop ts es) (ho : o.kind = .lparen) (hu : u.kind = .rparen) :
    Gives (arguments stop (o :: (ts ++ u :: rest))) (es, u.span) rest := by
  refine gives_arguments.2 ⟨o, _, rfl, ho, ?_⟩
  by_cases hes : es = []
  · subst hes
    cases hs
    exact .inl ⟨u, rfl, hu, rfl, rfl⟩
  · have hlist : Gives (list stop (ts ++ u :: rest)) (es, u.span) rest := h hes hu
    obtain ⟨e, mid, he, -⟩ := gives_list.1 hlist
    exact .inr ⟨nextIs_of_gives (.inl rfl) he, hlist⟩

def PhraseTaken (stop : Span) (ts : List Token) : Phrase → Prop
  | .expr e => Taken stop ts e
  | .list es => TakenAll stop ts es

theorem unaryOp_of_literal {t : Token} {r : Except Literal.Error Literal} (h : literal? t = some r) :
    UnaryOp.ofKind? t.kind = none := by
  cases hk : t.kind <;> simp_all [literal?, UnaryOp.ofKind?]

/-- The right operand is read first, up to an operator that binds no tighter than the one before it. -/
theorem Taken.binaryOf {t : Token} {ts us : List Token} {op : BinaryOp} {a b : Expr} (ha : Taken stop ts a)
    (hle : op.precedence ≤ a.tightness) (ht : BinaryOp.ofKind? t.kind = some op) (hb : Taken stop us b)
    (hlt : op.precedence < b.tightness) : Taken stop (ts ++ t :: us) (.binary (a.span.join b.span) op a b) := by
  have hprec : op.precedence ≤ 6 := op.precedence_le
  refine ⟨fun h8 => ?_, fun h7 => ?_, ?_⟩
  · simp only [tightness] at h8
    omega
  · simp only [tightness] at h7
    omega
  · intro least rest rest' e' hleast hrest hcalm hg
    have hop : t.kind = op.kind := BinaryOp.ofKind?_eq_some.1 ht
    have hstill : Still (t :: (us ++ rest)) := by
      cases op <;> exact still_of_kind _ (by simp [hop, BinaryOp.kind]) (by simp [hop, BinaryOp.kind])
        (by simp [hop, BinaryOp.kind])
    have hnext : Calm (a.tightness + 1) (t :: (us ++ rest)) := by
      intro t' ht' op' hop'
      cases ht'
      obtain rfl : op = op' := Option.some.inj (ht.symm.trans hop')
      exact Nat.lt_succ_of_le hle
    rw [List.append_assoc]
    refine ha.binary (Nat.le_trans hleast hle) hstill hnext ?_
    exact (gives_climb_cons ht hleast).2 ⟨b, rest, hb.gives hlt hrest hcalm, hg⟩

theorem taken_of_spells {ts : List Token} {p : Phrase} (h : Spells ts p) : PhraseTaken stop ts p := by
  induction h with
  | literal h => exact taken_of_head (unaryOp_of_literal h) fun _ => .literal h
  | this h => exact taken_of_head (by simp [h, UnaryOp.ofKind?]) fun _ => .this h
  | super h => exact taken_of_head (by simp [h, UnaryOp.ofKind?]) fun _ => .super h
  | paramRef h => exact taken_of_head (by simp [h, UnaryOp.ofKind?]) fun _ => .paramRef h
  | name h => exact taken_of_head (by simp [h, UnaryOp.ofKind?]) fun hrest => .name h hrest
  | enclosed ht _ hu ih =>
    refine taken_of_head (by simp [ht, UnaryOp.ofKind?]) fun _ => ?_
    rw [List.append_assoc]
    exact .enclosed ht (Taken.before ih (.inl hu)) hu
  | call ht ho hs hu ih =>
    refine taken_of_head (by simp [ht, UnaryOp.ofKind?]) fun _ => ?_
    rw [List.cons_append, List.append_assoc]
    exact .call ht (decide_eq_true ho) (TakenAll.gives hs ih ho hu)
  | field _ he ht hm ih => exact Taken.suffix ih he (by simp [ht]) fun hrest => .field ht hm hrest
  | memberCall _ he ht hm ho hs hu ih iha =>
    refine Taken.suffix ih he (by simp [ht]) fun _ => ?_
    simp only [List.cons_append, List.append_assoc]
    exact .memberCall ht hm (decide_eq_true ho) (TakenAll.gives hs iha ho hu)
  | @element t u ts us e i _ he ht _ hu ih ihi =>
    refine Taken.suffix ih he (by simp [ht]) fun {rest} _ => ?_
    have hi : Gives (binary stop 1 (us ++ u :: rest)) i (u :: rest) := Taken.before ihi (.inr (.inl hu))
    rw [List.cons_append, List.append_assoc]
    exact .element ht (nextIs_of_gives (.inr rfl) hi) hi hu
  | @classLiteral t u _ _ _ _ _ _ _ hd hb ht hu ih =>
    have he := tightness_of_dotted hd
    cases hb with
    | zero => exact Taken.suffix ih he (by simp [ht]) fun _ => .classLiteral .zero ht hu hd
    | @succ l r n bs hl hr hb =>
      refine Taken.suffix ih he (by simp [hl]) fun {rest} _ => ?_
      have hs : Suffix stop _ ((l :: r :: bs) ++ t :: u :: rest) _ rest := .classLiteral (.succ hl hr hb) ht hu hd
      simpa using hs
  | unary ht _ he ih =>
    exact .of_unary rfl fun hrest => (gives_unary_sign ht).2 ⟨_, rfl, Taken.unary ih he hrest⟩
  | binary _ hle ht _ hlt iha ihb => exact Taken.binaryOf iha hle ht ihb hlt
  | none => exact fun h => absurd rfl h
  | last _ ih =>
    intro _ u rest hu
    exact gives_list.2 ⟨_, _, Taken.before ih (.inl hu), .inl ⟨u, rfl, hu, rfl, rfl⟩⟩
  | @next u _ _ _ _ _ hu _ hne ih ihs =>
    intro _ v rest hv
    rw [List.append_assoc]
    exact gives_list.2 ⟨_, _, Taken.before ih (.inr (.inr hu)), .inr ⟨u, _, _, rfl, hu, rfl, ihs hne hv⟩⟩

/-- A list of tokens is read as the tree that it spells, and as nothing if it spells none. -/
theorem root_eq_ok_iff {ts : List Token} {e : Expr} : root stop ts = .ok e ↔ Spells ts (.expr e) := by
  constructor
  · exact spells_of_root
  · intro h
    have htaken : Taken stop ts e := taken_of_spells h
    have hg := htaken.gives (tightness_pos e) still_nil (fun t ht => nomatch ht)
    rw [List.append_nil] at hg
    exact root_eq_ok.2 hg

theorem read_eq_ok_iff {text : String} {e : Expr} :
    Expr.read text = .ok e ↔ ∃ ts, Token.scan text = .ok ts ∧ Spells ts (.expr e) := by
  constructor
  · exact spells_of_read
  · rintro ⟨ts, hts, h⟩
    exact bind_eq_ok.2 ⟨ts, hts, root_eq_ok_iff.2 h⟩

end AnnotationExpr.Expr.Parser
