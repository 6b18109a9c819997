import AnnotationExpr.Proofs.Expr.Complete

/-!
The grammar of expressions in the plain form in which it is written down: it says which tokens make up an expression
and nothing about trees, so binary operators and their operands are one flat row. A list of tokens is accepted
exactly if it is derived; the tree that is read has the words of the tokens in their order, and each operator in it
is grouped by its precedence, the left one first among equals.
-/

namespace AnnotationExpr.Expr

open AnnotationExpr.Expr.Parser

/-- A name, or field accesses over a name. -/
inductive Chain : List Token → Prop where
  | name {t : Token} (h : t.kind = .ident ∨ t.kind = .paramRef) : Chain [t]
  | field {t m : Token} {ts : List Token} (h : Chain ts) (ht : t.kind = .dot) (hm : m.kind = .ident) :
      Chain (ts ++ [t, m])

inductive Nonterminal where
  | expr | unary | suffixed | suffix | classSuffix | primary | arguments | list

inductive Derives : Nonterminal → List Token → Prop where
  -- expr ::= unary (operator unary)*
  | operand {ts : List Token} (h : Derives .unary ts) : Derives .expr ts
  | operator {t : Token} {ts us : List Token} {op : BinaryOp} (h : Derives .expr ts)
      (ht : BinaryOp.ofKind? t.kind = some op) (hu : Derives .unary us) : Derives .expr (ts ++ t :: us)
  -- unary ::= (`-` | `!`)* suffixed
  | unsigned {ts : List Token} (h : Derives .suffixed ts) : Derives .unary ts
  | signed {t : Token} {ts : List Token} (ht : t.kind = .minus ∨ t.kind = .bang) (h : Derives .unary ts) :
      Derives .unary (t :: ts)
  -- suffixed ::= primary (suffix | classSuffix)*, where a classSuffix follows names and points only
  | primary {ts : List Token} (h : Derives .primary ts) : Derives .suffixed ts
  | suffix {ts us : List Token} (h : Derives .suffixed ts) (hs : Derives .suffix us) : Derives .suffixed (ts ++ us)
  | classSuffix {ts us : List Token} (h : Derives .suffixed ts) (hc : Chain ts) (hs : Derives .classSuffix us) :
      Derives .suffixed (ts ++ us)
  -- suffix ::= `.` ident [arguments] | `[` expr `]`
  | field {t m : Token} (ht : t.kind = .dot) (hm : m.kind = .ident) : Derives .suffix [t, m]
  | memberCall {t m : Token} {ts : List Token} (ht : t.kind = .dot) (hm : m.kind = .ident)
      (h : Derives .arguments ts) : Derives .suffix (t :: m :: ts)
  | element {t u : Token} {ts : List Token} (ht : t.kind = .lbracket) (h : Derives .expr ts) (hu : u.kind = .rbracket) :
      Derives .suffix (t :: (ts ++ [u]))
  -- classSuffix ::= (`[` `]`)* `.` `class`
  | classWord {t u : Token} (ht : t.kind = .dot) (hu : u.kind = .class) : Derives .classSuffix [t, u]
  | brackets {t u : Token} {ts : List Token} (ht : t.kind = .lbracket) (hu : u.kind = .rbracket)
      (h : Derives .classSuffix ts) : Derives .classSuffix (t :: u :: ts)
  -- primary ::= literal | `this` | `super` | `(` expr `)` | ident [arguments] | paramRef
  | literal {t : Token} {v : Literal} (h : literal? t = some (.ok v)) : Derives .primary [t]
  | this {t : Token} (h : t.kind = .this) : Derives .primary [t]
  | super {t : Token} (h : t.kind = .super) : Derives .primary [t]
  | enclosed {t u : Token} {ts : List Token} (ht : t.kind = .lparen) (h : Derives .expr ts) (hu : u.kind = .rparen) :
      Derives .primary (t :: (ts ++ [u]))
  | name {t : Token} (h : t.kind = .ident) : Derives .primary [t]
  | call {t : Token} {ts : List Token} (ht : t.kind = .ident) (h : Derives .arguments ts) : Derives .primary (t :: ts)
  | paramRef {t : Token} (h : t.kind = .paramRef) : Derives .primary [t]
  -- arguments ::= `(` [list] `)`, list ::= expr (`,` expr)*
  | noArguments {t u : Token} (ht : t.kind = .lparen) (hu : u.kind = .rparen) : Derives .arguments [t, u]
  | arguments {t u : Token} {ts : List Token} (ht : t.kind = .lparen) (h : Derives .list ts) (hu : u.kind = .rparen) :
      Derives .arguments (t :: (ts ++ [u]))
  | last {ts : List Token} (h : Derives .expr ts) : Derives .list ts
  | next {u : Token} {ts us : List Token} (h : Derives .expr ts) (hu : u.kind = .comma) (hs : Derives .list us) :
      Derives .list (ts ++ u :: us)

/-! From a derivation to the tree. -/

/-- A further operator and its operand go where the precedence puts them: around the tree, or down its right side. -/
theorem Spells.insert {t : Token} {ts us : List Token} {op : BinaryOp} {e b : Expr} (h : Spells ts (.expr e))
    (ht : BinaryOp.ofKind? t.kind = some op) (hb : Spells us (.expr b)) (htight : 7 ≤ b.tightness) :
    ∃ e', Spells (ts ++ t :: us) (.expr e') ∧ e'.tightness = min e.tightness op.precedence := by
  have hprec : op.precedence ≤ 6 := op.precedence_le
  by_cases hle : op.precedence ≤ e.tightness
  · exact ⟨_, .binary h hle ht hb (by omega), (Nat.min_eq_right hle).symm⟩
  · -- only a binary operator binds so loosely
    have hlow : e.tightness < 7 := by omega
    obtain ⟨s, op₁, a₁, b₁, rfl⟩ := exists_binary_of_tightness_lt hlow
    simp only [tightness] at hle ⊢
    cases h with
    | @binary t₁ ts₁ us₁ _ _ _ ha₁ hle₁ ht₁ hb₁ hlt₁ =>
      obtain ⟨e', he', htight'⟩ := Spells.insert hb₁ ht hb htight
      have hlt : op₁.precedence < e'.tightness := by omega
      have hwhole := Spells.binary ha₁ hle₁ ht₁ he' hlt
      have hmin : op₁.precedence = min op₁.precedence op.precedence := by omega
      exact ⟨.binary _ op₁ a₁ e', by simpa using hwhole, hmin⟩
termination_by ts.length
decreasing_by subst_vars; simp only [List.length_append, List.length_cons]; omega

/-- What the tokens of each nonterminal spell. -/
def Spelled : Nonterminal → List Token → Prop
  | .expr, ts => ∃ e, Spells ts (.expr e)
  | .unary, ts => ∃ e, Spells ts (.expr e) ∧ 7 ≤ e.tightness
  | .suffixed, ts | .primary, ts => ∃ e, Spells ts (.expr e) ∧ e.tightness = 8
  | .suffix, us => ∀ ts e, Spells ts (.expr e) → e.tightness = 8 →
      ∃ e', Spells (ts ++ us) (.expr e') ∧ e'.tightness = 8
  | .classSuffix, us => ∃ n bs t u, us = bs ++ [t, u] ∧ Brackets n bs ∧ t.kind = .dot ∧ u.kind = .class
  | .arguments, us => ∃ t ts u es, us = t :: (ts ++ [u]) ∧ t.kind = .lparen ∧ u.kind = .rparen ∧ Spells ts (.list es)
  | .list, us => ∃ es, Spells us (.list es) ∧ es ≠ []

theorem Chain.spelled {ts : List Token} (h : Chain ts) : ∃ e p, Spells ts (.expr e) ∧ e.dotted? = some p := by
  induction h with
  | name h =>
    rcases h with h | h
    · exact ⟨_, _, .name h, rfl⟩
    · exact ⟨_, _, .paramRef h, rfl⟩
  | field _ ht hm ih =>
    obtain ⟨e, ⟨root, members⟩, he, hd⟩ := ih
    exact ⟨_, _, .field he (tightness_of_dotted hd) ht hm, by simp [dotted?, hd]; rfl⟩

theorem Derives.spelled {k : Nonterminal} {ts : List Token} (h : Derives k ts) : Spelled k ts := by
  induction h with
  | operand _ ih =>
    obtain ⟨e, he, -⟩ := ih
    exact ⟨e, he⟩
  | operator _ ht _ ih ihu =>
    obtain ⟨e, he⟩ := ih
    obtain ⟨b, hb, htight⟩ := ihu
    obtain ⟨e', he', -⟩ := he.insert ht hb htight
    exact ⟨e', he'⟩
  | unsigned _ ih =>
    obtain ⟨e, he, htight⟩ := ih
    exact ⟨e, he, by simp [htight]⟩
  | signed ht _ ih =>
    obtain ⟨e, he, htight⟩ := ih
    rcases ht with ht | ht
    · exact ⟨.unary _ .neg e, .unary (by simp [ht, UnaryOp.ofKind?]) he htight, by simp [tightness]⟩
    · exact ⟨.unary _ .not e, .unary (by simp [ht, UnaryOp.ofKind?]) he htight, by simp [tightness]⟩
  | primary _ ih => exact ih
  | suffix _ _ ih ihs =>
    obtain ⟨e, he, htight⟩ := ih
    exact ihs _ e he htight
  | classSuffix _ hc _ _ ihs =>
    obtain ⟨e, ⟨root, members⟩, he, hd⟩ := hc.spelled
    obtain ⟨n, bs, t, u, rfl, hb, ht, hu⟩ := ihs
    exact ⟨_, .classLiteral he hd hb ht hu, rfl⟩
  | field ht hm => exact fun _ e he htight => ⟨_, .field he htight ht hm, rfl⟩
  | memberCall ht hm _ ih =>
    obtain ⟨o, as, u, es, rfl, ho, hu, has⟩ := ih
    exact fun _ e he htight => ⟨_, .memberCall he htight ht hm ho has hu, rfl⟩
  | element ht _ hu ih =>
    obtain ⟨i, hi⟩ := ih
    exact fun _ e he htight => ⟨_, .element he htight ht hi hu, rfl⟩
  | classWord ht hu => exact ⟨0, [], _, _, rfl, .zero, ht, hu⟩
  | brackets ht hu _ ih =>
    obtain ⟨n, bs, t, u, rfl, hb, hdot, hclass⟩ := ih
    exact ⟨n + 1, _, t, u, rfl, .succ ht hu hb, hdot, hclass⟩
  | literal h => exact ⟨_, .literal h, rfl⟩
  | this h => exact ⟨_, .this h, rfl⟩
  | super h => exact ⟨_, .super h, rfl⟩
  | enclosed ht _ hu ih =>
    obtain ⟨e, he⟩ := ih
    exact ⟨_, .enclosed ht he hu, rfl⟩
  | name h => exact ⟨_, .name h, rfl⟩
  | call ht _ ih =>
    obtain ⟨o, as, u, es, rfl, ho, hu, has⟩ := ih
    exact ⟨_, .call ht ho has hu, rfl⟩
  | paramRef h => exact ⟨_, .paramRef h, rfl⟩
  | noArguments ht hu => exact ⟨_, [], _, [], rfl, ht, hu, .none⟩
  | arguments ht _ hu ih =>
    obtain ⟨es, hes, -⟩ := ih
    exact ⟨_, _, _, es, rfl, ht, hu, hes⟩
  | last _ ih =>
    obtain ⟨e, he⟩ := ih
    exact ⟨[e], .last he, by simp⟩
  | next _ hu _ ih ihs =>
    obtain ⟨e, he⟩ := ih
    obtain ⟨es, hes, hne⟩ := ihs
    exact ⟨e :: es, .next he hu hes hne, by simp⟩

/-! From the tree to a derivation. -/

/-- The nonterminals that the tokens of an expression have, by the shape of the expression. -/
structure Derived (ts : List Token) (e : Expr) : Prop where
  expr : Derives .expr ts
  unary : 7 ≤ e.tightness → Derives .unary ts
  suffixed : e.tightness = 8 → Derives .suffixed ts
  chain : ∀ p, e.dotted? = some p → Chain ts

theorem Derived.of_suffixed {ts : List Token} {e : Expr} (h : Derives .suffixed ts)
    (hc : ∀ p, e.dotted? = some p → Chain ts) : Derived ts e :=
  ⟨.operand (.unsigned h), fun _ => .unsigned h, fun _ => h, hc⟩

/-- A row of operands after another one with an operator between them. -/
theorem Derives.append {t : Token} {ts us : List Token} {op : BinaryOp} (h : Derives .expr ts)
    (ht : BinaryOp.ofKind? t.kind = some op) (hu : Derives .expr us) : Derives .expr (ts ++ t :: us) := by
  generalize hk : Nonterminal.expr = k at hu
  induction hu with
  | operand hu => exact .operator h ht hu
  | @operator t' us vs op' hus ht' hvs ih _ =>
    have := Derives.operator (ih hk) ht' hvs
    simpa using this
  | _ => cases hk

theorem Brackets.derives {t u : Token} {n : Nat} {bs : List Token} (h : Brackets n bs) (ht : t.kind = .dot)
    (hu : u.kind = .class) : Derives .classSuffix (bs ++ [t, u]) := by
  induction h with
  | zero => exact .classWord ht hu
  | succ hl hr _ ih => exact .brackets hl hr ih

def PhraseDerived (ts : List Token) : Phrase → Prop
  | .expr e => Derived ts e
  | .list es => es ≠ [] → Derives .list ts

theorem derives_arguments {t u : Token} {ts : List Token} {es : List Expr} (hs : Spells ts (.list es))
    (h : PhraseDerived ts (.list es)) (ht : t.kind = .lparen) (hu : u.kind = .rparen) :
    Derives .arguments (t :: (ts ++ [u])) := by
  by_cases hes : es = []
  · subst hes
    cases hs
    exact .noArguments ht hu
  · exact .arguments ht (h hes) hu

theorem Spells.derived {ts : List Token} {p : Phrase} (h : Spells ts p) : PhraseDerived ts p := by
  induction h with
  | literal h => exact .of_suffixed (.primary (.literal h)) nofun
  | this h => exact .of_suffixed (.primary (.this h)) nofun
  | super h => exact .of_suffixed (.primary (.super h)) nofun
  | paramRef h => exact .of_suffixed (.primary (.paramRef h)) fun _ _ => .name (.inr h)
  | name h => exact .of_suffixed (.primary (.name h)) fun _ _ => .name (.inl h)
  | enclosed ht _ hu ih => exact .of_suffixed (.primary (.enclosed ht ih.expr hu)) nofun
  | call ht ho hs hu ih => exact .of_suffixed (.primary (.call ht (derives_arguments hs ih ho hu))) nofun
  | field _ he ht hm ih =>
    refine .of_suffixed (.suffix (ih.suffixed he) (.field ht hm)) fun p hp => ?_
    obtain ⟨q, hq, -⟩ := Option.map_eq_some_iff.1 hp
    exact .field (ih.chain q hq) ht hm
  | memberCall _ he ht hm ho hs hu ih iha =>
    exact .of_suffixed (.suffix (ih.suffixed he) (.memberCall ht hm (derives_arguments hs iha ho hu))) nofun
  | element _ he ht _ hu ih ihi => exact .of_suffixed (.suffix (ih.suffixed he) (.element ht ihi.expr hu)) nofun
  | @classLiteral t u ts bs e root members n _ hd hb ht hu ih =>
    have hsuffixed : Derives .suffixed ts := ih.suffixed (tightness_of_dotted hd)
    exact .of_suffixed (.classSuffix hsuffixed (ih.chain _ hd) (hb.derives ht hu)) nofun
  | @unary t ts op e ht _ he ih =>
    have hsign : t.kind = .minus ∨ t.kind = .bang := by
      rw [UnaryOp.ofKind?_eq_some.1 ht]
      cases op
      · exact .inl rfl
      · exact .inr rfl
    have h := Derives.signed hsign (ih.unary he)
    exact ⟨.operand h, fun _ => h, nofun, nofun⟩
  | @binary t ts us op a b _ _ ht _ _ iha ihb =>
    have hprec : op.precedence ≤ 6 := op.precedence_le
    refine ⟨iha.expr.append ht ihb.expr, fun h7 => ?_, fun h8 => ?_, nofun⟩
    · simp only [tightness] at h7
      omega
    · simp only [tightness] at h8
      omega
  | none => exact fun h => absurd rfl h
  | last _ ih => exact fun _ => .last ih.expr
  | next _ hu _ hne ih ihs => exact fun _ => .next ih.expr hu (ihs hne)

/-- The parser accepts exactly the grammar. What it reads has the words of the tokens in their order, and every
operator in it binds no tighter than those of its operands, of two equal ones the left first. -/
theorem root_accepts (stop : Span) (ts : List Token) :
    ((∃ e, root stop ts = .ok e) ↔ Derives .expr ts) ∧
      ∀ e, root stop ts = .ok e → ts.map Token.word? = e.words.map some ∧ ∀ n ∈ e.nodes, n.Grouped := by
  refine ⟨⟨?_, ?_⟩, ?_⟩
  · rintro ⟨e, h⟩
    exact (root_eq_ok_iff.1 h).derived.expr
  · intro h
    obtain ⟨e, he⟩ := h.spelled
    exact ⟨e, root_eq_ok_iff.2 he⟩
  · intro e h
    have hs := root_eq_ok_iff.1 h
    refine ⟨hs.words, fun n hn => ?_⟩
    obtain ⟨us, -, hus⟩ := hs.node n hn
    exact hus.grouped

/-- The product belongs to the right operand of the difference, and the sign to the last name. -/
theorem root_accepts_difference : ∃ stop ts e, Token.scan "a - b * -c" = .ok ts ∧ Derives .expr ts ∧
    root stop ts = .ok e ∧ ts.map Token.word? = e.words.map some ∧ ∀ n ∈ e.nodes, n.Grouped := by
  have hread : (Expr.read "a - b * -c").toOption.map Expr.text = some "a - b * -c" := by decide +kernel
  obtain ⟨e, he, -⟩ := of_toOption_map hread
  obtain ⟨ts, hts, hroot⟩ := bind_eq_ok.1 he
  obtain ⟨hderives, htree⟩ := root_accepts ⟨"a - b * -c".utf8ByteSize, 0⟩ ts
  exact ⟨_, ts, e, hts, hderives.1 ⟨e, hroot⟩, hroot, htree e hroot⟩

end AnnotationExpr.Expr
