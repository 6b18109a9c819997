import AnnotationExpr.Proofs.Expr.Spelling
import AnnotationExpr.Proofs.Literal.Integers
import AnnotationExpr.Proofs.Token.Neighbours

/-!
What the tokens of an expression are like. Each says something, so none is an integer with a point at its end, and no
two words, names or literals stand next to each other.
-/

namespace AnnotationExpr

/-- An integer literal that says something has no point in it. -/
theorem Token.point_notMem {t : Token} (h : t.word? ≠ none) (hk : t.kind = .intLit) : '.' ∉ t.lexeme := by
  cases hn : Literal.integer? 32 t.lexeme with
  | none => simp [word?, Expr.Parser.literal?, hk, Literal.ofInt, hn, Except.map] at h
  | some n => exact Literal.point_notMem hn

namespace Expr

theorem Spells.word? {ts : List Token} {p : Phrase} (h : Spells ts p) : ∀ t ∈ ts, t.word? ≠ .none := by
  intro t ht hnone
  have hmem : t.word? ∈ p.words.map some := h.words ▸ List.mem_map_of_mem ht
  rw [hnone] at hmem
  obtain ⟨w, -, hw⟩ := List.mem_map.1 hmem
  cases hw

theorem Spells.unpointed {ts : List Token} {p : Phrase} (h : Spells ts p) : Token.Unpointed ts :=
  fun t ht => Token.point_notMem (h.word? t ht)

theorem chain_cons {t : Token} {ts : List Token} (ht : t.kind.isPunct = true) (h : ts.IsChain Token.Separate) :
    (t :: ts).IsChain Token.Separate :=
  List.isChain_cons.2 ⟨fun _ _ => .inl ht, h⟩

theorem chain_append {t : Token} {ts us : List Token} (hts : ts.IsChain Token.Separate)
    (ht : t.kind.isPunct = true) (hus : us.IsChain Token.Separate) : (ts ++ t :: us).IsChain Token.Separate := by
  refine List.isChain_append.2 ⟨hts, chain_cons ht hus, ?_⟩
  rintro u - v ⟨⟩
  exact .inr ht

theorem isPunct_of_kind {t : Token} {k : Token.Kind} (h : t.kind = k) (hk : k.isPunct = true) :
    t.kind.isPunct = true :=
  h ▸ hk

theorem Brackets.chain {n : Nat} {bs ts us : List Token} {t : Token} (h : Brackets n bs)
    (hts : ts.IsChain Token.Separate) (ht : t.kind.isPunct = true) (hus : us.IsChain Token.Separate) :
    (ts ++ (bs ++ t :: us)).IsChain Token.Separate := by
  induction h generalizing ts with
  | zero => exact chain_append hts ht hus
  | @succ l r n bs hl hr _ ih =>
    have hbrackets := chain_append hts (isPunct_of_kind hl rfl) (.singleton r)
    have := ih hbrackets
    simpa using this

/-- Of two neighbours in an expression one is a sign. -/
theorem Spells.chain {ts : List Token} {p : Phrase} (h : Spells ts p) : ts.IsChain Token.Separate := by
  induction h with
  | literal | this | super | paramRef | name => exact .singleton _
  | none => exact .nil
  | enclosed ht _ hu ih =>
    exact chain_cons (isPunct_of_kind ht rfl) (chain_append ih (isPunct_of_kind hu rfl) .nil)
  | @call t o u ts es _ ho _ hu ih =>
    exact chain_append (.singleton t) (isPunct_of_kind ho rfl) (chain_append ih (isPunct_of_kind hu rfl) .nil)
  | @field t m ts e _ _ ht _ ih => exact chain_append ih (isPunct_of_kind ht rfl) (.singleton m)
  | @memberCall t m o u ts us e es _ _ ht _ ho _ hu ih iha =>
    refine chain_append ih (isPunct_of_kind ht rfl) (chain_append (.singleton m) (isPunct_of_kind ho rfl) ?_)
    exact chain_append iha (isPunct_of_kind hu rfl) .nil
  | element _ _ ht _ hu ih ihi =>
    exact chain_append ih (isPunct_of_kind ht rfl) (chain_append ihi (isPunct_of_kind hu rfl) .nil)
  | @classLiteral t u _ _ _ _ _ _ _ _ hb ht _ ih => exact hb.chain ih (isPunct_of_kind ht rfl) (.singleton u)
  | @unary t ts op e ht _ _ ih =>
    have hop := UnaryOp.ofKind?_eq_some.1 ht
    exact chain_cons (isPunct_of_kind hop (by cases op <;> rfl)) ih
  | @binary t ts us op a b _ _ ht _ _ iha ihb =>
    have hop := BinaryOp.ofKind?_eq_some.1 ht
    exact chain_append iha (isPunct_of_kind hop (by cases op <;> rfl)) ihb
  | last _ ih => exact ih
  | next _ hu _ _ ih ihs => exact chain_append ih (isPunct_of_kind hu rfl) ihs

end Expr
end AnnotationExpr
