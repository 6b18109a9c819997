import AnnotationExpr.Proofs.Expr.Tree
import Mathlib.Data.List.Chain
import Mathlib.Data.List.Infix

/-!
How tokens spell a tree out: one rule for each shape of an expression, with the places that the tree records and
with the order of precedence among its operators. Nothing here refers to the functions that read tokens.
-/

namespace AnnotationExpr.Expr

open AnnotationExpr.Expr.Parser (literal?)

/-- What tokens may spell: an expression, or arguments with commas between them. -/
inductive Phrase where
  | expr (e : Expr)
  | list (es : List Expr)

/-- Empty pairs of brackets. -/
inductive Brackets : Nat → List Token → Prop where
  | zero : Brackets 0 []
  | succ {t u : Token} {n : Nat} {ts : List Token} (ht : t.kind = .lbracket) (hu : u.kind = .rbracket)
      (h : Brackets n ts) : Brackets (n + 1) (t :: u :: ts)

inductive Spells : List Token → Phrase → Prop where
  | literal {t : Token} {v : Literal} (h : literal? t = some (.ok v)) : Spells [t] (.expr (.literal t.span v))
  | this {t : Token} (h : t.kind = .this) : Spells [t] (.expr (.this t.span))
  | super {t : Token} (h : t.kind = .super) : Spells [t] (.expr (.super t.span))
  | paramRef {t : Token} (h : t.kind = .paramRef) :
      Spells [t] (.expr (.name t.span (String.ofList (Marker.stem ++ t.lexeme.drop 1))))
  | name {t : Token} (h : t.kind = .ident) : Spells [t] (.expr (.name t.span (String.ofList t.lexeme)))
  | enclosed {t u : Token} {ts : List Token} {e : Expr} (ht : t.kind = .lparen) (h : Spells ts (.expr e))
      (hu : u.kind = .rparen) : Spells (t :: (ts ++ [u])) (.expr (.enclosed (t.span.join u.span) e))
  | call {t o u : Token} {ts : List Token} {es : List Expr} (ht : t.kind = .ident) (ho : o.kind = .lparen)
      (h : Spells ts (.list es)) (hu : u.kind = .rparen) :
      Spells (t :: o :: (ts ++ [u])) (.expr (.call (t.span.join u.span) (String.ofList t.lexeme) es))
  | field {t m : Token} {ts : List Token} {e : Expr} (h : Spells ts (.expr e)) (he : e.tightness = 8)
      (ht : t.kind = .dot) (hm : m.kind = .ident) :
      Spells (ts ++ [t, m]) (.expr (.field (e.span.join m.span) e (String.ofList m.lexeme)))
  | memberCall {t m o u : Token} {ts us : List Token} {e : Expr} {es : List Expr} (h : Spells ts (.expr e))
      (he : e.tightness = 8) (ht : t.kind = .dot) (hm : m.kind = .ident) (ho : o.kind = .lparen)
      (ha : Spells us (.list es)) (hu : u.kind = .rparen) :
      Spells (ts ++ t :: m :: o :: (us ++ [u]))
        (.expr (.memberCall (e.span.join u.span) e (String.ofList m.lexeme) es))
  | element {t u : Token} {ts us : List Token} {e i : Expr} (h : Spells ts (.expr e)) (he : e.tightness = 8)
      (ht : t.kind = .lbracket) (hi : Spells us (.expr i)) (hu : u.kind = .rbracket) :
      Spells (ts ++ t :: (us ++ [u])) (.expr (.element (e.span.join u.span) e i))
  | classLiteral {t u : Token} {ts bs : List Token} {e : Expr} {root : String} {members : List String} {n : Nat}
      (h : Spells ts (.expr e)) (hd : e.dotted? = some (root, members)) (hb : Brackets n bs) (ht : t.kind = .dot)
      (hu : u.kind = .class) :
      Spells (ts ++ (bs ++ [t, u])) (.expr (.classLiteral (e.span.join u.span) ⟨root, members, n, e.span⟩))
  | unary {t : Token} {ts : List Token} {op : UnaryOp} {e : Expr} (ht : UnaryOp.ofKind? t.kind = some op)
      (h : Spells ts (.expr e)) (he : 7 ≤ e.tightness) :
      Spells (t :: ts) (.expr (.unary (t.span.join e.span) op e))
  | binary {t : Token} {ts us : List Token} {op : BinaryOp} {a b : Expr} (ha : Spells ts (.expr a))
      (hle : op.precedence ≤ a.tightness) (ht : BinaryOp.ofKind? t.kind = some op) (hb : Spells us (.expr b))
      (hlt : op.precedence < b.tightness) :
      Spells (ts ++ t :: us) (.expr (.binary (a.span.join b.span) op a b))
  | none : Spells [] (.list [])
  | last {ts : List Token} {e : Expr} (h : Spells ts (.expr e)) : Spells ts (.list [e])
  | next {u : Token} {ts us : List Token} {e : Expr} {es : List Expr} (h : Spells ts (.expr e)) (hu : u.kind = .comma)
      (hs : Spells us (.list es)) (hne : es ≠ []) : Spells (ts ++ u :: us) (.list (e :: es))

namespace Phrase

def words : Phrase → List Word
  | expr e => e.words
  | list es => wordsAll es

def nodes : Phrase → List Expr
  | expr e => e.nodes
  | list es => nodesAll es

def mapSpans (f : Span → Span) : Phrase → Phrase
  | expr e => expr (e.mapSpans f)
  | list es => list (mapSpansAll f es)

def unplaced (p : Phrase) : Phrase := p.mapSpans fun _ => ⟨0, 0⟩

end Phrase

/-! What a spelling says. -/

theorem words_of_dotted {root : String} : ∀ {e : Expr} {members : List String}, e.dotted? = some (root, members) →
    e.words = .name root :: members.flatMap fun m => [.sign .dot, .name m]
  | .name _ n, _, h => by
    cases h
    rfl
  | .field _ e n, _, h => by
    obtain ⟨⟨r, ms⟩, hd, h⟩ := Option.map_eq_some_iff.1 h
    cases h
    simp [words, words_of_dotted hd]

theorem Brackets.words {n : Nat} {ts : List Token} (h : Brackets n ts) :
    ts.map Token.word? = (List.replicate n [.sign .lbracket, .sign .rbracket]).flatten.map some := by
  induction h with
  | zero => rfl
  | succ ht hu _ ih =>
    simp [List.replicate_succ, ih, Token.word?_of_isSign, ht, hu, Token.Kind.isSign]

/-- The tokens say the words of the tree, in its order. -/
theorem Spells.words {ts : List Token} {p : Phrase} (h : Spells ts p) : ts.map Token.word? = p.words.map some := by
  have sign {t : Token} {k : Token.Kind} (h : t.kind = k) (hk : k.isSign = true) : t.word? = some (.sign k) :=
    h ▸ Token.word?_of_isSign (h.symm ▸ hk)
  induction h with
  | literal h => simp [Phrase.words, Expr.words, Token.word?_eq_literal.2 h]
  | this h => simp [Phrase.words, Expr.words, sign h rfl]
  | super h => simp [Phrase.words, Expr.words, sign h rfl]
  | paramRef h => simp [Phrase.words, Expr.words, Token.word?_of_paramRef h]
  | name h => simp [Phrase.words, Expr.words, Token.word?_of_ident h]
  | enclosed ht _ hu ih => simpa [Phrase.words, Expr.words, sign ht rfl, sign hu rfl] using ih
  | call ht ho _ hu ih =>
    simpa [Phrase.words, Expr.words, Token.word?_of_ident ht, sign ho rfl, sign hu rfl] using ih
  | field _ _ ht hm ih => simpa [Phrase.words, Expr.words, sign ht rfl, Token.word?_of_ident hm] using ih
  | memberCall _ _ ht hm ho _ hu ih iha =>
    simp only [Phrase.words] at ih iha
    simp [Phrase.words, Expr.words, ih, iha, sign ht rfl, Token.word?_of_ident hm, sign ho rfl, sign hu rfl]
  | element _ _ ht _ hu ih ihi =>
    simp only [Phrase.words] at ih ihi
    simp [Phrase.words, Expr.words, ih, ihi, sign ht rfl, sign hu rfl]
  | classLiteral _ hd hb ht hu ih =>
    simp only [Phrase.words, words_of_dotted hd] at ih
    simp [Phrase.words, Expr.words, TypeName.words, ih, hb.words, sign ht rfl, sign hu rfl]
  | @unary _ _ op _ ht _ _ ih =>
    have hop : op.kind.isSign = true := by cases op <;> rfl
    simpa [Phrase.words, Expr.words, sign (UnaryOp.ofKind?_eq_some.1 ht) hop] using ih
  | @binary _ _ _ op _ _ _ _ ht _ _ iha ihb =>
    have hop : op.kind.isSign = true := by cases op <;> rfl
    simp only [Phrase.words] at iha ihb
    simp [Phrase.words, Expr.words, iha, ihb, sign (BinaryOp.ofKind?_eq_some.1 ht) hop]
  | none => rfl
  | last _ ih => simpa [Phrase.words, wordsAll] using ih
  | @next _ _ _ _ es _ hu _ hne ih ihs =>
    obtain ⟨e', es, rfl⟩ := List.exists_cons_of_ne_nil hne
    simp only [Phrase.words] at ih ihs
    simp [Phrase.words, wordsAll, ih, ihs, sign hu rfl]

/-! The nodes of a tree that is spelled. -/

/-- The operands of an operator bind as tightly as they have to. -/
theorem Spells.grouped {ts : List Token} {e : Expr} (h : Spells ts (.expr e)) : e.Grouped := by
  have plain {e : Expr} (he : e.tightness = 8) :
      (∀ s op x, e ≠ .unary s op x) ∧ ∀ s op x y, e ≠ .binary s op x y := by
    refine ⟨?_, ?_⟩
    · rintro s op x rfl
      cases he
    · rintro s op x y rfl
      have := op.precedence_le
      simp only [tightness] at he
      omega
  cases h with
  | field _ he | memberCall _ he | element _ he => exact plain he
  | unary _ _ he =>
    rintro s op x y rfl
    have := op.precedence_le
    simp only [tightness] at he
    omega
  | binary _ hle _ _ hlt =>
    refine ⟨?_, ?_⟩
    · rintro s op' x y rfl
      exact hle
    · rintro s op' x y rfl
      exact hlt
  | _ => trivial

/-- Every node is spelled by tokens that stand together. -/
theorem Spells.node {ts : List Token} {p : Phrase} (h : Spells ts p) :
    ∀ n ∈ p.nodes, ∃ us, us <:+: ts ∧ Spells us (.expr n) := by
  -- a node is the expression itself, or a node of a part whose tokens stand together in those of the whole
  have whole {ts : List Token} {e n : Expr} {inner : List Expr} (h : Spells ts (.expr e))
      (hinner : ∀ n ∈ inner, ∃ us, us <:+: ts ∧ Spells us (.expr n)) (hn : n ∈ e :: inner) :
      ∃ us, us <:+: ts ∧ Spells us (.expr n) := by
    rcases List.mem_cons.1 hn with rfl | hn
    · exact ⟨ts, List.infix_refl ts, h⟩
    · exact hinner n hn
  have part {ts us : List Token} {nodes : List Expr} (hs : us <:+: ts)
      (h : ∀ n ∈ nodes, ∃ vs, vs <:+: us ∧ Spells vs (.expr n)) :
      ∀ n ∈ nodes, ∃ vs, vs <:+: ts ∧ Spells vs (.expr n) := by
    intro n hn
    obtain ⟨vs, hv, hvn⟩ := h n hn
    exact ⟨vs, hv.trans hs, hvn⟩
  have both {ts : List Token} {first second : List Expr}
      (hfirst : ∀ n ∈ first, ∃ vs, vs <:+: ts ∧ Spells vs (.expr n))
      (hsecond : ∀ n ∈ second, ∃ vs, vs <:+: ts ∧ Spells vs (.expr n)) :
      ∀ n ∈ first ++ second, ∃ vs, vs <:+: ts ∧ Spells vs (.expr n) := by
    intro n hn
    rcases List.mem_append.1 hn with hn | hn
    · exact hfirst n hn
    · exact hsecond n hn
  have left (ts us : List Token) : ts <:+: ts ++ us := (List.prefix_append ts us).isInfix
  have right (ts : List Token) (t : Token) (us : List Token) : us <:+: ts ++ t :: us :=
    ⟨ts ++ [t], [], by simp⟩
  intro n hn
  induction h generalizing n with
  | literal h => exact whole (.literal h) (List.forall_mem_nil _) hn
  | this h => exact whole (.this h) (List.forall_mem_nil _) hn
  | super h => exact whole (.super h) (List.forall_mem_nil _) hn
  | paramRef h => exact whole (.paramRef h) (List.forall_mem_nil _) hn
  | name h => exact whole (.name h) (List.forall_mem_nil _) hn
  | @enclosed t u ts e ht h hu ih => exact whole (.enclosed ht h hu) (part ⟨[t], [u], by simp⟩ ih) hn
  | @call t o u ts es ht ho h hu ih => exact whole (.call ht ho h hu) (part ⟨[t, o], [u], by simp⟩ ih) hn
  | field h he ht hm ih => exact whole (.field h he ht hm) (part (left _ _) ih) hn
  | @memberCall t m o u ts us e es h he ht hm ho ha hu ih iha =>
    have harguments : us <:+: ts ++ t :: m :: o :: (us ++ [u]) := ⟨ts ++ [t, m, o], [u], by simp⟩
    exact whole (.memberCall h he ht hm ho ha hu) (both (part (left _ _) ih) (part harguments iha)) hn
  | @element t u ts us e i h he ht hi hu ih ihi =>
    have hindex : us <:+: ts ++ t :: (us ++ [u]) := ⟨ts ++ [t], [u], by simp⟩
    exact whole (.element h he ht hi hu) (both (part (left _ _) ih) (part hindex ihi)) hn
  | classLiteral h hd hb ht hu => exact whole (.classLiteral h hd hb ht hu) (List.forall_mem_nil _) hn
  | @unary t ts op e ht h he ih => exact whole (.unary ht h he) (part (right [] t ts) ih) hn
  | binary ha hle ht hb hlt iha ihb =>
    exact whole (.binary ha hle ht hb hlt) (both (part (left _ _) iha) (part (right _ _ _) ihb)) hn
  | none => cases hn
  | last h ih => exact both ih (List.forall_mem_nil _) n hn
  | next h hu hs hne ih ihs => exact both (part (left _ _) ih) (part (right _ _ _) ihs) n hn

end AnnotationExpr.Expr
