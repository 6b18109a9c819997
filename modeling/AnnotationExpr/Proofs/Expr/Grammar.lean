import AnnotationExpr.Proofs.Expr.Sound

/-!
The grammar of expressions as a relation between tokens, what is read from them, and the tokens left over. What is
spelled can be read by its rules, so what every rule keeps holds of all expressions that are read. Precedence and most
places are left out: the relation says what may be read, the parser what is.
-/

namespace AnnotationExpr.Expr.Parser

/-- What is read: an expression, arguments in parentheses, or arguments up to the closing one. -/
inductive Part where
  | expr (e : Expr)
  | arguments (es : List Expr)
  | list (es : List Expr)

inductive Reads : List Token → Part → List Token → Prop where
  | literal {t : Token} {v : Literal} {rest : List Token} (h : literal? t = some (.ok v)) :
      Reads (t :: rest) (.expr (.literal t.span v)) rest
  | this {t : Token} {rest : List Token} (h : t.kind = .this) : Reads (t :: rest) (.expr (.this t.span)) rest
  | super {t : Token} {rest : List Token} (h : t.kind = .super) : Reads (t :: rest) (.expr (.super t.span)) rest
  | paramRef {t : Token} {rest : List Token} (h : t.kind = .paramRef) :
      Reads (t :: rest) (.expr (.name t.span (String.ofList (Marker.stem ++ t.lexeme.drop 1)))) rest
  | name {t : Token} {rest : List Token} (h : t.kind = .ident) :
      Reads (t :: rest) (.expr (.name t.span (String.ofList t.lexeme))) rest
  | enclosed {t u : Token} {ts rest : List Token} {s : Span} {e : Expr} (ht : t.kind = .lparen)
      (h : Reads ts (.expr e) (u :: rest)) (hu : u.kind = .rparen) :
      Reads (t :: ts) (.expr (.enclosed s e)) rest
  | call {t : Token} {ts rest : List Token} {s : Span} {es : List Expr} (ht : t.kind = .ident)
      (h : Reads ts (.arguments es) rest) : Reads (t :: ts) (.expr (.call s (String.ofList t.lexeme) es)) rest
  | field {t m : Token} {ts rest : List Token} {s : Span} {e : Expr} (h : Reads ts (.expr e) (t :: m :: rest))
      (ht : t.kind = .dot) (hm : m.kind = .ident) :
      Reads ts (.expr (.field s e (String.ofList m.lexeme))) rest
  | memberCall {t m : Token} {ts ts' rest : List Token} {s : Span} {e : Expr} {es : List Expr}
      (h : Reads ts (.expr e) (t :: m :: ts')) (ht : t.kind = .dot) (hm : m.kind = .ident)
      (ha : Reads ts' (.arguments es) rest) :
      Reads ts (.expr (.memberCall s e (String.ofList m.lexeme) es)) rest
  | element {t u : Token} {ts ts' rest : List Token} {s : Span} {e index : Expr}
      (h : Reads ts (.expr e) (t :: ts')) (ht : t.kind = .lbracket) (hi : Reads ts' (.expr index) (u :: rest))
      (hu : u.kind = .rbracket) : Reads ts (.expr (.element s e index)) rest
  /-- Between the name and the last word stand brackets and a point. -/
  | classLiteral {u : Token} {ts ts' rest : List Token} {s : Span} {e : Expr} {root : String}
      {members : List String} {n : Nat} (h : Reads ts (.expr e) ts') (hd : e.dotted? = some (root, members))
      (hs : u :: rest <:+ ts') (hu : u.kind = .class) :
      Reads ts (.expr (.classLiteral s ⟨root, members, n, e.span⟩)) rest
  | unary {t : Token} {ts rest : List Token} {s : Span} {op : UnaryOp} {e : Expr}
      (ht : UnaryOp.ofKind? t.kind = some op) (h : Reads ts (.expr e) rest) :
      Reads (t :: ts) (.expr (.unary s op e)) rest
  | binary {t : Token} {ts ts' rest : List Token} {s : Span} {op : BinaryOp} {a b : Expr}
      (ha : Reads ts (.expr a) (t :: ts')) (ht : BinaryOp.ofKind? t.kind = some op)
      (hb : Reads ts' (.expr b) rest) : Reads ts (.expr (.binary s op a b)) rest
  | noArguments {t u : Token} {rest : List Token} (ht : t.kind = .lparen) (hu : u.kind = .rparen) :
      Reads (t :: u :: rest) (.arguments []) rest
  | arguments {t : Token} {ts rest : List Token} {es : List Expr} (ht : t.kind = .lparen)
      (h : Reads ts (.list es) rest) : Reads (t :: ts) (.arguments es) rest
  | last {u : Token} {ts rest : List Token} {e : Expr} (h : Reads ts (.expr e) (u :: rest)) (hu : u.kind = .rparen) :
      Reads ts (.list [e]) rest
  | next {u : Token} {ts ts' rest : List Token} {e : Expr} {es : List Expr} (h : Reads ts (.expr e) (u :: ts'))
      (hu : u.kind = .comma) (hs : Reads ts' (.list es) rest) : Reads ts (.list (e :: es)) rest

/-- Tokens before others are read as the phrase; arguments, if there are any, with the parenthesis that closes them. -/
def ReadsAs (ts : List Token) : Phrase → Prop
  | .expr e => ∀ rest, Reads (ts ++ rest) (.expr e) rest
  | .list es => es ≠ [] → ∀ u rest, u.kind = .rparen → Reads (ts ++ u :: rest) (.list es) rest

theorem reads_arguments {o u : Token} {ts : List Token} {es : List Expr} (h : Spells ts (.list es))
    (hs : ReadsAs ts (.list es)) (ho : o.kind = .lparen) (hu : u.kind = .rparen) (rest : List Token) :
    Reads (o :: (ts ++ u :: rest)) (.arguments es) rest := by
  cases es with
  | nil =>
    cases h
    exact .noArguments ho hu
  | cons e es => exact .arguments ho (hs (List.cons_ne_nil e es) u rest hu)

/-- What is spelled can be read. -/
theorem readsAs_of_spells {ts : List Token} {p : Phrase} (h : Spells ts p) : ReadsAs ts p := by
  induction h with
  | literal h => exact fun _ => .literal h
  | this h => exact fun _ => .this h
  | super h => exact fun _ => .super h
  | paramRef h => exact fun _ => .paramRef h
  | name h => exact fun _ => .name h
  | @enclosed t u ts e ht _ hu ih =>
    intro rest
    have hinner := ih (u :: rest)
    simpa using Reads.enclosed ht hinner hu
  | call ht ho h hu ih =>
    intro rest
    simpa using Reads.call ht (reads_arguments h ih ho hu rest)
  | @field t m ts e _ _ ht hm ih =>
    intro rest
    simpa using Reads.field (ih (t :: m :: rest)) ht hm
  | @memberCall t m o u ts us e es _ _ ht hm ho h hu ih iha =>
    intro rest
    simpa using Reads.memberCall (ih (t :: m :: o :: (us ++ u :: rest))) ht hm (reads_arguments h iha ho hu rest)
  | @element t u ts us e i _ _ ht _ hu ih ihi =>
    intro rest
    simpa using Reads.element (ih (t :: (us ++ u :: rest))) ht (ihi (u :: rest)) hu
  | @classLiteral t u ts bs e _ _ _ _ hd _ _ hu ih =>
    intro rest
    have hlast : u :: rest <:+ bs ++ t :: u :: rest := ⟨bs ++ [t], by simp⟩
    simpa using Reads.classLiteral (ih (bs ++ t :: u :: rest)) hd hlast hu
  | unary ht _ _ ih => exact fun rest => .unary ht (ih rest)
  | @binary t ts us op a b _ _ ht _ _ iha ihb =>
    intro rest
    simpa using Reads.binary (iha (t :: (us ++ rest))) ht (ihb rest)
  | none => exact fun hne => absurd rfl hne
  | last _ ih => exact fun _ u rest hu => .last (ih (u :: rest)) hu
  | @next v ts us e es _ hv _ hne ih ihs =>
    intro _ u rest hu
    simpa using Reads.next (ih (v :: (us ++ u :: rest))) hv (ihs hne u rest hu)

/-- An expression is read from all the tokens of its text. -/
theorem reads_of_read {text : String} {e : Expr} (h : Expr.read text = .ok e) :
    ∃ ts, Token.scan text = .ok ts ∧ Reads ts (.expr e) [] := by
  obtain ⟨ts, hts, hs⟩ := spells_of_read h
  have hreads := readsAs_of_spells hs []
  rw [List.append_nil] at hreads
  exact ⟨ts, hts, hreads⟩

theorem Reads.suffix {ts rest : List Token} {part : Part} (h : Reads ts part rest) : rest <:+ ts := by
  have of_cons {t : Token} {ts rest : List Token} (h : t :: rest <:+ ts) : rest <:+ ts :=
    (List.suffix_cons t rest).trans h
  induction h with
  | literal | this | super | paramRef | name => exact List.suffix_cons _ _
  | enclosed _ _ _ ih => exact (of_cons ih).trans (List.suffix_cons _ _)
  | call _ _ ih | unary _ _ ih | arguments _ _ ih => exact ih.trans (List.suffix_cons _ _)
  | field _ _ _ ih => exact of_cons (of_cons ih)
  | memberCall _ _ _ _ ih iha => exact iha.trans (of_cons (of_cons ih))
  | element _ _ _ _ ih ihi => exact (of_cons ihi).trans (of_cons ih)
  | classLiteral _ _ hs _ ih => exact (of_cons hs).trans ih
  | binary _ _ _ iha ihb => exact ihb.trans (of_cons iha)
  | noArguments => exact of_cons (List.suffix_cons _ _)
  | last _ _ ih => exact of_cons ih
  | next _ _ _ ih ihs => exact ihs.trans (of_cons ih)

end AnnotationExpr.Expr.Parser
