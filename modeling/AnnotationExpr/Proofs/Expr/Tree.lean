import AnnotationExpr.Expr.Parser

/-!
What a tree says, apart from the blanks and parentheses it was written with: its nodes, the words it is written
with from left to right, how tightly its outermost operator binds, and the tree with its places left out.
-/

namespace AnnotationExpr

/-- What a token says: a value, a name, or a sign or keyword that stands for itself. -/
inductive Word where
  | literal (v : Literal)
  | name (n : String)
  | sign (k : Token.Kind)

namespace Token

/-- A literal without a value says nothing. -/
def word? (t : Token) : Option Word :=
  match Expr.Parser.literal? t with
  | some (.ok v) => some (.literal v)
  | some (.error _) => none
  | none =>
    match t.kind with
    | .ident => some (.name (String.ofList t.lexeme))
    | .paramRef => some (.name (String.ofList (Marker.stem ++ t.lexeme.drop 1)))
    | k => some (.sign k)

/-- The kinds of signs and keywords that are no value. -/
def Kind.isSign : Kind → Bool
  | null | true | false | longLit | intLit | doubleLit | stringLit | charLit | ident | paramRef => .false
  | _ => .true

variable {t : Token}

theorem word?_eq_literal {v : Literal} : t.word? = some (.literal v) ↔ Expr.Parser.literal? t = some (.ok v) := by
  unfold word?
  split <;> simp_all
  split <;> simp

theorem word?_of_isSign (h : t.kind.isSign = true) : t.word? = some (.sign t.kind) := by
  cases hk : t.kind <;> simp_all [word?, Expr.Parser.literal?, Kind.isSign]

theorem word?_eq_sign {k : Kind} (h : t.word? = some (.sign k)) : t.kind = k ∧ k.isSign = true := by
  cases hk : t.kind <;> simp [word?, Expr.Parser.literal?, hk] at h
  case longLit | intLit | doubleLit | stringLit | charLit => split at h <;> simp_all
  all_goals simp [← h, Kind.isSign]

theorem word?_of_ident (h : t.kind = .ident) : t.word? = some (.name (String.ofList t.lexeme)) := by
  simp [word?, Expr.Parser.literal?, h]

theorem word?_of_paramRef (h : t.kind = .paramRef) :
    t.word? = some (.name (String.ofList (Marker.stem ++ t.lexeme.drop 1))) := by
  simp [word?, Expr.Parser.literal?, h]

/-- A name is written as it is or, if it stands for a parameter, by its index. -/
theorem word?_eq_name {n : String} (h : t.word? = some (.name n)) :
    t.kind = .ident ∧ n = String.ofList t.lexeme ∨
      t.kind = .paramRef ∧ n = String.ofList (Marker.stem ++ t.lexeme.drop 1) := by
  cases hk : t.kind <;> simp only [word?, Expr.Parser.literal?, hk] at h
  case longLit | intLit | doubleLit | stringLit | charLit => split at h <;> simp_all
  case ident => exact .inl ⟨rfl, (Word.name.inj (Option.some.inj h)).symm⟩
  case paramRef => exact .inr ⟨rfl, (Word.name.inj (Option.some.inj h)).symm⟩
  all_goals cases h

end Token

def BinaryOp.kind : BinaryOp → Token.Kind
  | or => .orOr
  | and => .andAnd
  | eq => .eqEq
  | ne => .notEq
  | lt => .lt
  | le => .ltEq
  | gt => .gt
  | ge => .gtEq
  | add => .plus
  | sub => .minus
  | mul => .star
  | div => .slash
  | rem => .percent

def UnaryOp.kind : UnaryOp → Token.Kind
  | neg => .minus
  | not => .bang

theorem BinaryOp.ofKind?_eq_some {k : Token.Kind} {op : BinaryOp} : ofKind? k = some op ↔ k = op.kind := by
  constructor
  · cases k <;> rintro ⟨⟩ <;> rfl
  · rintro rfl
    cases op <;> rfl

theorem UnaryOp.ofKind?_eq_some {k : Token.Kind} {op : UnaryOp} : ofKind? k = some op ↔ k = op.kind := by
  constructor
  · cases k <;> rintro ⟨⟩ <;> rfl
  · rintro rfl
    cases op <;> rfl

theorem BinaryOp.precedence_pos (op : BinaryOp) : 1 ≤ op.precedence := by
  cases op <;> decide

theorem BinaryOp.precedence_le (op : BinaryOp) : op.precedence ≤ 6 := by
  cases op <;> decide

def TypeName.words (t : TypeName) : List Word :=
  .name t.root :: (t.members.flatMap fun m => [.sign .dot, .name m]) ++
    ((List.replicate t.dimensions [.sign .lbracket, .sign .rbracket]).flatten ++ [.sign .dot, .sign .class])

namespace Expr

mutual

/-- The words of an expression from left to right. -/
def words : Expr → List Word
  | literal _ v => [.literal v]
  | this _ => [.sign .this]
  | super _ => [.sign .super]
  | name _ n => [.name n]
  | enclosed _ e => .sign .lparen :: (e.words ++ [.sign .rparen])
  | field _ e n => e.words ++ [.sign .dot, .name n]
  | element _ a i => a.words ++ .sign .lbracket :: (i.words ++ [.sign .rbracket])
  | call _ n es => .name n :: .sign .lparen :: (wordsAll es ++ [.sign .rparen])
  | memberCall _ e n es => e.words ++ .sign .dot :: .name n :: .sign .lparen :: (wordsAll es ++ [.sign .rparen])
  | classLiteral _ t => t.words
  | unary _ op e => .sign op.kind :: e.words
  | binary _ op a b => a.words ++ .sign op.kind :: b.words

/-- The words of arguments, with commas between them. -/
def wordsAll : List Expr → List Word
  | [] => []
  | [e] => e.words
  | e :: e' :: es => e.words ++ .sign .comma :: wordsAll (e' :: es)

end

mutual

/-- The expression and all expressions inside it. -/
def nodes : Expr → List Expr
  | literal s v => [literal s v]
  | this s => [this s]
  | super s => [super s]
  | name s n => [name s n]
  | enclosed s e => enclosed s e :: e.nodes
  | field s e n => field s e n :: e.nodes
  | element s a i => element s a i :: (a.nodes ++ i.nodes)
  | call s n es => call s n es :: nodesAll es
  | memberCall s e n es => memberCall s e n es :: (e.nodes ++ nodesAll es)
  | classLiteral s t => [classLiteral s t]
  | unary s op e => unary s op e :: e.nodes
  | binary s op a b => binary s op a b :: (a.nodes ++ b.nodes)

def nodesAll : List Expr → List Expr
  | [] => []
  | e :: es => e.nodes ++ nodesAll es

end

mutual

/-- The expression with other places in the text. -/
def mapSpans (f : Span → Span) : Expr → Expr
  | literal s v => literal (f s) v
  | this s => this (f s)
  | super s => super (f s)
  | name s n => name (f s) n
  | enclosed s e => enclosed (f s) (e.mapSpans f)
  | field s e n => field (f s) (e.mapSpans f) n
  | element s a i => element (f s) (a.mapSpans f) (i.mapSpans f)
  | call s n es => call (f s) n (mapSpansAll f es)
  | memberCall s e n es => memberCall (f s) (e.mapSpans f) n (mapSpansAll f es)
  | classLiteral s t => classLiteral (f s) { t with span := f t.span }
  | unary s op e => unary (f s) op (e.mapSpans f)
  | binary s op a b => binary (f s) op (a.mapSpans f) (b.mapSpans f)

def mapSpansAll (f : Span → Span) : List Expr → List Expr
  | [] => []
  | e :: es => e.mapSpans f :: mapSpansAll f es

end

/-- The expression without its places: what is left equal of two texts of the same expression. -/
def unplaced (e : Expr) : Expr := e.mapSpans fun _ => ⟨0, 0⟩

@[simp] theorem span_mapSpans (f : Span → Span) (e : Expr) : (e.mapSpans f).span = f e.span := by
  cases e <;> simp [mapSpans, span]

@[simp] theorem dotted?_mapSpans (f : Span → Span) : ∀ e : Expr, (e.mapSpans f).dotted? = e.dotted?
  | name _ n => by simp [mapSpans, dotted?]
  | field _ e n => by simp [mapSpans, dotted?, dotted?_mapSpans f e]
  | literal .. | this _ | super _ | enclosed .. | element .. | call .. | memberCall .. | classLiteral ..
  | unary .. | binary .. => by simp [mapSpans, dotted?]

/-- How tightly the outermost operator binds: members, elements and calls bind tightest, signs in front of an
operand less so, and binary operators by their precedence. -/
def tightness : Expr → Nat
  | binary _ op _ _ => op.precedence
  | unary _ _ _ => 7
  | _ => 8

@[simp] theorem tightness_mapSpans (f : Span → Span) (e : Expr) : (e.mapSpans f).tightness = e.tightness := by
  cases e <;> simp [mapSpans, tightness]

theorem tightness_pos (e : Expr) : 1 ≤ e.tightness := by
  cases e
  case binary op _ _ => exact op.precedence_pos
  all_goals simp [tightness]

theorem exists_binary_of_tightness_lt {e : Expr} (h : e.tightness < 7) : ∃ s op a b, e = binary s op a b := by
  cases e
  case binary s op a b => exact ⟨s, op, a, b, rfl⟩
  all_goals simp [tightness] at h

theorem tightness_of_dotted {e : Expr} {p : String × List String} (h : e.dotted? = some p) : e.tightness = 8 := by
  cases e <;> first | rfl | cases h

/-- The operator of a node binds no tighter than those of its operands; of two equal ones the left comes first. -/
def Grouped : Expr → Prop
  | binary _ op a b =>
    (∀ s op' x y, a = binary s op' x y → op.precedence ≤ op'.precedence) ∧
      ∀ s op' x y, b = binary s op' x y → op.precedence < op'.precedence
  | unary _ _ e => ∀ s op x y, e ≠ binary s op x y
  | field _ e _ | element _ e _ | memberCall _ e _ _ =>
    (∀ s op x, e ≠ unary s op x) ∧ ∀ s op x y, e ≠ binary s op x y
  | _ => True

end Expr
end AnnotationExpr
