import AnnotationExpr.Expr
import AnnotationExpr.Literal.Reading
import AnnotationExpr.Marker
import AnnotationExpr.Token.Scanner

/-!
Reading expressions from tokens, by recursive descent with precedence climbing for the binary operators.
Each part says what is left of the tokens, with a bound on how many those are; the bound makes the
recursion end.
-/

namespace AnnotationExpr

def BinaryOp.ofKind? : Token.Kind → Option BinaryOp
  | .orOr => some .or
  | .andAnd => some .and
  | .eqEq => some .eq
  | .notEq => some .ne
  | .lt => some .lt
  | .ltEq => some .le
  | .gt => some .gt
  | .gtEq => some .ge
  | .plus => some .add
  | .minus => some .sub
  | .star => some .mul
  | .slash => some .div
  | .percent => some .rem
  | _ => none

def UnaryOp.ofKind? : Token.Kind → Option UnaryOp
  | .minus => some .neg
  | .bang => some .not
  | _ => none

namespace Expr.Parser

/-- Something read, and fewer than `n` tokens that are left. -/
structure Parsed (α : Type) (n : Nat) where
  value : α
  rest : List Token
  bound : rest.length < n

def Parsed.within {α : Type} {m n : Nat} (p : Parsed α m) (h : m ≤ n) : Parsed α n :=
  ⟨p.value, p.rest, Nat.lt_of_lt_of_le p.bound h⟩

abbrev Result (α : Type) (n : Nat) := Except SyntaxError (Parsed α n)

/-- The next token, which must be of the given kind; `stop` is the end of the text. -/
def expect (stop : Span) (kind : Token.Kind) : (ts : List Token) → Result Token ts.length
  | [] => .error (.missing (.token kind) stop)
  | t :: ts =>
    if t.kind = kind then .ok ⟨t, ts, by simp⟩
    else .error (.unexpected (.token kind) t.kind t.span)

/-- The value of a literal token, if it is one. -/
def literal? (t : Token) : Option (Except Literal.Error Literal) :=
  match t.kind with
  | .null => some (.ok (.value .null))
  | .true => some (.ok (.boolean true))
  | .false => some (.ok (.boolean false))
  | .intLit => some ((Literal.ofInt t.lexeme).map .value)
  | .longLit => some ((Literal.ofLong t.lexeme).map .value)
  | .doubleLit => some ((Literal.ofDouble t.lexeme).map .value)
  | .charLit => some ((Literal.ofChar t.lexeme).map .value)
  | .stringLit => some ((Literal.ofString t.lexeme).map .value)
  | _ => none

/-- The class literal of the type that `base` names. -/
def classLiteral (base : Expr) (dimensions : Nat) (last : Span) : Except SyntaxError Expr :=
  match base.dotted? with
  | some (root, members) =>
    .ok (.classLiteral (base.span.join last) ⟨root, members, dimensions, base.span⟩)
  | none => .error (.notTypeName base.text base.span)

/-- The pairs of brackets that the tokens begin with, counted. -/
def dimensions (stop : Span) : (ts : List Token) → Result Nat (ts.length + 1)
  | [] => .ok ⟨0, [], by simp⟩
  | t :: ts =>
    if t.kind = .lbracket then do
      let ⟨_, rest, h⟩ ← expect stop .rbracket ts
      let ⟨n, rest', h'⟩ ← dimensions stop rest
      return ⟨n + 1, rest', by simp only [List.length_cons]; omega⟩
    else .ok ⟨0, t :: ts, by simp⟩
termination_by ts => ts.length

def nextIs (kind : Token.Kind) : List Token → Bool
  | [] => false
  | t :: _ => t.kind = kind

mutual

/-- An expression whose operators outside parentheses bind at least as tightly as `least`. -/
def binary (stop : Span) (least : Nat) (ts : List Token) : Result Expr ts.length := do
  let ⟨left, rest, h⟩ ← unary stop ts
  let p ← climb stop least left rest
  return p.within h
termination_by 8 * ts.length + 4

/-- Operators and their right operands after the left operand. -/
def climb (stop : Span) (least : Nat) (left : Expr) (ts : List Token) : Result Expr (ts.length + 1) :=
  match ts with
  | [] => .ok ⟨left, [], by simp⟩
  | t :: ts =>
    match BinaryOp.ofKind? t.kind with
    | none => .ok ⟨left, t :: ts, by simp⟩
    | some op =>
      if op.precedence < least then .ok ⟨left, t :: ts, by simp⟩
      else do
        let ⟨right, rest, h⟩ ← binary stop (op.precedence + 1) ts
        let p ← climb stop least (.binary (left.span.join right.span) op left right) rest
        return p.within (by simp only [List.length_cons]; omega)
termination_by 8 * ts.length

def unary (stop : Span) (ts : List Token) : Result Expr ts.length :=
  match ts with
  | [] => .error (.missing .expression stop)
  | t :: ts =>
    match UnaryOp.ofKind? t.kind with
    | some op => do
      let ⟨operand, rest, h⟩ ← unary stop ts
      return ⟨.unary (t.span.join operand.span) op operand, rest, by simp only [List.length_cons]; omega⟩
    | none => do
      let ⟨base, rest, h⟩ ← primary stop t ts
      let p ← suffixes stop base rest
      return p.within (by simp only [List.length_cons]; omega)
termination_by 8 * ts.length + 3

/-- Members, elements and class literals after the expression they belong to. -/
def suffixes (stop : Span) (base : Expr) (ts : List Token) : Result Expr (ts.length + 1) :=
  match ts with
  | [] => .ok ⟨base, [], by simp⟩
  | t :: ts =>
    match t.kind with
    | .dot =>
      match ts with
      | [] => .error (.missing .member stop)
      | m :: ts =>
        match m.kind with
        | .ident =>
          if nextIs .lparen ts then do
            let ⟨(arguments, last), rest, h⟩ ← arguments stop ts
            let e := .memberCall (base.span.join last) base (String.ofList m.lexeme) arguments
            let p ← suffixes stop e rest
            return p.within (by simp only [List.length_cons]; omega)
          else do
            let p ← suffixes stop (.field (base.span.join m.span) base (String.ofList m.lexeme)) ts
            return p.within (by simp only [List.length_cons]; omega)
        | .class => do
          let e ← classLiteral base 0 m.span
          let p ← suffixes stop e ts
          return p.within (by simp only [List.length_cons]; omega)
        | found => .error (.unexpected .member found m.span)
    | .lbracket =>
      if nextIs .rbracket ts then do
        let ⟨n, rest, h⟩ ← dimensions stop (t :: ts)
        have h : rest.length < ts.length + 2 := h
        let ⟨_, rest, h'⟩ ← expect stop .dot rest
        let ⟨last, rest, h''⟩ ← expect stop .class rest
        let e ← classLiteral base n last.span
        let p ← suffixes stop e rest
        return p.within (by simp only [List.length_cons]; omega)
      else do
        let ⟨index, rest, h⟩ ← binary stop 1 ts
        let ⟨last, rest, h'⟩ ← expect stop .rbracket rest
        let p ← suffixes stop (.element (base.span.join last.span) base index) rest
        return p.within (by simp only [List.length_cons]; omega)
    | _ => .ok ⟨base, t :: ts, by simp⟩
termination_by 8 * ts.length

/-- Arguments in parentheses, and the place of the closing one. -/
def arguments (stop : Span) (ts : List Token) : Result (List Expr × Span) ts.length := do
  let ⟨_, rest, h⟩ ← expect stop .lparen ts
  match rest, h with
  | t :: ts', h =>
    have h : ts'.length + 1 < ts.length := h
    if t.kind = .rparen then return ⟨([], t.span), ts', by omega⟩
    else do
      let p ← list stop (t :: ts')
      return p.within (Nat.le_of_lt h)
  | [], _ => .error (.missing .expression stop)
termination_by 8 * ts.length

/-- Expressions with commas between them, up to a closing parenthesis. -/
def list (stop : Span) (ts : List Token) : Result (List Expr × Span) ts.length := do
  let ⟨e, rest, h⟩ ← binary stop 1 ts
  match rest, h with
  | t :: ts', h =>
    have h : ts'.length + 1 < ts.length := h
    if t.kind = .comma then do
      let ⟨(es, last), rest, h'⟩ ← list stop ts'
      return ⟨(e :: es, last), rest, by omega⟩
    else do
      let ⟨last, rest, h'⟩ ← expect stop .rparen (t :: ts')
      have h' : rest.length < ts'.length + 1 := h'
      return ⟨([e], last.span), rest, by omega⟩
  | [], _ => .error (.missing (.token .rparen) stop)
termination_by 8 * ts.length + 5

/-- The part of an expression that starts with `t` and takes no suffix. -/
def primary (stop : Span) (t : Token) (ts : List Token) : Result Expr (ts.length + 1) :=
  match literal? t with
  | some (.ok value) => .ok ⟨.literal t.span value, ts, by simp⟩
  | some (.error reason) => .error (.invalidLiteral t.lexeme reason t.span)
  | none =>
    match t.kind with
    | .this => .ok ⟨.this t.span, ts, by simp⟩
    | .super => .ok ⟨.super t.span, ts, by simp⟩
    | .paramRef => .ok ⟨.name t.span (String.ofList (Marker.stem ++ t.lexeme.drop 1)), ts, by simp⟩
    | .lparen => do
      let ⟨inner, rest, h⟩ ← binary stop 1 ts
      let ⟨last, rest, h'⟩ ← expect stop .rparen rest
      return ⟨.enclosed (t.span.join last.span) inner, rest, by omega⟩
    | .ident =>
      if nextIs .lparen ts then do
        let ⟨(arguments, last), rest, h⟩ ← arguments stop ts
        return ⟨.call (t.span.join last) (String.ofList t.lexeme) arguments, rest, by omega⟩
      else .ok ⟨.name t.span (String.ofList t.lexeme), ts, by simp⟩
    | found => .error (.unexpected .expression found t.span)
termination_by 8 * ts.length + 6

end

/-- A whole list of tokens as one expression. -/
def root (stop : Span) (ts : List Token) : Except SyntaxError Expr := do
  let ⟨e, rest, _⟩ ← binary stop 1 ts
  match rest with
  | [] => return e
  | t :: _ => .error (.trailing t.kind t.span)

end Expr.Parser

/-- Reads a text whose parameter markers have been replaced by names. -/
def Expr.read (text : String) : Except SyntaxError Expr := do
  Expr.Parser.root ⟨text.utf8ByteSize, 0⟩ (← Token.scan text)

end AnnotationExpr
