import AnnotationExpr.SyntaxError
import AnnotationExpr.Text.Digits

/-!
Cutting a text into tokens. A token starts at each character that is not blank and takes as many of the
characters after it as its kind allows; `pick` says which kind and how many, so the tokens of a text and
the blanks between them make up the text.
-/

namespace AnnotationExpr.Token

def isSpace (c : Char) : Bool := c = ' ' || c = '\t' || c = '\n' || c = '\r' || c = '\x0c'

def isWordStart (c : Char) : Bool := ('a' ≤ c && c ≤ 'z') || ('A' ≤ c && c ≤ 'Z') || c = '_' || c = '$'

def isWordRest (c : Char) : Bool := isWordStart c || Text.isDigit 10 c

def isDigitOrBar (c : Char) : Bool := Text.isDigit 10 c || c = '_'

def isHexOrBar (c : Char) : Bool := Text.isDigit 16 c || c = '_'

def isLongSuffix (c : Char) : Bool := c = 'l' || c = 'L'

def isRealSuffix (c : Char) : Bool := c = 'd' || c = 'D' || c = 'f' || c = 'F'

def run (p : Char → Bool) (s : List Char) : Nat := (s.takeWhile p).length

def startsWith (p : Char → Bool) : List Char → Bool
  | [] => false
  | c :: _ => p c

/-- Length of a complete exponent at the start of a text: the mark, an optional sign, digits. Zero if there is none. -/
def exponent : List Char → Nat
  | [] => 0
  | c :: s =>
    if c = 'e' ∨ c = 'E' then
      let sign := if startsWith (fun d => d = '+' || d = '-') s then 1 else 0
      match run (Text.isDigit 10) (s.drop sign) with
      | 0 => 0
      | n => 1 + sign + n
    else 0

/-- Length of what may end a real number: an exponent and the letter of its type. -/
def realTail (s : List Char) : Nat :=
  let e := exponent s
  if startsWith isRealSuffix (s.drop e) then e + 1 else e

/-- Length of the digits after a point; the first of them is no separator. -/
def fraction (s : List Char) : Nat :=
  if startsWith (Text.isDigit 10) s then run isDigitOrBar s else 0

/-- What follows the point of a number. A point right before an incomplete exponent still belongs to the
number, which is then an integer literal that no value can be read from. -/
def afterPoint (s : List Char) : Kind × Nat :=
  let f := fraction s
  let t := realTail (s.drop f)
  if f = 0 ∧ startsWith (fun c => c = 'e' || c = 'E') s ∧ exponent s = 0 then (.intLit, 0)
  else (.doubleLit, f + t)

def decimal (s : List Char) : Kind × Nat :=
  let n := run isDigitOrBar s
  match s.drop n with
  | [] => (.intLit, n)
  | c :: r =>
    if isLongSuffix c then (.longLit, n + 1)
    else if c = '.' then let (kind, m) := afterPoint r; (kind, n + 1 + m)
    else match realTail (c :: r) with
      | 0 => (.intLit, n)
      | m => (.doubleLit, n + m)

/-- A number that starts with the digit `c`; hexadecimal needs at least one character after the mark. -/
def number (c : Char) (s : List Char) : Kind × Nat :=
  match s with
  | x :: r =>
    if c = '0' ∧ (x = 'x' ∨ x = 'X') ∧ startsWith isHexOrBar r then
      let n := 1 + run isHexOrBar r
      if startsWith isLongSuffix (s.drop n) then (.longLit, n + 1) else (.intLit, n)
    else decimal s
  | [] => (.intLit, 0)

/-- Length of the items of a string literal, each a plain character or a backslash with the character after
it, and whether a closing quote follows them. -/
def stringItems : List Char → Nat × Bool
  | [] => (0, false)
  | '"' :: _ => (0, true)
  | '\n' :: _ => (0, false)
  | '\\' :: [] => (0, false)
  | '\\' :: '\n' :: _ => (0, false)
  | '\\' :: _ :: s => let (n, closed) := stringItems s; (n + 2, closed)
  | _ :: s => let (n, closed) := stringItems s; (n + 1, closed)

/-- Length of the one item of a character literal; zero if there is none. A character beyond ASCII has to be
written as an escape. -/
def charItem : List Char → Nat
  | '\\' :: c :: s =>
    if Text.isDigit 8 c then 2 + run (Text.isDigit 8) (s.take 2)
    else if "btnfr'\"\\".toList.contains c then 2
    else if c = 'u' ∧ run (Text.isDigit 16) (s.take 4) = 4 then 6
    else 0
  | c :: _ => if c ≠ '\'' ∧ c ≠ '\\' ∧ c ≠ '\n' ∧ c.toNat < 128 then 1 else 0
  | [] => 0

def doubled (second : Char) (two one : Kind) (s : List Char) : Kind × Nat :=
  if startsWith (· = second) s then (two, 1) else (one, 0)

/-- The token that starts with the character `c` of no word and no number, in the way of `pick`. -/
def symbol (c : Char) (s : List Char) : Except Nat (Kind × Nat) :=
  match c with
  | '#' => match run (Text.isDigit 10) s with
    | 0 => .error 0
    | n => .ok (.paramRef, n)
  | '"' => match stringItems s with
    | (n, true) => .ok (.stringLit, n + 1)
    | (n, false) => .error n
  | '\'' =>
    let n := charItem s
    if n ≠ 0 ∧ startsWith (· = '\'') (s.drop n) then .ok (.charLit, n + 1) else .error 0
  | '.' => match fraction s with
    | 0 => .ok (.dot, 0)
    | n => .ok (.doubleLit, n + realTail (s.drop n))
  | '&' => if startsWith (· = '&') s then .ok (.andAnd, 1) else .error 0
  | '|' => if startsWith (· = '|') s then .ok (.orOr, 1) else .error 0
  | '=' => if startsWith (· = '=') s then .ok (.eqEq, 1) else .error 0
  | '!' => .ok (doubled '=' .notEq .bang s)
  | '<' => .ok (doubled '=' .ltEq .lt s)
  | '>' => .ok (doubled '=' .gtEq .gt s)
  | '+' => .ok (.plus, 0)
  | '-' => .ok (.minus, 0)
  | '*' => .ok (.star, 0)
  | '/' => .ok (.slash, 0)
  | '%' => .ok (.percent, 0)
  | ',' => .ok (.comma, 0)
  | '(' => .ok (.lparen, 0)
  | ')' => .ok (.rparen, 0)
  | '[' => .ok (.lbracket, 0)
  | ']' => .ok (.rbracket, 0)
  | _ => .error 0

/-- The kind of the token that starts with `c`, and how many of the characters `s` after `c` it takes. If no
token starts here, how many of them belong to the text that is reported. -/
def pick (c : Char) (s : List Char) : Except Nat (Kind × Nat) :=
  if isWordStart c then
    let n := run isWordRest s
    .ok (.ofWord (c :: s.take n), n)
  else if Text.isDigit 10 c then .ok (number c s)
  else symbol c s

def byteLength : List Char → Nat
  | [] => 0
  | c :: s => c.utf8Size + byteLength s

/-- The tokens of a text that starts at the given offset. -/
def scanFrom (offset : Nat) : List Char → Except SyntaxError (List Token)
  | [] => .ok []
  | c :: s =>
    if isSpace c then scanFrom (offset + c.utf8Size) s
    else match pick c s with
      | .error n =>
        let lexeme := c :: s.take n
        .error (.unrecognized lexeme ⟨offset, byteLength lexeme⟩)
      | .ok (kind, n) => do
        let lexeme := c :: s.take n
        let rest ← scanFrom (offset + byteLength lexeme) (s.drop n)
        return ⟨kind, lexeme, ⟨offset, byteLength lexeme⟩⟩ :: rest
termination_by s => s.length
decreasing_by all_goals simp only [List.length_cons, List.length_drop]; omega

def scan (text : String) : Except SyntaxError (List Token) := scanFrom 0 text.toList

end AnnotationExpr.Token
