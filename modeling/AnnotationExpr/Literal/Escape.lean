import AnnotationExpr.Literal.Error
import AnnotationExpr.Text.Digits

/-! The characters that the body of a string or character literal stands for. -/

namespace AnnotationExpr.Literal

/-- Escapes of a backslash and one letter. -/
def simpleEscape? : Char → Option Char
  | 'b' => some '\x08'
  | 't' => some '\t'
  | 'n' => some '\n'
  | 'f' => some '\x0c'
  | 'r' => some '\r'
  | '"' => some '"'
  | '\'' => some '\''
  | '\\' => some '\\'
  | _ => none

/-- The character with the given number, unless it is a surrogate or past the last one. -/
def scalar? (n : Nat) : Option Char :=
  if h : n.isValidChar then some (Char.ofNatAux n h) else none

/-- The character that the text after `\u` names. A sign is read like a digit that adds nothing. -/
def codePoint? (digits : List Char) : Option Char :=
  (Text.number? 16 (match digits with | '+' :: r => r | r => r)).bind scalar?

/-- How many digits an octal escape may have after its first, so that its value stays below 256. -/
def moreOctal (first : Char) : Nat := if first ≤ '3' then 2 else 1

def unescape : List Char → Except Literal.Error (List Char)
  | [] => .ok []
  | ['\\'] => .error .danglingEscape
  | '\\' :: c :: s =>
    match simpleEscape? c with
    | some x => return x :: (← unescape s)
    | none =>
      if c = 'u' then
        match codePoint? (s.take 4) with
        | some x => return x :: (← unescape (s.drop 4))
        | none => .error (.badCodePoint (s.take 4))
      else if Text.isDigit 8 c then
        let more := (s.take (moreOctal c)).takeWhile (Text.isDigit 8)
        return Char.ofNat (Text.value 8 (c :: more)) :: (← unescape (s.drop more.length))
      else .error (.unknownEscape c)
  | c :: s => return c :: (← unescape s)
termination_by s => s.length

end AnnotationExpr.Literal
