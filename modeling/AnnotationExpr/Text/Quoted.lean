/-!
Characters and strings as they are written between quotes: the usual escapes for tab, line ends, quotes
and the backslash, printable characters as they are, and a code point in hexadecimal for all others.
-/

namespace AnnotationExpr.Text

def escapeChar (c : Char) : List Char :=
  if c = '\t' then ['\\', 't']
  else if c = '\r' then ['\\', 'r']
  else if c = '\n' then ['\\', 'n']
  else if c = '\'' ∨ c = '"' ∨ c = '\\' then ['\\', c]
  else if ' ' ≤ c ∧ c ≤ '~' then [c]
  else ['\\', 'u', '\x7b'] ++ Nat.toDigits 16 c.toNat ++ ['\x7d']

def quoteChar (c : Char) : String := String.ofList (['\''] ++ escapeChar c ++ ['\''])

def quoteString (s : String) : String := String.ofList (['"'] ++ s.toList.flatMap escapeChar ++ ['"'])

end AnnotationExpr.Text
