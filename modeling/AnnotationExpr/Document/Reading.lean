import AnnotationExpr.Document
import AnnotationExpr.Literal.Escape

/-!
Documents in JSON. The text is first cut into words, then the words are read; what is left after a value is
shorter than before it, so reading ends.
-/

namespace AnnotationExpr.Document

inductive Word where
  | mark (c : Char)
  | string (s : String)
  /-- A number, or one of the names `true`, `false` and `null`. -/
  | bare (s : String)
deriving DecidableEq, Repr

def isBareChar (c : Char) : Bool := c.isAlphanum || c = '-' || c = '+' || c = '.'

/-- The unit of sixteen bits that four hexadecimal digits denote. -/
def unit? (s : List Char) : Option Nat :=
  if (s.take 4).length = 4 then Text.number? 16 (s.take 4) else none

def escaped? : Char → Option Char
  | '"' => some '"'
  | '\\' => some '\\'
  | '/' => some '/'
  | 'b' => some '\x08'
  | 'f' => some '\x0c'
  | 'n' => some '\n'
  | 'r' => some '\r'
  | 't' => some '\t'
  | _ => none

/-- A character outside the first plane from its two halves. -/
def joined? (high low : Nat) : Option Char :=
  if 0xD800 ≤ high ∧ high < 0xDC00 ∧ 0xDC00 ≤ low ∧ low < 0xE000 then
    Literal.scalar? (0x10000 + (high - 0xD800) * 0x400 + (low - 0xDC00))
  else none

/-- The character that the text after `\u` gives, and how many characters it takes. -/
def unicode? (s : List Char) : Option (Char × Nat) := do
  let high ← unit? s
  match Literal.scalar? high with
  | some c => return (c, 4)
  | none =>
    if (s.drop 4).take 2 = ['\\', 'u'] then
      return (← joined? high (← unit? (s.drop 6)), 10)
    else none

/-- The characters of a string up to its closing quote, and the text after that. -/
def stringBody (s : List Char) : Option (List Char × { r : List Char // r.length < s.length }) :=
  match s with
  | [] => none
  | ['\\'] => none
  | '"' :: r => some ([], ⟨r, by simp⟩)
  | '\\' :: 'u' :: r => do
    let (c, n) ← unicode? r
    let (cs, ⟨rest, h⟩) ← stringBody (r.drop n)
    return (c :: cs, ⟨rest, by simp only [List.length_drop, List.length_cons] at *; omega⟩)
  | '\\' :: c :: r => do
    let x ← escaped? c
    let (cs, ⟨rest, h⟩) ← stringBody r
    return (x :: cs, ⟨rest, by simp only [List.length_cons]; omega⟩)
  | c :: r =>
    if c.toNat < 0x20 then none
    else do
      let (cs, ⟨rest, h⟩) ← stringBody r
      return (c :: cs, ⟨rest, by simp only [List.length_cons]; omega⟩)
termination_by s.length

def words (s : List Char) : Option (List Word) :=
  match s with
  | [] => some []
  | c :: r =>
    if c = ' ' ∨ c = '\t' ∨ c = '\n' ∨ c = '\r' then words r
    else if c = '"' then do
      let (cs, ⟨rest, _⟩) ← stringBody r
      return .string (String.ofList cs) :: (← words rest)
    else if isBareChar c then do
      let n := (r.takeWhile isBareChar).length
      return .bare (String.ofList (c :: r.take n)) :: (← words (r.drop n))
    else if c = '[' ∨ c = ']' ∨ c = '\x7b' ∨ c = '\x7d' ∨ c = ',' ∨ c = ':' then do
      return .mark c :: (← words r)
    else none
termination_by s.length
decreasing_by all_goals simp only [List.length_cons, List.length_drop]; omega

/-- Digits, of which there has to be one, and what follows them. -/
def digits? (s : List Char) : Option (List Char) :=
  if s.head?.any Char.isDigit then some (s.dropWhile Char.isDigit) else none

def isNumber (s : List Char) : Bool :=
  Option.isSome do
    let s := if s.head? = some '-' then s.drop 1 else s
    let s ← if s.head? = some '0' then some (s.drop 1) else digits? s
    let s ← match s with
      | '.' :: r => digits? r
      | r => some r
    let s ← match s with
      | c :: r =>
        if c = 'e' ∨ c = 'E' then digits? (if r.head? = some '-' ∨ r.head? = some '+' then r.drop 1 else r)
        else none
      | [] => some []
    if s.isEmpty then some () else none

def ofBare? (s : String) : Option Document :=
  if s = "null" then some null
  else if s = "true" then some (boolean true)
  else if s = "false" then some (boolean false)
  else if isNumber s.toList then some (number s)
  else none

mutual

def value? (ws : List Word) : Option (Document × { r : List Word // r.length < ws.length }) :=
  match ws with
  | [] => none
  | .string s :: r => some (string s, ⟨r, by simp⟩)
  | .bare s :: r => (ofBare? s).map fun d => (d, ⟨r, by simp⟩)
  | .mark c :: r =>
    if c = '[' then
      match r with
      | .mark ']' :: r => some (list [], ⟨r, by simp only [List.length_cons]; omega⟩)
      | r => do
        let (items, ⟨rest, h⟩) ← items? r
        return (list items, ⟨rest, by simp only [List.length_cons]; omega⟩)
    else if c = '\x7b' then
      match r with
      | .mark '\x7d' :: r => some (object [], ⟨r, by simp only [List.length_cons]; omega⟩)
      | r => do
        let (members, ⟨rest, h⟩) ← members? r
        return (object members, ⟨rest, by simp only [List.length_cons]; omega⟩)
    else none
termination_by 2 * ws.length

/-- Values with commas between them, up to a closing bracket. -/
def items? (ws : List Word) : Option (List Document × { r : List Word // r.length < ws.length }) := do
  let (d, ⟨rest, h⟩) ← value? ws
  match rest, h with
  | .mark c :: r, h =>
    have h : r.length + 1 < ws.length := h
    if c = ']' then return ([d], ⟨r, by omega⟩)
    else if c = ',' then do
      let (ds, ⟨rest, h'⟩) ← items? r
      return (d :: ds, ⟨rest, by omega⟩)
    else none
  | _, _ => none
termination_by 2 * ws.length + 1

/-- Named values with commas between them, up to a closing brace. -/
def members? (ws : List Word) :
    Option (List (String × Document) × { r : List Word // r.length < ws.length }) :=
  match ws with
  | .string name :: .mark ':' :: r => do
    let (d, ⟨rest, h⟩) ← value? r
    match rest, h with
    | .mark c :: r', h =>
      have h : r'.length + 1 < r.length := h
      if c = '\x7d' then return ([(name, d)], ⟨r', by simp only [List.length_cons]; omega⟩)
      else if c = ',' then do
        let (ds, ⟨rest, h'⟩) ← members? r'
        return ((name, d) :: ds, ⟨rest, by simp only [List.length_cons]; omega⟩)
      else none
    | _, _ => none
  | _ => none
termination_by 2 * ws.length + 1

end

/-- The one value that a text holds. -/
def ofJson? (text : String) : Option Document := do
  let (d, rest) ← value? (← words text.toList)
  if rest.val.isEmpty then some d else none

end AnnotationExpr.Document
