import AnnotationExpr.Expr.Parser
import AnnotationExpr.Proofs.Literal.Integers
import AnnotationExpr.Proofs.Text.Decimal
import AnnotationExpr.Proofs.Token.Extent

/-!
Literals that are read back from their own text. The text of such a literal is one token of the kind that its value
has; real numbers, negative integers and characters that need a code point are left out.
-/

namespace AnnotationExpr

/-- A character that is written as it is, or by a backslash and one more character. -/
def Text.isPlain (c : Char) : Bool := (' ' ≤ c && c ≤ '~') || c = '\t' || c = '\r' || c = '\n'

namespace Literal

open AnnotationExpr.Expr.Parser (literal?)
open Text (isDigit isPlain escapeChar)
open Token (Kind)

/-- A literal whose text is one token: no sign in front of it, and no character that is named by its code point. -/
def Plain : Literal → Prop
  | .boolean _ | .value .null => True
  | .value (.int n) => 0 ≤ n
  | .value (.long n) => 0 ≤ n
  | .value (.double _) => False
  | .value (.char c) => isPlain c = true
  | .value (.string s) => ∀ c ∈ s.toList, isPlain c = true

instance : DecidablePred Plain
  | .boolean _ | .value .null => isTrue trivial
  | .value (.int n) => inferInstanceAs (Decidable (0 ≤ n))
  | .value (.long n) => inferInstanceAs (Decidable (0 ≤ n))
  | .value (.double _) => isFalse id
  | .value (.char c) => inferInstanceAs (Decidable (isPlain c = true))
  | .value (.string s) => inferInstanceAs (Decidable (∀ c ∈ s.toList, isPlain c = true))

def isInt : Literal → Bool
  | .value (.int _) => true
  | _ => false

/-- The character `c` with `w` after it is one token that stands for the literal. An integer may not be followed by a
point, and none but strings and characters by what goes on with a word. -/
structure Written (c : Char) (w : List Char) (k : Kind) (v : Literal) : Prop where
  space : Token.isSpace c = false
  start : c ≠ '='
  pick : Token.pick c w = .ok (k, w.length)
  value : ∀ span, literal? ⟨k, c :: w, span⟩ = some (.ok v)
  apart : ∀ r, Token.Ends r → (v.isInt = true → '.' ∉ r.head?) → Token.Apart k (c :: w) r

/-! Integers. -/

theorem dropBars_of_digits {s : List Char} (h : ∀ c ∈ s, isDigit 10 c = true) : dropBars s = s := by
  refine List.filter_eq_self.2 fun c hc => decide_eq_true ?_
  rintro rfl
  have hd := h '_' hc
  cases hd

theorem integer?_toDigits {bits n : Nat} (h : n < Nat.pow 2 (bits - 1)) :
    integer? bits (Nat.toDigits 10 n) = some n := by
  have hdigits : ∀ c ∈ Nat.toDigits 10 n, isDigit 10 c = true := fun _ => Text.isDigit_of_mem_toDigits
  have hradix : radixAndDigits (Nat.toDigits 10 n) = (10, Nat.toDigits 10 n) := by
    unfold radixAndDigits
    split
    next hs => cases Text.toDigits_of_zero hs
    next hs => cases Text.toDigits_of_zero hs
    next hs => cases Text.toDigits_of_zero hs
    next => rfl
  rw [integer?_eq_some, dropBars_of_digits hdigits, hradix, Text.number?_eq_some]
  exact ⟨⟨Nat.toDigits_ne_nil, hdigits, (Text.value_toDigits n).symm⟩, h⟩

/-- Digits with nothing after them, or the letter of a long integer, are one number. -/
theorem decimal_of_digits {w : List Char} (h : ∀ c ∈ w, isDigit 10 c = true) :
    Token.decimal w = (.intLit, w.length) ∧ Token.decimal (w ++ ['L']) = (.longLit, (w ++ ['L']).length) := by
  have hrun : Token.run Token.isDigitOrBar w = w.length :=
    Token.run_eq_length fun c hc => Token.isDigitOrBar_of_digit (h c hc)
  have hrun' : Token.run Token.isDigitOrBar (w ++ ['L']) = w.length := by
    rw [Token.run_append fun _ => rfl, hrun]
  refine ⟨?_, ?_⟩
  · rw [Token.decimal_eq, hrun]
    dsimp only
    rw [List.drop_length]
    rfl
  · rw [Token.decimal_eq, hrun']
    dsimp only
    rw [List.drop_left, List.length_append]
    rfl

/-- A number is decimal if its second character is a digit or a letter of its type. -/
theorem isHex_of_digits {c : Char} {w r : List Char} (h : ∀ d ∈ w, isDigit 10 d = true) (hr : r = [] ∨ r = ['L']) :
    Token.isHex (c :: (w ++ r)) = false := by
  refine Bool.eq_false_iff.2 fun hx => ?_
  cases w with
  | nil =>
    rcases hr with rfl | rfl
    · cases hx
    · exact absurd (Token.isHex_iff.1 hx).1.2 (by decide)
  | cons x w =>
    have hd := h x List.mem_cons_self
    rcases (Token.isHex_iff.1 hx).1.2 with rfl | rfl <;> cases hd

theorem pick_digits {c : Char} {w : List Char} (hc : isDigit 10 c = true) (hw : ∀ d ∈ w, isDigit 10 d = true) :
    Token.pick c w = .ok (.intLit, w.length) ∧ Token.pick c (w ++ ['L']) = .ok (.longLit, (w ++ ['L']).length) := by
  have hnumber (s : List Char) : Token.pick c s = .ok (Token.number c s) := by
    rw [Token.pick, Token.not_isWordStart_of_digit hc, hc]
    rfl
  have hint := isHex_of_digits (c := c) hw (.inl rfl)
  rw [List.append_nil] at hint
  refine ⟨?_, ?_⟩
  · rw [hnumber, Token.number_of_decimal hint, (decimal_of_digits hw).1]
  · rw [hnumber, Token.number_of_decimal (isHex_of_digits hw (.inr rfl)), (decimal_of_digits hw).2]

theorem toString_natCast (m : Nat) : toString (m : Int) = String.ofList (Nat.toDigits 10 m) := by
  rw [← Nat.repr_eq_ofList_toDigits]
  rfl

theorem exists_digits (m : Nat) :
    ∃ c w, Nat.toDigits 10 m = c :: w ∧ isDigit 10 c = true ∧ ∀ d ∈ w, isDigit 10 d = true := by
  obtain ⟨c, w, hcw⟩ := List.exists_cons_of_ne_nil (@Nat.toDigits_ne_nil m 10)
  exact ⟨c, w, hcw, List.forall_mem_cons.1 fun d hd => Text.isDigit_of_mem_toDigits (hcw ▸ hd)⟩

theorem written_int {n : Int32} (h : 0 ≤ n) :
    ∃ c w, (Literal.value (.int n)).text.toList = c :: w ∧ Written c w .intLit (.value (.int n)) := by
  have hle := Int32.le_iff_toInt_le.1 h
  have hlt := Int32.toInt_lt n
  obtain ⟨m, hm⟩ : ∃ m : Nat, n.toInt = m := ⟨n.toInt.toNat, (Int.toNat_of_nonneg hle).symm⟩
  have hof : Int32.ofNat m = n := by
    rw [← Int32.ofNat_toNatClampNeg n h, ← Int32.toNat_toInt, hm, Int.toNat_natCast]
  obtain ⟨c, w, hcw, hc, hw⟩ := exists_digits m
  have hvalue : integer? 32 (c :: w) = some m := by
    rw [← hcw]
    refine integer?_toDigits ?_
    rw [hm] at hlt
    exact_mod_cast hlt
  obtain ⟨hspace, hstart⟩ := Token.space_of_wordRest (Token.isWordRest_of_digit hc)
  refine ⟨c, w, ?_, hspace, hstart, (pick_digits hc hw).1, ?_, ?_⟩
  · rw [Literal.text, Value.text, hm, toString_natCast, String.toList_ofList, hcw]
  · intro span
    simp [literal?, ofInt, hvalue, hof, Except.map]
  · intro r hr hpoint d hd
    have hdot : d ≠ '.' := by
      rintro rfl
      exact hpoint rfl hd
    rw [Token.joins, hr d hd, decide_eq_false hdot]
    rfl

theorem written_long {n : Int64} (h : 0 ≤ n) :
    ∃ c w, (Literal.value (.long n)).text.toList = c :: w ∧ Written c w .longLit (.value (.long n)) := by
  have hle := Int64.le_iff_toInt_le.1 h
  have hlt := Int64.toInt_lt n
  obtain ⟨m, hm⟩ : ∃ m : Nat, n.toInt = m := ⟨n.toInt.toNat, (Int.toNat_of_nonneg hle).symm⟩
  have hof : Int64.ofNat m = n := by
    rw [← Int64.ofNat_toNatClampNeg n h, ← Int64.toNat_toInt, hm, Int.toNat_natCast]
  obtain ⟨c, w, hcw, hc, hw⟩ := exists_digits m
  have hvalue : integer? 64 (c :: w) = some m := by
    rw [← hcw]
    refine integer?_toDigits ?_
    rw [hm] at hlt
    exact_mod_cast hlt
  obtain ⟨hspace, hstart⟩ := Token.space_of_wordRest (Token.isWordRest_of_digit hc)
  refine ⟨c, w ++ ['L'], ?_, hspace, hstart, (pick_digits hc hw).2, ?_, ?_⟩
  · rw [Literal.text, Value.text, hm, toString_natCast, String.toList_append, String.toList_ofList, hcw]
    rfl
  · intro span
    have hlast : (c :: (w ++ ['L'])).dropLast = c :: w := by rw [← List.cons_append, List.dropLast_concat]
    simp [literal?, ofLong, hlast, hvalue, hof, Except.map]
  · exact fun r hr _ => hr

/-! Characters and strings. -/

theorem simpleEscape?_eq_some {d c : Char} (h : simpleEscape? d = some c) :
    d ≠ '\n' ∧ isDigit 8 d = false ∧ "btnfr'\"\\".toList.contains d = true := by
  unfold simpleEscape? at h
  split at h
  case h_9 => cases h
  all_goals exact ⟨by decide, rfl, by decide⟩

/-- A plain character is written by an escape of two characters, or as it is. -/
theorem escapeChar_cases {c : Char} (h : isPlain c = true) :
    (∃ d, escapeChar c = ['\\', d] ∧ simpleEscape? d = some c) ∨
      escapeChar c = [c] ∧ (c ≠ '\'' ∧ c ≠ '"' ∧ c ≠ '\\' ∧ c ≠ '\n') ∧ c ≤ '~' := by
  unfold escapeChar
  split
  next hc => exact .inl ⟨'t', rfl, by rw [hc]; rfl⟩
  next htab =>
  split
  next hc => exact .inl ⟨'r', rfl, by rw [hc]; rfl⟩
  next hreturn =>
  split
  next hc => exact .inl ⟨'n', rfl, by rw [hc]; rfl⟩
  next hline =>
  split
  next hc =>
    refine .inl ⟨c, rfl, ?_⟩
    rcases hc with rfl | rfl | rfl <;> rfl
  next hquote =>
  push Not at hquote
  have hrange : ' ' ≤ c ∧ c ≤ '~' := by simpa [isPlain, htab, hreturn, hline] using h
  rw [if_pos hrange]
  exact .inr ⟨rfl, ⟨hquote.1, hquote.2.1, hquote.2.2, hline⟩, hrange.2⟩

theorem unescape_escapeChar {c : Char} {s r : List Char} (h : isPlain c = true) (hs : unescape s = .ok r) :
    unescape (escapeChar c ++ s) = .ok (c :: r) := by
  rcases escapeChar_cases h with ⟨d, he, hd⟩ | ⟨he, ⟨-, -, hescape, -⟩, -⟩
  · rw [he, List.cons_append, List.cons_append, List.nil_append, unescape, hd]
    simp [hs, bind, Except.bind, pure, Except.pure]
  · rw [he, List.cons_append, List.nil_append, unescape, hs]
    · rfl
    · exact fun h => absurd h hescape
    · exact fun _ _ h => absurd h hescape

theorem items_escapeChar {c : Char} {s : List Char} (h : isPlain c = true) (hs : Token.Items s) :
    Token.Items (escapeChar c ++ s) := by
  rcases escapeChar_cases h with ⟨d, he, hd⟩ | ⟨he, ⟨-, hquote, hescape, hline⟩, -⟩
  · rw [he]
    exact .escaped (simpleEscape?_eq_some hd).1 hs
  · rw [he]
    exact .plain hquote hline hescape hs

theorem charItem_escapeChar {c : Char} (h : isPlain c = true) (s : List Char) :
    Token.charItem (escapeChar c ++ s) = (escapeChar c).length := by
  rcases escapeChar_cases h with ⟨d, he, hd⟩ | ⟨he, ⟨hquote, -, hescape, hline⟩, htop⟩
  · obtain ⟨-, hoctal, hletter⟩ := simpleEscape?_eq_some hd
    rw [he, List.cons_append, List.cons_append, Token.charItem, hoctal, hletter]
    rfl
  · have hascii : c.toNat < 128 := Nat.lt_of_le_of_lt (m := '~'.toNat) htop (by decide)
    rw [he, List.cons_append, Token.charItem, if_pos ⟨hquote, hescape, hline, hascii⟩]
    · rfl
    · exact fun _ _ h => absurd h hescape

theorem written_char {c : Char} (h : isPlain c = true) :
    ∃ d w, (Literal.value (.char c)).text.toList = d :: w ∧ Written d w .charLit (.value (.char c)) := by
  refine ⟨'\'', escapeChar c ++ ['\''], ?_, rfl, by decide, ?_, ?_, fun _ _ _ _ _ => rfl⟩
  · rw [Literal.text, Value.text, Text.quoteChar, String.toList_ofList]
    rfl
  · have hitem := charItem_escapeChar h ['\'']
    have hpos : (escapeChar c).length ≠ 0 := by
      rcases escapeChar_cases h with ⟨d, he, -⟩ | ⟨he, -⟩ <;> rw [he] <;> nofun
    change Token.symbol '\'' _ = _
    rw [Token.symbol, hitem, List.drop_left, if_pos ⟨hpos, rfl⟩, List.length_append]
    rfl
  · intro span
    have hbody : body ('\'' :: (escapeChar c ++ ['\''])) = escapeChar c ++ [] := by
      rw [body, List.drop_succ_cons, List.drop_zero, List.dropLast_concat, List.append_nil]
    have hchar : unescape (escapeChar c ++ []) = .ok [c] := unescape_escapeChar h (by rw [unescape])
    simp only [literal?, ofChar, hbody, hchar]
    rfl

theorem written_string {s : String} (h : ∀ c ∈ s.toList, isPlain c = true) :
    ∃ d w, (Literal.value (.string s)).text.toList = d :: w ∧ Written d w .stringLit (.value (.string s)) := by
  have hitems {t : List Char} (ht : ∀ c ∈ t, isPlain c = true) :
      Token.Items (t.flatMap escapeChar) ∧ unescape (t.flatMap escapeChar) = .ok t := by
    induction t with
    | nil => exact ⟨.nil, by rw [List.flatMap_nil, unescape]⟩
    | cons c t ih =>
      obtain ⟨hc, ht⟩ := List.forall_mem_cons.1 ht
      rw [List.flatMap_cons]
      exact ⟨items_escapeChar hc (ih ht).1, unescape_escapeChar hc (ih ht).2⟩
  obtain ⟨hbody, hvalue⟩ := hitems h
  refine ⟨'"', s.toList.flatMap escapeChar ++ ['"'], ?_, rfl, by decide, ?_, ?_, fun _ _ _ _ _ => rfl⟩
  · rw [Literal.text, Value.text, Text.quoteString, String.toList_ofList]
    rfl
  · change Token.symbol '"' _ = _
    rw [Token.symbol, hbody.stringItems [], List.length_append]
    rfl
  · intro span
    have hinner : body ('"' :: (s.toList.flatMap escapeChar ++ ['"'])) = s.toList.flatMap escapeChar := by
      rw [body, List.drop_succ_cons, List.drop_zero, List.dropLast_concat]
    simp only [literal?, ofString, hinner, hvalue, String.ofList_toList]
    rfl

/-- A plain literal is read back from its text. -/
theorem Plain.written {v : Literal} (h : v.Plain) :
    ∃ c w k, v.text.toList = c :: w ∧ Written c w k v := by
  have word {c : Char} {w : List Char} {k : Kind} {v : Literal} (htext : v.text.toList = c :: w)
      (hc : Token.isWordStart c = true) (hspace : Token.isSpace c = false) (hstart : c ≠ '=')
      (hw : ∀ d ∈ w, Token.isWordRest d = true) (hk : Kind.ofWord (c :: w) = k)
      (hvalue : ∀ span, literal? ⟨k, c :: w, span⟩ = some (.ok v)) :
      ∃ c w k, v.text.toList = c :: w ∧ Written c w k v := by
    refine ⟨c, w, k, htext, hspace, hstart, ?_, hvalue, ?_⟩
    · rw [← hk, ← Token.pick_word hc hw Token.ends_nil, List.append_nil]
    · intro r hr _ d hd
      rw [← hk, Token.joins_ofWord, hr d hd]
  cases v with
  | boolean b => cases b <;> exact word rfl rfl rfl (by decide) (List.all_eq_true.1 rfl) rfl fun _ => rfl
  | value v =>
    cases v with
    | null => exact word rfl rfl rfl (by decide) (List.all_eq_true.1 rfl) rfl fun _ => rfl
    | int n =>
      obtain ⟨c, w, htext, hw⟩ := written_int h
      exact ⟨c, w, _, htext, hw⟩
    | long n =>
      obtain ⟨c, w, htext, hw⟩ := written_long h
      exact ⟨c, w, _, htext, hw⟩
    | double x => cases h
    | char c =>
      obtain ⟨d, w, htext, hw⟩ := written_char h
      exact ⟨d, w, _, htext, hw⟩
    | string s =>
      obtain ⟨d, w, htext, hw⟩ := written_string h
      exact ⟨d, w, _, htext, hw⟩

end Literal
end AnnotationExpr
