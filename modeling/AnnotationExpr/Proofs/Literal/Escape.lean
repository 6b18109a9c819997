import AnnotationExpr.Proofs.Literal.Integers
import AnnotationExpr.Proofs.Outcome
import AnnotationExpr.Proofs.Text.Runs
import AnnotationExpr.Token.Scanner
import Mathlib.Algebra.Group.Nat.Defs
import Mathlib.Data.List.TakeDrop

/-!
What the body of a string literal stands for: one character for each of its plain characters and escapes. The text
after `\u` may be shorter than four characters at the end of the body, and may start with a sign; otherwise exactly the
bodies that are made of plain characters and proper escapes stand for anything.
-/

namespace AnnotationExpr

namespace Text

/-- Digits in a radix that write the number of a character. -/
structure Names (radix : Nat) (digits : List Char) (x : Char) : Prop where
  ne_nil : digits ≠ []
  all : ∀ d ∈ digits, isDigit radix d = true
  toNat_eq : x.toNat = value radix digits

theorem digit?_getD_lt {radix : Nat} (hr : 0 < radix) (c : Char) : (digit? radix c).getD 0 < radix := by
  unfold digit?
  dsimp only
  generalize (if '0' ≤ c ∧ c ≤ '9' then _ else _ : Nat) = m
  split
  next h => exact h
  next => exact hr

/-- A run of digits denotes less than that power of the radix. -/
theorem value_lt_pow {radix : Nat} (hr : 0 < radix) (s : List Char) : value radix s < radix ^ s.length := by
  have hfold (m : Nat) : s.foldl (fun n c => n * radix + (digit? radix c).getD 0) m < (m + 1) * radix ^ s.length := by
    induction s generalizing m with
    | nil => simp
    | cons c s ih =>
      have hstep : m * radix + (digit? radix c).getD 0 + 1 ≤ (m + 1) * radix := by
        rw [Nat.add_one_mul]
        exact Nat.add_le_add_left (digit?_getD_lt hr c) _
      rw [List.foldl_cons, List.length_cons, Nat.pow_succ', ← Nat.mul_assoc]
      exact Nat.lt_of_lt_of_le (ih _) (Nat.mul_le_mul_right _ hstep)
  have hzero := hfold 0
  rwa [Nat.zero_add, Nat.one_mul] at hzero

end Text

namespace Literal

open Text (isDigit Names RunUpTo)

/-- The letters of escapes, and the characters that these stand for. -/
def letterEscapes : List (Char × Char) :=
  [('b', '\x08'), ('t', '\t'), ('n', '\n'), ('f', '\x0c'), ('r', '\r'), ('"', '"'), ('\'', '\''), ('\\', '\\')]

/-- The digits of an octal escape: as many as there are, up to three, or two if the first is above `3`. -/
structure OctalDigits (first : Char) (more rest : List Char) : Prop where
  length_le : more.length ≤ 2
  first_le : more.length = 2 → first ≤ '3'
  maximal : more.length = 0 ∨ more.length = 1 ∧ first ≤ '3' → ∀ d ∈ rest.head?, isDigit 8 d = false

/-- The body of a literal is made of plain characters and escapes, and `value` of the characters that they stand for.
`Point` says which characters, with which others after them, may follow `\u`, and which character they name. -/
inductive Denotes (Point : List Char → List Char → Char → Prop) : List Char → List Char → Prop where
  | nil : Denotes Point [] []
  | plain {c : Char} {s value : List Char} (hc : c ≠ '\\') (h : Denotes Point s value) :
      Denotes Point (c :: s) (c :: value)
  | letter {c x : Char} {s value : List Char} (hc : (c, x) ∈ letterEscapes) (h : Denotes Point s value) :
      Denotes Point ('\\' :: c :: s) (x :: value)
  | point {x : Char} {digits s value : List Char} (hx : Point digits s x) (h : Denotes Point s value) :
      Denotes Point ('\\' :: 'u' :: (digits ++ s)) (x :: value)
  | octal {c x : Char} {more s value : List Char} (hd : OctalDigits c more s) (hx : Names 8 (c :: more) x)
      (h : Denotes Point s value) : Denotes Point ('\\' :: c :: (more ++ s)) (x :: value)

/-- Four hexadecimal digits. -/
def FourDigits (digits _rest : List Char) (x : Char) : Prop := digits.length = 4 ∧ Names 16 digits x

/-- Four characters, or fewer if no more are left: hexadecimal digits, which a sign may stand in front of. -/
def UpToFour (digits rest : List Char) (x : Char) : Prop :=
  (digits.length = 4 ∨ digits.length < 4 ∧ rest = []) ∧
    (Names 16 digits x ∨ ∃ unsigned, digits = '+' :: unsigned ∧ Names 16 unsigned x)

/-! Each kind of escape. -/

theorem simpleEscape?_eq_some_iff {c x : Char} : simpleEscape? c = some x ↔ (c, x) ∈ letterEscapes := by
  unfold simpleEscape?
  split <;> simp_all [letterEscapes, eq_comm]

theorem digit_of_letterEscapes : ∀ e ∈ letterEscapes, isDigit 8 e.1 = false := by decide

theorem scalar?_eq_some {n : Nat} {x : Char} : scalar? n = some x ↔ x.toNat = n := by
  by_cases h : n.isValidChar
  · have hn : (Char.ofNatAux n h).toNat = n := rfl
    rw [scalar?, dif_pos h, Option.some.injEq, ← Char.toNat_inj, hn, eq_comm]
  · rw [scalar?, dif_neg h]
    refine iff_of_false (Option.some_ne_none x).symm ?_
    rintro rfl
    exact h x.valid

theorem bind_scalar?_eq_some {s : List Char} {x : Char} :
    (Text.number? 16 s).bind scalar? = some x ↔ Names 16 s x := by
  rw [Option.bind_eq_some_iff]
  simp only [Text.number?_eq_some, scalar?_eq_some]
  exact ⟨fun ⟨_, ⟨hne, hall, hn⟩, hx⟩ => ⟨hne, hall, hx.trans hn⟩, fun h => ⟨_, ⟨h.ne_nil, h.all, rfl⟩, h.toNat_eq⟩⟩

theorem codePoint?_eq_some {digits : List Char} {x : Char} :
    codePoint? digits = some x ↔ Names 16 digits x ∨ ∃ unsigned, digits = '+' :: unsigned ∧ Names 16 unsigned x := by
  unfold codePoint?
  rw [bind_scalar?_eq_some]
  split
  next unsigned =>
    have hsign : ¬Names 16 ('+' :: unsigned) x := fun h => absurd (h.all '+' List.mem_cons_self) (by decide)
    simp [hsign]
  next hsign =>
    refine ⟨.inl, fun h => h.resolve_right ?_⟩
    rintro ⟨unsigned, rfl, -⟩
    exact hsign unsigned rfl

/-- Up to three octal digits name a character. -/
theorem names_octal {c : Char} {more : List Char} (hlength : more.length ≤ 2)
    (hall : ∀ d ∈ c :: more, isDigit 8 d = true) : Names 8 (c :: more) (Char.ofNat (Text.value 8 (c :: more))) := by
  have hlt : Text.value 8 (c :: more) < 8 ^ (more.length + 1) := Text.value_lt_pow (by decide) _
  have hle : 8 ^ (more.length + 1) ≤ 8 ^ 3 := Nat.pow_le_pow_right (by decide) (by omega)
  have hvalid : (Text.value 8 (c :: more)).isValidChar := .inl (by omega)
  refine ⟨nofun, hall, ?_⟩
  rw [Char.ofNat, dif_pos hvalid]
  rfl

/-- The digits of an octal escape after its first are those that reading takes. -/
theorem octalDigits_iff {c : Char} {more rest : List Char} :
    (OctalDigits c more rest ∧ ∀ d ∈ more, isDigit 8 d = true) ↔ RunUpTo (isDigit 8) (moreOctal c) more rest := by
  unfold moreOctal
  constructor
  · rintro ⟨⟨hlength, hfirst, hmaximal⟩, hall⟩
    refine ⟨hall, ?_, fun hlt => hmaximal ?_⟩
    · split <;> grind
    · split at hlt <;> grind
  · rintro ⟨hall, hlength, hmaximal⟩
    refine ⟨⟨?_, fun htwo => ?_, fun hroom => hmaximal ?_⟩, hall⟩
    · split at hlength <;> omega
    · split at hlength
      · assumption
      · omega
    · split <;> grind

/-- The first characters of a text, up to a number, and those after them. -/
theorem take_append_iff {s digits rest : List Char} {n : Nat} :
    s = digits ++ rest ∧ (digits.length = n ∨ digits.length < n ∧ rest = []) ↔ digits = s.take n ∧ rest = s.drop n := by
  constructor
  · rintro ⟨rfl, rfl | ⟨hlt, rfl⟩⟩
    · simp
    · rw [List.append_nil, List.take_of_length_le hlt.le, List.drop_of_length_le hlt.le]
      exact ⟨rfl, rfl⟩
  · rintro ⟨rfl, rfl⟩
    refine ⟨(List.take_append_drop n s).symm, ?_⟩
    rw [List.length_take, List.drop_eq_nil_iff]
    omega

theorem denotes_of_unescape {body value : List Char} (h : unescape body = .ok value) : Denotes UpToFour body value := by
  fun_induction unescape body generalizing value with
  | case1 =>
    cases h
    exact .nil
  | case3 c s x hx ih =>
    obtain ⟨rest, hrest, hvalue⟩ := bind_eq_ok.1 h
    cases hvalue
    exact .letter (simpleEscape?_eq_some_iff.1 hx) (ih hrest)
  | case4 s x hx _ ih =>
    obtain ⟨rest, hrest, hvalue⟩ := bind_eq_ok.1 h
    cases hvalue
    obtain ⟨hsplit, hlength⟩ := take_append_iff.2 ⟨rfl, rfl⟩
    have hpoint : UpToFour (s.take 4) (s.drop 4) x := ⟨hlength, codePoint?_eq_some.1 hx⟩
    rw [hsplit]
    exact .point hpoint (ih hrest)
  | case6 c s _ _ hc more =>
    rename_i ih
    obtain ⟨rest, hrest, hvalue⟩ := bind_eq_ok.1 h
    cases hvalue
    have hrun : RunUpTo (isDigit 8) (moreOctal c) more (s.drop more.length) := Text.runUpTo_takeWhile ..
    obtain ⟨hdigits, hall⟩ := octalDigits_iff.2 hrun
    have hprefix : more <+: s := (List.takeWhile_prefix _).trans (List.take_prefix _ _)
    have hsplit : s = more ++ s.drop more.length := List.prefix_append_drop hprefix
    have hoctal := Denotes.octal hdigits (names_octal hdigits.length_le (List.forall_mem_cons.2 ⟨hc, hall⟩)) (ih hrest)
    rwa [← hsplit] at hoctal
  | case8 c s hend hescape ih =>
    obtain ⟨rest, hrest, hvalue⟩ := bind_eq_ok.1 h
    cases hvalue
    refine .plain ?_ (ih hrest)
    rintro rfl
    cases s with
    | nil => exact hend rfl rfl
    | cons d s => exact hescape d s rfl rfl
  | case2 | case5 | case7 => cases h

theorem Denotes.unescape {body value : List Char} (h : Denotes UpToFour body value) : unescape body = .ok value := by
  induction h with
  | nil => rw [Literal.unescape]
  | plain hc _ ih =>
    rw [Literal.unescape, ih]
    · rfl
    · exact fun h => absurd h hc
    · exact fun _ _ h => absurd h hc
  | letter hc _ ih =>
    rw [Literal.unescape, simpleEscape?_eq_some_iff.2 hc]
    dsimp only
    rw [ih]
    rfl
  | @point x digits s value hx _ ih =>
    obtain ⟨htake, hdrop⟩ := take_append_iff.1 ⟨rfl, hx.1⟩
    rw [Literal.unescape, ← htake, ← hdrop, codePoint?_eq_some.2 hx.2]
    dsimp only
    rw [ih]
    rfl
  | @octal c x more s value hd hx _ ih =>
    obtain ⟨hc, hall⟩ := List.forall_mem_cons.1 hx.all
    have hmore := (octalDigits_iff.1 ⟨hd, hall⟩).takeWhile_take
    have hletter : simpleEscape? c = none := Option.eq_none_iff_forall_not_mem.2 fun y hy => by
      have hdigit := digit_of_letterEscapes _ (simpleEscape?_eq_some_iff.1 hy)
      rw [hc] at hdigit
      cases hdigit
    have hu : c ≠ 'u' := by
      rintro rfl
      cases hc
    rw [Literal.unescape, hletter]
    dsimp only
    rw [if_neg hu, if_pos hc, hmore, List.drop_left, ih, ← hx.toNat_eq, Char.ofNat_toNat]
    rfl

/-- The body of a literal has a value exactly if it is made of plain characters and escapes, and then has the value that
these denote. The digits of an escape by code point may be fewer than four where the body ends, and may have a sign. -/
theorem unescape_eq_ok {body value : List Char} : unescape body = .ok value ↔ Denotes UpToFour body value :=
  ⟨denotes_of_unescape, Denotes.unescape⟩

/-- Where every code point is written with four digits, the body of a literal has the value that it denotes. -/
theorem unescape_of_fourDigits {body value : List Char} (h : Denotes FourDigits body value) :
    unescape body = .ok value := by
  refine Denotes.unescape ?_
  induction h with
  | nil => exact .nil
  | plain hc _ ih => exact .plain hc ih
  | letter hc _ ih => exact .letter hc ih
  | point hx _ ih => exact .point ⟨.inl hx.1, .inl hx.2⟩ ih
  | octal hd hx _ ih => exact .octal hd hx ih

/-- A string literal has a value where its last escape has too few digits. -/
theorem not_unescape_fourDigits : ¬∀ (text : String) (ts : List Token), Token.scan text = .ok ts → ∀ t ∈ ts,
    t.kind = .stringLit → ∀ value, unescape (body t.lexeme) = .ok value ↔ Denotes FourDigits (body t.lexeme) value := by
  intro hall
  have hscan : Token.scan "\"\\u41\"" = .ok [⟨.stringLit, "\"\\u41\"".toList, ⟨0, 6⟩⟩] := by decide +kernel
  have hvalue : unescape (body "\"\\u41\"".toList) = .ok ['A'] := by decide +kernel
  have hdenotes : Denotes FourDigits ['\\', 'u', '4', '1'] ['A'] := (hall _ _ hscan _ List.mem_cons_self rfl _).1 hvalue
  generalize hs : ['\\', 'u', '4', '1'] = s, hv : ['A'] = value at hdenotes
  cases hdenotes with
  | nil => cases hv
  | plain hc _ => exact hc (List.cons.inj hs).1.symm
  | letter hc _ =>
    cases hs
    cases hv
    exact absurd hc (by decide)
  | @point _ digits rest _ hx _ =>
    have hlength := congrArg List.length hs
    simp only [List.length_cons, List.length_append, List.length_nil, hx.1] at hlength
    omega
  | octal _ hx _ =>
    obtain ⟨rfl, -⟩ := List.cons.inj (List.cons.inj hs).2
    have hdigit := hx.all 'u' List.mem_cons_self
    cases hdigit

end Literal
end AnnotationExpr
