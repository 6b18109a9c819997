import AnnotationExpr.Expr.Parser
import AnnotationExpr.Proofs.Literal.Integers
import AnnotationExpr.Proofs.Token.Patterns.Number
import Mathlib.Data.Int.ModEq
import Mathlib.Data.Nat.Digits.Defs

/-!
What integer literals denote. The digits that are left without bars denote a number by their places, in the radix that
the lexeme shows. A literal is accepted exactly if that number fits: a decimal one into the nonnegative half of a word,
any other into the bits of a word, which are then read as a signed value.
-/

namespace AnnotationExpr

namespace Text

/-- Digits and what they stand for. Letters of either case stand for ten to fifteen. -/
def digitValues : List (Char × Nat) := "0123456789abcdef".toList.zipIdx ++ "ABCDEF".toList.zipIdx 10

/-- The number that digits of a radix denote by their places, the last of which counts ones. -/
def DenotesNumber (radix : Nat) (digits : List Char) (n : Nat) : Prop :=
  digits ≠ [] ∧ ∃ worth : Char → Nat, (∀ c ∈ digits, (c, worth c) ∈ digitValues ∧ worth c < radix) ∧
    n = Nat.ofDigits radix (digits.reverse.map worth)

variable {radix n d : Nat} {c : Char} {s : List Char}

theorem mem_digitValues_of_range (low : Char) (start count : Nat)
    (htable : ∀ i < count, (Char.ofNat (low.toNat + i), start + i) ∈ digitValues)
    (hlow : low ≤ c) (hhigh : c.toNat < low.toNat + count) : (c, c.toNat - low.toNat + start) ∈ digitValues := by
  have hle : low.toNat ≤ c.toNat := hlow
  have hmem := htable (c.toNat - low.toNat) (by omega)
  rwa [Nat.add_sub_cancel' hle, Char.ofNat_toNat, Nat.add_comm start] at hmem

theorem digit?_of_lt {wider : Nat} (hr : radix ≤ wider) (h : digit? wider c = some d) (hd : d < radix) :
    digit? radix c = some d := by
  unfold digit? at h ⊢
  grind

theorem digit?_eq_some_iff (hr : radix ≤ 16) : digit? radix c = some d ↔ (c, d) ∈ digitValues ∧ d < radix := by
  constructor
  · intro h
    by_cases h0 : '0' ≤ c ∧ c ≤ '9'
    · simp only [digit?, if_pos h0, Option.ite_none_right_eq_some, Option.some.injEq] at h
      obtain ⟨hlt, rfl⟩ := h
      exact ⟨mem_digitValues_of_range '0' 0 10 (by decide) h0.1 (Nat.lt_succ_of_le h0.2), hlt⟩
    by_cases ha : 'a' ≤ c ∧ c ≤ 'f'
    · simp only [digit?, if_neg h0, if_pos ha, Option.ite_none_right_eq_some, Option.some.injEq] at h
      obtain ⟨hlt, rfl⟩ := h
      exact ⟨mem_digitValues_of_range 'a' 10 6 (by decide) ha.1 (Nat.lt_succ_of_le ha.2), hlt⟩
    by_cases hA : 'A' ≤ c ∧ c ≤ 'F'
    · simp only [digit?, if_neg h0, if_neg ha, if_pos hA, Option.ite_none_right_eq_some, Option.some.injEq] at h
      obtain ⟨hlt, rfl⟩ := h
      exact ⟨mem_digitValues_of_range 'A' 10 6 (by decide) hA.1 (Nat.lt_succ_of_le hA.2), hlt⟩
    · simp [digit?, h0, ha, hA] at h
  · rintro ⟨hmem, hd⟩
    have htable : ∀ e ∈ digitValues, digit? 16 e.1 = some e.2 := by decide
    exact digit?_of_lt hr (htable _ hmem) hd

/-- Reading digits one after the other counts them by their places. -/
theorem value_eq_ofDigits (radix : Nat) (s : List Char) :
    value radix s = Nat.ofDigits radix (s.reverse.map fun c => (digit? radix c).getD 0) := by
  have hfold (start : Nat) : s.foldl (fun n c => n * radix + (digit? radix c).getD 0) start =
      (s.map fun c => (digit? radix c).getD 0).foldl (fun n d => d + radix * n) start := by
    rw [List.foldl_map]
    simp only [Nat.mul_comm, Nat.add_comm]
  rw [value, hfold, Nat.ofDigits_eq_foldr, List.map_reverse, List.foldr_reverse]
  simp only [Nat.cast_id]

theorem number?_eq_some_iff (hr : radix ≤ 16) : number? radix s = some n ↔ DenotesNumber radix s n := by
  rw [number?_eq_some, value_eq_ofDigits]
  constructor
  · rintro ⟨hne, hall, rfl⟩
    refine ⟨hne, fun c => (digit? radix c).getD 0, fun c hc => ?_, rfl⟩
    obtain ⟨d, hd⟩ := Option.isSome_iff_exists.1 (hall c hc)
    dsimp only
    rw [hd, Option.getD_some]
    exact (digit?_eq_some_iff hr).1 hd
  · rintro ⟨hne, worth, hworth, rfl⟩
    have hdigit : ∀ c ∈ s, digit? radix c = some (worth c) := fun c hc => (digit?_eq_some_iff hr).2 (hworth c hc)
    refine ⟨hne, fun c hc => ?_, ?_⟩
    · rw [isDigit, hdigit c hc]
      rfl
    · refine congrArg (Nat.ofDigits radix) (List.map_congr_left fun c hc => ?_)
      rw [hdigit c (List.mem_reverse.1 hc), Option.getD_some]

/-- A zero in front of digits does not count. -/
theorem number?_zero (hr : 0 < radix) (hne : s ≠ []) : number? radix ('0' :: s) = number? radix s := by
  have hzero : digit? radix '0' = some 0 := by simp [digit?, hr]
  have hvalue : value radix ('0' :: s) = value radix s := by
    simp [value, hzero]
  simp [number?, hvalue, isDigit, hzero, hne]

end Text

namespace Literal

open Text (DenotesNumber isDigit)
open Token (Digits Numeral isDigitOrBar isHexOrBar)

/-- The radix that an integer is written in, and its digits without bars. A mark stands before hexadecimal digits; a
zero in front of further digits makes them octal. -/
inductive InRadix : Nat → List Char → List Char → Prop where
  | hexadecimal {x : Char} {w : List Char} (hx : x = 'x' ∨ x = 'X') : InRadix 16 (dropBars w) ('0' :: x :: w)
  | octal {w ds : List Char} (hw : Digits w) (h : dropBars w = '0' :: ds) (hne : ds ≠ []) : InRadix 8 ('0' :: ds) w
  | decimal {w : List Char} (hw : Digits w) (h : ∀ ds, dropBars w = '0' :: ds → ds = []) : InRadix 10 (dropBars w) w

/-- The number is one that a literal may denote in a word of so many bits. -/
def Fits (bits radix n : Nat) : Prop := if radix = 10 then n ≤ 2 ^ (bits - 1) - 1 else n < 2 ^ bits

variable {radix bits n : Nat} {lexeme digits w : List Char}

/-- Every lexeme of an integer shows a radix. -/
theorem exists_inRadix (h : Numeral .intLit lexeme) : ∃ radix digits, InRadix radix digits lexeme := by
  cases h with
  | @decimal w t hw ht =>
    cases ht with
    | integer ht =>
      cases ht
      rw [List.append_nil]
      by_cases hoctal : ∃ ds, dropBars w = '0' :: ds ∧ ds ≠ []
      · obtain ⟨ds, h, hne⟩ := hoctal
        exact ⟨8, '0' :: ds, .octal hw h hne⟩
      · refine ⟨10, dropBars w, .decimal hw fun ds h => ?_⟩
        by_contra hne
        exact hoctal ⟨ds, h, hne⟩
  | @hexadecimal x w t hx _ _ ht =>
    cases ht
    exact ⟨16, dropBars (w ++ []), .hexadecimal hx⟩

theorem isDigit_of_mem_dropBars (hw : Digits w) {c : Char} (hc : c ∈ dropBars w) : isDigit 10 c = true := by
  obtain ⟨hmem, hbar⟩ := List.mem_filter.1 hc
  have hdigit := hw.forall_mem c hmem
  rw [isDigitOrBar, Bool.or_eq_true] at hdigit
  exact hdigit.resolve_right fun h => of_decide_eq_true hbar (of_decide_eq_true h)

/-- The number of an integer is read from its digits in its radix. -/
theorem number?_radixAndDigits (h : InRadix radix digits lexeme) :
    (radixAndDigits (dropBars lexeme)).1 = radix ∧
      Text.number? radix (radixAndDigits (dropBars lexeme)).2 = Text.number? radix digits := by
  cases h with
  | @hexadecimal x w hx =>
    have hmark : dropBars ('0' :: x :: w) = '0' :: x :: dropBars w := by
      rcases hx with rfl | rfl <;> rfl
    rw [hmark]
    rcases hx with rfl | rfl <;> exact ⟨rfl, rfl⟩
  | @octal _ ds hw h hne =>
    obtain ⟨d, ds, rfl⟩ := List.exists_cons_of_ne_nil hne
    have hd : isDigit 10 d = true := isDigit_of_mem_dropBars hw (by simp [h])
    have hradix : radixAndDigits ('0' :: d :: ds) = (8, d :: ds) := by
      unfold radixAndDigits
      split
      next heq => cases heq; cases hd
      next heq => cases heq; cases hd
      next heq => cases heq; rfl
      next hother => exact absurd rfl (hother d ds)
    -- the zero in front, which only shows the radix, is a digit too but does not count
    rw [h, hradix]
    exact ⟨rfl, (Text.number?_zero (by decide) (List.cons_ne_nil d ds)).symm⟩
  | decimal hw h =>
    have hradix : radixAndDigits (dropBars lexeme) = (10, dropBars lexeme) := by
      unfold radixAndDigits
      split
      next heq => cases h _ heq
      next heq => cases h _ heq
      next heq => cases h _ heq
      next => rfl
    rw [hradix]
    exact ⟨rfl, rfl⟩

theorem InRadix.radix_le (h : InRadix radix digits lexeme) : radix ≤ 16 := by
  cases h <;> decide

/-- Exactly the numbers that fit are accepted. -/
theorem InRadix.integer?_eq_some (h : InRadix radix digits lexeme) :
    integer? bits lexeme = some n ↔ DenotesNumber radix digits n ∧ Fits bits radix n := by
  obtain ⟨hradix, hnumber⟩ := number?_radixAndDigits h
  have hbound : (n < if radix = 10 then Nat.pow 2 (bits - 1) else Nat.pow 2 bits) ↔ Fits bits radix n := by
    unfold Fits
    split
    · exact Nat.lt_iff_le_pred (Nat.two_pow_pos (bits - 1))
    · rfl
  rw [Literal.integer?_eq_some, hradix, hnumber, Text.number?_eq_some_iff h.radix_le, hbound]

/-- A wider word takes what a narrower one takes. -/
theorem Fits.mono {wider : Nat} (hle : bits ≤ wider) (h : Fits bits radix n) : Fits wider radix n := by
  unfold Fits at h ⊢
  split
  next hr =>
    rw [if_pos hr] at h
    have hpow : 2 ^ (bits - 1) ≤ 2 ^ (wider - 1) := Nat.pow_le_pow_right (by decide) (Nat.sub_le_sub_right hle 1)
    exact Nat.le_trans h (Nat.sub_le_sub_right hpow 1)
  next hr =>
    rw [if_neg hr] at h
    exact Nat.lt_of_lt_of_le h (Nat.pow_le_pow_right (by decide) hle)

theorem eq_bmod_iff {a b : Int} {m : Nat} (ha : a.bmod m = a) : a = b.bmod m ↔ a ≡ b [ZMOD m] := by
  constructor
  · rintro rfl
    exact Int.bmod_emod
  · intro h
    calc a
      _ = a.bmod m := ha.symm
      _ = (a % m).bmod m := (Int.emod_bmod a m).symm
      _ = (b % m).bmod m := by rw [show a % m = b % m from h]
      _ = b.bmod m := Int.emod_bmod b m

/-- What reading a literal of a word of so many bits gives: exactly for digits that denote a fitting number the value
with these bits, and otherwise an error. -/
structure ReadsWord {κ : Type} (bits radix : Nat) (digits : List Char) (toInt : κ → Int) (expr : κ → Expr)
    (invalid : SyntaxError) (result : Except SyntaxError Expr) : Prop where
  accepts : ∀ k, result = .ok (expr k) ↔
    ∃ n, DenotesNumber radix digits n ∧ Fits bits radix n ∧ toInt k ≡ n [ZMOD 2 ^ bits]
  rejects : (¬∃ n, DenotesNumber radix digits n ∧ Fits bits radix n) → result = .error invalid

theorem InRadix.readsWord {κ : Type} {toInt : κ → Int} {ofNat : Nat → κ} {expr : κ → Expr} {invalid : SyntaxError}
    (h : InRadix radix digits lexeme) (hexpr : expr.Injective) (htoInt : toInt.Injective)
    (hofNat : ∀ n, toInt (ofNat n) = (n : Int).bmod (2 ^ bits)) (hrange : ∀ k, (toInt k).bmod (2 ^ bits) = toInt k) :
    ReadsWord bits radix digits toInt expr invalid
      (match integer? bits lexeme with
        | some n => .ok (expr (ofNat n))
        | none => .error invalid) := by
  have hword (n : Nat) (k : κ) : ofNat n = k ↔ toInt k ≡ n [ZMOD 2 ^ bits] := by
    have hmod := eq_bmod_iff (b := n) (hrange k)
    rw [← htoInt.eq_iff, hofNat, eq_comm, hmod, Nat.cast_pow, Nat.cast_ofNat]
  constructor
  · intro k
    constructor
    · intro hk
      split at hk
      next n hn =>
        obtain ⟨hd, hf⟩ := h.integer?_eq_some.1 hn
        exact ⟨n, hd, hf, (hword n k).1 (hexpr (Except.ok.inj hk))⟩
      next => cases hk
    · rintro ⟨n, hd, hf, hk⟩
      rw [h.integer?_eq_some.2 ⟨hd, hf⟩]
      exact congrArg (fun k => Except.ok (expr k)) ((hword n k).2 hk)
  · intro hnone
    split
    next n hn => exact absurd ⟨n, h.integer?_eq_some.1 hn⟩ hnone
    next => rfl

end Literal

/-- What is read from the token that an expression starts with. -/
def Expr.Parser.start (stop : Span) (t : Token) (rest : List Token) : Except SyntaxError Expr :=
  (primary stop t rest).map Parsed.value

namespace Literal

open Expr.Parser (start)
open Token (Numeral)

theorem start_int (stop span : Span) (lexeme : List Char) (rest : List Token) :
    start stop ⟨.intLit, lexeme, span⟩ rest =
      match integer? 32 lexeme with
      | some n => .ok (.literal span (.value (.int (Int32.ofNat n))))
      | none => .error (.invalidLiteral lexeme .intTooLarge span) := by
  rw [start, Expr.Parser.primary]
  simp only [Expr.Parser.literal?, ofInt]
  cases integer? 32 lexeme <;> rfl

theorem start_long (stop span : Span) (lexeme : List Char) (l : Char) (rest : List Token) :
    start stop ⟨.longLit, lexeme ++ [l], span⟩ rest =
      match integer? 64 lexeme with
      | some n => .ok (.literal span (.value (.long (Int64.ofNat n))))
      | none => .error (.invalidLiteral (lexeme ++ [l]) .longTooLarge span) := by
  rw [start, Expr.Parser.primary]
  simp only [Expr.Parser.literal?, ofLong, List.dropLast_concat]
  cases integer? 64 lexeme <;> rfl

theorem readsWord_int {radix : Nat} {digits lexeme : List Char} (h : InRadix radix digits lexeme) (stop span : Span)
    (rest : List Token) :
    ReadsWord 32 radix digits Int32.toInt (fun k => .literal span (.value (.int k)))
      (.invalidLiteral lexeme .intTooLarge span) (start stop ⟨.intLit, lexeme, span⟩ rest) := by
  rw [start_int]
  refine h.readsWord (fun a b hab => ?_) (fun _ _ => Int32.toInt_inj.1) (fun _ => Int32.toInt_ofNat') Int32.toInt_bmod
  cases hab
  rfl

theorem readsWord_long {radix : Nat} {digits lexeme : List Char} (h : InRadix radix digits lexeme) (stop span : Span)
    (l : Char) (rest : List Token) :
    ReadsWord 64 radix digits Int64.toInt (fun k => .literal span (.value (.long k)))
      (.invalidLiteral (lexeme ++ [l]) .longTooLarge span) (start stop ⟨.longLit, lexeme ++ [l], span⟩ rest) := by
  rw [start_long]
  refine h.readsWord (fun a b hab => ?_) (fun _ _ => Int64.toInt_inj.1) (fun _ => Int64.toInt_ofNat') Int64.toInt_bmod
  cases hab
  rfl

/-- With the suffix of the wide words the lexeme is one of these. -/
theorem numeral_long {lexeme : List Char} (h : Numeral .intLit lexeme) {l : Char} (hl : l = 'l' ∨ l = 'L') :
    Numeral .longLit (lexeme ++ [l]) := by
  have hsuffix := Token.IntegerEnd.long (Token.isLongSuffix_iff.2 hl)
  cases h with
  | decimal hw ht =>
    cases ht with
    | integer ht =>
      cases ht
      rw [List.append_nil]
      exact .decimal hw (.integer hsuffix)
  | hexadecimal hx hne hw ht =>
    cases ht
    rw [List.append_nil]
    exact .hexadecimal hx hne hw hsuffix

/-- An integer is read as the signed value of the number that its digits denote, if this fits into a word, and is
invalid otherwise. With the suffix of the wide words the same digits are read whenever they are without it, with the
same low bits. -/
theorem readsWord_integer {lexeme : List Char} (h : Numeral .intLit lexeme) {l : Char} (hl : l = 'l' ∨ l = 'L')
    (stop span : Span) (rest : List Token) :
    ∃ radix digits, InRadix radix digits lexeme ∧ Numeral .longLit (lexeme ++ [l]) ∧
      ReadsWord 32 radix digits Int32.toInt (fun k => .literal span (.value (.int k)))
        (.invalidLiteral lexeme .intTooLarge span) (start stop ⟨.intLit, lexeme, span⟩ rest) ∧
      ReadsWord 64 radix digits Int64.toInt (fun k => .literal span (.value (.long k)))
        (.invalidLiteral (lexeme ++ [l]) .longTooLarge span) (start stop ⟨.longLit, lexeme ++ [l], span⟩ rest) ∧
      ∀ k, start stop ⟨.intLit, lexeme, span⟩ rest = .ok (.literal span (.value (.int k))) →
        ∃ m, start stop ⟨.longLit, lexeme ++ [l], span⟩ rest = .ok (.literal span (.value (.long m))) ∧
          k.toInt ≡ m.toInt [ZMOD 2 ^ 32] := by
  obtain ⟨radix, digits, hradix⟩ := exists_inRadix h
  have hint := readsWord_int hradix stop span rest
  have hlong := readsWord_long hradix stop span l rest
  refine ⟨radix, digits, hradix, numeral_long h hl, hint, hlong, fun k hk => ?_⟩
  obtain ⟨n, hd, hf, hmod⟩ := (hint.accepts k).1 hk
  have hwide : (Int64.ofNat n).toInt ≡ n [ZMOD 2 ^ 64] := by
    rw [Int64.toInt_ofNat']
    exact Int.bmod_emod
  refine ⟨Int64.ofNat n, (hlong.accepts _).2 ⟨n, hd, hf.mono (by decide), hwide⟩, ?_⟩
  exact hmod.trans (hwide.of_dvd (by decide)).symm

/-- All bits of the narrow word, with bars next to the mark and among the digits. -/
theorem readsWord_integer_allBits :
    Numeral .intLit "0x_fFff_ffff".toList ∧
      start ⟨12, 0⟩ ⟨.intLit, "0x_fFff_ffff".toList, ⟨0, 12⟩⟩ [] = .ok (.literal ⟨0, 12⟩ (.value (.int (-1)))) ∧
      ∃ m : Int64, start ⟨12, 0⟩ ⟨.longLit, "0x_fFff_ffff".toList ++ ['L'], ⟨0, 12⟩⟩ [] =
        .ok (.literal ⟨0, 12⟩ (.value (.long m))) ∧ -1 ≡ m.toInt [ZMOD 2 ^ 32] := by
  have h : Numeral .intLit "0x_fFff_ffff".toList :=
    .hexadecimal (w := "_fFff_ffff".toList) (.inl rfl) (by decide) (List.all_eq_true.1 (by decide)) .int
  have hint : start ⟨12, 0⟩ ⟨.intLit, "0x_fFff_ffff".toList, ⟨0, 12⟩⟩ [] =
      .ok (.literal ⟨0, 12⟩ (.value (.int (-1)))) := by
    rw [start_int, show integer? 32 "0x_fFff_ffff".toList = some 4294967295 by decide +kernel]
    rfl
  obtain ⟨_, _, -, -, -, -, hwide⟩ := readsWord_integer h (.inr rfl : 'L' = 'l' ∨ 'L' = 'L') ⟨12, 0⟩ ⟨0, 12⟩ []
  exact ⟨h, hint, hwide (-1) hint⟩

end Literal
end AnnotationExpr
