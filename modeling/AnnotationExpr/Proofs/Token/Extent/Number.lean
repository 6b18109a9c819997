import AnnotationExpr.Proofs.Token.Words

/-!
How far a number goes. The scanner decides by the characters of the number and at most three after it. So a number is
cut the same from a text that ends with it or later, and from any text in which it is followed by a character that no
number has. One exception is the point before an incomplete exponent, which no value can be read from.
-/

namespace AnnotationExpr.Token

open Text (isDigit)

variable {p : Char → Bool} {w r : List Char}

/-! Characters of words and numbers. -/

/-- What follows goes on with neither a word nor a number. -/
def Ends (r : List Char) : Prop := ∀ c ∈ r.head?, isWordRest c = false

theorem ends_nil : Ends [] := nofun

theorem ends_cons {c : Char} (h : isWordRest c = false) (r : List Char) : Ends (c :: r) := by
  rintro d ⟨⟩
  exact h

theorem isWordRest_of_digit {c : Char} (h : isDigit 10 c = true) : isWordRest c = true := by
  simp [isWordRest, h]

theorem not_isWordStart_of_digit {c : Char} (h : isDigit 10 c = true) : isWordStart c = false := by
  obtain ⟨-, hle⟩ := Text.isDigit_ten.1 h
  refine Bool.eq_false_iff.2 fun hc => ?_
  simp only [isWordStart, Bool.or_eq_true, Bool.and_eq_true, decide_eq_true_eq] at hc
  rcases hc with ((⟨ha, -⟩ | ⟨hA, -⟩) | rfl) | rfl
  · exact absurd (Char.le_trans ha hle) (by decide)
  · exact absurd (Char.le_trans hA hle) (by decide)
  · cases h
  · cases h

theorem isDigitOrBar_of_digit {c : Char} (h : isDigit 10 c = true) : isDigitOrBar c = true := by
  simp [isDigitOrBar, h]

theorem isWordRest_of_digitOrBar {c : Char} (h : isDigitOrBar c = true) : isWordRest c = true := by
  simp only [isDigitOrBar, Bool.or_eq_true, decide_eq_true_eq] at h
  rcases h with h | rfl
  · exact isWordRest_of_digit h
  · rfl

theorem isWordRest_of_hexOrBar {c : Char} (h : isHexOrBar c = true) : isWordRest c = true := by
  simp only [isHexOrBar, Bool.or_eq_true, decide_eq_true_eq] at h
  rcases h with h | rfl
  · simp only [isWordRest, isWordStart, Bool.or_eq_true, Bool.and_eq_true, decide_eq_true_eq]
    by_cases hd : '0' ≤ c ∧ c ≤ '9'
    · exact .inr (Text.isDigit_ten.2 hd)
    by_cases ha : 'a' ≤ c ∧ c ≤ 'f'
    · exact .inl (.inl (.inl (.inl ⟨ha.1, Char.le_trans ha.2 (by decide)⟩)))
    by_cases hA : 'A' ≤ c ∧ c ≤ 'F'
    · exact .inl (.inl (.inl (.inr ⟨hA.1, Char.le_trans hA.2 (by decide)⟩)))
    · simp [isDigit, Text.digit?, hd, ha, hA] at h
  · rfl

theorem isWordRest_of_longSuffix {c : Char} (h : isLongSuffix c = true) : isWordRest c = true := by
  simp only [isLongSuffix, Bool.or_eq_true, decide_eq_true_eq] at h
  rcases h with rfl | rfl <;> rfl

theorem isWordRest_of_realSuffix {c : Char} (h : isRealSuffix c = true) : isWordRest c = true := by
  simp only [isRealSuffix, Bool.or_eq_true, decide_eq_true_eq] at h
  rcases h with ((rfl | rfl) | rfl) | rfl <;> rfl

theorem head_of_space {c : Char} (h : isSpace c = true) : isWordRest c = false ∧ c ≠ '#' := by
  simp only [isSpace, Bool.or_eq_true, decide_eq_true_eq] at h
  rcases h with (((rfl | rfl) | rfl) | rfl) | rfl <;> exact ⟨rfl, by decide⟩

theorem space_of_wordRest {c : Char} (h : isWordRest c = true) : isSpace c = false ∧ c ≠ '=' := by
  refine ⟨Bool.eq_false_iff.2 fun hs => ?_, ?_⟩
  · rw [(head_of_space hs).1] at h
    cases h
  · rintro rfl
    cases h

theorem space_of_wordStart {c : Char} (h : isWordStart c = true) : isSpace c = false ∧ c ≠ '=' :=
  space_of_wordRest (by rw [isWordRest, h, Bool.true_or])

/-- The mark of an exponent. -/
def isMark (c : Char) : Bool := c = 'e' || c = 'E'

theorem isWordRest_of_mark {c : Char} (h : isMark c = true) : isWordRest c = true := by
  simp only [isMark, Bool.or_eq_true, decide_eq_true_eq] at h
  rcases h with rfl | rfl <;> rfl

theorem isRealSuffix_of_mark {c : Char} (h : isMark c = true) : isRealSuffix c = false := by
  simp only [isMark, Bool.or_eq_true, decide_eq_true_eq] at h
  rcases h with rfl | rfl <;> rfl

/-- A character that a number may have. -/
def isNumeral (c : Char) : Bool := isWordRest c || c = '.' || c = '+' || c = '-'

theorem isNumeral_of_word {c : Char} (h : isWordRest c = true) : isNumeral c = true := by
  simp [isNumeral, h]

/-! First characters. -/

theorem Ends.startsWith (h : Ends r) (hp : ∀ {c}, p c = true → isWordRest c = true) : startsWith p r = false := by
  cases r with
  | nil => rfl
  | cons c r =>
    refine Bool.eq_false_iff.2 fun hc => ?_
    have hword := h c rfl
    rw [hp hc] at hword
    cases hword

theorem head?_of_startsWith (h : startsWith p r = false) : ∀ c ∈ r.head?, p c = false := by
  cases r with
  | nil => nofun
  | cons c r =>
    rintro _ ⟨⟩
    exact h

theorem startsWith_append (hw : 0 < w.length) : startsWith p (w ++ r) = startsWith p w := by
  cases w with
  | nil => cases hw
  | cons c w => rfl

theorem exists_cons_of_startsWith (h : startsWith p w = true) : ∃ c s, w = c :: s ∧ p c = true := by
  cases w with
  | nil => cases h
  | cons c s => exact ⟨c, s, rfl, h⟩

theorem pos_of_startsWith (h : startsWith p w = true) : 0 < w.length := by
  obtain ⟨c, s, rfl, -⟩ := exists_cons_of_startsWith h
  simp

theorem startsWith_of_append (h : startsWith p (w ++ r) = false) : startsWith p w = false := by
  cases w with
  | nil => rfl
  | cons c w => exact h

/-! Runs. -/

@[simp] theorem run_nil : run p [] = 0 := rfl

theorem run_cons (c : Char) (s : List Char) : run p (c :: s) = if p c then run p s + 1 else 0 := by
  simp only [run, List.takeWhile_cons]
  split <;> simp

theorem run_le (p : Char → Bool) (s : List Char) : run p s ≤ s.length :=
  (List.takeWhile_sublist p).length_le

theorem run_eq_zero {s : List Char} : run p s = 0 ↔ startsWith p s = false := by
  cases s with
  | nil => simp [startsWith]
  | cons c s => cases hc : p c <;> simp [run_cons, startsWith, hc]

theorem run_of_append (h : run p (w ++ r) ≤ w.length) : run p w = run p (w ++ r) := by
  induction w with
  | nil => exact (Nat.le_zero.1 h).symm
  | cons c w ih =>
    simp only [List.cons_append, run_cons] at h ⊢
    split
    next hc =>
      rw [if_pos hc, List.length_cons] at h
      rw [ih (by omega)]
    next => rfl

theorem run_append (h : run p w = w.length → startsWith p r = false) : run p (w ++ r) = run p w := by
  induction w with
  | nil => exact run_eq_zero.2 (h rfl)
  | cons c w ih =>
    simp only [List.cons_append, run_cons] at h ⊢
    split
    next hc =>
      rw [if_pos hc] at h
      rw [ih fun hw => h (by simp [hw])]
    next => rfl

/-- A run that takes everything has only its characters. -/
theorem run_eq_length {s : List Char} (h : ∀ c ∈ s, p c = true) : run p s = s.length := by
  rw [run, List.takeWhile_eq_self_iff.2 h]

theorem drop_run {s : List Char} (h : s.drop (run p s) ≠ []) : startsWith p (s.drop (run p s)) = false := by
  induction s with
  | nil => exact absurd rfl h
  | cons c s ih =>
    rw [run_cons] at h ⊢
    split
    next hc =>
      rw [if_pos hc] at h
      exact ih h
    next hc => simpa [startsWith] using hc

theorem run_mono {q : Char → Bool} (h : ∀ {c}, p c = true → q c = true) (s : List Char) : run p s ≤ run q s := by
  induction s with
  | nil => exact Nat.le_refl 0
  | cons c s ih =>
    rw [run_cons, run_cons]
    split
    next hc =>
      rw [if_pos (h hc)]
      exact Nat.succ_le_succ ih
    next => exact Nat.zero_le _

/-- A run is a part of it and the run after that part. -/
theorem run_drop {n : Nat} {s : List Char} (h : n ≤ run p s) : run p s = n + run p (s.drop n) := by
  induction n generalizing s with
  | zero => simp
  | succ n ih =>
    cases s with
    | nil => cases h
    | cons c s =>
      rw [run_cons] at h ⊢
      split at h
      next hc =>
        rw [if_pos hc, List.drop_succ_cons, ih (Nat.le_of_succ_le_succ h)]
        omega
      next => cases h

theorem run_pos {q : Char → Bool} (h : ∀ {c}, p c = true → q c = true) {s : List Char}
    (hs : startsWith p s = true) : 1 ≤ run q s := by
  obtain ⟨c, t, rfl, hc⟩ := exists_cons_of_startsWith hs
  rw [run_cons, if_pos (h hc)]
  exact Nat.le_add_left _ _

theorem mem_take_run {n : Nat} {s : List Char} {c : Char} (hn : n ≤ run p s) (h : c ∈ s.take n) : p c = true := by
  have htake : c ∈ s.take (run p s) := (List.take_sublist_take_left hn).subset h
  rw [take_run] at htake
  exact List.mem_takeWhile_imp htake

/-! Exponents, and what else may end a real number. -/

def signLength (s : List Char) : Nat := if startsWith (fun d => d = '+' || d = '-') s then 1 else 0

theorem exponent_of_not_mark {s : List Char} (h : startsWith isMark s = false) : exponent s = 0 := by
  cases s with
  | nil => rfl
  | cons c s =>
    have hc : ¬ (c = 'e' ∨ c = 'E') := by simpa [startsWith, isMark] using h
    rw [exponent, if_neg hc]

theorem exponent_of_mark {c : Char} {s : List Char} (h : isMark c = true) :
    exponent (c :: s) = if run (isDigit 10) (s.drop (signLength s)) = 0 then 0
      else 1 + signLength s + run (isDigit 10) (s.drop (signLength s)) := by
  have hc : c = 'e' ∨ c = 'E' := by simpa [isMark] using h
  rw [exponent, if_pos hc]
  cases hn : run (isDigit 10) (s.drop (signLength s)) with
  | zero =>
    rw [if_pos rfl]
    unfold signLength at hn
    simp only [hn]
  | succ n =>
    rw [if_neg (Nat.succ_ne_zero n)]
    unfold signLength at hn ⊢
    simp only [hn]

theorem signLength_append (hw : 0 < w.length) : signLength (w ++ r) = signLength w := by
  rw [signLength, startsWith_append hw, signLength]

theorem signLength_le (s : List Char) : signLength s ≤ s.length := by
  cases s with
  | nil => rfl
  | cons c s =>
    unfold signLength
    split <;> simp

theorem exponent_le_run (s : List Char) : exponent s ≤ run isNumeral s := by
  cases s with
  | nil => exact Nat.le_refl 0
  | cons c s =>
    by_cases hc : isMark c = true
    · rw [exponent_of_mark hc, run_cons, if_pos (isNumeral_of_word (isWordRest_of_mark hc))]
      have hsign : signLength s ≤ run isNumeral s := by
        unfold signLength
        split
        next hs =>
          refine run_pos (fun {d} hd => ?_) hs
          simp only [Bool.or_eq_true, decide_eq_true_eq] at hd
          rcases hd with rfl | rfl <;> rfl
        next => exact Nat.zero_le _
      have hrun : run (isDigit 10) (s.drop (signLength s)) ≤ run isNumeral (s.drop (signLength s)) :=
        run_mono (fun hd => isNumeral_of_word (isWordRest_of_digit hd)) _
      rw [run_drop hsign]
      split <;> omega
    · rw [exponent_of_not_mark (s := c :: s) (Bool.eq_false_iff.2 hc)]
      exact Nat.zero_le _

theorem exponent_of_append (h : exponent (w ++ r) ≤ w.length) : exponent w = exponent (w ++ r) := by
  cases w with
  | nil => exact (Nat.le_zero.1 h).symm
  | cons c w =>
    by_cases hc : isMark c = true
    · rw [List.cons_append, exponent_of_mark hc] at h ⊢
      rw [exponent_of_mark hc]
      cases w with
      | nil =>
        -- an exponent has more than its mark
        rw [List.nil_append, List.length_singleton] at h
        rw [List.nil_append, List.drop_nil, run_nil, if_pos rfl]
        split
        next => rfl
        next hn =>
          rw [if_neg hn] at h
          omega
      | cons d w =>
        have hsign := signLength_le (d :: w)
        rw [signLength_append (by simp), List.drop_append_of_le_length hsign] at h ⊢
        rw [run_of_append (r := r)]
        rw [List.length_drop]
        split at h
        next hn => omega
        next => simp only [List.length_cons] at h hsign ⊢; omega
    · have hnone (s : List Char) : exponent (c :: s) = 0 := exponent_of_not_mark (Bool.eq_false_iff.2 hc)
      rw [List.cons_append, hnone, hnone]

theorem exponent_append (hr : Ends r) (h : startsWith isMark w = true → exponent w ≠ 0) :
    exponent (w ++ r) = exponent w := by
  cases w with
  | nil => exact exponent_of_not_mark (hr.startsWith isWordRest_of_mark)
  | cons c w =>
    by_cases hc : isMark c = true
    · have hne := h hc
      rw [exponent_of_mark hc] at hne
      rw [List.cons_append, exponent_of_mark hc, exponent_of_mark hc]
      cases w with
      | nil => simp at hne
      | cons d w =>
        rw [signLength_append (by simp), List.drop_append_of_le_length (signLength_le _),
          run_append fun _ => hr.startsWith isWordRest_of_digit]
    · have hnone (s : List Char) : exponent (c :: s) = 0 := exponent_of_not_mark (Bool.eq_false_iff.2 hc)
      rw [List.cons_append, hnone, hnone]

theorem realTail_eq (s : List Char) :
    realTail s = if startsWith isRealSuffix (s.drop (exponent s)) then exponent s + 1 else exponent s := rfl

theorem exponent_le_realTail (s : List Char) : exponent s ≤ realTail s := by
  rw [realTail_eq]
  split <;> omega

theorem realTail_le_run (s : List Char) : realTail s ≤ run isNumeral s := by
  have he := exponent_le_run s
  rw [realTail_eq]
  split
  next hs =>
    have hsuffix := run_pos (fun hd => isNumeral_of_word (isWordRest_of_realSuffix hd)) hs
    rw [run_drop he]
    exact Nat.add_le_add_left hsuffix _
  next => exact he

theorem realTail_of_append (h : realTail (w ++ r) ≤ w.length) : realTail w = realTail (w ++ r) := by
  have hle : exponent (w ++ r) ≤ w.length := Nat.le_trans (exponent_le_realTail _) h
  have he : exponent w = exponent (w ++ r) := exponent_of_append hle
  rw [realTail_eq] at h ⊢
  rw [realTail_eq, he]
  rw [List.drop_append_of_le_length hle] at h ⊢
  split at h
  next hs =>
    have hpos : 0 < (w.drop (exponent (w ++ r))).length := by
      rw [List.length_drop]
      omega
    rw [startsWith_append hpos]
  next hs => rw [if_neg hs, if_neg (Bool.eq_false_iff.1 (startsWith_of_append (Bool.eq_false_iff.2 hs)))]

/-- A text that is all the end of a real number does not start with an incomplete exponent. -/
theorem exponent_ne_zero (h : realTail w = w.length) (hm : startsWith isMark w = true) : exponent w ≠ 0 := by
  intro he
  cases w with
  | nil => cases hm
  | cons c w =>
    have hc : isRealSuffix c = false := isRealSuffix_of_mark hm
    simp [realTail_eq, he, startsWith, hc] at h

theorem realTail_append (hr : Ends r) (h : realTail w = w.length) : realTail (w ++ r) = w.length := by
  have he : exponent (w ++ r) = exponent w := exponent_append hr (exponent_ne_zero h)
  have hle : exponent w ≤ w.length := h ▸ exponent_le_realTail w
  rw [realTail_eq] at h
  rw [realTail_eq, he, List.drop_append_of_le_length hle]
  split at h
  next hs =>
    have hpos : 0 < (w.drop (exponent w)).length := by
      rw [List.length_drop]
      omega
    rw [startsWith_append hpos, if_pos hs, h]
  next hs =>
    rw [List.drop_of_length_le (Nat.le_of_eq h.symm), List.nil_append, hr.startsWith isWordRest_of_realSuffix, h]
    rfl

/-! Fractions and numbers. -/

theorem fraction_of_append (h : fraction (w ++ r) ≤ w.length) : fraction w = fraction (w ++ r) := by
  cases w with
  | nil => exact (Nat.le_zero.1 h).symm
  | cons c w =>
    unfold fraction at h ⊢
    rw [startsWith_append (by simp)] at h ⊢
    split
    next hs =>
      rw [if_pos hs] at h
      exact run_of_append h
    next => rfl

theorem fraction_append (hr : Ends r) : fraction (w ++ r) = fraction w := by
  unfold fraction
  cases w with
  | nil =>
    rw [List.nil_append, hr.startsWith isWordRest_of_digit]
    rfl
  | cons c w => rw [startsWith_append (by simp), run_append fun _ => hr.startsWith isWordRest_of_digitOrBar]

theorem fraction_le_run (s : List Char) : fraction s ≤ run isNumeral s := by
  unfold fraction
  split
  · exact run_mono (fun hd => isNumeral_of_word (isWordRest_of_digitOrBar hd)) s
  · exact Nat.zero_le _

theorem fraction_le (s : List Char) : fraction s ≤ s.length :=
  Nat.le_trans (fraction_le_run s) (run_le _ s)

/-- A fraction with the end of a real number after it. -/
theorem fraction_add_le_run (s : List Char) : fraction s + realTail (s.drop (fraction s)) ≤ run isNumeral s := by
  rw [run_drop (fraction_le_run s)]
  exact Nat.add_le_add_left (realTail_le_run _) _

/-- What follows a point is a fraction and the end of a real number, unless it is an incomplete exponent. -/
theorem afterPoint_of_complete {s : List Char}
    (h : fraction s = 0 → startsWith isMark s = true → exponent s ≠ 0) :
    afterPoint s = (.doubleLit, fraction s + realTail (s.drop (fraction s))) := by
  refine if_neg ?_
  rintro ⟨hf, hm, he⟩
  exact h hf hm he

theorem afterPoint_of_incomplete {s : List Char} (hf : fraction s = 0) (hm : startsWith isMark s = true)
    (he : exponent s = 0) : afterPoint s = (.intLit, 0) :=
  if_pos ⟨hf, hm, he⟩

theorem afterPoint_le_run (s : List Char) : (afterPoint s).2 ≤ run isNumeral s := by
  by_cases hc : fraction s = 0 → startsWith isMark s = true → exponent s ≠ 0
  · rw [afterPoint_of_complete hc]
    exact fraction_add_le_run s
  · push Not at hc
    rw [afterPoint_of_incomplete hc.1 hc.2.1 hc.2.2]
    exact Nat.zero_le _

theorem afterPoint_eq_double {s : List Char} {n : Nat} (h : afterPoint s = (.doubleLit, n)) :
    (fraction s = 0 → startsWith isMark s = true → exponent s ≠ 0) ∧
      n = fraction s + realTail (s.drop (fraction s)) := by
  have hcomplete : fraction s = 0 → startsWith isMark s = true → exponent s ≠ 0 := by
    intro hf hm he
    rw [afterPoint_of_incomplete hf hm he] at h
    cases h
  rw [afterPoint_of_complete hcomplete] at h
  exact ⟨hcomplete, (congrArg Prod.snd h).symm⟩

theorem afterPoint_of_append {n : Nat} (h : afterPoint (w ++ r) = (.doubleLit, n)) (hn : n ≤ w.length) :
    afterPoint w = (.doubleLit, n) := by
  obtain ⟨hcomplete, rfl⟩ := afterPoint_eq_double h
  have hf : fraction w = fraction (w ++ r) := fraction_of_append (by omega)
  have hle : fraction (w ++ r) ≤ w.length := by omega
  rw [List.drop_append_of_le_length hle] at hn ⊢
  have ht : realTail (w.drop (fraction (w ++ r))) = realTail (w.drop (fraction (w ++ r)) ++ r) := by
    apply realTail_of_append
    rw [List.length_drop]
    omega
  rw [afterPoint_of_complete, hf, ht]
  intro hz hm
  rw [hf] at hz
  rw [hz, List.drop_zero] at hn
  have he : exponent w = exponent (w ++ r) := by
    apply exponent_of_append
    have := exponent_le_realTail (w ++ r)
    omega
  rw [he]
  exact hcomplete hz (by rw [startsWith_append (pos_of_startsWith hm), hm])

theorem afterPoint_append {k : Kind} (hr : Ends r) (h : afterPoint w = (k, w.length)) :
    afterPoint (w ++ r) = (k, w.length) := by
  by_cases hc : fraction w = 0 → startsWith isMark w = true → exponent w ≠ 0
  · rw [afterPoint_of_complete hc] at h
    obtain ⟨rfl, hlen⟩ := Prod.mk.inj h
    have hf : fraction (w ++ r) = fraction w := fraction_append hr
    have ht : realTail (w.drop (fraction w)) = (w.drop (fraction w)).length := by
      rw [List.length_drop]
      omega
    rw [afterPoint_of_complete, hf, List.drop_append_of_le_length (fraction_le w), realTail_append hr ht, ← ht, hlen]
    intro hz hm
    have hpos : 0 < w.length := by
      by_contra hzero
      rw [List.length_eq_zero_iff.1 (Nat.le_zero.1 (Nat.not_lt.1 hzero)), List.nil_append,
        hr.startsWith isWordRest_of_mark] at hm
      cases hm
    rw [hf] at hz
    rw [startsWith_append hpos] at hm
    rw [exponent_append hr (hc hz)]
    exact hc hz hm
  · -- an incomplete exponent is no part of the number
    push Not at hc
    obtain ⟨hf, hm, he⟩ := hc
    rw [afterPoint_of_incomplete hf hm he] at h
    have := pos_of_startsWith hm
    have := (Prod.mk.inj h).2
    omega

/-- The ways in which a decimal number ends: with the letter of its type, with a point and what follows it, or with
the end of a real number, which may be empty. -/
theorem decimal_eq (s : List Char) :
    decimal s =
      let n := run isDigitOrBar s
      let rest := s.drop n
      if startsWith isLongSuffix rest then (.longLit, n + 1)
      else if startsWith (· = '.') rest then
        ((afterPoint rest.tail).1, n + 1 + (afterPoint rest.tail).2)
      else if realTail rest = 0 then (.intLit, n) else (.doubleLit, n + realTail rest) := by
  unfold decimal
  dsimp only
  split
  next hs => simp [hs, startsWith, realTail_eq, exponent]
  next c r hs =>
    rw [hs]
    simp only [startsWith, decide_eq_true_eq, List.tail_cons]
    split
    next => rfl
    next =>
      split
      next => rfl
      next =>
        split
        next ht => rw [if_pos ht]
        next ht => rw [if_neg ht]

theorem run_le_decimal (s : List Char) : run isDigitOrBar s ≤ (decimal s).2 := by
  rw [decimal_eq]
  dsimp only
  split
  · exact Nat.le_succ _
  · split
    · exact Nat.le_trans (Nat.le_succ _) (Nat.le_add_right _ _)
    · split
      · exact Nat.le_refl _
      · exact Nat.le_add_right _ _

theorem decimal_le_run (s : List Char) : (decimal s).2 ≤ run isNumeral s := by
  have hrun : run isDigitOrBar s ≤ run isNumeral s :=
    run_mono (fun hd => isNumeral_of_word (isWordRest_of_digitOrBar hd)) s
  rw [decimal_eq, run_drop hrun]
  dsimp only
  generalize s.drop (run isDigitOrBar s) = rest
  split
  next hs => exact Nat.add_le_add_left (run_pos (fun hd => isNumeral_of_word (isWordRest_of_longSuffix hd)) hs) _
  next =>
    split
    next hp =>
      obtain ⟨c, t, rfl, hc⟩ := exists_cons_of_startsWith hp
      obtain rfl : c = '.' := of_decide_eq_true hc
      have hafter := afterPoint_le_run t
      rw [run_cons, if_pos (show isNumeral '.' = true from rfl), List.tail_cons]
      dsimp only
      omega
    next =>
      have ht := realTail_le_run rest
      split
      all_goals
        dsimp only
        omega

theorem mem_take_of_drop {s t : List Char} {c : Char} {m n : Nat} (h : s.drop m = c :: t) (hmn : m < n) :
    c ∈ s.take n := by
  refine @List.mem_of_getElem? _ _ m _ ?_
  rw [List.getElem?_take_of_lt hmn, ← List.head?_drop, h]
  rfl

theorem decimal_of_append {k : Kind} {n : Nat} (h : decimal (w ++ r) = (k, n)) (hn : n ≤ w.length)
    (hpoint : k = .intLit → '.' ∉ w.take n) : decimal w = (k, n) := by
  have hle : run isDigitOrBar (w ++ r) ≤ w.length := by
    have hrun := run_le_decimal (w ++ r)
    rw [h] at hrun
    exact Nat.le_trans hrun hn
  have hrun : run isDigitOrBar w = run isDigitOrBar (w ++ r) := run_of_append hle
  rw [decimal_eq] at h ⊢
  rw [hrun]
  dsimp only at h ⊢
  generalize run isDigitOrBar (w ++ r) = m at h hle ⊢
  rw [List.drop_append_of_le_length hle] at h
  split at h
  next hs =>
    obtain ⟨rfl, rfl⟩ := Prod.mk.inj h
    rw [startsWith_append (by rw [List.length_drop]; omega)] at hs
    rw [if_pos hs]
  next hs =>
    rw [if_neg (Bool.eq_false_iff.1 (startsWith_of_append (Bool.eq_false_iff.2 hs)))]
    split at h
    next hp =>
      obtain ⟨rfl, rfl⟩ := Prod.mk.inj h
      rw [startsWith_append (by rw [List.length_drop]; omega)] at hp
      obtain ⟨c, t, ht, hc⟩ := exists_cons_of_startsWith hp
      obtain rfl : c = '.' := of_decide_eq_true hc
      have hlen : t.length + 1 = w.length - m := by
        rw [← List.length_drop, ht, List.length_cons]
      rw [if_pos hp]
      simp only [ht, List.cons_append, List.tail_cons] at hn hpoint ⊢
      have hdouble : (afterPoint (t ++ r)).1 = .doubleLit :=
        (kind_afterPoint (t ++ r)).resolve_left fun hk => hpoint hk (mem_take_of_drop ht (by omega))
      have hafter : afterPoint t = (.doubleLit, (afterPoint (t ++ r)).2) :=
        afterPoint_of_append (by rw [← hdouble]) (by omega)
      rw [hafter, hdouble]
    next hp =>
      rw [if_neg (Bool.eq_false_iff.1 (startsWith_of_append (Bool.eq_false_iff.2 hp)))]
      have ht : realTail (w.drop m) = realTail (w.drop m ++ r) := by
        apply realTail_of_append
        rw [List.length_drop]
        split at h
        next => omega
        next =>
          have := (Prod.mk.inj h).2
          omega
      rw [ht]
      exact h

theorem decimal_append {k : Kind} (hr : Ends r) (h : decimal w = (k, w.length))
    (hpoint : k = .intLit → startsWith (· = '.') r = false) : decimal (w ++ r) = (k, w.length) := by
  have hrun : run isDigitOrBar (w ++ r) = run isDigitOrBar w :=
    run_append fun _ => hr.startsWith isWordRest_of_digitOrBar
  have hle : run isDigitOrBar w ≤ w.length := run_le _ w
  rw [decimal_eq] at h ⊢
  rw [hrun]
  dsimp only at h ⊢
  generalize run isDigitOrBar w = m at h hle ⊢
  rw [List.drop_append_of_le_length hle]
  by_cases hend : w.drop m = []
  · -- the number goes on to the end, so what follows decides
    have hm : m = w.length := by
      have := List.drop_eq_nil_iff.1 hend
      omega
    simp only [hend, startsWith, realTail_eq, exponent, List.drop_nil, Bool.false_eq_true, if_false, if_true] at h
    obtain ⟨rfl, -⟩ := Prod.mk.inj h
    have htail : realTail r = 0 := realTail_append hr (w := []) rfl
    rw [hend, List.nil_append, hr.startsWith isWordRest_of_longSuffix, hpoint rfl, htail, hm]
    rfl
  · have hpos : 0 < (w.drop m).length := List.length_pos_iff.2 hend
    simp only [startsWith_append hpos]
    split at h
    next hs => rw [if_pos hs, h]
    next hs =>
      rw [if_neg hs]
      rw [List.length_drop] at hpos
      split at h
      next hp =>
        obtain ⟨c, t, ht, -⟩ := exists_cons_of_startsWith hp
        have hlen : t.length + 1 = w.length - m := by
          rw [← List.length_drop, ht, List.length_cons]
        rw [if_pos hp]
        simp only [ht, List.cons_append, List.tail_cons] at h ⊢
        obtain ⟨hk, hn⟩ := Prod.mk.inj h
        have hafter : afterPoint (t ++ r) = (k, t.length) := by
          refine afterPoint_append hr ?_
          rw [← hk, show t.length = (afterPoint t).2 by omega]
        rw [hafter]
        simp only [Prod.mk.injEq, true_and]
        omega
      next hp =>
        rw [if_neg hp]
        split at h
        next =>
          have := (Prod.mk.inj h).2
          omega
        next hne =>
          have ht : realTail (w.drop m) = (w.drop m).length := by
            have := (Prod.mk.inj h).2
            rw [List.length_drop]
            omega
          rw [realTail_append hr ht, ← ht, if_neg hne, h]

/-- A hexadecimal number starts with its mark and a digit. -/
def isHex : List Char → Bool
  | c :: x :: s => c = '0' && (x = 'x' || x = 'X') && startsWith isHexOrBar s
  | _ => false

theorem isHex_iff {c x : Char} {s : List Char} :
    isHex (c :: x :: s) = true ↔ (c = '0' ∧ (x = 'x' ∨ x = 'X')) ∧ startsWith isHexOrBar s = true := by
  simp only [isHex, Bool.and_eq_true, Bool.or_eq_true, decide_eq_true_eq]

theorem number_of_hex {c x : Char} {s : List Char} (h : isHex (c :: x :: s) = true) :
    number c (x :: s) =
      let n := run isHexOrBar s
      if startsWith isLongSuffix (s.drop n) then (.longLit, n + 2) else (.intLit, n + 1) := by
  obtain ⟨⟨hc, hx⟩, hs⟩ := isHex_iff.1 h
  rw [number, if_pos ⟨hc, hx, hs⟩]
  dsimp only
  rw [Nat.add_comm 1, List.drop_succ_cons]

theorem number_of_decimal {c : Char} {s : List Char} (h : isHex (c :: s) = false) : number c s = decimal s := by
  cases s with
  | nil => rfl
  | cons x s =>
    rw [number, if_neg]
    rintro ⟨hc, hx, hs⟩
    rw [isHex_iff.2 ⟨⟨hc, hx⟩, hs⟩] at h
    cases h

/-- A number has only characters that a number may have. -/
theorem number_le_run (c : Char) (s : List Char) : (number c s).2 ≤ run isNumeral s := by
  by_cases hx : isHex (c :: s) = true
  · cases s with
    | nil => cases hx
    | cons x s =>
      have hmark : isNumeral x = true := by
        rcases (isHex_iff.1 hx).1.2 with rfl | rfl <;> rfl
      have hrun : run isHexOrBar s ≤ run isNumeral s :=
        run_mono (fun hd => isNumeral_of_word (isWordRest_of_hexOrBar hd)) s
      rw [number_of_hex hx, run_cons, if_pos hmark]
      dsimp only
      split
      next hs =>
        have hsuffix : 1 ≤ run isNumeral (s.drop (run isHexOrBar s)) :=
          run_pos (fun hd => isNumeral_of_word (isWordRest_of_longSuffix hd)) hs
        rw [run_drop hrun]
        dsimp only
        omega
      next => exact Nat.succ_le_succ hrun
  · rw [number_of_decimal (Bool.eq_false_iff.2 hx)]
    exact decimal_le_run s

theorem isHex_append {c x : Char} (hw : 0 < w.length) : isHex (c :: x :: (w ++ r)) = isHex (c :: x :: w) := by
  rw [isHex, isHex, startsWith_append hw]

theorem isHex_of_append {c : Char} (h : isHex (c :: (w ++ r)) = false) : isHex (c :: w) = false := by
  cases w with
  | nil => rfl
  | cons x w =>
    cases w with
    | nil => simp [isHex, startsWith]
    | cons y w => exact h

theorem number_of_append {c : Char} {k : Kind} {n : Nat} (h : number c (w ++ r) = (k, n)) (hn : n ≤ w.length)
    (hpoint : k = .intLit → '.' ∉ w.take n) : number c w = (k, n) := by
  by_cases hx : isHex (c :: (w ++ r)) = true
  · cases w with
    | nil =>
      cases r with
      | nil => cases hx
      | cons x r =>
        rw [List.nil_append, number_of_hex hx] at h
        dsimp only at h
        split at h
        all_goals
          have := (Prod.mk.inj h).2
          simp only [List.length_nil] at hn
          omega
    | cons x w =>
      rw [List.cons_append] at h hx
      have hdigit : run isHexOrBar (w ++ r) ≠ 0 := fun hz => by
        rw [run_eq_zero, (isHex_iff.1 hx).2] at hz
        cases hz
      rw [number_of_hex hx] at h
      dsimp only at h
      have hle : run isHexOrBar (w ++ r) + 1 ≤ n := by
        split at h
        all_goals
          have := (Prod.mk.inj h).2
          omega
      rw [List.length_cons] at hn
      rw [isHex_append (by omega)] at hx
      have hrun : run isHexOrBar w = run isHexOrBar (w ++ r) := run_of_append (by omega)
      rw [List.drop_append_of_le_length (by omega)] at h
      rw [number_of_hex hx, hrun]
      dsimp only
      split at h
      next hs =>
        have := (Prod.mk.inj h).2
        rw [startsWith_append (by rw [List.length_drop]; omega)] at hs
        rw [if_pos hs, h]
      next hs =>
        rw [if_neg (Bool.eq_false_iff.1 (startsWith_of_append (Bool.eq_false_iff.2 hs))), h]
  · have hx := Bool.eq_false_iff.2 hx
    rw [number_of_decimal hx] at h
    rw [number_of_decimal (isHex_of_append hx)]
    exact decimal_of_append h hn hpoint

/-- A mark that no hexadecimal digit follows is no part of the number. -/
theorem decimal_of_mark {x : Char} (h : x = 'x' ∨ x = 'X') (s : List Char) : decimal (x :: s) = (.intLit, 0) := by
  rcases h with rfl | rfl <;> rfl

/-- A decimal integer may not be followed by a point. -/
theorem number_append {c : Char} {k : Kind} (hr : Ends r) (h : number c w = (k, w.length))
    (hpoint : k = .intLit → isHex (c :: w) = false → startsWith (· = '.') r = false) :
    number c (w ++ r) = (k, w.length) := by
  by_cases hx : isHex (c :: w) = true
  · cases w with
    | nil => cases hx
    | cons x w =>
      have hpos : 0 < w.length := pos_of_startsWith (isHex_iff.1 hx).2
      have hrun : run isHexOrBar (w ++ r) = run isHexOrBar w :=
        run_append fun _ => hr.startsWith isWordRest_of_hexOrBar
      have hle : run isHexOrBar w ≤ w.length := run_le _ w
      rw [number_of_hex hx] at h
      rw [List.cons_append, number_of_hex (by rw [isHex_append hpos, hx])]
      dsimp only at h ⊢
      rw [hrun, List.drop_append_of_le_length hle]
      split at h
      next hs => rw [startsWith_append (pos_of_startsWith hs), if_pos hs, h]
      next =>
        have hend : w.drop (run isHexOrBar w) = [] := by
          have := (Prod.mk.inj h).2
          rw [List.length_cons] at this
          rw [List.drop_eq_nil_iff]
          omega
        rw [hend, List.nil_append, hr.startsWith isWordRest_of_longSuffix, ← h]
        rfl
  · have hx := Bool.eq_false_iff.2 hx
    rw [number_of_decimal hx] at h
    have hxr : isHex (c :: (w ++ r)) = false := by
      cases w with
      | nil =>
        refine Bool.eq_false_iff.2 fun hr' => ?_
        cases r with
        | nil => cases hr'
        | cons x r =>
          have hword : isWordRest x = false := hr x rfl
          rcases (isHex_iff.1 hr').1.2 with rfl | rfl <;> cases hword
      | cons x w =>
        cases w with
        | nil =>
          refine Bool.eq_false_iff.2 fun hr' => ?_
          rw [decimal_of_mark (isHex_iff.1 hr').1.2] at h
          cases h
        | cons y w => exact hx
    rw [number_of_decimal hxr]
    exact decimal_append hr h fun hk => hpoint hk hx

end AnnotationExpr.Token
