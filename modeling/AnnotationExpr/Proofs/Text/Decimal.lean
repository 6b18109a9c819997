import AnnotationExpr.Text.Digits

/-! How a number is written in decimal, and read again: only digits, and no zero in front but that of zero itself. -/

namespace AnnotationExpr.Text

theorem digit?_of_isDigit {c : Char} (h : c.isDigit = true) : digit? 10 c = some (c.toNat - '0'.toNat) := by
  simp only [Char.isDigit, Bool.and_eq_true, decide_eq_true_eq] at h
  have hrange : '0' ≤ c ∧ c ≤ '9' := h
  have hle : c.toNat ≤ '9'.toNat := h.2
  have hlt : c.toNat - '0'.toNat < 10 := Nat.lt_of_le_of_lt (Nat.sub_le_sub_right hle _) (by decide)
  rw [digit?, if_pos hrange]
  exact if_pos hlt

theorem value_eq_ofDigitChars {s : List Char} (h : ∀ c ∈ s, c.isDigit = true) :
    value 10 s = Nat.ofDigitChars 10 s 0 := by
  have hfold (n : Nat) :
      s.foldl (fun m c => m * 10 + (digit? 10 c).getD 0) n = Nat.ofDigitChars 10 s n := by
    induction s generalizing n with
    | nil => rfl
    | cons c s ih =>
      obtain ⟨hc, hs⟩ := List.forall_mem_cons.1 h
      rw [List.foldl_cons, ih hs, digit?_of_isDigit hc, Option.getD_some, Nat.ofDigitChars_cons, Nat.mul_comm]
  exact hfold 0

theorem isDigit_of_mem_toDigits {n : Nat} {c : Char} (h : c ∈ Nat.toDigits 10 n) : isDigit 10 c = true := by
  rw [isDigit, digit?_of_isDigit (Nat.isDigit_of_mem_toDigits (by decide) (by decide) h)]
  rfl

theorem value_toDigits (n : Nat) : value 10 (Nat.toDigits 10 n) = n := by
  rw [value_eq_ofDigitChars fun _ => Nat.isDigit_of_mem_toDigits (by decide) (by decide),
    Nat.ofDigitChars_toDigits (by decide) (by decide)]

/-- Digits without a zero in front denote no zero. -/
theorem value_pos {d : Char} {s : List Char} (hd : isDigit 10 d = true) (hzero : d ≠ '0') : 0 < value 10 (d :: s) := by
  have hgrows (s : List Char) : ∀ n, n ≤ s.foldl (fun n c => n * 10 + (digit? 10 c).getD 0) n := by
    induction s with
    | nil => exact fun n => Nat.le_refl n
    | cons c s ih =>
      intro n
      have hstep : n ≤ n * 10 + (digit? 10 c).getD 0 := by omega
      exact Nat.le_trans hstep (ih _)
  have hrange := isDigit_ten.1 hd
  have hle : '0'.toNat ≤ d.toNat := hrange.1
  have hne : '0'.toNat ≠ d.toNat := fun h => hzero (Char.toNat_inj.1 h.symm)
  have hdigit : digit? 10 d = some (d.toNat - '0'.toNat) :=
    digit?_of_isDigit (Bool.and_eq_true_iff.2 ⟨decide_eq_true hrange.1, decide_eq_true hrange.2⟩)
  have hfirst : 0 < 0 * 10 + (digit? 10 d).getD 0 := by
    rw [hdigit, Option.getD_some]
    omega
  exact Nat.lt_of_lt_of_le hfirst (hgrows s _)

/-- A zero in front is all there is. -/
theorem toDigits_of_zero {n : Nat} {s : List Char} (h : Nat.toDigits 10 n = '0' :: s) : s = [] := by
  induction n using Nat.strongRecOn generalizing s with
  | ind n ih =>
    rw [Nat.toDigits_eq_if (by decide)] at h
    split at h
    next => exact (List.cons.inj h).2.symm
    next hn =>
      obtain ⟨c, t, ht⟩ := List.exists_cons_of_ne_nil (@Nat.toDigits_ne_nil (n / 10) 10)
      rw [ht, List.cons_append] at h
      obtain ⟨rfl, -⟩ := List.cons.inj h
      -- the digits before the last one would be a zero alone, but a zero has none before it
      have hnil := ih (n / 10) (by omega) ht
      have hvalue := value_toDigits (n / 10)
      rw [ht, hnil] at hvalue
      have hzero : n / 10 = 0 := hvalue.symm
      omega

theorem head?_toDigits_ne_zero {n : Nat} (h : 0 < n) : (Nat.toDigits 10 n).head? ≠ some '0' := by
  intro hzero
  obtain ⟨s, hs⟩ := List.head?_eq_some_iff.1 hzero
  have hvalue := value_toDigits n
  rw [hs, toDigits_of_zero hs] at hvalue
  have hn : n = 0 := hvalue.symm
  omega

end AnnotationExpr.Text
