import AnnotationExpr.Literal.Reading
import Mathlib.Data.List.Basic

/-! Which characters an integer with a value may have. -/

namespace AnnotationExpr

theorem Text.number?_eq_some {radix n : Nat} {s : List Char} :
    number? radix s = some n ↔ s ≠ [] ∧ (∀ c ∈ s, isDigit radix c = true) ∧ n = value radix s := by
  have hguard : (s.isEmpty || !s.all (isDigit radix)) = false ↔ s ≠ [] ∧ ∀ c ∈ s, isDigit radix c = true := by
    rw [Bool.or_eq_false_iff, Bool.not_eq_false', List.all_eq_true, List.isEmpty_eq_false_iff]
  unfold number?
  split
  next h =>
    refine iff_of_false nofun ?_
    rintro ⟨hne, hall, -⟩
    rw [hguard.2 ⟨hne, hall⟩] at h
    cases h
  next h =>
    obtain ⟨hne, hall⟩ := hguard.1 (Bool.eq_false_iff.2 h)
    rw [Option.some.injEq]
    exact ⟨fun hn => ⟨hne, hall, hn.symm⟩, fun hn => hn.2.2.symm⟩

namespace Literal

theorem radix_cases (s : List Char) :
    (radixAndDigits s).1 = 8 ∨ (radixAndDigits s).1 = 10 ∨ (radixAndDigits s).1 = 16 := by
  unfold radixAndDigits
  split <;> simp

theorem mem_radixAndDigits {c : Char} {s : List Char} (hzero : c ≠ '0') (hx : c ≠ 'x') (hX : c ≠ 'X') (h : c ∈ s) :
    c ∈ (radixAndDigits s).2 := by
  unfold radixAndDigits
  split
  case h_4 => exact h
  all_goals
    simp only [List.mem_cons] at h ⊢
    tauto

theorem integer?_eq_some {bits n : Nat} {lexeme : List Char} :
    integer? bits lexeme = some n ↔
      Text.number? (radixAndDigits (dropBars lexeme)).1 (radixAndDigits (dropBars lexeme)).2 = some n ∧
        n < if (radixAndDigits (dropBars lexeme)).1 = 10 then Nat.pow 2 (bits - 1) else Nat.pow 2 bits := by
  simp only [integer?, Option.filter_eq_some_iff, decide_eq_true_eq]

/-- An integer with a value has no point in it. -/
theorem point_notMem {bits n : Nat} {lexeme : List Char} (h : integer? bits lexeme = some n) : '.' ∉ lexeme := by
  intro hmem
  have hdigits : '.' ∈ (radixAndDigits (dropBars lexeme)).2 := by
    refine mem_radixAndDigits (by decide) (by decide) (by decide) ?_
    rw [dropBars, List.mem_filter]
    exact ⟨hmem, by decide⟩
  have hpoint := (Text.number?_eq_some.1 (integer?_eq_some.1 h).1).2.1 '.' hdigits
  rcases radix_cases (dropBars lexeme) with hr | hr | hr <;> rw [hr] at hpoint <;> revert hpoint <;> decide

end Literal
end AnnotationExpr
