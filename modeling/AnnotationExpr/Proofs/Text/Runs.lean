import Mathlib.Data.List.Infix
import Mathlib.Data.List.TakeWhile

/-! Runs of characters of one kind, and what follows them in a text. -/

namespace AnnotationExpr.Text

variable {p : Char → Bool} {run rest : List Char}

theorem head?_dropWhile (p : Char → Bool) (s : List Char) : ∀ c ∈ (s.dropWhile p).head?, p c = false := by
  intro c hc
  have := List.head?_dropWhile_not p s
  rw [Option.mem_def.1 hc] at this
  exact this

theorem takeWhile_append (hrun : ∀ d ∈ run, p d = true) (hrest : ∀ c ∈ rest.head?, p c = false) :
    (run ++ rest).takeWhile p = run := by
  rw [List.takeWhile_append_of_pos hrun]
  cases rest with
  | nil => simp
  | cons c rest => simp [hrest c rfl]

/-- What starts with a character of another kind does not start inside a run. -/
theorem suffix_of_append {c : Char} {w : List Char} (hc : p c = false) (hrun : ∀ d ∈ run, p d = true)
    (h : c :: w <:+ run ++ rest) : c :: w <:+ rest := by
  induction run with
  | nil => exact h
  | cons d run ih =>
    rw [List.forall_mem_cons] at hrun
    rcases List.suffix_cons_iff.1 h with h | h
    · rw [(List.cons.inj h).1, hrun.1] at hc
      cases hc
    · exact ih hrun.2 h

/-- As many characters of one kind as a text starts with, but no more than `n`. -/
structure RunUpTo (p : Char → Bool) (n : Nat) (run rest : List Char) : Prop where
  all : ∀ c ∈ run, p c = true
  length_le : run.length ≤ n
  maximal : run.length < n → ∀ c ∈ rest.head?, p c = false

theorem RunUpTo.takeWhile_take {n : Nat} (h : RunUpTo p n run rest) : ((run ++ rest).take n).takeWhile p = run := by
  rw [List.take_append, List.take_of_length_le h.length_le]
  refine takeWhile_append h.all fun c hc => ?_
  rw [List.head?_take] at hc
  split at hc
  next => cases hc
  next hpos => exact h.maximal (by omega) c hc

theorem runUpTo_takeWhile (p : Char → Bool) (n : Nat) (s : List Char) :
    RunUpTo p n ((s.take n).takeWhile p) (s.drop ((s.take n).takeWhile p).length) := by
  have hle : ((s.take n).takeWhile p).length ≤ (s.take n).length := (List.takeWhile_prefix p).length_le
  have hdrop : (s.take n).drop ((s.take n).takeWhile p).length = (s.take n).dropWhile p :=
    calc (s.take n).drop ((s.take n).takeWhile p).length
      _ = ((s.take n).takeWhile p ++ (s.take n).dropWhile p).drop ((s.take n).takeWhile p).length := by
        rw [List.takeWhile_append_dropWhile]
      _ = (s.take n).dropWhile p := List.drop_left
  rw [List.length_take] at hle
  refine ⟨fun c hc => List.mem_takeWhile_imp hc, by omega, fun hlt c hc => ?_⟩
  refine head?_dropWhile p (s.take n) c ?_
  rw [← hdrop, List.drop_take, List.head?_take, if_neg (by omega)]
  exact hc

end AnnotationExpr.Text
