import AnnotationExpr.Proofs.Token.Extent.Number

/-!
How far a literal between quotes goes. A string is a list of items up to the next quote, and a character literal is
one item with a quote after it, so neither depends on what comes after the closing quote.
-/

namespace AnnotationExpr.Token

open Text (isDigit)

variable {p : Char → Bool} {w r : List Char}

/-- What may stand between the quotes of a string literal. -/
inductive Items : List Char → Prop where
  | nil : Items []
  | plain {c : Char} {s : List Char} (hquote : c ≠ '"') (hline : c ≠ '\n') (hescape : c ≠ '\\') (h : Items s) :
      Items (c :: s)
  | escaped {c : Char} {s : List Char} (hline : c ≠ '\n') (h : Items s) : Items ('\\' :: c :: s)

theorem Items.stringItems {s : List Char} (h : Items s) (rest : List Char) :
    stringItems (s ++ '"' :: rest) = (s.length, true) := by
  induction h with
  | nil => rfl
  | plain hquote hline hescape _ ih =>
    rw [List.cons_append, Token.stringItems, ih]
    · rfl
    · exact hquote
    · exact hline
    · exact fun h => absurd h hescape
    · exact fun _ h => absurd h hescape
    · exact fun _ _ h => absurd h hescape
  | escaped hline _ ih =>
    rw [List.cons_append, List.cons_append, Token.stringItems, ih]
    · rfl
    · exact hline

theorem exists_items {s : List Char} {n : Nat} (h : stringItems s = (n, true)) :
    ∃ body rest, s = body ++ '"' :: rest ∧ Items body ∧ n = body.length := by
  fun_induction stringItems s generalizing n with
  | case2 rest =>
    cases h
    exact ⟨[], rest, rfl, .nil, rfl⟩
  | case6 c s hline m closed hs ih =>
    cases h
    obtain ⟨body, rest, rfl, hbody, rfl⟩ := ih hs
    exact ⟨'\\' :: c :: body, rest, rfl, .escaped hline hbody, rfl⟩
  | case7 c s hquote hline hend _ hitem m closed hs ih =>
    cases h
    obtain ⟨body, rest, rfl, hbody, rfl⟩ := ih hs
    have hescape : c ≠ '\\' := fun hc => by
      cases hs : body ++ '"' :: rest with
      | nil => exact hend hc hs
      | cons d s => exact hitem d s hc hs
    exact ⟨c :: body, rest, rfl, .plain hquote hline hescape hbody, rfl⟩
  | case1 | case3 | case4 | case5 => cases h

theorem stringItems_append {n : Nat} (h : stringItems w = (n, true)) : stringItems (w ++ r) = (n, true) := by
  obtain ⟨body, rest, rfl, hbody, rfl⟩ := exists_items h
  rw [List.append_assoc, List.cons_append, hbody.stringItems]

theorem stringItems_of_append {n : Nat} (h : stringItems (w ++ r) = (n, true)) (hn : n < w.length) :
    stringItems w = (n, true) := by
  obtain ⟨body, rest, hs, hbody, rfl⟩ := exists_items h
  rcases List.append_eq_append_iff.1 hs with ⟨t, rfl, -⟩ | ⟨t, rfl, ht⟩
  · rw [List.length_append] at hn
    omega
  · cases t with
    | nil =>
      rw [List.append_nil] at hn
      omega
    | cons c t =>
      obtain ⟨rfl, -⟩ := List.cons.inj ht
      exact hbody.stringItems t

theorem run_take {m : Nat} (h : run p (w.take m) < w.length ∨ run p ((w ++ r).take m) < w.length) :
    run p ((w ++ r).take m) = run p (w.take m) := by
  rw [List.take_append] at h ⊢
  rcases h with h | h
  · apply run_append
    intro hall
    rw [List.length_take] at hall
    have hm : m - w.length = 0 := by omega
    rw [hm, List.take_zero]
    rfl
  · refine (run_of_append ?_).symm
    have := run_le p (w.take m ++ r.take (m - w.length))
    rw [List.length_append, List.length_take, List.length_take] at this
    rw [List.length_take]
    omega

/-- One item of a character literal, of which something is left. -/
theorem charItem_append {n : Nat} (hn : n ≠ 0) (hlt : n < w.length) : charItem (w ++ r) = n ↔ charItem w = n := by
  obtain ⟨a, b, s, rfl⟩ : ∃ a b s, w = a :: b :: s := by
    match w, hlt with
    | [_], hlt => exact absurd (Nat.lt_one_iff.1 hlt) hn
    | a :: b :: s, _ => exact ⟨a, b, s, rfl⟩
  simp only [List.length_cons] at hlt
  by_cases ha : a = '\\'
  · subst ha
    simp only [List.cons_append, charItem]
    by_cases ho : isDigit 8 b = true
    · rw [if_pos ho, if_pos ho]
      constructor
      · intro h
        rw [← run_take (r := r) (.inr (by omega))]
        exact h
      · intro h
        rw [run_take (.inl (by omega))]
        exact h
    · rw [if_neg ho, if_neg ho]
      by_cases he : "btnfr'\"\\".toList.contains b = true
      · rw [if_pos he, if_pos he]
      · rw [if_neg he, if_neg he]
        by_cases hs : 4 ≤ s.length
        · rw [List.take_append_of_le_length hs]
        · have hu (t : List Char) : (if b = 'u' ∧ run (isDigit 16) (t.take 4) = 4 then 6 else 0) ≠ n := by
            split <;> omega
          exact iff_of_false (hu _) (hu _)
  · have hplain (s : List Char) : charItem (a :: s) =
        if a ≠ '\'' ∧ a ≠ '\\' ∧ a ≠ '\n' ∧ a.toNat < 128 then 1 else 0 := by
      rw [charItem]
      exact fun _ _ h => absurd h ha
    rw [List.cons_append, hplain, hplain]

end AnnotationExpr.Token
