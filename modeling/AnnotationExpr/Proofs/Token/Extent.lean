import AnnotationExpr.Proofs.Token.Extent.Quoted

/-!
How far a token goes. The scanner decides by the characters of the token and at most a few after it. So a token is
cut the same from a text that ends with it or later, and from any text in which it is followed by a character that
cannot go on with it.
-/

namespace AnnotationExpr.Token

open Text (isDigit)

variable {p : Char → Bool} {w r : List Char}

/-- The character may go on with the token if it comes right after it. -/
def joins (kind : Kind) (lexeme : List Char) (d : Char) : Bool :=
  match kind with
  | .this | .super | .null | .true | .false | .class | .ident | .longLit | .doubleLit => isWordRest d
  | .intLit => isWordRest d || (d = '.' && !isHex lexeme)
  | .paramRef | .dot => isDigit 10 d
  | .bang | .lt | .gt => d = '='
  | _ => false

/-- Nothing that goes on with the token comes after it. -/
def Apart (kind : Kind) (lexeme r : List Char) : Prop := ∀ d ∈ r.head?, joins kind lexeme d = false

theorem Apart.startsWith {k : Kind} {lexeme : List Char} (h : Apart k lexeme r)
    (hp : ∀ {d}, p d = true → joins k lexeme d = true) : startsWith p r = false := by
  cases r with
  | nil => rfl
  | cons d r =>
    refine Bool.eq_false_iff.2 fun hd => ?_
    have hjoins := h d rfl
    rw [hp hd] at hjoins
    cases hjoins

theorem joins_ofWord (word lexeme : List Char) (d : Char) : joins (.ofWord word) lexeme d = isWordRest d := by
  unfold Kind.ofWord
  repeat' split
  all_goals rfl

theorem doubled_append {second : Char} {two one k : Kind} (h : doubled second two one w = (k, w.length))
    (hr : k = one → startsWith (· = second) r = false) : doubled second two one (w ++ r) = (k, w.length) := by
  cases w with
  | nil =>
    obtain ⟨rfl, -⟩ := Prod.mk.inj h
    rw [List.nil_append, doubled, hr rfl]
    rfl
  | cons c w =>
    rw [doubled, startsWith_append (by simp)]
    exact h

theorem doubled_of_append {second : Char} {two one k : Kind} {n : Nat}
    (h : doubled second two one (w ++ r) = (k, n)) (hn : n ≤ w.length) : doubled second two one w = (k, n) := by
  cases w with
  | nil =>
    unfold doubled at h
    split at h
    next =>
      have := (Prod.mk.inj h).2
      simp only [List.length_nil] at hn
      omega
    next => exact h
  | cons c w =>
    rw [doubled, startsWith_append (by simp)] at h
    exact h

/-- A point alone, or a real number that starts with its point. -/
theorem symbol_point (s : List Char) :
    symbol '.' s = .ok (if fraction s = 0 then (.dot, 0) else
      (.doubleLit, fraction s + realTail (s.drop (fraction s)))) := by
  rw [symbol]
  split
  next hz => rw [if_pos hz]
  next hz => rw [if_neg hz]

theorem symbol_append {c : Char} {k : Kind} (h : symbol c w = .ok (k, w.length)) (hr : Apart k (c :: w) r) :
    symbol c (w ++ r) = .ok (k, w.length) := by
  -- the tokens of two equal characters, which nothing can go on with
  have twice {second : Char} (hs : startsWith (· = second) w = true) : startsWith (· = second) (w ++ r) = true := by
    rw [startsWith_append (pos_of_startsWith hs), hs]
  unfold symbol at h
  split at h
  case h_1 =>
    split at h
    · cases h
    next hn =>
      obtain ⟨rfl, hrun⟩ := Prod.mk.inj (Except.ok.inj h)
      have hdigit : startsWith (isDigit 10) r = false := hr.startsWith id
      rw [symbol, run_append fun _ => hdigit, hrun]
      split
      next hz => exact absurd (hrun.trans hz) hn
      next => rfl
  case h_2 =>
    split at h
    next n hs =>
      obtain ⟨rfl, hlen⟩ := Prod.mk.inj (Except.ok.inj h)
      rw [symbol, stringItems_append hs, ← hlen]
    · cases h
  case h_3 =>
    dsimp only at h
    split at h
    next hc =>
      obtain ⟨rfl, hlen⟩ := Prod.mk.inj (Except.ok.inj h)
      have hitem : charItem (w ++ r) = charItem w := (charItem_append hc.1 (by omega)).2 rfl
      rw [symbol, hitem, List.drop_append_of_le_length (by omega), startsWith_append (pos_of_startsWith hc.2),
        if_pos hc, hlen]
    · cases h
  case h_4 =>
    change symbol '.' w = _ at h
    rw [symbol_point] at h
    rw [symbol_point]
    split at h
    next hz =>
      obtain ⟨rfl, hlen⟩ := Prod.mk.inj (Except.ok.inj h)
      have hdigit : startsWith (isDigit 10) r = false := hr.startsWith id
      have hz : fraction (w ++ r) = 0 := by
        rw [List.length_eq_zero_iff.1 hlen.symm, List.nil_append, fraction, hdigit]
        rfl
      rw [if_pos hz, ← hlen]
    next hz =>
      obtain ⟨rfl, hlen⟩ := Prod.mk.inj (Except.ok.inj h)
      have hends : Ends r := hr
      have ht : realTail (w.drop (fraction w)) = (w.drop (fraction w)).length := by
        rw [List.length_drop]
        omega
      rw [fraction_append hends, if_neg hz, List.drop_append_of_le_length (fraction_le w), realTail_append hends ht,
        ← ht, hlen]
  case h_8 | h_9 | h_10 =>
    refine congrArg Except.ok (doubled_append (Except.ok.inj h) ?_)
    rintro rfl
    exact hr.startsWith id
  case h_5 | h_6 | h_7 =>
    split at h
    next hs =>
      rw [← h]
      exact if_pos (twice hs)
    · cases h
  all_goals first
    | exact h
    | cases h

theorem symbol_of_append {c : Char} {k : Kind} {n : Nat} (h : symbol c (w ++ r) = .ok (k, n)) (hn : n ≤ w.length) :
    symbol c w = .ok (k, n) := by
  have twice {second : Char} (hw : 1 ≤ w.length) (hs : startsWith (· = second) (w ++ r) = true) :
      startsWith (· = second) w = true := by
    rwa [startsWith_append hw] at hs
  unfold symbol at h
  split at h
  case h_1 =>
    split at h
    · cases h
    next hz =>
      obtain ⟨rfl, rfl⟩ := Prod.mk.inj (Except.ok.inj h)
      rw [symbol, run_of_append hn]
      split
      next hz' => exact absurd hz' hz
      next => rfl
  case h_2 =>
    split at h
    next m hs =>
      obtain ⟨rfl, rfl⟩ := Prod.mk.inj (Except.ok.inj h)
      rw [symbol, stringItems_of_append hs hn]
    · cases h
  case h_3 =>
    dsimp only at h
    split at h
    next hc =>
      obtain ⟨rfl, rfl⟩ := Prod.mk.inj (Except.ok.inj h)
      have hitem : charItem w = charItem (w ++ r) := (charItem_append hc.1 (by omega)).1 rfl
      rw [List.drop_append_of_le_length (by omega), startsWith_append (by rw [List.length_drop]; omega)] at hc
      rw [symbol, hitem, if_pos hc]
    · cases h
  case h_4 =>
    change symbol '.' (w ++ r) = _ at h
    rw [symbol_point] at h
    rw [symbol_point]
    split at h
    next hz =>
      have hf : fraction w = 0 := by rw [@fraction_of_append w r (by omega), hz]
      rw [if_pos hf, ← h]
    next hz =>
      obtain ⟨rfl, rfl⟩ := Prod.mk.inj (Except.ok.inj h)
      have hf : fraction w = fraction (w ++ r) := fraction_of_append (by omega)
      rw [List.drop_append_of_le_length (by omega)] at hn ⊢
      rw [hf, if_neg hz, realTail_of_append]
      rw [List.length_drop]
      omega
  case h_8 | h_9 | h_10 => exact congrArg Except.ok (doubled_of_append (Except.ok.inj h) hn)
  case h_5 | h_6 | h_7 =>
    split at h
    next hs =>
      obtain ⟨-, rfl⟩ := Prod.mk.inj (Except.ok.inj h)
      rw [← h]
      exact if_pos (twice hn hs)
    · cases h
  all_goals first
    | exact h
    | cases h

theorem symbol_le {c : Char} {s : List Char} {k : Kind} {n : Nat} (h : symbol c s = .ok (k, n)) : n ≤ s.length := by
  have doubled_le {second : Char} {two one : Kind} (h : doubled second two one s = (k, n)) : n ≤ s.length := by
    unfold doubled at h
    split at h
    next hs =>
      cases h
      exact pos_of_startsWith hs
    next =>
      cases h
      exact Nat.zero_le _
  unfold symbol at h
  split at h
  case h_1 =>
    split at h
    · cases h
    · cases h
      exact run_le _ s
  case h_2 =>
    split at h
    next m hs =>
      cases h
      obtain ⟨body, rest, rfl, -, rfl⟩ := exists_items hs
      simp
    · cases h
  case h_3 =>
    dsimp only at h
    split at h
    next hc =>
      cases h
      have hpos := pos_of_startsWith hc.2
      rw [List.length_drop] at hpos
      omega
    · cases h
  case h_4 =>
    change symbol '.' s = _ at h
    rw [symbol_point] at h
    split at h
    · cases h
      exact Nat.zero_le _
    · cases h
      exact Nat.le_trans (fraction_add_le_run s) (run_le _ s)
  case h_5 | h_6 | h_7 =>
    split at h
    next hs =>
      cases h
      exact pos_of_startsWith hs
    · cases h
  case h_8 | h_9 | h_10 => exact doubled_le (Except.ok.inj h)
  all_goals first
    | cases h; exact Nat.zero_le _
    | cases h

/-- A token takes no more than there is. -/
theorem pick_le {c : Char} {s : List Char} {k : Kind} {n : Nat} (h : pick c s = .ok (k, n)) : n ≤ s.length := by
  unfold pick at h
  split at h
  · cases h
    exact run_le _ s
  · split at h
    · have hle := number_le_run c s
      rw [Except.ok.inj h] at hle
      exact Nat.le_trans hle (run_le _ s)
    · exact symbol_le h

/-- A token stays the same if the text ends with it or later. -/
theorem pick_of_append {c : Char} {k : Kind} {n : Nat} (h : pick c (w ++ r) = .ok (k, n)) (hn : n ≤ w.length)
    (hpoint : k = .intLit → '.' ∉ w.take n) : pick c w = .ok (k, n) := by
  unfold pick at h ⊢
  split
  next hc =>
    rw [if_pos hc] at h
    obtain ⟨rfl, rfl⟩ := Prod.mk.inj (Except.ok.inj h)
    rw [run_of_append hn, List.take_append_of_le_length hn]
  next hc =>
    rw [if_neg hc] at h
    split
    next hd =>
      rw [if_pos hd] at h
      rw [number_of_append (Except.ok.inj h) hn hpoint]
    next hd =>
      rw [if_neg hd] at h
      exact symbol_of_append h hn

/-- A token at the end of a text stays the same if something comes after it that does not go on with it. -/
theorem pick_append {c : Char} {k : Kind} (h : pick c w = .ok (k, w.length)) (hr : Apart k (c :: w) r) :
    pick c (w ++ r) = .ok (k, w.length) := by
  unfold pick at h ⊢
  split
  next hc =>
    rw [if_pos hc] at h
    obtain ⟨rfl, hlen⟩ := Prod.mk.inj (Except.ok.inj h)
    have hends : startsWith isWordRest r = false := hr.startsWith fun hd => by rw [joins_ofWord, hd]
    dsimp only
    rw [run_append fun _ => hends, hlen, List.take_left, List.take_length]
  next hc =>
    rw [if_neg hc] at h
    split
    next hd =>
      rw [if_pos hd] at h
      have hends : Ends r := by
        intro d hrd
        have hjoins := hr d hrd
        have hk := kind_number c w
        rw [Except.ok.inj h] at hk
        rcases hk with rfl | rfl | rfl
        · exact (Bool.or_eq_false_iff.1 hjoins).1
        · exact hjoins
        · exact hjoins
      refine congrArg Except.ok (number_append hends (Except.ok.inj h) ?_)
      rintro rfl hx
      refine hr.startsWith fun hd => ?_
      rw [joins, hx, hd]
      simp
    next hd =>
      rw [if_neg hd] at h
      exact symbol_append h hr

/-- A word with nothing after it that goes on with it is one token. -/
theorem pick_word {c : Char} (hc : isWordStart c = true) (hw : ∀ d ∈ w, isWordRest d = true) (hr : Ends r) :
    pick c (w ++ r) = .ok (.ofWord (c :: w), w.length) := by
  have hrun : run isWordRest (w ++ r) = w.length := by
    rw [run, Text.takeWhile_append hw hr]
  unfold pick
  rw [if_pos hc]
  dsimp only
  rw [hrun, List.take_left]

end AnnotationExpr.Token
