import AnnotationExpr.Proofs.Token.Neighbours

/-!
The patterns of numbers. The scanner measures the parts of a number one after the other, and takes a whole text as a
number exactly if the text matches a pattern.
-/

namespace AnnotationExpr.Token

open Text (isDigit)

/-- A digit, and digits and bars after it. -/
inductive Digits : List Char → Prop where
  | cons {d : Char} {w : List Char} (hd : isDigit 10 d = true) (hw : ∀ c ∈ w, isDigitOrBar c = true) : Digits (d :: w)

/-- A mark, a sign or none, and digits. -/
inductive Exponent : List Char → Prop where
  | mark {m : Char} {sign ds : List Char} (hm : isMark m = true) (hsign : sign ∈ [[], ['+'], ['-']]) (hne : ds ≠ [])
      (hds : ∀ d ∈ ds, isDigit 10 d = true) : Exponent (m :: (sign ++ ds))

/-- An exponent or none, and the letter of a type or none. -/
inductive RealEnd : List Char → Prop where
  | parts {x f : List Char} (hx : x = [] ∨ Exponent x) (hf : f = [] ∨ ∃ d, f = [d] ∧ isRealSuffix d = true) :
      RealEnd (x ++ f)

/-- What ends an integer. -/
inductive IntegerEnd : Kind → List Char → Prop where
  | int : IntegerEnd .intLit []
  | long {l : Char} (hl : isLongSuffix l = true) : IntegerEnd .longLit [l]

/-- What ends a number that starts with decimal digits. -/
inductive DecimalEnd : Kind → List Char → Prop where
  | integer {k : Kind} {t : List Char} (h : IntegerEnd k t) : DecimalEnd k t
  | pointed {f e : List Char} (hf : f = [] ∨ Digits f) (he : RealEnd e) : DecimalEnd .doubleLit ('.' :: (f ++ e))
  | unpointed {e : List Char} (he : RealEnd e) (hne : e ≠ []) : DecimalEnd .doubleLit e

/-- The patterns of numbers that start with a digit. -/
inductive Numeral : Kind → List Char → Prop where
  | decimal {k : Kind} {w t : List Char} (hw : Digits w) (ht : DecimalEnd k t) : Numeral k (w ++ t)
  | hexadecimal {k : Kind} {x : Char} {w t : List Char} (hx : x = 'x' ∨ x = 'X') (hne : w ≠ [])
      (hw : ∀ c ∈ w, isHexOrBar c = true) (ht : IntegerEnd k t) : Numeral k ('0' :: x :: (w ++ t))

variable {p : Char → Bool} {c : Char} {s w t f e : List Char} {k : Kind} {n : Nat}

/-! Runs of a whole text. -/

theorem run_eq_length_iff : run p s = s.length ↔ ∀ c ∈ s, p c = true :=
  ⟨fun h c hc => mem_take_run (n := s.length) h.ge (by rwa [List.take_length]), run_eq_length⟩

theorem run_concat (hs : ∀ c ∈ s, p c = true) (hw : startsWith p w = false) : run p (s ++ w) = s.length := by
  rw [run_append fun _ => hw, run_eq_length hs]

theorem forall_mem_take_run (p : Char → Bool) (s : List Char) : ∀ c ∈ s.take (run p s), p c = true :=
  fun _ hc => mem_take_run (Nat.le_refl _) hc

theorem startsWith_drop_run (p : Char → Bool) (s : List Char) : startsWith p (s.drop (run p s)) = false := by
  by_cases h : s.drop (run p s) = []
  · rw [h]
    rfl
  · exact drop_run h

theorem eq_singleton_of_startsWith (hs : startsWith p s = true) (hlength : s.length = 1) :
    ∃ c, s = [c] ∧ p c = true := by
  obtain ⟨c, r, rfl, hc⟩ := exists_cons_of_startsWith hs
  obtain rfl : r = [] := List.length_eq_zero_iff.1 (Nat.succ.inj hlength)
  exact ⟨c, rfl, hc⟩

/-! Fractions. -/

theorem Digits.ne_nil (h : Digits w) : w ≠ [] := by
  cases h
  exact List.cons_ne_nil _ _

theorem Digits.forall_mem (h : Digits w) : ∀ c ∈ w, isDigitOrBar c = true := by
  cases h with
  | cons hd hw => exact List.forall_mem_cons.2 ⟨isDigitOrBar_of_digit hd, hw⟩

theorem fraction_concat (hf : f = [] ∨ Digits f) (he : startsWith isDigitOrBar e = false) :
    fraction (f ++ e) = f.length := by
  rcases hf with rfl | hf
  · refine if_neg fun hd => ?_
    obtain ⟨d, r, hr, hd⟩ := exists_cons_of_startsWith hd
    rw [List.nil_append] at hr
    rw [hr, startsWith, isDigitOrBar_of_digit hd] at he
    cases he
  · have hrun := run_concat hf.forall_mem he
    cases hf with
    | @cons d w hd _ =>
      have hstart : startsWith (isDigit 10) (d :: w ++ e) = true := hd
      rwa [fraction, if_pos hstart]

theorem digits_take_fraction (s : List Char) : s.take (fraction s) = [] ∨ Digits (s.take (fraction s)) := by
  unfold fraction
  split
  next hs =>
    obtain ⟨d, r, rfl, hd⟩ := exists_cons_of_startsWith hs
    refine .inr ?_
    have hmem := forall_mem_take_run isDigitOrBar (d :: r)
    rw [run_cons, if_pos (isDigitOrBar_of_digit hd), List.take_succ_cons] at hmem ⊢
    exact .cons hd (List.forall_mem_cons.1 hmem).2
  next => exact .inl rfl

/-! The ends of real numbers. -/

theorem signLength_concat {sign ds : List Char} (hsign : sign ∈ [[], ['+'], ['-']]) (hne : ds ≠ [])
    (hds : ∀ d ∈ ds, isDigit 10 d = true) : signLength (sign ++ ds) = sign.length := by
  simp only [List.mem_cons, List.not_mem_nil, or_false] at hsign
  rcases hsign with rfl | rfl | rfl
  · obtain ⟨d, ds, rfl⟩ := List.exists_cons_of_ne_nil hne
    refine if_neg fun hd => ?_
    have hdigit := (List.forall_mem_cons.1 hds).1
    simp only [List.nil_append, startsWith, Bool.or_eq_true, decide_eq_true_eq] at hd
    rcases hd with rfl | rfl <;> cases hdigit
  · rfl
  · rfl

theorem take_signLength (s : List Char) : s.take (signLength s) ∈ [[], ['+'], ['-']] := by
  unfold signLength
  split
  next hs =>
    obtain ⟨d, r, rfl, hd⟩ := exists_cons_of_startsWith hs
    simp only [Bool.or_eq_true, decide_eq_true_eq] at hd
    rcases hd with rfl | rfl <;> simp
  next => simp

theorem Exponent.append (h : Exponent e) (hw : startsWith (isDigit 10) w = false) : exponent (e ++ w) = e.length := by
  cases h with
  | @mark m sign ds hm hsign hne hds =>
    have hsign' : signLength (sign ++ (ds ++ w)) = sign.length := by
      rw [← List.append_assoc, signLength_append, signLength_concat hsign hne hds]
      exact List.length_pos_iff.2 fun h => hne (List.append_eq_nil_iff.1 h).2
    have hrun : run (isDigit 10) ((sign ++ (ds ++ w)).drop sign.length) = ds.length := by
      rw [List.drop_left, run_concat hds hw]
    rw [List.cons_append, List.append_assoc, exponent_of_mark hm, hsign', hrun,
      if_neg fun h => hne (List.length_eq_zero_iff.1 h), List.length_cons, List.length_append]
    omega

theorem exponent_take_exponent (s : List Char) : s.take (exponent s) = [] ∨ Exponent (s.take (exponent s)) := by
  cases s with
  | nil => exact .inl rfl
  | cons m s =>
    by_cases hm : isMark m = true
    · rw [exponent_of_mark hm]
      split
      next => exact .inl rfl
      next hrun =>
        refine .inr ?_
        rw [Nat.add_assoc, Nat.add_comm 1, List.take_succ_cons, List.take_add]
        refine .mark hm (take_signLength s) ?_ (forall_mem_take_run _ _)
        rw [take_run]
        exact fun h => hrun (List.length_eq_zero_iff.2 h)
    · left
      rw [exponent_of_not_mark (s := m :: s) (Bool.eq_false_iff.2 hm)]
      rfl

theorem isMark_iff : isMark c = true ↔ c = 'e' ∨ c = 'E' := by
  simp only [isMark, Bool.or_eq_true, decide_eq_true_eq]

theorem isRealSuffix_iff : isRealSuffix c = true ↔ c = 'd' ∨ c = 'D' ∨ c = 'f' ∨ c = 'F' := by
  simp only [isRealSuffix, Bool.or_eq_true, decide_eq_true_eq, or_assoc]

theorem isLongSuffix_iff : isLongSuffix c = true ↔ c = 'l' ∨ c = 'L' := by
  simp only [isLongSuffix, Bool.or_eq_true, decide_eq_true_eq]

/-- The end of a real number starts with the mark of an exponent or with the letter of a type. -/
theorem RealEnd.startsWith (h : RealEnd e)
    (hp : ∀ {c}, c = 'e' ∨ c = 'E' ∨ c = 'd' ∨ c = 'D' ∨ c = 'f' ∨ c = 'F' → p c = false) :
    startsWith p e = false := by
  obtain ⟨hx, hf⟩ := h
  rcases hx with rfl | hx
  · rcases hf with rfl | ⟨d, rfl, hd⟩
    · rfl
    · exact hp (.inr (.inr (isRealSuffix_iff.1 hd)))
  · cases hx with
    | mark hm => exact hp ((isMark_iff.1 hm).imp_right .inl)

theorem RealEnd.startsWith_digitOrBar (h : RealEnd e) : Token.startsWith isDigitOrBar e = false :=
  h.startsWith fun hc => by rcases hc with rfl | rfl | rfl | rfl | rfl | rfl <;> rfl

theorem realEnd_iff : RealEnd e ↔ realTail e = e.length := by
  constructor
  · rintro ⟨hx, hf⟩
    rename_i x f
    have hdigit : Token.startsWith (isDigit 10) f = false ∧ Token.startsWith isMark f = false := by
      rcases hf with rfl | ⟨d, rfl, hd⟩
      · exact ⟨rfl, rfl⟩
      · rcases isRealSuffix_iff.1 hd with rfl | rfl | rfl | rfl <;> exact ⟨rfl, rfl⟩
    have he : exponent (x ++ f) = x.length := by
      rcases hx with rfl | hx
      · exact exponent_of_not_mark hdigit.2
      · exact hx.append hdigit.1
    rw [realTail_eq, he, List.drop_left, List.length_append]
    rcases hf with rfl | ⟨d, rfl, hd⟩
    · rfl
    · exact if_pos hd
  · intro h
    rw [realTail_eq] at h
    rw [← List.take_append_drop (exponent e) e]
    refine .parts (exponent_take_exponent e) ?_
    split at h
    next hs =>
      refine .inr (eq_singleton_of_startsWith hs ?_)
      rw [List.length_drop]
      omega
    next => exact .inl (List.drop_eq_nil_iff.2 h.ge)

/-! Numbers. -/

theorem afterPoint_eq_length_iff :
    afterPoint s = (k, s.length) ↔ k = .doubleLit ∧ ∃ f e, s = f ++ e ∧ (f = [] ∨ Digits f) ∧ RealEnd e := by
  constructor
  · intro h
    rcases kind_afterPoint s with hk | hk
    · have hs : s = [] := by
        have hzero := afterPoint_eq_int hk
        rw [h] at hzero
        exact List.length_eq_zero_iff.1 hzero
      subst hs
      cases hk
    · rw [h] at hk
      obtain rfl : k = .doubleLit := hk
      have hlength := (afterPoint_eq_double h).2
      refine ⟨rfl, _, _, (List.take_append_drop (fraction s) s).symm, digits_take_fraction s, realEnd_iff.2 ?_⟩
      rw [List.length_drop]
      omega
  · rintro ⟨rfl, f, e, rfl, hf, he⟩
    have hfraction : fraction (f ++ e) = f.length := fraction_concat hf he.startsWith_digitOrBar
    rw [afterPoint_of_complete, hfraction, List.drop_left, realEnd_iff.1 he, List.length_append]
    intro hz hm
    rw [hfraction] at hz
    rw [List.length_eq_zero_iff.1 hz, List.nil_append] at hm ⊢
    exact exponent_ne_zero (realEnd_iff.1 he) hm

theorem IntegerEnd.startsWith (h : IntegerEnd k t) (hp : ∀ {c}, c = 'l' ∨ c = 'L' → p c = false) :
    startsWith p t = false := by
  cases h with
  | int => rfl
  | long hl => exact hp (isLongSuffix_iff.1 hl)

theorem DecimalEnd.startsWith (h : DecimalEnd k t) : startsWith isDigitOrBar t = false := by
  cases h with
  | integer h => exact h.startsWith fun hc => by rcases hc with rfl | rfl <;> rfl
  | pointed => rfl
  | unpointed he => exact he.startsWith_digitOrBar

theorem decimal_eq_length_iff (hw : ∀ c ∈ w, isDigitOrBar c = true) (ht : startsWith isDigitOrBar t = false) :
    decimal (w ++ t) = (k, (w ++ t).length) ↔ DecimalEnd k t := by
  rw [decimal_eq]
  dsimp only
  rw [run_concat hw ht, List.drop_left, List.length_append]
  constructor
  · intro h
    split at h
    next hs =>
      obtain ⟨rfl, hlength⟩ := Prod.mk.inj h
      obtain ⟨l, rfl, hl⟩ := eq_singleton_of_startsWith hs (by omega)
      exact .integer (.long hl)
    next =>
      split at h
      next hp =>
        obtain ⟨d, u, rfl, hd⟩ := exists_cons_of_startsWith hp
        obtain rfl : d = '.' := of_decide_eq_true hd
        rw [List.tail_cons, List.length_cons] at h
        obtain ⟨hk, hlength⟩ := Prod.mk.inj h
        obtain ⟨rfl, f, e, rfl, hf, he⟩ := afterPoint_eq_length_iff.1 (Prod.ext hk (by omega))
        exact .pointed hf he
      next =>
        split at h
        next =>
          obtain ⟨rfl, hlength⟩ := Prod.mk.inj h
          obtain rfl : t = [] := List.length_eq_zero_iff.1 (by omega)
          exact .integer .int
        next hne =>
          obtain ⟨rfl, hlength⟩ := Prod.mk.inj h
          refine .unpointed (realEnd_iff.2 (by omega)) ?_
          rintro rfl
          exact hne rfl
  · intro h
    cases h with
    | integer h =>
      cases h with
      | int => rfl
      | long hl => exact if_pos hl
    | @pointed f e hf he =>
      have hlong : Token.startsWith isLongSuffix ('.' :: (f ++ e)) = false := rfl
      have hpoint : Token.startsWith (· = '.') ('.' :: (f ++ e)) = true := rfl
      have hafter := afterPoint_eq_length_iff.2 ⟨rfl, f, e, rfl, hf, he⟩
      rw [if_neg (Bool.eq_false_iff.1 hlong), if_pos hpoint, List.tail_cons, hafter, List.length_cons]
      exact Prod.ext rfl (by dsimp only; omega)
    | unpointed he hne =>
      have hlong : Token.startsWith isLongSuffix t = false :=
        he.startsWith fun hc => by rcases hc with rfl | rfl | rfl | rfl | rfl | rfl <;> rfl
      have hpoint : Token.startsWith (· = '.') t = false :=
        he.startsWith fun hc => by rcases hc with rfl | rfl | rfl | rfl | rfl | rfl <;> rfl
      rw [if_neg (Bool.eq_false_iff.1 hlong), if_neg (Bool.eq_false_iff.1 hpoint), realEnd_iff.1 he,
        if_neg fun h => hne (List.length_eq_zero_iff.1 h)]

theorem integerEnd_iff :
    IntegerEnd k t ↔ (if startsWith isLongSuffix t then (Kind.longLit, 1) else (.intLit, 0)) = (k, t.length) := by
  constructor
  · intro h
    cases h with
    | int => rfl
    | long hl => exact if_pos hl
  · intro h
    split at h
    next hs =>
      obtain ⟨rfl, hlength⟩ := Prod.mk.inj h
      obtain ⟨l, rfl, hl⟩ := eq_singleton_of_startsWith hs hlength.symm
      exact .long hl
    next =>
      obtain ⟨rfl, hlength⟩ := Prod.mk.inj h
      obtain rfl : t = [] := List.length_eq_zero_iff.1 hlength.symm
      exact .int

/-- The mark of a hexadecimal number is no part of a decimal one. -/
theorem not_isHex (h : (decimal s).2 = 0 → s = []) : isHex (c :: s) = false := by
  refine Bool.eq_false_iff.2 fun hx => ?_
  cases s with
  | nil => cases hx
  | cons x s => cases h (by rw [decimal_of_mark (isHex_iff.1 hx).1.2])

theorem Numeral.isDigit (h : Numeral k (c :: w)) : isDigit 10 c = true := by
  generalize htext : c :: w = text at h
  cases h with
  | decimal hw =>
    cases hw with
    | cons hd =>
      rw [(List.cons.inj htext).1]
      exact hd
  | hexadecimal =>
    rw [(List.cons.inj htext).1]
    rfl

/-- A text is one number exactly if it has the pattern of one. -/
theorem number_eq_length_iff (hc : isDigit 10 c = true) : number c w = (k, w.length) ↔ Numeral k (c :: w) := by
  constructor
  · intro h
    by_cases hx : isHex (c :: w) = true
    · obtain ⟨x, s, rfl⟩ : ∃ x s, w = x :: s := List.exists_cons_of_ne_nil fun h => by rw [h] at hx; cases hx
      obtain ⟨⟨rfl, hmark⟩, hs⟩ := isHex_iff.1 hx
      rw [number_of_hex hx] at h
      dsimp only at h
      rw [← List.take_append_drop (run isHexOrBar s) s]
      refine .hexadecimal hmark ?_ (forall_mem_take_run _ s) (integerEnd_iff.2 ?_)
      · have hpos : 1 ≤ run isHexOrBar s := run_pos id hs
        rw [← List.length_pos_iff, List.length_take_of_le (run_le _ s)]
        exact hpos
      · rw [List.length_cons] at h
        rw [List.length_drop]
        split at h
        next hl =>
          obtain ⟨rfl, hlength⟩ := Prod.mk.inj h
          rw [if_pos hl]
          exact Prod.ext rfl (by dsimp only; omega)
        next hl =>
          obtain ⟨rfl, hlength⟩ := Prod.mk.inj h
          rw [if_neg hl]
          exact Prod.ext rfl (by dsimp only; omega)
    · rw [number_of_decimal (Bool.eq_false_iff.2 hx), ← List.take_append_drop (run isDigitOrBar w) w] at h
      have hend := (decimal_eq_length_iff (forall_mem_take_run _ w) (startsWith_drop_run _ w)).1 h
      have hnumeral := Numeral.decimal (.cons hc (forall_mem_take_run _ w)) hend
      rwa [List.cons_append, List.take_append_drop] at hnumeral
  · intro h
    generalize htext : c :: w = text at h
    cases h with
    | @decimal _ t hw ht =>
      cases hw with
      | @cons d w hd hw =>
        rw [List.cons_append] at htext
        obtain ⟨rfl, rfl⟩ := List.cons.inj htext
        have hdecimal := (decimal_eq_length_iff hw ht.startsWith).2 ht
        rw [number_of_decimal (not_isHex ?_), hdecimal]
        rw [hdecimal]
        exact List.length_eq_zero_iff.1
    | @hexadecimal x w t hx hne hw ht =>
      obtain ⟨rfl, rfl⟩ := List.cons.inj htext
      have hhex : isHex ('0' :: x :: (w ++ t)) = true := by
        obtain ⟨d, w, rfl⟩ := List.exists_cons_of_ne_nil hne
        exact isHex_iff.2 ⟨⟨rfl, hx⟩, (List.forall_mem_cons.1 hw).1⟩
      have hend : startsWith isHexOrBar t = false :=
        ht.startsWith fun hc => by rcases hc with rfl | rfl <;> rfl
      rw [number_of_hex hhex]
      dsimp only
      rw [run_concat hw hend, List.drop_left, List.length_cons, List.length_append]
      cases ht with
      | int => rfl
      | long hl => exact if_pos hl

end AnnotationExpr.Token
