import AnnotationExpr.Proofs.Token.Scans

/-!
What comes right after a token in a text. A token takes all that goes on with it, except a number before letters, and
a punctuation mark starts with no character of a word.
-/

namespace AnnotationExpr.Token

open Text (isDigit)

/-- The kinds of operators, brackets and other signs that are no words. -/
def Kind.isPunct : Kind → Bool
  | andAnd | orOr | eqEq | notEq | ltEq | gtEq | plus | minus | star | slash | percent | bang | lt | gt
  | dot | comma | lparen | rparen | lbracket | rbracket => .true
  | _ => .false

/-- The kinds of tokens that are no words and no numbers. -/
def Kind.isSymbol : Kind → Bool
  | this | super | null | true | false | «class» | ident | longLit | intLit | doubleLit => .false
  | _ => .true

theorem isSymbol_of_isPunct {k : Kind} (h : k.isPunct = true) : k.isSymbol = true := by
  cases k <;> first | rfl | cases h

theorem isSymbol_ofWord (word : List Char) : (Kind.ofWord word).isSymbol = false := by
  unfold Kind.ofWord
  repeat' split
  all_goals rfl

/-- One of two neighbours is a sign. -/
def Separate (t u : Token) : Prop := t.kind.isPunct = true ∨ u.kind.isPunct = true

variable {c : Char} {w s : List Char} {k : Kind} {n : Nat}

theorem symbol_of_pick (h : pick c s = .ok (k, n)) (hk : k.isSymbol = true) :
    isWordRest c = false ∧ symbol c s = .ok (k, n) := by
  unfold pick at h
  split at h
  next =>
    obtain ⟨rfl, -⟩ := Prod.mk.inj (Except.ok.inj h)
    rw [isSymbol_ofWord] at hk
    cases hk
  next hc =>
    split at h
    next =>
      have hnumber := kind_number c s
      rw [Except.ok.inj h] at hnumber
      rcases hnumber with rfl | rfl | rfl <;> cases hk
    next hd =>
      refine ⟨?_, h⟩
      rw [isWordRest, Bool.eq_false_iff.2 hc, Bool.eq_false_iff.2 hd]
      rfl

/-- Before a sign, and at the end, there is neither a character of a word nor the mark of a parameter. -/
theorem Scans.head {o : Nat} {ts : List Token} (h : Scans o s ts) (hts : ∀ t ∈ ts.head?, t.kind.isPunct = true) :
    ∀ d ∈ s.head?, isWordRest d = false ∧ d ≠ '#' := by
  cases h with
  | nil => nofun
  | space hc _ =>
    rintro d ⟨⟩
    exact head_of_space hc
  | @token _ _ w s k _ hc hp _ =>
    rintro d ⟨⟩
    have hk : k.isPunct = true := hts _ rfl
    obtain ⟨hword, hsymbol⟩ := symbol_of_pick hp (isSymbol_of_isPunct hk)
    refine ⟨hword, ?_⟩
    rintro rfl
    have hkind : k = .paramRef := by
      rw [symbol] at hsymbol
      split at hsymbol
      · cases hsymbol
      · exact (Prod.mk.inj (Except.ok.inj hsymbol)).1.symm
    rw [hkind] at hk
    cases hk

/-- What is no word and no number takes all that goes on with it. -/
theorem apart_of_pick (h : pick c (w ++ s) = .ok (k, w.length)) (hk : k.isSymbol = true) :
    Apart k (c :: w) s := by
  have hsymbol := (symbol_of_pick h hk).2
  have none (hjoins : ∀ d, joins k (c :: w) d = false) : Apart k (c :: w) s := fun d _ => hjoins d
  have single {second : Char} {two one : Kind} (hd : doubled second two one (w ++ s) = (k, w.length))
      (htwo : ∀ lexeme d, joins two lexeme d = false) (hone : ∀ lexeme d, joins one lexeme d = decide (d = second)) :
      Apart k (c :: w) s := by
    unfold doubled at hd
    split at hd
    next =>
      obtain ⟨rfl, -⟩ := Prod.mk.inj hd
      exact none fun d => htwo _ d
    next hs =>
      obtain ⟨rfl, hlen⟩ := Prod.mk.inj hd
      rw [List.length_eq_zero_iff.1 hlen.symm, List.nil_append] at hs
      intro d hmem
      rw [hone]
      exact head?_of_startsWith (Bool.eq_false_iff.2 hs) d hmem
  unfold symbol at hsymbol
  split at hsymbol
  case h_1 =>
    split at hsymbol
    · cases hsymbol
    next =>
      obtain ⟨rfl, hrun⟩ := Prod.mk.inj (Except.ok.inj hsymbol)
      by_cases hs : s = []
      · subst hs
        exact nofun
      · have hdrop : (w ++ s).drop (run (isDigit 10) (w ++ s)) = s := by rw [hrun, List.drop_left]
        have hstart : startsWith (isDigit 10) ((w ++ s).drop (run (isDigit 10) (w ++ s))) = false :=
          drop_run (by rwa [hdrop])
        rw [hdrop] at hstart
        exact head?_of_startsWith hstart
  case h_4 =>
    change symbol '.' (w ++ s) = _ at hsymbol
    rw [symbol_point] at hsymbol
    split at hsymbol
    next hz =>
      obtain ⟨rfl, hlen⟩ := Prod.mk.inj (Except.ok.inj hsymbol)
      rw [List.length_eq_zero_iff.1 hlen.symm, List.nil_append, fraction] at hz
      split at hz
      next hs =>
        have hpos : 1 ≤ run isDigitOrBar s := run_pos isDigitOrBar_of_digit hs
        omega
      next hs => exact head?_of_startsWith (Bool.eq_false_iff.2 hs)
    next =>
      obtain ⟨rfl, -⟩ := Prod.mk.inj (Except.ok.inj hsymbol)
      cases hk
  case h_8 | h_9 | h_10 => exact single (Except.ok.inj hsymbol) (fun _ _ => rfl) fun _ _ => rfl
  case h_2 =>
    split at hsymbol
    · obtain ⟨rfl, -⟩ := Prod.mk.inj (Except.ok.inj hsymbol)
      exact none fun _ => rfl
    · cases hsymbol
  case h_3 =>
    dsimp only at hsymbol
    split at hsymbol
    · obtain ⟨rfl, -⟩ := Prod.mk.inj (Except.ok.inj hsymbol)
      exact none fun _ => rfl
    · cases hsymbol
  case h_5 | h_6 | h_7 =>
    split at hsymbol
    · obtain ⟨rfl, -⟩ := Prod.mk.inj (Except.ok.inj hsymbol)
      exact none fun _ => rfl
    · cases hsymbol
  case h_21 => cases hsymbol
  all_goals
    obtain ⟨rfl, -⟩ := Prod.mk.inj (Except.ok.inj hsymbol)
    exact none fun _ => rfl

theorem kind_symbol (h : symbol c s = .ok (k, n)) (hstring : c ≠ '"') : k ≠ .intLit ∧ k ≠ .stringLit := by
  have hdoubled {second : Char} {two one : Kind} (h : doubled second two one s = (k, n))
      (htwo : two ≠ .intLit ∧ two ≠ .stringLit) (hone : one ≠ .intLit ∧ one ≠ .stringLit) :
      k ≠ .intLit ∧ k ≠ .stringLit := by
    have hkind := kind_doubled second two one s
    rw [h] at hkind
    rcases hkind with rfl | rfl
    · exact htwo
    · exact hone
  unfold symbol at h
  split at h
  case h_2 => exact absurd rfl hstring
  case h_3 =>
    dsimp only at h
    split at h
    · cases h
      exact ⟨nofun, nofun⟩
    · cases h
  case h_8 | h_9 | h_10 => exact hdoubled (Except.ok.inj h) ⟨nofun, nofun⟩ ⟨nofun, nofun⟩
  case h_1 | h_4 | h_5 | h_6 | h_7 =>
    split at h
    all_goals first
      | cases h; exact ⟨nofun, nofun⟩
      | cases h
  case h_21 => cases h
  all_goals
    cases h
    exact ⟨nofun, nofun⟩

theorem symbol_quote (s : List Char) :
    symbol '"' s = if (stringItems s).2 then .ok (.stringLit, (stringItems s).1 + 1) else .error (stringItems s).1 := by
  rw [symbol]
  split
  next hs => rw [hs]; rfl
  next hs => rw [hs]; rfl

/-- A string is its items with a closing quote after them. -/
theorem exists_items_of_pick (h : pick c (w ++ s) = .ok (.stringLit, w.length)) :
    c = '"' ∧ ∃ body, w = body ++ ['"'] ∧ Items body := by
  obtain ⟨-, hsymbol⟩ := symbol_of_pick h rfl
  obtain rfl : c = '"' := by
    by_contra hc
    exact (kind_symbol hsymbol hc).2 rfl
  rw [symbol_quote] at hsymbol
  split at hsymbol
  next hclosed =>
    obtain ⟨body, rest, hs, hbody, hn⟩ := @exists_items (w ++ s) _ (Prod.ext rfl hclosed)
    have hlen := (Prod.mk.inj (Except.ok.inj hsymbol)).2
    have hs : w ++ s = (body ++ ['"']) ++ rest := by simpa using hs
    refine ⟨rfl, body, (List.append_inj hs ?_).1, hbody⟩
    rw [List.length_append, List.length_singleton, ← hlen]
    exact congrArg Nat.succ hn
  next => cases hsymbol

/-- An integer literal is a number, and starts with a digit. -/
theorem number_of_pick (h : pick c s = .ok (.intLit, n)) : isDigit 10 c = true ∧ number c s = (.intLit, n) := by
  unfold pick at h
  split at h
  next =>
    have hjoins := joins_ofWord (c :: s.take (run isWordRest s)) [] '.'
    rw [(Prod.mk.inj (Except.ok.inj h)).1] at hjoins
    cases hjoins
  next =>
    split at h
    next hc => exact ⟨hc, Except.ok.inj h⟩
    next =>
      by_cases hc : c = '"'
      · subst hc
        rw [symbol_quote] at h
        split at h <;> cases h
      · exact absurd rfl (kind_symbol h hc).1

/-- Only a hexadecimal integer has a point right after it. -/
theorem isHex_of_point (h : pick c (w ++ s) = .ok (.intLit, w.length)) (hw : '.' ∉ w)
    (hs : startsWith (· = '.') s = true) : isHex (c :: w) = true := by
  have hnumber : number c (w ++ s) = (.intLit, w.length) := (number_of_pick h).2
  by_contra hx
  -- a point is neither the mark of a hexadecimal number nor its digit
  have hx : isHex (c :: (w ++ s)) = false := by
    refine Bool.eq_false_iff.2 fun hx' => ?_
    obtain ⟨d, t, rfl, hd⟩ := exists_cons_of_startsWith hs
    obtain rfl : d = '.' := of_decide_eq_true hd
    match w with
    | [] => rcases (isHex_iff.1 hx').1.2 with hp | hp <;> revert hp <;> decide
    | [x] =>
      have hp : isHexOrBar '.' = true := (isHex_iff.1 hx').2
      revert hp
      decide
    | x :: y :: w => exact hx hx'
  rw [number_of_decimal hx, decimal_eq] at hnumber
  dsimp only at hnumber
  split at hnumber
  next => cases hnumber
  next =>
    split at hnumber
    next hp =>
      obtain ⟨d, t, ht, hd⟩ := exists_cons_of_startsWith hp
      obtain rfl : d = '.' := of_decide_eq_true hd
      have hmem : '.' ∈ (w ++ s).take w.length :=
        mem_take_of_drop ht (by have := (Prod.mk.inj hnumber).2; omega)
      rw [List.take_left] at hmem
      exact hw hmem
    next hp =>
      split at hnumber
      next =>
        rw [(Prod.mk.inj hnumber).2, List.drop_left] at hp
        exact hp hs
      next => cases hnumber

theorem afterPoint_eq_int (h : (afterPoint s).1 = .intLit) : (afterPoint s).2 = 0 := by
  unfold afterPoint at h ⊢
  dsimp only at h ⊢
  split
  next => rfl
  next hc =>
    rw [if_neg hc] at h
    cases h

theorem decimal_point (h : decimal s = (.intLit, n)) (hp : '.' ∈ s.take n) :
    ∃ w u, s = w ++ '.' :: u ∧ n = w.length + 1 ∧ (∀ d ∈ w, isDigitOrBar d = true) ∧ (afterPoint u).1 = .intLit := by
  rw [decimal_eq] at h
  dsimp only at h
  split at h
  next => cases h
  next =>
    split at h
    next hs =>
      obtain ⟨d, u, hu, hd⟩ := exists_cons_of_startsWith hs
      obtain rfl : d = '.' := of_decide_eq_true hd
      rw [hu, List.tail_cons] at h
      obtain ⟨hk, hlength⟩ := Prod.mk.inj h
      rw [afterPoint_eq_int hk] at hlength
      refine ⟨s.take (run isDigitOrBar s), u, ?_, ?_, fun _ hd => mem_take_run (Nat.le_refl _) hd, hk⟩
      · rw [← hu, List.take_append_drop]
      · rw [List.length_take_of_le (run_le _ s), ← hlength]
    next =>
      split at h
      -- no digit is a point
      next => exact absurd (mem_take_run (Nat.le_of_eq (Prod.mk.inj h).2.symm) hp) (by decide)
      next => cases h

/-- A point in an integer literal is its last character, with digits and bars before it. -/
theorem point_of_pick (h : pick c s = .ok (.intLit, n)) (hp : '.' ∈ c :: s.take n) :
    isDigit 10 c = true ∧
      ∃ w u, s = w ++ '.' :: u ∧ n = w.length + 1 ∧ (∀ d ∈ w, isDigitOrBar d = true) ∧ (afterPoint u).1 = .intLit := by
  obtain ⟨hc, hnumber⟩ := number_of_pick h
  have hp : '.' ∈ s.take n := by
    refine (List.mem_cons.1 hp).resolve_left ?_
    rintro rfl
    cases hc
  refine ⟨hc, ?_⟩
  by_cases hx : isHex (c :: s) = true
  · -- neither is the mark of a hexadecimal number, nor one of its digits
    cases s with
    | nil => cases hx
    | cons x s =>
      rw [number_of_hex hx] at hnumber
      dsimp only at hnumber
      split at hnumber
      next => cases hnumber
      next =>
        obtain ⟨-, rfl⟩ := Prod.mk.inj hnumber
        rw [List.take_succ_cons] at hp
        rcases List.mem_cons.1 hp with rfl | hp
        · rcases (isHex_iff.1 hx).1.2 with hmark | hmark <;> exact absurd hmark (by decide)
        · exact absurd (mem_take_run (Nat.le_refl _) hp) (by decide)
  · rw [number_of_decimal (Bool.eq_false_iff.2 hx)] at hnumber
    exact decimal_point hnumber hp

end AnnotationExpr.Token
