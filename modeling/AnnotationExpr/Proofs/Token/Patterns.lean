import AnnotationExpr.Proofs.Token.Patterns.Number

/-!
The patterns of tokens. A text is one token exactly if it has the pattern of that kind, and a token is the longest part
of the text from its start on that has any pattern. Only a number with a point before an incomplete exponent is taken
otherwise: it has the pattern of a real number, and ends as an integer.
-/

namespace AnnotationExpr.Token

open Text (isDigit)

/-- One plain character, or one that is escaped, beyond those of ASCII always by its number. -/
inductive CharItem : List Char → Prop where
  | plain {c : Char} (hquote : c ≠ '\'') (hescape : c ≠ '\\') (hline : c ≠ '\n') (hascii : c.toNat < 128) :
      CharItem [c]
  | letter {c : Char} (hc : c ∈ "btnfr'\"\\".toList) : CharItem ['\\', c]
  | octal {d : Char} {ds : List Char} (hd : isDigit 8 d = true) (hds : ∀ d ∈ ds, isDigit 8 d = true)
      (hlength : ds.length ≤ 2) : CharItem ('\\' :: d :: ds)
  | point {ds : List Char} (hds : ∀ d ∈ ds, isDigit 16 d = true) (hlength : ds.length = 4) :
      CharItem ('\\' :: 'u' :: ds)

/-- How signs are written. -/
def signs : List (Kind × Char × List Char) :=
  [(.andAnd, '&', ['&']), (.orOr, '|', ['|']), (.eqEq, '=', ['=']), (.notEq, '!', ['=']), (.ltEq, '<', ['=']),
    (.gtEq, '>', ['=']), (.plus, '+', []), (.minus, '-', []), (.star, '*', []), (.slash, '/', []), (.percent, '%', []),
    (.bang, '!', []), (.lt, '<', []), (.gt, '>', []), (.dot, '.', []), (.comma, ',', []), (.lparen, '(', []),
    (.rparen, ')', []), (.lbracket, '[', []), (.rbracket, ']', [])]

/-- The patterns of tokens that are no words and start with no digit. -/
inductive SymbolPattern : Kind → Char → List Char → Prop where
  | sign {k : Kind} {c : Char} {w : List Char} (h : (k, c, w) ∈ signs) : SymbolPattern k c w
  | paramRef {w : List Char} (hne : w ≠ []) (hw : ∀ d ∈ w, isDigit 10 d = true) : SymbolPattern .paramRef '#' w
  | fraction {f e : List Char} (hf : Digits f) (he : RealEnd e) : SymbolPattern .doubleLit '.' (f ++ e)
  | string {w : List Char} (hw : Items w) : SymbolPattern .stringLit '"' (w ++ ['"'])
  | char {w : List Char} (hw : CharItem w) : SymbolPattern .charLit '\'' (w ++ ['\''])

/-- The patterns of tokens. A word that is no keyword is an identifier. -/
inductive Matches : Kind → List Char → Prop where
  | word {c : Char} {w : List Char} (hc : isWordStart c = true) (hw : ∀ d ∈ w, isWordRest d = true) :
      Matches (.ofWord (c :: w)) (c :: w)
  | number {k : Kind} {w : List Char} (h : Numeral k w) : Matches k w
  | symbol {k : Kind} {c : Char} {w : List Char} (h : SymbolPattern k c w) : Matches k (c :: w)

variable {p : Char → Bool} {c : Char} {s w r : List Char} {k : Kind} {n : Nat}

/-! Character literals. -/

theorem letters_eq : "btnfr'\"\\".toList = ['b', 't', 'n', 'f', 'r', '\'', '"', '\\'] := rfl

theorem not_isDigit_of_letter (h : c ∈ "btnfr'\"\\".toList) : isDigit 8 c = false := by
  simp only [letters_eq, List.mem_cons, List.not_mem_nil, or_false] at h
  rcases h with rfl | rfl | rfl | rfl | rfl | rfl | rfl | rfl <;> rfl

theorem CharItem.length_ne_zero (h : CharItem w) : w.length ≠ 0 := by
  cases h <;> exact Nat.succ_ne_zero _

theorem startsWith_take (h : startsWith p w = false) (n : Nat) : startsWith p (w.take n) = false := by
  cases n with
  | zero => rfl
  | succ n =>
    cases w with
    | nil => rfl
    | cons c w => exact h

theorem CharItem.charItem (h : CharItem w) : charItem (w ++ ['\'']) = w.length := by
  cases h with
  | plain hquote hescape hline hascii =>
    rw [List.singleton_append, Token.charItem]
    · exact if_pos ⟨hquote, hescape, hline, hascii⟩
    · exact fun _ _ h => absurd h hescape
  | @letter c hc =>
    rw [List.cons_append, List.singleton_append, Token.charItem, not_isDigit_of_letter hc, if_neg Bool.false_ne_true,
      if_pos (List.contains_iff_mem.2 hc)]
    rfl
  | @octal d ds hd hds hlength =>
    rw [List.cons_append, List.cons_append, Token.charItem, if_pos hd]
    have hrun : run (isDigit 8) ((ds ++ ['\'']).take 2) = ds.length := by
      rw [List.take_append, List.take_of_length_le hlength]
      exact run_concat hds (startsWith_take rfl _)
    rw [hrun, List.length_cons, List.length_cons, Nat.add_comm]
  | @point ds hds hlength =>
    have hrun : run (isDigit 16) ((ds ++ ['\'']).take 4) = 4 := by
      rw [List.take_append_of_le_length hlength.ge, ← hlength, List.take_length, run_eq_length hds]
    rw [List.cons_append, List.cons_append, Token.charItem, if_neg (by decide), if_neg (by rw [letters_eq]; decide),
      if_pos ⟨rfl, hrun⟩, List.length_cons, List.length_cons, hlength]

theorem charItem_take (h : charItem s ≠ 0) : CharItem (s.take (charItem s)) := by
  unfold charItem at h ⊢
  split at h
  next c s =>
    split
    next hd =>
      have hle : run (isDigit 8) (s.take 2) ≤ 2 := Nat.le_trans (run_le _ _) (List.length_take_le 2 s)
      have htake : s.take (run (isDigit 8) (s.take 2)) = (s.take 2).take (run (isDigit 8) (s.take 2)) := by
        rw [List.take_take, Nat.min_eq_left hle]
      have hdigits : ∀ d ∈ s.take (run (isDigit 8) (s.take 2)), isDigit 8 d = true := by
        rw [htake]
        exact forall_mem_take_run _ _
      rw [Nat.add_comm, List.take_succ_cons, List.take_succ_cons]
      exact .octal hd hdigits (Nat.le_trans (List.length_take_le _ s) hle)
    next hd =>
      split
      next hc => exact .letter (List.contains_iff_mem.1 hc)
      next hc =>
        rw [if_neg hd, if_neg hc] at h
        split at h
        next hu =>
          obtain ⟨rfl, hrun⟩ := hu
          have hlength : (s.take 4).length = 4 :=
            Nat.le_antisymm (List.length_take_le 4 s) (Nat.le_trans hrun.ge (run_le _ _))
          rw [if_pos ⟨rfl, hrun⟩]
          exact .point (run_eq_length_iff.1 (hrun.trans hlength.symm)) hlength
        next => exact absurd rfl h
  next c s hescape =>
    split at h
    next hc =>
      rw [if_pos hc]
      exact .plain hc.1 hc.2.1 hc.2.2.1 hc.2.2.2
    next => exact absurd rfl h
  next => exact absurd rfl h

/-! Whole texts. -/

theorem eq_of_startsWith_eq {second : Char} (hs : startsWith (· = second) w = true) (hlength : w.length = 1) :
    w = [second] := by
  obtain ⟨d, rfl, hd⟩ := eq_singleton_of_startsWith hs hlength
  rw [of_decide_eq_true hd]

theorem doubled_eq_length {second : Char} {two one : Kind} (h : doubled second two one w = (k, w.length)) :
    k = two ∧ w = [second] ∨ k = one ∧ w = [] := by
  unfold doubled at h
  split at h
  next hs =>
    obtain ⟨rfl, hlength⟩ := Prod.mk.inj h
    exact .inl ⟨rfl, eq_of_startsWith_eq hs hlength.symm⟩
  next =>
    obtain ⟨rfl, hlength⟩ := Prod.mk.inj h
    exact .inr ⟨rfl, List.length_eq_zero_iff.1 hlength.symm⟩

theorem pattern_of_symbol (h : symbol c w = .ok (k, w.length)) : SymbolPattern k c w := by
  unfold symbol at h
  split at h
  case h_1 =>
    split at h
    · cases h
    next hn =>
      obtain ⟨rfl, hrun⟩ := Prod.mk.inj (Except.ok.inj h)
      refine .paramRef ?_ (run_eq_length_iff.1 hrun)
      rintro rfl
      exact hn rfl
  case h_2 =>
    split at h
    next n hs =>
      obtain ⟨rfl, hlength⟩ := Prod.mk.inj (Except.ok.inj h)
      obtain ⟨body, rest, rfl, hbody, rfl⟩ := exists_items hs
      obtain rfl : rest = [] := by
        rw [List.length_append, List.length_cons] at hlength
        exact List.length_eq_zero_iff.1 (by omega)
      exact .string hbody
    · cases h
  case h_3 =>
    dsimp only at h
    split at h
    next hc =>
      obtain ⟨rfl, hlength⟩ := Prod.mk.inj (Except.ok.inj h)
      have hquote : w.drop (charItem w) = ['\''] :=
        eq_of_startsWith_eq hc.2 (by rw [List.length_drop]; omega)
      have hitem := charItem_take hc.1
      rw [← List.take_append_drop (charItem w) w, hquote]
      exact .char hitem
    · cases h
  case h_4 =>
    change symbol '.' w = _ at h
    rw [symbol_point] at h
    split at h
    next =>
      obtain ⟨rfl, hlength⟩ := Prod.mk.inj (Except.ok.inj h)
      obtain rfl : w = [] := List.length_eq_zero_iff.1 hlength.symm
      exact .sign (by simp [signs])
    next hn =>
      obtain ⟨rfl, hlength⟩ := Prod.mk.inj (Except.ok.inj h)
      rw [← List.take_append_drop (fraction w) w]
      refine .fraction ((digits_take_fraction w).resolve_left fun h => hn ?_) (realEnd_iff.2 ?_)
      · rw [← List.length_take_of_le (fraction_le w), h]
        rfl
      · rw [List.length_drop]
        omega
  case h_8 | h_9 | h_10 =>
    rcases doubled_eq_length (Except.ok.inj h) with ⟨rfl, rfl⟩ | ⟨rfl, rfl⟩
    all_goals exact .sign (by simp [signs])
  case h_5 | h_6 | h_7 =>
    split at h
    next hs =>
      obtain ⟨rfl, hlength⟩ := Prod.mk.inj (Except.ok.inj h)
      rw [eq_of_startsWith_eq hs hlength.symm]
      exact .sign (by simp [signs])
    · cases h
  case h_21 => cases h
  all_goals
    obtain ⟨rfl, hlength⟩ := Prod.mk.inj (Except.ok.inj h)
    obtain rfl : w = [] := List.length_eq_zero_iff.1 hlength.symm
    exact .sign (by simp [signs])

theorem symbol_of_sign : ∀ t ∈ signs, symbol t.2.1 t.2.2 = .ok (t.1, t.2.2.length) := by
  decide

theorem SymbolPattern.symbol (h : SymbolPattern k c w) : symbol c w = .ok (k, w.length) := by
  cases h with
  | sign h => exact symbol_of_sign _ h
  | paramRef hne hw =>
    rw [Token.symbol, run_eq_length hw]
    split
    next hlength => exact absurd (List.length_eq_zero_iff.1 hlength) hne
    next => rfl
  | @fraction f e hf he =>
    have hfraction : Token.fraction (f ++ e) = f.length :=
      fraction_concat (.inr hf) he.startsWith_digitOrBar
    have hne : f.length ≠ 0 := fun h => hf.ne_nil (List.length_eq_zero_iff.1 h)
    rw [symbol_point, hfraction, if_neg hne, List.drop_left, realEnd_iff.1 he, List.length_append]
  | string hw =>
    rw [symbol_quote, hw.stringItems, List.length_append]
    rfl
  | @char w hw =>
    rw [Token.symbol, hw.charItem, List.drop_left, List.length_append]
    exact if_pos ⟨hw.length_ne_zero, rfl⟩

theorem first_of_sign : ∀ t ∈ signs, isWordRest t.2.1 = false ∧ isSpace t.2.1 = false := by
  decide

theorem SymbolPattern.first (h : SymbolPattern k c w) : isWordRest c = false ∧ isSpace c = false := by
  cases h with
  | sign h => exact first_of_sign _ h
  | _ => exact ⟨rfl, rfl⟩

/-- A text is one token exactly if it has a pattern, and then it is of the kind of that pattern. -/
theorem pick_eq_length_iff : pick c w = .ok (k, w.length) ↔ Matches k (c :: w) := by
  constructor
  · intro h
    unfold pick at h
    split at h
    next hc =>
      obtain ⟨hk, hrun⟩ := Prod.mk.inj (Except.ok.inj h)
      rw [hrun, List.take_length] at hk
      subst hk
      exact .word hc (run_eq_length_iff.1 hrun)
    next =>
      split at h
      next hd => exact .number ((number_eq_length_iff hd).1 (Except.ok.inj h))
      next => exact .symbol (pattern_of_symbol h)
  · intro h
    cases h with
    | word hc hw => simpa using pick_word hc hw ends_nil
    | number h =>
      have hd : isDigit 10 c = true := h.isDigit
      unfold pick
      rw [not_isWordStart_of_digit hd, if_neg Bool.false_ne_true, if_pos hd, (number_eq_length_iff hd).2 h]
    | symbol h =>
      obtain ⟨hstart, hd⟩ := Bool.or_eq_false_iff.1 h.first.1
      unfold pick
      rw [hstart, hd, if_neg Bool.false_ne_true, if_neg Bool.false_ne_true, h.symbol]

/-! Longest matches. -/

/-- Digits with a point, before the mark of an exponent that is not complete. -/
inductive Unfinished : List Char → Prop where
  | point {m : Char} {w r : List Char} (hw : Digits w) (hm : isMark m = true) (he : exponent (m :: r) = 0) :
      Unfinished (w ++ '.' :: m :: r)

theorem Unfinished.isDigit (h : Unfinished (c :: s)) : isDigit 10 c = true := by
  generalize htext : c :: s = text at h
  obtain ⟨hw, -, -⟩ := h
  cases hw with
  | cons hd =>
    rw [(List.cons.inj htext).1]
    exact hd

theorem unfinished_of_pick (h : pick c s = .ok (.intLit, n)) (hp : '.' ∈ s.take n) : Unfinished (c :: s) := by
  obtain ⟨hc, w, u, rfl, -, hw, hk⟩ := point_of_pick h (List.mem_cons_of_mem _ hp)
  have hincomplete : ¬ (fraction u = 0 → startsWith isMark u = true → exponent u ≠ 0) := fun hcomplete => by
    rw [afterPoint_of_complete hcomplete] at hk
    cases hk
  push Not at hincomplete
  obtain ⟨-, hm, he⟩ := hincomplete
  obtain ⟨m, r, rfl, hm⟩ := exists_cons_of_startsWith hm
  exact .point (.cons hc hw) hm he

/-- The number ends with its point. -/
theorem pick_unfinished {m : Char} (hw : Digits (c :: w)) (hm : isMark m = true) (he : exponent (m :: r) = 0) :
    pick c (w ++ '.' :: m :: r) = .ok (.intLit, w.length + 1) := by
  obtain ⟨hc, hw⟩ := hw
  have hafter : afterPoint (m :: r) = (.intLit, 0) := by
    refine afterPoint_of_incomplete (if_neg ?_) hm he
    rcases isMark_iff.1 hm with rfl | rfl <;> exact Bool.false_ne_true
  have hlong : startsWith isLongSuffix ('.' :: m :: r) = false := rfl
  have hpoint : startsWith (· = '.') ('.' :: m :: r) = true := rfl
  have hdecimal : decimal (w ++ '.' :: m :: r) = (.intLit, w.length + 1) := by
    rw [decimal_eq]
    dsimp only
    rw [run_concat hw rfl, List.drop_left, if_neg (Bool.eq_false_iff.1 hlong), if_pos hpoint, List.tail_cons, hafter]
    rfl
  have hx : isHex (c :: (w ++ '.' :: m :: r)) = false := not_isHex fun hz => by
    rw [hdecimal] at hz
    cases hz
  unfold pick
  rw [not_isWordStart_of_digit hc, if_neg Bool.false_ne_true, if_pos hc, number_of_decimal hx, hdecimal]

theorem SymbolPattern.exists_symbol_append (h : SymbolPattern k c w) (r : List Char) :
    ∃ t, Token.symbol c (w ++ r) = .ok t := by
  cases h with
  | sign h =>
    simp only [signs, List.mem_cons, List.not_mem_nil, or_false, Prod.mk.injEq] at h
    rcases h with h | h | h | h | h | h | h | h | h | h | h | h | h | h | h | h | h | h | h | h
    all_goals
      obtain ⟨-, rfl, rfl⟩ := h
      first
        | exact ⟨_, rfl⟩
        | exact ⟨_, symbol_point _⟩
  | @paramRef w hne hw =>
    have hpos : 0 < w.length := List.length_pos_iff.2 hne
    rw [Token.symbol]
    split
    next hrun =>
      rw [run_eq_zero, startsWith_append hpos, ← run_eq_zero, run_eq_length hw] at hrun
      exact absurd hrun hpos.ne'
    next => exact ⟨_, rfl⟩
  | fraction => exact ⟨_, symbol_point _⟩
  | string hw =>
    rw [List.append_assoc, List.singleton_append, symbol_quote, hw.stringItems]
    exact ⟨_, rfl⟩
  | @char w hw =>
    have hitem : Token.charItem (w ++ ['\''] ++ r) = w.length :=
      (charItem_append hw.length_ne_zero (by simp)).2 hw.charItem
    rw [Token.symbol, hitem, List.append_assoc, List.drop_left]
    exact ⟨_, if_pos ⟨hw.length_ne_zero, rfl⟩⟩

/-- A text that starts with a token is no error. -/
theorem Matches.exists_pick_append (h : Matches k (c :: w)) (r : List Char) : ∃ t, pick c (w ++ r) = .ok t := by
  unfold pick
  split
  next => exact ⟨_, rfl⟩
  next hc =>
    split
    next => exact ⟨_, rfl⟩
    next hd =>
      cases h with
      | word hc' => exact absurd hc' hc
      | number h => exact absurd h.isDigit hd
      | symbol h => exact h.exists_symbol_append r

theorem matches_of_pick (h : pick c s = .ok (k, n)) (hs : ¬ Unfinished (c :: s)) : Matches k (c :: s.take n) := by
  have hlength : (s.take n).length = n := List.length_take_of_le (pick_le h)
  have htake : pick c (s.take n ++ s.drop n) = .ok (k, n) := by rwa [List.take_append_drop]
  rw [← pick_eq_length_iff, hlength]
  refine pick_of_append htake hlength.ge fun hk hp => hs ?_
  subst hk
  exact unfinished_of_pick h (List.mem_of_mem_take hp)

/-- No longer part of the text has a pattern. -/
theorem le_of_matches {k' : Kind} {m : Nat} (h : pick c s = .ok (k, n)) (hs : ¬ Unfinished (c :: s))
    (hm : m ≤ s.length) (hmatches : Matches k' (c :: s.take m)) : m ≤ n := by
  have hlength : (s.take m).length = m := List.length_take_of_le hm
  by_contra hlt
  have htake : pick c (s.take m ++ s.drop m) = .ok (k, n) := by rwa [List.take_append_drop]
  have hshorter : pick c (s.take m) = .ok (k, n) := by
    refine pick_of_append htake (by omega) fun hk hp => hs ?_
    subst hk
    refine unfinished_of_pick h ?_
    rw [List.take_take, Nat.min_eq_left (by omega)] at hp
    exact hp
  rw [← pick_eq_length_iff, hlength, hshorter] at hmatches
  have := (Prod.mk.inj (Except.ok.inj hmatches)).2
  omega

/-- A token is the longest part of the text from its start on that has a pattern. -/
theorem pick_eq_ok_iff (hs : ¬ Unfinished (c :: s)) :
    pick c s = .ok (k, n) ↔ n ≤ s.length ∧ Matches k (c :: s.take n) ∧
      ∀ k' m, m ≤ s.length → Matches k' (c :: s.take m) → m ≤ n := by
  constructor
  · exact fun h => ⟨pick_le h, matches_of_pick h hs, fun k' m hm => le_of_matches h hs hm⟩
  · rintro ⟨hn, hmatches, hlongest⟩
    obtain ⟨⟨k', m⟩, hpick⟩ := hmatches.exists_pick_append (s.drop n)
    rw [List.take_append_drop] at hpick
    obtain rfl : m = n :=
      Nat.le_antisymm (hlongest k' m (pick_le hpick) (matches_of_pick hpick hs)) (le_of_matches hpick hs hn hmatches)
    have hkind := pick_eq_length_iff.2 (matches_of_pick hpick hs)
    rw [pick_eq_length_iff.2 hmatches] at hkind
    rw [hpick, (Prod.mk.inj (Except.ok.inj hkind)).1]

/-- No token starts where no part of the text has a pattern. -/
theorem pick_eq_error_iff : (∃ n, pick c s = .error n) ↔ ∀ k n, ¬ Matches k (c :: s.take n) := by
  constructor
  · rintro ⟨n, herror⟩ k m hmatches
    obtain ⟨t, hpick⟩ := hmatches.exists_pick_append (s.drop m)
    rw [List.take_append_drop, herror] at hpick
    cases hpick
  · intro h
    cases hpick : pick c s with
    | error n => exact ⟨n, rfl⟩
    | ok t =>
      by_cases hs : Unfinished (c :: s)
      · exact absurd (.number (.decimal (.cons hs.isDigit (List.forall_mem_nil _)) (.integer .int))) (h .intLit 0)
      · exact absurd (matches_of_pick hpick hs) (h t.1 t.2)

/-! Whole scans. -/

/-- White space starts no token. -/
theorem Matches.exists_cons (h : Matches k s) : ∃ c w, s = c :: w ∧ isSpace c = false := by
  cases h with
  | word hc => exact ⟨_, _, rfl, (space_of_wordStart hc).1⟩
  | number h =>
    cases h with
    | @decimal _ t hw =>
      cases hw with
      | @cons d w hd => exact ⟨d, w ++ t, rfl, (space_of_wordRest (isWordRest_of_digit hd)).1⟩
    | hexadecimal => exact ⟨_, _, rfl, rfl⟩
  | symbol h => exact ⟨_, _, rfl, h.first.2⟩

/-- Each token of a text has the pattern of its kind, but for integers with a point at their end. -/
theorem Scans.matches {o : Nat} {ts : List Token} (h : Scans o s ts)
    (hpoint : ∀ t ∈ ts, t.kind = .intLit → t.lexeme.getLast? ≠ some '.') : ∀ t ∈ ts, Matches t.kind t.lexeme := by
  induction h with
  | nil => exact List.forall_mem_nil _
  | space _ _ ih => exact ih hpoint
  | @token o c w s k ts _ hp _ ih =>
    obtain ⟨hlast, hpoint⟩ := List.forall_mem_cons.1 hpoint
    refine List.forall_mem_cons.2 ⟨pick_eq_length_iff.1 (pick_of_append hp (Nat.le_refl _) ?_), ih hpoint⟩
    rw [List.take_length]
    rintro rfl hmem
    refine hlast rfl ?_
    obtain ⟨-, v, u, hs, hlength, -⟩ := point_of_pick hp (List.mem_cons_of_mem _ (by rwa [List.take_left]))
    obtain ⟨rfl, -⟩ := List.append_inj (hs.trans (List.append_cons v '.' u)) (by simp [hlength])
    simp [List.getLast?_cons]

end AnnotationExpr.Token
