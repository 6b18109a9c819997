import AnnotationExpr.Proofs.Outcome
import AnnotationExpr.Proofs.Text.Runs
import AnnotationExpr.Token.Scanner

/-!
Where the tokens of a text stand in it. A name takes all the word characters from its first one on, and a
parameter reference all the digits after its mark.
-/

namespace AnnotationExpr.Token

theorem kind_afterPoint (s : List Char) : (afterPoint s).1 = .intLit ∨ (afterPoint s).1 = .doubleLit := by
  unfold afterPoint
  dsimp only
  split
  · exact .inl rfl
  · exact .inr rfl

theorem kind_decimal (s : List Char) :
    (decimal s).1 = .intLit ∨ (decimal s).1 = .longLit ∨ (decimal s).1 = .doubleLit := by
  unfold decimal
  dsimp only
  split
  · exact .inl rfl
  next c r _ =>
    split
    · exact .inr (.inl rfl)
    · split
      · exact (kind_afterPoint r).imp_right .inr
      · split
        · exact .inl rfl
        · exact .inr (.inr rfl)

theorem kind_number (c : Char) (s : List Char) :
    (number c s).1 = .intLit ∨ (number c s).1 = .longLit ∨ (number c s).1 = .doubleLit := by
  unfold number
  split
  · split
    · dsimp only
      split
      · exact .inr (.inl rfl)
      · exact .inl rfl
    · exact kind_decimal _
  · exact .inl rfl

theorem kind_doubled (second : Char) (two one : Kind) (s : List Char) :
    (doubled second two one s).1 = two ∨ (doubled second two one s).1 = one := by
  unfold doubled
  split
  · exact .inl rfl
  · exact .inr rfl

/-- The sign of a point or of a closing parenthesis. -/
def Kind.sign? : Kind → Option Char
  | .dot => some '.'
  | .rparen => some ')'
  | _ => none

/-- Outside of words and numbers no word starts, and a parameter reference or a sign only at its own mark. -/
structure Marked (c : Char) (s : List Char) (kind : Kind) (n : Nat) : Prop where
  ident : kind ≠ .ident
  this : kind ≠ .this
  paramRef : kind = .paramRef → c = '#' ∧ n = run (Text.isDigit 10) s ∧ n ≠ 0
  sign : ∀ d ∈ kind.sign?, c = d ∧ n = 0

theorem symbol_eq_ok {c : Char} {s : List Char} {kind : Kind} {n : Nat} (h : symbol c s = .ok (kind, n)) :
    Marked c s kind n := by
  have hdoubled {second : Char} {two one : Kind} (h : doubled second two one s = (kind, n)) :
      kind = two ∨ kind = one := by
    have := kind_doubled second two one s
    rwa [h] at this
  unfold symbol at h
  split at h
  case h_1 =>
    split at h
    · cases h
    next hn => cases h; exact ⟨nofun, nofun, fun _ => ⟨rfl, rfl, hn⟩, nofun⟩
  case h_3 =>
    dsimp only at h
    split at h
    · cases h; exact ⟨nofun, nofun, nofun, nofun⟩
    · cases h
  case h_4 =>
    split at h
    · cases h; exact ⟨nofun, nofun, nofun, fun d hd => ⟨Option.some.inj hd, rfl⟩⟩
    · cases h; exact ⟨nofun, nofun, nofun, nofun⟩
  case h_8 => rcases hdoubled (Except.ok.inj h) with rfl | rfl <;> exact ⟨nofun, nofun, nofun, nofun⟩
  case h_9 => rcases hdoubled (Except.ok.inj h) with rfl | rfl <;> exact ⟨nofun, nofun, nofun, nofun⟩
  case h_10 => rcases hdoubled (Except.ok.inj h) with rfl | rfl <;> exact ⟨nofun, nofun, nofun, nofun⟩
  -- all other tokens are of one kind each, or one of two that the next character decides
  all_goals first
    | cases h; exact ⟨nofun, nofun, nofun, fun d hd => ⟨Option.some.inj hd, rfl⟩⟩
    | cases h; exact ⟨nofun, nofun, nofun, nofun⟩
    | cases h
    | split at h <;> cases h; exact ⟨nofun, nofun, nofun, nofun⟩

theorem ofWord_ne_paramRef (word : List Char) : Kind.ofWord word ≠ .paramRef := by
  unfold Kind.ofWord
  repeat' split
  all_goals exact nofun

theorem ofWord_eq_this {word : List Char} (h : Kind.ofWord word = .this) : word = "this".toList := by
  unfold Kind.ofWord at h
  split at h
  · assumption
  · repeat' split at h
    all_goals cases h

theorem sign?_ofWord (word : List Char) : (Kind.ofWord word).sign? = none := by
  unfold Kind.ofWord
  repeat' split
  all_goals rfl

theorem pick_ident {c : Char} {s : List Char} {n : Nat} (h : pick c s = .ok (.ident, n)) :
    isWordStart c = true ∧ n = run isWordRest s := by
  unfold pick at h
  split at h
  next hc => exact ⟨hc, (congrArg Prod.snd (Except.ok.inj h)).symm⟩
  next =>
    split at h
    · have hk := kind_number c s
      rw [Except.ok.inj h] at hk
      rcases hk with hk | hk | hk <;> cases hk
    · exact absurd rfl (symbol_eq_ok h).ident

theorem pick_paramRef {c : Char} {s : List Char} {n : Nat} (h : pick c s = .ok (.paramRef, n)) :
    c = '#' ∧ n = run (Text.isDigit 10) s ∧ n ≠ 0 := by
  unfold pick at h
  split at h
  next => exact absurd (congrArg Prod.fst (Except.ok.inj h)) (ofWord_ne_paramRef _)
  next =>
    split at h
    · have hk := kind_number c s
      rw [Except.ok.inj h] at hk
      rcases hk with hk | hk | hk <;> cases hk
    · exact (symbol_eq_ok h).paramRef rfl

theorem pick_this {c : Char} {s : List Char} {n : Nat} (h : pick c s = .ok (.this, n)) :
    c :: s.take n = "this".toList := by
  unfold pick at h
  split at h
  next =>
    obtain ⟨hk, rfl⟩ := Prod.mk.inj (Except.ok.inj h)
    exact ofWord_eq_this hk
  next =>
    split at h
    · have hk := kind_number c s
      rw [Except.ok.inj h] at hk
      rcases hk with hk | hk | hk <;> cases hk
    · exact absurd rfl (symbol_eq_ok h).this

theorem pick_sign {c d : Char} {s : List Char} {kind : Kind} {n : Nat} (h : pick c s = .ok (kind, n))
    (hd : d ∈ kind.sign?) : c = d ∧ n = 0 := by
  unfold pick at h
  split at h
  next =>
    obtain ⟨rfl, -⟩ := Prod.mk.inj (Except.ok.inj h)
    rw [sign?_ofWord] at hd
    cases hd
  next =>
    split at h
    · have hk := kind_number c s
      rw [Except.ok.inj h] at hk
      rcases hk with rfl | rfl | rfl <;> cases hd
    · exact (symbol_eq_ok h).sign d hd

/-- Where a token stands, its first character and those after it are what the scanner picked it from. -/
theorem mem_scanFrom {t : Token} (offset : Nat) (text : List Char) {ts : List Token}
    (h : scanFrom offset text = .ok ts) (ht : t ∈ ts) :
    ∃ c s n, (c :: s) <:+ text ∧ pick c s = .ok (t.kind, n) ∧ t.lexeme = c :: s.take n := by
  fun_induction scanFrom offset text generalizing ts with
  | case1 offset => cases h; cases ht
  | case2 offset c s hc ih =>
    obtain ⟨d, r, n, hs, hp, hl⟩ := ih h ht
    exact ⟨d, r, n, hs.trans (List.suffix_cons c s), hp, hl⟩
  | case3 => cases h
  | case4 =>
    rename_i offset c s hc kind n hp lexeme ih
    obtain ⟨rest, hr, h⟩ := bind_eq_ok.1 h
    cases h
    rcases List.mem_cons.1 ht with rfl | ht
    · exact ⟨c, s, n, List.suffix_refl _, hp, rfl⟩
    · obtain ⟨d, r, m, hs, hp, hl⟩ := ih hr ht
      exact ⟨d, r, m, hs.trans ((List.drop_suffix n s).trans (List.suffix_cons c s)), hp, hl⟩

theorem take_run (p : Char → Bool) (s : List Char) : s.take (run p s) = s.takeWhile p :=
  (List.prefix_iff_eq_take.1 (List.takeWhile_prefix p)).symm

/-- A name in a text is followed by no character that could go on with it. -/
theorem lexeme_of_ident {t : Token} {text : List Char} {offset : Nat} {ts : List Token}
    (h : scanFrom offset text = .ok ts) (ht : t ∈ ts) (hk : t.kind = .ident) :
    ∃ rest, t.lexeme ++ rest <:+ text ∧ ∀ c ∈ rest.head?, isWordRest c = false := by
  obtain ⟨c, s, n, hs, hp, hl⟩ := mem_scanFrom offset text h ht
  rw [hk] at hp
  rw [(pick_ident hp).2, take_run] at hl
  refine ⟨s.dropWhile isWordRest, ?_, Text.head?_dropWhile _ _⟩
  rwa [hl, List.cons_append, List.takeWhile_append_dropWhile]

/-- A parameter reference in a text is its mark and at least one digit. -/
theorem lexeme_of_paramRef {t : Token} {text : List Char} {offset : Nat} {ts : List Token}
    (h : scanFrom offset text = .ok ts) (ht : t ∈ ts) (hk : t.kind = .paramRef) :
    ∃ d digits rest, t.lexeme = '#' :: d :: digits ∧ t.lexeme ++ rest <:+ text ∧ Text.isDigit 10 d = true := by
  obtain ⟨c, s, n, hs, hp, hl⟩ := mem_scanFrom offset text h ht
  rw [hk] at hp
  obtain ⟨rfl, rfl, hn⟩ := pick_paramRef hp
  rw [take_run] at hl
  cases s with
  | nil => exact absurd rfl hn
  | cons d s =>
    have hd : Text.isDigit 10 d = true := by
      by_contra hd
      exact hn (by simp [run, hd])
    have htake : (d :: s).takeWhile (Text.isDigit 10) = d :: s.takeWhile (Text.isDigit 10) :=
      List.takeWhile_cons_of_pos hd
    refine ⟨d, s.takeWhile (Text.isDigit 10), (d :: s).dropWhile (Text.isDigit 10), ?_, ?_, hd⟩
    · rw [hl, htake]
    · rwa [hl, List.cons_append, List.takeWhile_append_dropWhile]

end AnnotationExpr.Token
