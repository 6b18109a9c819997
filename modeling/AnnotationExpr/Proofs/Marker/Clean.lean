import AnnotationExpr.Proofs.Marker.Pieces
import AnnotationExpr.Proofs.Token.Neighbours

/-!
Where markers stand among the tokens of a text. A marker is a parameter reference whose index starts with a digit from
one on, or stands inside a string; no other token has a marker in it, and none ends with the mark of one.
-/

namespace AnnotationExpr.Marker

open Text (isDigit)

/-- No marker starts in these characters, whatever comes after them. -/
def Clean (s : List Char) : Prop := ∀ r, '#' :: r <:+ s → ∃ d ∈ r.head?, isFirstDigit d = false

theorem clean_of_notMem {s : List Char} (h : '#' ∉ s) : Clean s :=
  fun _ hr => absurd (hr.subset List.mem_cons_self) h

theorem Clean.of_cons {c : Char} {s : List Char} (h : Clean (c :: s)) : Clean s :=
  fun r hr => h r (hr.trans (List.suffix_cons c s))

/-- Clean characters are written as they are. -/
theorem Cut.of_clean {w s : List Char} {ps : List Piece} (hw : Clean w) (h : Cut (w ++ s) ps) :
    ∃ ps', Cut s ps' ∧ written ps = w ++ written ps' := by
  induction w generalizing ps with
  | nil => exact ⟨ps, h, rfl⟩
  | cons c w ih =>
    rw [List.cons_append] at h
    generalize hall : w ++ s = all at h
    cases h with
    | plain hc h =>
      subst hall
      obtain ⟨ps', hps', hwritten⟩ := ih hw.of_cons h
      exact ⟨ps', hps', by rw [written_plain, hwritten, List.cons_append]⟩
    | @marker d ds t ps hd hds ht h =>
      obtain ⟨e, he, hfirst⟩ := hw w (List.suffix_refl _)
      cases w with
      | nil => cases he
      | cons e' w =>
        obtain rfl : e' = e := Option.some.inj he
        obtain ⟨rfl, -⟩ := List.cons.inj hall
        rw [hd] at hfirst
        cases hfirst

/-- A parameter reference with such an index is one marker. -/
theorem Cut.of_marker {d : Char} {ds s : List Char} {ps : List Piece} (hd : isFirstDigit d = true)
    (hds : ∀ e ∈ ds, isDigit 10 e = true) (hs : ∀ e ∈ s.head?, isDigit 10 e = false)
    (h : Cut ('#' :: d :: (ds ++ s)) ps) :
    ∃ ps', Cut s ps' ∧ written ps = stem ++ (d :: ds ++ written ps') := by
  generalize hall : d :: (ds ++ s) = all at h
  cases h with
  | plain hc _ =>
    have hfirst := hc rfl d (by rw [← hall]; rfl)
    rw [hd] at hfirst
    cases hfirst
  | @marker e es t ps _ hes ht h =>
    obtain ⟨rfl, hrest⟩ := List.cons.inj hall
    have htake := Text.takeWhile_append hds hs
    rw [hrest, Text.takeWhile_append hes ht] at htake
    subst htake
    obtain rfl := List.append_cancel_left hrest
    exact ⟨ps, h, written_marker _ ps⟩

end AnnotationExpr.Marker

namespace AnnotationExpr.Token

open AnnotationExpr.Marker (Clean clean_of_notMem isFirstDigit)
open Text (isDigit)

variable {c : Char} {w s : List Char} {k : Kind}

theorem notMem_of_le_run {p : Char → Bool} (hp : p '#' = false) (h : w.length ≤ run p (w ++ s)) : '#' ∉ w := by
  intro hmem
  have hmark : p '#' = true := mem_take_run h (by rwa [List.take_left])
  rw [hp] at hmark
  cases hmark

/-- Up to a closing quote there is no mark if the characters before it are none. -/
theorem notMem_of_closed {p : Char → Bool} {m : Nat} (hp : p '#' = false) (hrun : m ≤ run p (w ++ s))
    (hlen : w.length = m + 1) (hquote : startsWith (· = '\'') ((w ++ s).drop m) = true) : '#' ∉ w := by
  let q : Char → Bool := fun d => p d || d = '\''
  have hq : m ≤ run q (w ++ s) :=
    Nat.le_trans hrun (run_mono (fun hd => by simp [q, hd]) _)
  have hclose : 1 ≤ run q ((w ++ s).drop m) := run_pos (fun hd => by simp [q, of_decide_eq_true hd]) hquote
  refine @notMem_of_le_run w s q (by simp [q, hp]) ?_
  rw [run_drop hq, hlen]
  exact Nat.add_le_add_left hclose m

theorem run_take_le (p : Char → Bool) (m : Nat) (s : List Char) : run p (s.take m) ≤ run p s := by
  by_cases h : run p (s.take m ++ s.drop m) ≤ (s.take m).length
  · rw [run_of_append h, List.take_append_drop]
  · rw [List.take_append_drop] at h
    have hle := run_le p (s.take m)
    omega

/-- The item of a character literal is a single character, or an escape without marks. -/
theorem clean_of_charItem (hitem : charItem (w ++ s) ≠ 0) (hlen : w.length = charItem (w ++ s) + 1)
    (hquote : startsWith (· = '\'') ((w ++ s).drop (charItem (w ++ s))) = true) : Clean ('\'' :: w) := by
  obtain ⟨a, b, t, rfl⟩ : ∃ a b t, w = a :: b :: t := by
    match w, hlen with
    | [], hlen => cases hlen
    | [_], hlen =>
      rw [List.length_singleton] at hlen
      omega
    | a :: b :: t, _ => exact ⟨a, b, t, rfl⟩
  simp only [List.cons_append, List.length_cons] at hitem hlen hquote
  by_cases ha : a = '\\'
  · subst ha
    have hclosed {p : Char → Bool} {m : Nat} (hn : charItem ('\\' :: b :: (t ++ s)) = m + 2) (hb : b ≠ '#')
        (hp : p '#' = false) (hrun : m ≤ run p (t ++ s)) : Clean ('\'' :: '\\' :: b :: t) := by
      rw [hn] at hlen hquote
      rw [List.drop_succ_cons, List.drop_succ_cons] at hquote
      have ht := notMem_of_closed hp hrun (by omega) hquote
      refine clean_of_notMem ?_
      simp only [List.mem_cons, not_or]
      exact ⟨by decide, by decide, hb.symm, ht⟩
    simp only [charItem] at hitem hclosed
    split at hitem
    next ho =>
      rw [if_pos ho] at hclosed
      refine @hclosed (isDigit 8) _ (Nat.add_comm _ _) ?_ rfl (run_take_le _ _ _)
      rintro rfl
      cases ho
    next ho =>
      rw [if_neg ho] at hclosed
      split at hitem
      next he =>
        rw [if_pos he] at hclosed
        refine @hclosed (isDigit 8) 0 rfl ?_ rfl (Nat.zero_le _)
        rintro rfl
        cases he
      next he =>
        rw [if_neg he] at hclosed
        split at hitem
        next hu =>
          rw [if_pos hu] at hclosed
          refine @hclosed (isDigit 16) 4 rfl ?_ rfl (hu.2 ▸ run_take_le _ _ _)
          rintro rfl
          cases hu.1
        next => exact absurd rfl hitem
  · have hone (t : List Char) : charItem (a :: t) = 0 ∨ charItem (a :: t) = 1 := by
      rw [charItem]
      · split
        · exact .inr rfl
        · exact .inl rfl
      · exact fun _ _ h => absurd h ha
    have hn : charItem (a :: b :: (t ++ s)) = 1 := (hone _).resolve_left hitem
    rw [hn] at hlen hquote
    obtain rfl : t = [] := List.length_eq_zero_iff.1 (by omega)
    obtain rfl : b = '\'' := of_decide_eq_true hquote
    intro r hr
    have hr : '#' = a ∧ r = ['\''] := by simpa [List.suffix_cons_iff] using hr
    rw [hr.2]
    exact ⟨'\'', rfl, by decide⟩

theorem clean_of_symbol (h : symbol c (w ++ s) = .ok (k, w.length)) (hstring : k ≠ .stringLit)
    (hparam : k ≠ .paramRef) : Clean (c :: w) := by
  have short (hc : c ≠ '#') {p : Char → Bool} (hp : p '#' = false) (hle : w.length ≤ run p (w ++ s)) :
      Clean (c :: w) := by
    refine clean_of_notMem ?_
    rw [List.mem_cons, not_or]
    exact ⟨hc.symm, notMem_of_le_run hp hle⟩
  have twice (hc : c ≠ '#') {second : Char} (hsecond : second ≠ '#')
      (hs : w.length = 0 ∨ w.length = 1 ∧ startsWith (· = second) (w ++ s) = true) : Clean (c :: w) := by
    refine @short hc (fun d => decide (d = second)) (decide_eq_false hsecond.symm) ?_
    rcases hs with hlen | ⟨hlen, hs⟩
    · rw [hlen]
      exact Nat.zero_le _
    · rw [hlen]
      exact run_pos id hs
  have doubled_cases {second : Char} {two one : Kind} (hd : doubled second two one (w ++ s) = (k, w.length)) :
      w.length = 0 ∨ w.length = 1 ∧ startsWith (· = second) (w ++ s) = true := by
    unfold doubled at hd
    split at hd
    next hs => exact .inr ⟨(Prod.mk.inj hd).2.symm, hs⟩
    next => exact .inl (Prod.mk.inj hd).2.symm
  unfold symbol at h
  split at h
  case h_1 =>
    split at h
    · cases h
    · exact absurd (Prod.mk.inj (Except.ok.inj h)).1.symm hparam
  case h_2 =>
    split at h
    · exact absurd (Prod.mk.inj (Except.ok.inj h)).1.symm hstring
    · cases h
  case h_3 =>
    dsimp only at h
    split at h
    next hc => exact clean_of_charItem hc.1 (Prod.mk.inj (Except.ok.inj h)).2.symm hc.2
    next => cases h
  case h_4 =>
    change symbol '.' (w ++ s) = _ at h
    rw [symbol_point] at h
    split at h
    next => exact @twice (by decide) '.' (by decide) (.inl (Prod.mk.inj (Except.ok.inj h)).2.symm)
    next =>
      refine @short (by decide) isNumeral rfl ?_
      rw [← (Prod.mk.inj (Except.ok.inj h)).2]
      exact fraction_add_le_run _
  case h_5 | h_6 | h_7 =>
    split at h
    next hs => exact twice (by decide) (by decide) (.inr ⟨(Prod.mk.inj (Except.ok.inj h)).2.symm, hs⟩)
    next => cases h
  case h_8 | h_9 | h_10 => exact twice (by decide) (by decide) (doubled_cases (Except.ok.inj h))
  case h_21 => cases h
  all_goals exact @twice (by decide) '.' (by decide) (.inl (Prod.mk.inj (Except.ok.inj h)).2.symm)

/-- No token has a marker in it, but strings and parameter references. -/
theorem clean_of_pick (h : pick c (w ++ s) = .ok (k, w.length)) (hstring : k ≠ .stringLit) (hparam : k ≠ .paramRef) :
    Clean (c :: w) := by
  unfold pick at h
  split at h
  next hc =>
    obtain ⟨-, hlen⟩ := Prod.mk.inj (Except.ok.inj h)
    refine clean_of_notMem ?_
    rw [List.mem_cons, not_or]
    refine ⟨?_, notMem_of_le_run rfl (Nat.le_of_eq hlen.symm)⟩
    rintro rfl
    cases hc
  next =>
    split at h
    next hd =>
      have hle := number_le_run c (w ++ s)
      rw [Except.ok.inj h] at hle
      refine clean_of_notMem ?_
      rw [List.mem_cons, not_or]
      refine ⟨?_, notMem_of_le_run rfl hle⟩
      rintro rfl
      cases hd
    next => exact clean_of_symbol h hstring hparam

/-- The name of a marker is one plain name. -/
theorem pick_stem {ds r : List Char} (hds : ∀ d ∈ ds, isDigit 10 d = true) (hr : Ends r) :
    pick '_' ((['p', 'a', 'r', 'a', 'm', '_'] ++ ds) ++ r) =
      .ok (.ident, (['p', 'a', 'r', 'a', 'm', '_'] ++ ds).length) := by
  refine pick_word (by decide) ?_ hr
  rw [List.forall_mem_append]
  exact ⟨List.all_eq_true.1 rfl, fun d hd => isWordRest_of_digit (hds d hd)⟩

end AnnotationExpr.Token
