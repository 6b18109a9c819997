import AnnotationExpr.Marker
import AnnotationExpr.Proofs.Text.Runs

/-!
Where the names of markers come from. Every character of a text belongs to one piece of it, and no marker is
followed by a further digit. So in the text with the names in place, a name of a marker stands only where a
marker stood, unless the text itself has the stem of such names somewhere.
-/

namespace AnnotationExpr.Marker

open Text (isDigit)

/-- A text with its pieces. The digits of a marker go as far as they can. -/
inductive Cut : List Char → List Piece → Prop where
  | nil : Cut [] []
  | plain {c : Char} {s : List Char} {ps : List Piece} (hc : c = '#' → ∀ d ∈ s.head?, isFirstDigit d = false)
      (h : Cut s ps) : Cut (c :: s) (.plain c :: ps)
  | marker {d : Char} {ds s : List Char} {ps : List Piece} (hd : isFirstDigit d = true)
      (hds : ∀ e ∈ ds, isDigit 10 e = true) (hs : ∀ e ∈ s.head?, isDigit 10 e = false) (h : Cut s ps) :
      Cut ('#' :: d :: (ds ++ s)) (.marker (d :: ds) :: ps)

theorem cut_pieces (s : List Char) : Cut s (pieces s) := by
  fun_induction pieces s with
  | case1 => exact .nil
  | case2 c => exact .plain (by simp) .nil
  | case3 c d s h ih =>
    obtain ⟨rfl, hd⟩ := h
    have hdigits : ∀ e ∈ s.takeWhile (isDigit 10), isDigit 10 e = true := fun e he => List.mem_takeWhile_imp he
    have := Cut.marker hd hdigits (Text.head?_dropWhile (isDigit 10) s) ih
    rwa [List.takeWhile_append_dropWhile] at this
  | case4 c d s h ih =>
    refine .plain ?_ ih
    rintro rfl e he
    cases he
    simpa using h

theorem isDigit_of_isFirstDigit {c : Char} (h : isFirstDigit c = true) : isDigit 10 c = true := by
  obtain ⟨h1, h9⟩ : '1' ≤ c ∧ c ≤ '9' := by simpa [isFirstDigit] using h
  exact Text.isDigit_ten.2 ⟨Char.le_trans (by decide) h1, h9⟩

theorem eq_zero_of_isDigit {c : Char} (h : isDigit 10 c = true) (hc : isFirstDigit c = false) : c = '0' := by
  obtain ⟨h0, h9⟩ := Text.isDigit_ten.1 h
  have h1 : ¬ '1' ≤ c := fun h1 => by simp [isFirstDigit, h1, h9] at hc
  have hlt : c.toNat < '1'.toNat := Char.not_le.1 h1
  have hle : '0'.toNat ≤ c.toNat := h0
  have h48 : c.toNat = '0'.toNat := Nat.le_antisymm (Nat.lt_succ_iff.1 hlt) hle
  exact Char.toNat_inj.1 h48

theorem stem_eq : stem = ['_', 'p', 'a', 'r', 'a', 'm', '_'] := by decide

/-- The text with a name in place of each marker, from its pieces. -/
def written (ps : List Piece) : List Char := ps.flatMap Piece.expand

theorem written_plain (c : Char) (ps : List Piece) : written (.plain c :: ps) = c :: written ps := rfl

theorem written_marker (ds : List Char) (ps : List Piece) :
    written (.marker ds :: ps) = stem ++ (ds ++ written ps) := by
  simp [written, Piece.expand]

theorem written_of_noMark {s : List Char} {ps : List Piece} (h : Cut s ps) (hs : '#' ∉ s) :
    written ps = s := by
  induction h with
  | nil => rfl
  | plain _ _ ih => rw [written_plain, ih (fun hm => hs (List.mem_cons_of_mem _ hm))]
  | marker => exact absurd List.mem_cons_self hs

/-- A word without marks and without a digit at its start, at the end of the text, stays there. -/
theorem Cut.suffix_written {s : List Char} {ps : List Piece} (h : Cut s ps) {c : Char} {word : List Char}
    (hc : isDigit 10 c = false) (hw : '#' ∉ c :: word) (hs : c :: word <:+ s) : c :: word <:+ written ps := by
  induction h with
  | nil => exact absurd (List.suffix_nil.1 hs) (List.cons_ne_nil _ _)
  | @plain d s ps hd h ih =>
    rcases List.suffix_cons_iff.1 hs with he | hs
    · rw [written_of_noMark (.plain hd h) (he ▸ hw), he]
    · exact (ih hs).trans (List.suffix_cons _ _)
  | @marker d ds s ps hd hds _ h ih =>
    have hall : ∀ e ∈ d :: ds, isDigit 10 e = true := List.forall_mem_cons.2 ⟨isDigit_of_isFirstDigit hd, hds⟩
    rcases List.suffix_cons_iff.1 hs with he | hs
    · exact absurd (he ▸ List.mem_cons_self) hw
    · rw [written_marker]
      exact (ih (Text.suffix_of_append hc hall hs)).trans
        ((List.suffix_append _ _).trans (List.suffix_append _ _))

/-- What is written starts as the text does, or with the name of a marker. -/
theorem Cut.head? {s : List Char} {ps : List Piece} (h : Cut s ps) :
    (written ps).head? = s.head? ∨ (written ps).head? = some '_' ∧ s.head? = some '#' := by
  cases h with
  | nil => exact .inl rfl
  | plain => exact .inl rfl
  | marker => exact .inr ⟨by rw [written_marker, stem_eq]; rfl, rfl⟩

/-- Characters other than the first of the stem stand in the text itself. -/
theorem Cut.of_append {s : List Char} {ps : List Piece} (h : Cut s ps) {w rest : List Char} (hw : '_' ∉ w)
    (he : written ps = w ++ rest) : ∃ s' ps', s = w ++ s' ∧ Cut s' ps' ∧ written ps' = rest := by
  induction w generalizing s ps with
  | nil => exact ⟨s, ps, rfl, h, he⟩
  | cons a w ih =>
    cases h with
    | nil => cases he
    | @plain c s ps _ h =>
      rw [written_plain, List.cons_append, List.cons.injEq] at he
      obtain ⟨s', ps', rfl, h', he'⟩ := ih h (fun hm => hw (List.mem_cons_of_mem _ hm)) he.2
      exact ⟨s', ps', by rw [he.1, List.cons_append], h', he'⟩
    | marker =>
      rw [written_marker, stem_eq] at he
      obtain ⟨rfl, -⟩ := List.cons.inj he
      exact absurd List.mem_cons_self hw

/-- A stem inside a stem with no `p` after it is that stem, or comes later. -/
theorem suffix_of_stem {w x : List Char} (hx : ∀ c ∈ x.head?, c ≠ 'p') (h : stem ++ w <:+ stem ++ x) :
    w = x ∨ stem ++ w <:+ x := by
  rw [stem_eq] at h ⊢
  have h : w = x ∨ 'p' :: 'a' :: 'r' :: 'a' :: 'm' :: '_' :: w = x ∨
      ['_', 'p', 'a', 'r', 'a', 'm', '_'] ++ w <:+ x := by
    simpa [List.suffix_cons_iff] using h
  rcases h with rfl | rfl | h
  · exact .inl rfl
  · exact absurd rfl (hx 'p' rfl)
  · exact .inr h

/-- A stem that starts with a character of the text and has a digit after it is in the text as it stands. -/
theorem Cut.stem_prefix {s : List Char} {ps : List Piece} (h : Cut s ps) {c d : Char} {w : List Char}
    (hd : isDigit 10 d = true) (he : stem ++ (d :: w) = c :: written ps) : stem <+: c :: s := by
  rw [stem_eq] at he
  obtain ⟨rfl, hw⟩ : '_' = c ∧ ['p', 'a', 'r', 'a', 'm'] ++ '_' :: d :: w = written ps := List.cons.inj he
  obtain ⟨s', ps', rfl, h', he'⟩ := h.of_append (by decide) hw.symm
  -- the last character of the stem may be the first of a marker's name, and then no digit is next
  cases h' with
  | nil => cases he'
  | @plain c s' ps' _ _ =>
    obtain ⟨rfl, -⟩ := List.cons.inj he'
    exact ⟨s', by simp [stem_eq]⟩
  | marker =>
    rw [written_marker, stem_eq] at he'
    obtain ⟨rfl, -⟩ : 'p' = d ∧ _ := List.cons.inj (List.cons.inj he').2
    exact absurd hd (by decide)

/-- Where the text has no stem of its own, a stem with digits after it is the name of a marker. -/
theorem Cut.marker_mem {s : List Char} {ps : List Piece} (h : Cut s ps) (hs : ¬ stem <:+: s) {ds rest : List Char}
    (hne : ds ≠ []) (hds : ∀ d ∈ ds, isDigit 10 d = true) (hrest : ∀ c ∈ rest.head?, isDigit 10 c = false)
    (hsuffix : stem ++ (ds ++ rest) <:+ written ps) : .marker ds ∈ ps := by
  induction h with
  | nil => simp [written, stem_eq] at hsuffix
  | @plain c s ps hc h ih =>
    rw [written_plain] at hsuffix
    rcases List.suffix_cons_iff.1 hsuffix with he | hsuffix
    · obtain ⟨d, ds', rfl⟩ := List.exists_cons_of_ne_nil hne
      exact absurd (h.stem_prefix (hds d List.mem_cons_self) he).isInfix hs
    · exact List.mem_cons_of_mem _ (ih (fun hi => hs (hi.trans (List.suffix_cons c s).isInfix)) hsuffix)
  | @marker d es s ps hd hes hnext h ih =>
    have hall : ∀ e ∈ d :: es, isDigit 10 e = true := List.forall_mem_cons.2 ⟨isDigit_of_isFirstDigit hd, hes⟩
    have hwritten : ∀ c ∈ (written ps).head?, isDigit 10 c = false := by
      rcases h.head? with hh | ⟨hh, -⟩
      · rw [hh]; exact hnext
      · rw [hh]; rintro c ⟨⟩; decide
    rw [written_marker] at hsuffix
    rcases suffix_of_stem (by rintro c ⟨⟩ rfl; revert hd; decide) hsuffix with he | hlater
    · have := Text.takeWhile_append hds hrest
      rw [he, Text.takeWhile_append hall hwritten] at this
      rw [← this]
      exact List.mem_cons_self
    · have hlater : stem ++ (ds ++ rest) <:+ written ps := Text.suffix_of_append (by decide) hall hlater
      refine List.mem_cons_of_mem _ (ih (fun hi => hs (hi.trans ?_)) hlater)
      exact (List.suffix_append ('#' :: d :: es) s).isInfix

/-- A mark that is left has no digit after it but a zero. -/
theorem Cut.isFirstDigit_eq_false {s : List Char} {ps : List Piece} (h : Cut s ps) {d : Char} {w : List Char}
    (hsuffix : '#' :: d :: w <:+ written ps) : isFirstDigit d = false := by
  induction h with
  | nil => simp [written] at hsuffix
  | @plain c s ps hc h ih =>
    rw [written_plain] at hsuffix
    rcases List.suffix_cons_iff.1 hsuffix with he | hsuffix
    · obtain ⟨rfl, hw⟩ := List.cons.inj he
      rcases h.head? with hh | ⟨hh, -⟩
      · exact hc rfl d (by rw [← hh, ← hw]; rfl)
      · rw [← hw] at hh
        cases hh
        rfl
    · exact ih hsuffix
  | @marker e es s ps he hes hnext h ih =>
    rw [written_marker] at hsuffix
    have hall : ∀ c ∈ e :: es, isDigit 10 c = true := List.forall_mem_cons.2 ⟨isDigit_of_isFirstDigit he, hes⟩
    refine ih (Text.suffix_of_append (by decide) hall ?_)
    simpa [stem_eq, List.suffix_cons_iff] using hsuffix

end AnnotationExpr.Marker
