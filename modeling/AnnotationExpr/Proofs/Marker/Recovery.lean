import AnnotationExpr.Proofs.Marker.Pieces

/-!
Putting names in place of markers leaves no marker behind, so doing it again changes nothing; and it loses nothing.
Where a text has no stem of its own, each stem with an index after it is the name of a marker, so putting a mark in its
place gives back the text.
-/

namespace AnnotationExpr.Marker

open Text (isDigit)

/-- A text in which no mark has an index after it is all single characters. -/
theorem Cut.eq_plain {s : List Char} {ps : List Piece} (h : Cut s ps)
    (hs : ∀ d w, '#' :: d :: w <:+ s → isFirstDigit d = false) : ps = s.map .plain := by
  induction h with
  | nil => rfl
  | @plain c s ps _ _ ih =>
    have htail : ps = s.map .plain := ih fun d w hw => hs d w (hw.trans (List.suffix_cons c s))
    rw [htail, List.map_cons]
  | @marker d ds s ps hd _ _ _ _ =>
    rw [hs d (ds ++ s) (List.suffix_refl _)] at hd
    cases hd

theorem written_map_plain (s : List Char) : written (s.map .plain) = s := by
  induction s with
  | nil => rfl
  | cons c s ih => rw [List.map_cons, written_plain, ih]

theorem indices_map_plain (s : List Char) : (s.map Piece.plain).filterMap Piece.index? = [] := by
  simp [Piece.index?]

/-- No marker is left among the names that stand for markers. -/
theorem pieces_written (s : List Char) : pieces (written (pieces s)) = (written (pieces s)).map .plain := by
  apply (cut_pieces (written (pieces s))).eq_plain
  intro d w hsuffix
  exact (cut_pieces s).isFirstDigit_eq_false hsuffix

/-- Whether a text starts with the name of a marker. -/
def startsNamed (s : List Char) : Bool :=
  stem.isPrefixOf s && (s.drop stem.length).head?.any isFirstDigit

/-- The text with a mark in place of each stem that has an index after it. -/
def restore : List Char → List Char
  | [] => []
  | c :: s =>
    if startsNamed (c :: s) then '#' :: restore ((c :: s).drop stem.length)
    else c :: restore s
termination_by s => s.length
decreasing_by
  · simp only [stem_eq, List.length_drop, List.length_cons]
    omega
  · simp

theorem startsNamed_iff {s : List Char} :
    startsNamed s = true ↔ ∃ d w, s = stem ++ d :: w ∧ isFirstDigit d = true := by
  simp only [startsNamed, Bool.and_eq_true, List.isPrefixOf_iff_prefix]
  constructor
  · rintro ⟨⟨rest, rfl⟩, hdigit⟩
    rw [List.drop_left] at hdigit
    cases rest with
    | nil => cases hdigit
    | cons d w => exact ⟨d, w, rfl, by simpa using hdigit⟩
  · rintro ⟨d, w, rfl, hd⟩
    refine ⟨List.prefix_append _ _, ?_⟩
    rw [List.drop_left]
    simpa using hd

theorem restore_cons {c : Char} {s : List Char} (h : startsNamed (c :: s) = false) :
    restore (c :: s) = c :: restore s := by
  rw [restore, h, if_neg Bool.false_ne_true]

theorem restore_of_startsNamed {s : List Char} (h : startsNamed s = true) :
    restore s = '#' :: restore (s.drop stem.length) := by
  cases s with
  | nil => cases h
  | cons c s => rw [restore, if_pos h]

theorem restore_named {d : Char} (hd : isFirstDigit d = true) (w : List Char) :
    restore (stem ++ d :: w) = '#' :: restore (d :: w) := by
  rw [restore_of_startsNamed (startsNamed_iff.2 ⟨d, w, rfl, hd⟩), List.drop_left]

/-- No stem starts with a digit. -/
theorem restore_digits {ds : List Char} (hds : ∀ d ∈ ds, isDigit 10 d = true) (s : List Char) :
    restore (ds ++ s) = ds ++ restore s := by
  induction ds with
  | nil => rfl
  | cons d ds ih =>
    obtain ⟨hd, hds⟩ := List.forall_mem_cons.1 hds
    have hplain : startsNamed (d :: (ds ++ s)) = false := by
      rw [Bool.eq_false_iff, ne_eq, startsNamed_iff, stem_eq]
      rintro ⟨e, w, he, -⟩
      rw [(List.cons.inj he).1] at hd
      cases hd
    rw [List.cons_append, restore_cons hplain, ih hds, List.cons_append]

/-- Where the text has no stem of its own, its markers come back. -/
theorem Cut.restore_written {s : List Char} {ps : List Piece} (h : Cut s ps) (hs : ¬ stem <:+: s) :
    restore (written ps) = s := by
  induction h with
  | nil => rw [show written [] = [] from rfl, restore]
  | @plain c s ps hc h ih =>
    have htail : restore (written ps) = s := ih fun hi => hs (hi.trans (List.suffix_cons c s).isInfix)
    -- a stem that starts here would be in the text itself
    have hplain : startsNamed (c :: written ps) = false := by
      rw [Bool.eq_false_iff, ne_eq, startsNamed_iff]
      rintro ⟨d, w, he, hd⟩
      exact hs (h.stem_prefix (isDigit_of_isFirstDigit hd) he.symm).isInfix
    rw [written_plain, restore_cons hplain, htail]
  | @marker d ds s ps hd hds _ _ ih =>
    have hall : ∀ e ∈ d :: ds, isDigit 10 e = true := List.forall_mem_cons.2 ⟨isDigit_of_isFirstDigit hd, hds⟩
    have htail : restore (written ps) = s := ih fun hi => hs (hi.trans (List.suffix_append ('#' :: d :: ds) s).isInfix)
    rw [written_marker, List.cons_append, restore_named hd, ← List.cons_append, restore_digits hall, htail]
    rfl

theorem restore_expand {t : String} (ht : ¬ stem <:+: t.toList) : restore (expand t).toList = t.toList := by
  rw [expand, String.toList_ofList]
  exact (cut_pieces t.toList).restore_written ht

/-- Putting names in place of markers a second time changes nothing, and the names hold no marker; texts without a stem
of their own are told apart by what they become. -/
theorem expand_idempotent_injective (t u : String) :
    expand (expand t) = expand t ∧ indices (expand t) = [] ∧
      (¬ stem <:+: t.toList → ¬ stem <:+: u.toList → (expand t = expand u ↔ t = u)) := by
  have hpieces : pieces (expand t).toList = (expand t).toList.map .plain := by
    rw [expand, String.toList_ofList]
    exact pieces_written t.toList
  refine ⟨?_, ?_, fun ht hu => ⟨fun h => ?_, congrArg expand⟩⟩
  · calc expand (expand t)
      _ = String.ofList (written (pieces (expand t).toList)) := rfl
      _ = String.ofList (expand t).toList := by rw [hpieces, written_map_plain]
      _ = expand t := String.ofList_toList
  · rw [indices, hpieces, indices_map_plain]
  · apply String.toList_inj.1
    calc t.toList
      _ = restore (expand t).toList := (restore_expand ht).symm
      _ = restore (expand u).toList := by rw [h]
      _ = u.toList := restore_expand hu

/-- A marker after the start of a stem, and one after a mark of its own. -/
theorem expand_idempotent_injective_overlap :
    ¬ stem <:+: "_param#1 ##20".toList ∧ ¬ stem <:+: "_param#1 #20".toList ∧
      expand "_param#1 ##20" = "_param_param_1 #_param_20" ∧
      expand (expand "_param#1 ##20") = expand "_param#1 ##20" ∧ indices (expand "_param#1 ##20") = [] ∧
      expand "_param#1 ##20" ≠ expand "_param#1 #20" := by
  have ht : ¬ stem <:+: "_param#1 ##20".toList := by decide +kernel
  have hu : ¬ stem <:+: "_param#1 #20".toList := by decide +kernel
  obtain ⟨htwice, hnone, hback⟩ := expand_idempotent_injective "_param#1 ##20" "_param#1 #20"
  refine ⟨ht, hu, by decide +kernel, htwice, hnone, fun h => ?_⟩
  have hsame := (hback ht hu).1 h
  revert hsame
  decide

end AnnotationExpr.Marker
