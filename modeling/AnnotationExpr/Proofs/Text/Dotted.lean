import AnnotationExpr.Text.Dotted

/-! Dotted names are their segments with dots between them. -/

namespace AnnotationExpr.Text

theorem splitBy_eq_splitOnP (p : Char → Bool) (s : List Char) : splitBy p s = s.splitOnP p := by
  induction s with
  | nil => rfl
  | cons c s ih =>
    rw [splitBy, List.splitOnP_cons_eq_if_modifyHead, ih]
    split
    · rfl
    · obtain ⟨part, parts, h⟩ := List.exists_cons_of_ne_nil (List.splitOnP_ne_nil p s)
      rw [h]
      rfl

theorem segments_ne_nil (name : String) : segments name ≠ [] := by
  rw [segments, splitBy_eq_splitOnP]
  exact fun h => List.splitOnP_ne_nil _ _ (List.map_eq_nil_iff.1 h)

theorem intercalate_segments (name : String) : ".".intercalate (segments name) = name := by
  have hparts : (segments name).map String.toList = name.toList.splitOn '.' := by
    rw [segments, List.map_map, splitBy_eq_splitOnP]
    simp [List.splitOn, Function.comp_def]
    rfl
  have hjoin : ['.'].intercalate (name.toList.splitOn '.') = name.toList := List.intercalate_splitOn '.'
  refine String.toList_inj.1 ?_
  rw [String.toList_intercalate, hparts]
  exact hjoin

end AnnotationExpr.Text
