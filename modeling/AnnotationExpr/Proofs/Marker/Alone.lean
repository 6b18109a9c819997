import AnnotationExpr.Proofs.Expr.Complete
import AnnotationExpr.Proofs.Expr.Name
import AnnotationExpr.Proofs.Marker.Clean

/-!
A text that is one parameter reference, a mark with digits after it. An index that starts with a digit from one on is
replaced before the text is read, and any other is left to the parser; both are read as the same kind of name.
-/

namespace AnnotationExpr

open Text (isDigit)
open Marker (stem Cut)

/-- A word that is an identifier is so as a text of its own. -/
theorem Token.isName_of_pick {c : Char} {w : List Char} (h : pick c w = .ok (.ident, w.length)) :
    IsName (String.ofList (c :: w)) := by
  have hspace := (space_of_wordStart (pick_ident h).1).1
  rw [← List.append_nil w] at h
  have hscan := (Scans.token (o := 0) hspace (w := w) (by simpa using h) .nil).scanFrom
  refine ⟨⟨0, byteLength (c :: w)⟩, ?_⟩
  rw [scan, String.toList_ofList]
  simpa using hscan

namespace Marker

variable {ds : List Char}

theorem isName_stem (hds : ∀ d ∈ ds, isDigit 10 d = true) : Token.IsName (String.ofList (stem ++ ds)) := by
  have hpick := Token.pick_stem hds Token.ends_nil
  rw [List.append_nil] at hpick
  rw [stem_eq]
  exact Token.isName_of_pick hpick

theorem digits?_stem (hne : ds ≠ []) (hds : ∀ d ∈ ds, isDigit 10 d = true) :
    digits? (String.ofList (stem ++ ds)) = some ds := by
  have hprefix : stem.isPrefixOf (stem ++ ds) = true := List.isPrefixOf_iff_prefix.2 (List.prefix_append stem ds)
  have hall : ds.all (isDigit 10) = true := List.all_eq_true.2 hds
  unfold digits?
  rw [String.toList_ofList, if_pos hprefix]
  simp [hall, hne]

theorem expand_ofList (s : List Char) : expand (String.ofList s) = String.ofList (written (pieces s)) := by
  rw [expand, String.toList_ofList]
  rfl

/-- The index of a marker has no zero in front. -/
theorem expand_of_first {d : Char} (hd : isFirstDigit d = true) (hds : ∀ e ∈ ds, isDigit 10 e = true) :
    expand (String.ofList ('#' :: d :: ds)) = String.ofList (stem ++ d :: ds) := by
  have hcut := cut_pieces ('#' :: d :: (ds ++ []))
  have hend : ∀ e ∈ ([] : List Char).head?, isDigit 10 e = false := nofun
  obtain ⟨ps, hps, hwritten⟩ := hcut.of_marker hd hds hend
  cases hps
  rw [List.append_nil] at hwritten
  rw [expand_ofList, hwritten]
  simp [written]

theorem expand_of_zero (hds : ∀ d ∈ ds, isDigit 10 d = true) :
    expand (String.ofList ('#' :: '0' :: ds)) = String.ofList ('#' :: '0' :: ds) := by
  have hclean : Clean ('#' :: '0' :: ds) := by
    intro r hr
    rcases List.suffix_cons_iff.1 hr with he | hr
    · cases he
      exact ⟨'0', rfl, by decide⟩
    · have hmark : isDigit 10 '#' = true :=
        List.forall_mem_cons.2 ⟨by decide, hds⟩ '#' (hr.subset List.mem_cons_self)
      cases hmark
  have hcut := cut_pieces ('#' :: '0' :: ds ++ [])
  obtain ⟨ps, hps, hwritten⟩ := hcut.of_clean hclean
  cases hps
  rw [List.append_nil] at hwritten
  rw [expand_ofList, hwritten]
  simp [written]

theorem scan_mark (hne : ds ≠ []) (hds : ∀ d ∈ ds, isDigit 10 d = true) :
    ∃ span, Token.scan (String.ofList ('#' :: ds)) = .ok [⟨.paramRef, '#' :: ds, span⟩] := by
  have hpick : Token.pick '#' (ds ++ []) = .ok (.paramRef, ds.length) := by
    have hlen : ds.length ≠ 0 := fun h => hne (List.length_eq_zero_iff.1 h)
    have hsymbol : Token.symbol '#' ds = .ok (.paramRef, ds.length) := by
      rw [Token.symbol, Token.run_eq_length hds]
      split
      next h => exact absurd h hlen
      next => rfl
    rw [List.append_nil]
    exact hsymbol
  refine ⟨⟨0, Token.byteLength ('#' :: ds)⟩, ?_⟩
  rw [Token.scan, String.toList_ofList]
  simpa using (Token.Scans.token (o := 0) rfl hpick .nil).scanFrom

/-- A mark with digits after it is read as the name of the marker, whichever digits they are. -/
theorem read_mark (hne : ds ≠ []) (hds : ∀ d ∈ ds, isDigit 10 d = true) :
    ∃ span, Expr.read (expand (String.ofList ('#' :: ds))) = .ok (.name span (String.ofList (stem ++ ds))) := by
  obtain ⟨d, ds, rfl⟩ := List.exists_cons_of_ne_nil hne
  obtain ⟨hd, htail⟩ := List.forall_mem_cons.1 hds
  by_cases hfirst : isFirstDigit d = true
  · rw [expand_of_first hfirst htail]
    exact (isName_stem hds).read
  · obtain rfl := eq_zero_of_isDigit hd (Bool.eq_false_iff.2 hfirst)
    obtain ⟨span, hscan⟩ := scan_mark hne hds
    rw [expand_of_zero htail]
    exact ⟨span, Expr.Parser.read_eq_ok_iff.2 ⟨_, hscan, .paramRef rfl⟩⟩

end Marker
end AnnotationExpr
