import AnnotationExpr.Expr.Parser
import AnnotationExpr.Proofs.Marker.Pieces
import AnnotationExpr.Proofs.Token.Words

/-! Texts that are a single name: nothing in them is a marker, and they are read as that name. -/

namespace AnnotationExpr

/-- The text is one identifier from its first character to its last. -/
def Token.IsName (text : String) : Prop := ∃ span, Token.scan text = .ok [⟨.ident, text.toList, span⟩]

theorem Token.isName_of_toOption {text : String} (span : Span)
    (h : (scan text).toOption = some [⟨.ident, text.toList, span⟩]) : IsName text := by
  obtain ⟨ts, hts, rfl⟩ := of_toOption_map (f := id) (congrArg (Option.map id) h)
  exact ⟨span, hts⟩

theorem Token.IsName.isWordRest {text : String} (h : IsName text) : ∀ c ∈ text.toList, isWordRest c = true := by
  obtain ⟨span, h⟩ := h
  obtain ⟨c, s, n, -, hp, hl⟩ := mem_scanFrom 0 text.toList h (List.mem_singleton_self _)
  obtain ⟨hc, rfl⟩ := pick_ident hp
  rw [take_run] at hl
  intro d hd
  rw [show text.toList = c :: s.takeWhile Token.isWordRest from hl] at hd
  rcases List.mem_cons.1 hd with rfl | hd
  · simp [Token.isWordRest, hc]
  · exact List.mem_takeWhile_imp hd

theorem Token.IsName.mark_notMem {text : String} (h : IsName text) : '#' ∉ text.toList :=
  fun hm => absurd (h.isWordRest _ hm) (by decide)

theorem Marker.expand_of_notMem {text : String} (h : '#' ∉ text.toList) : expand text = text := by
  have hwritten : (pieces text.toList).flatMap Piece.expand = text.toList :=
    written_of_noMark (cut_pieces text.toList) h
  rw [expand, hwritten, String.ofList_toList]

theorem Token.IsName.expand {text : String} (h : IsName text) : Marker.expand text = text :=
  Marker.expand_of_notMem h.mark_notMem

open Expr.Parser in
theorem Token.IsName.read {text : String} (h : IsName text) : ∃ span, Expr.read text = .ok (.name span text) := by
  obtain ⟨span, h⟩ := h
  refine ⟨span, ?_⟩
  rw [Expr.read, h]
  have hroot : ∀ stop, root stop [⟨.ident, text.toList, span⟩] = .ok (.name span text) := by
    intro stop
    have hprimary : primary stop ⟨.ident, text.toList, span⟩ [] = .ok ⟨.name span text, [], by simp⟩ := by
      simp [primary, literal?, nextIs]
    have hunary : unary stop [⟨.ident, text.toList, span⟩] = .ok ⟨.name span text, [], by simp⟩ := by
      rw [unary]
      simp only [UnaryOp.ofKind?, hprimary]
      simp only [bind, Except.bind]
      rw [suffixes.eq_def]
      rfl
    rw [root, binary, hunary]
    simp only [bind, Except.bind]
    rw [climb.eq_def]
    rfl
  exact hroot _

end AnnotationExpr
