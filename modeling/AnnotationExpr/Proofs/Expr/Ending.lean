import AnnotationExpr.Proofs.Expr.Grammar
import AnnotationExpr.Proofs.Marker.Pieces
import AnnotationExpr.Proofs.Token.Layout

/-!
How an expression ends whose text ends in a given word. Of expressions that can name a class, `this` and those in
parentheses end in tokens of their own; names and members end in that word themselves, and class literals in the
word `class`.
-/

namespace AnnotationExpr

/-- The expression has an end of its own, or its last name ends in the word. -/
def Expr.EndsIn (word : List Char) : Expr → Prop
  | this _ | enclosed _ _ => False
  | name _ n | field _ _ n => word <:+ n.toList
  | _ => True

open Expr.Parser Token in
theorem Expr.endsIn_of_read {text : String} {e : Expr} (h : Expr.read (Marker.expand text) = .ok e)
    (htext : "class".toList <:+ text.toList) : e.EndsIn "class".toList := by
  obtain ⟨ts, hts, hr⟩ := reads_of_read h
  have hscan : scanFrom 0 (Marker.written (Marker.pieces text.toList)) = .ok ts := by
    rwa [scan, Marker.expand, String.toList_ofList] at hts
  have hword : "class".toList <:+ Marker.written (Marker.pieces text.toList) :=
    (Marker.cut_pieces text.toList).suffix_written (by decide) (by decide) htext
  have hspace (c : Char) (hc : c ∈ "class".toList) : isSpace c = false := by
    have hall : "class".toList.all (fun c => !isSpace c) = true := by decide
    simpa using List.all_eq_true.1 hall c hc
  have hlaid := laid_of_scanFrom 0 _ hscan
  have hname (cs : List Char) : "class".toList <:+ (String.ofList cs).toList ↔ "class".toList <:+ cs := by
    rw [show (String.ofList cs).toList = cs from String.toList_ofList]
  cases e with
  | this s =>
    cases hr with
    | this hk =>
      have hlast := suffix_of_laid (by decide) hspace hlaid hword
      rw [lexeme_of_this hscan List.mem_cons_self hk] at hlast
      exact absurd hlast (by decide)
  | enclosed s d =>
    cases hr with
    | @enclosed t u ts _ _ _ ht hd hu =>
      have hlast : [u] <:+ t :: ts := hd.suffix.trans (List.suffix_cons t ts)
      have hlexeme : u.lexeme = [')'] := lexeme_of_sign hscan (hlast.subset List.mem_cons_self) (by rw [hu]; rfl)
      obtain ⟨after, hafter, hin⟩ := hlaid.suffix_of_sign hlast hlexeme (by decide) hword
      cases hafter with
      | nil hblank =>
        have hc := hblank 'c' (hin.subset (by decide))
        exact absurd hc (by decide)
  | name s n =>
    cases hr with
    | @paramRef t _ hk =>
      have hlast := suffix_of_laid (by decide) hspace hlaid hword
      obtain ⟨d, digits, -, hlexeme, -, -⟩ := lexeme_of_paramRef hscan List.mem_cons_self hk
      rw [hlexeme] at hlast ⊢
      have hdigits : "class".toList <:+ d :: digits := suffix_of_notMem [] (by decide) hlast
      exact (hname _).2 (hdigits.trans (List.suffix_append _ _))
    | name => exact (hname _).2 (suffix_of_laid (by decide) hspace hlaid hword)
  | field s d n =>
    cases hr with
    | @field t m _ _ _ _ hd ht hm =>
      have hlexeme : t.lexeme = ['.'] :=
        lexeme_of_sign hscan (hd.suffix.subset List.mem_cons_self) (by rw [ht]; rfl)
      obtain ⟨after, hafter, hin⟩ := hlaid.suffix_of_sign hd.suffix hlexeme (by decide) hword
      exact (hname _).2 (suffix_of_laid (by decide) hspace hafter hin)
  | _ => trivial

end AnnotationExpr
