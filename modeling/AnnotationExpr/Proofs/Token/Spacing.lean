import AnnotationExpr.Proofs.Expr.Places
import AnnotationExpr.Proofs.Token.Patterns

/-!
A text is its tokens and white space around them, and the tokens do not depend on that white space: with one space
between them they are read again. Only a number with a point before an incomplete exponent needs what comes after it.
-/

namespace AnnotationExpr.Token

variable {o : Nat} {s : List Char} {c : Char} {ts : List Token}

/-! Where tokens stand. -/

/-- Later tokens start where the earlier ones have ended. -/
theorem Scans.disjoint (h : Scans o s ts) : ts.Pairwise fun t u => t.span.stop ≤ u.span.offset := by
  induction h with
  | nil => exact .nil
  | space _ _ ih => exact ih
  | token _ _ h ih => exact .cons h.offset_le ih

/-- The characters of a token are those of the text at its place. -/
theorem Scans.place (h : Scans o s ts) : ∀ t ∈ ts, t.lexeme ≠ [] ∧ t.span.length = byteLength t.lexeme ∧
    ∃ before after, s = before ++ t.lexeme ++ after ∧ t.span.offset = o + byteLength before := by
  induction h with
  | nil => exact List.forall_mem_nil _
  | @space o d s ts _ _ ih =>
    intro t ht
    obtain ⟨hne, hlength, before, after, rfl, hoffset⟩ := ih t ht
    exact ⟨hne, hlength, d :: before, after, by simp, by rw [hoffset, byteLength, Nat.add_assoc]⟩
  | @token o d w s k ts _ _ _ ih =>
    intro t ht
    rcases List.mem_cons.1 ht with rfl | ht
    · exact ⟨List.cons_ne_nil d w, rfl, [], s, by simp, rfl⟩
    · obtain ⟨hne, hlength, before, after, rfl, hoffset⟩ := ih t ht
      exact ⟨hne, hlength, d :: w ++ before, after, by simp, by rw [hoffset, byteLength_append, Nat.add_assoc]⟩

/-- A character outside of all tokens is white space. -/
theorem Scans.isSpace_of_outside {before after : List Char} (h : Scans o s ts) (hs : s = before ++ c :: after)
    (hout : ∀ t ∈ ts, o + byteLength before < t.span.offset ∨ t.span.stop ≤ o + byteLength before) :
    isSpace c = true := by
  induction h generalizing before with
  | nil => simp at hs
  | @space o d s ts hd h ih =>
    cases before with
    | nil =>
      obtain ⟨rfl, -⟩ := List.cons.inj hs
      exact hd
    | cons e before =>
      obtain ⟨rfl, hrest⟩ := List.cons.inj hs
      refine ih hrest fun t ht => ?_
      rw [Nat.add_assoc]
      exact hout t ht
  | @token o d w s k ts _ _ h ih =>
    have htoken := hout _ List.mem_cons_self
    simp only [Span.stop] at htoken
    rw [← List.cons_append, List.append_eq_append_iff] at hs
    rcases hs with ⟨skipped, rfl, hs⟩ | ⟨more, hlexeme, hs⟩
    · refine ih hs fun t ht => ?_
      rw [Nat.add_assoc, ← byteLength_append]
      exact hout t (List.mem_cons_of_mem _ ht)
    · cases more with
      | nil =>
        rw [List.append_nil] at hlexeme
        have hnext : s = [] ++ c :: after := hs.symm
        refine ih hnext fun t ht => ?_
        rw [hlexeme]
        exact hout t (List.mem_cons_of_mem _ ht)
      | cons e more =>
        -- the character would be one of the token
        have hpos := e.utf8Size_pos
        rw [hlexeme, byteLength_append, byteLength] at htoken
        omega

/-! Tokens with spaces between them. -/

theorem joins_space (k : Kind) (lexeme : List Char) : joins k lexeme ' ' = false := by
  cases k <;> simp [joins] <;> decide

/-- The kind of a token and its characters, without its place. -/
def content (t : Token) : Kind × List Char := (t.kind, t.lexeme)

/-- A token of its pattern is read in front of a space, and at the end of a text. -/
theorem exists_scans_of_matches {t : Token} {r : List Char} {us : List Token} (h : Matches t.kind t.lexeme)
    (hr : ∀ d ∈ r.head?, d = ' ') (hus : Scans (o + byteLength t.lexeme) r us) :
    ∃ u, Scans o (t.lexeme ++ r) (u :: us) ∧ u.content = t.content := by
  obtain ⟨c, w, hlexeme, hc⟩ := h.exists_cons
  have hapart : Apart t.kind (c :: w) r := fun d hd => by rw [hr d hd, joins_space]
  rw [hlexeme] at h hus ⊢
  refine ⟨_, .token hc (pick_append (pick_eq_length_iff.2 h) hapart) hus, ?_⟩
  rw [content, content, hlexeme]

/-- Tokens with spaces between them are read again. -/
theorem exists_scans_spaced (h : ∀ t ∈ ts, Matches t.kind t.lexeme) (o : Nat) :
    ∃ us, Scans o ([' '].intercalate (ts.map lexeme)) us ∧ us.map content = ts.map content := by
  induction ts generalizing o with
  | nil => exact ⟨[], .nil, rfl⟩
  | cons t ts ih =>
    obtain ⟨ht, hts⟩ := List.forall_mem_cons.1 h
    cases ts with
    | nil =>
      obtain ⟨u, hu, hcontent⟩ := exists_scans_of_matches (o := o) (r := []) ht nofun .nil
      refine ⟨[u], ?_, ?_⟩
      · simpa using hu
      · simp [hcontent]
    | cons t' ts =>
      obtain ⟨us, hus, hcontents⟩ := ih hts (o + byteLength t.lexeme + ' '.utf8Size)
      obtain ⟨u, hu, hcontent⟩ := exists_scans_of_matches ht (by simp) (.space rfl hus)
      refine ⟨u :: us, ?_, ?_⟩
      · simpa [List.intercalate_cons_cons] using hu
      · simp [hcontent, hcontents]

/-- The tokens of a text stand in it one after the other, each at its place and with nothing but white space outside of
them. The text made of these tokens, with a space between any two, has the same tokens, unless an integer literal among
them ends in a point. -/
theorem scan_spaced (text : String) (ts : List Token) (h : scan text = .ok ts) :
    ts.Pairwise (fun t u => t.span.stop ≤ u.span.offset) ∧
      (∀ t ∈ ts, t.lexeme ≠ [] ∧ t.span.length = byteLength t.lexeme ∧ t.span.slice text = String.ofList t.lexeme) ∧
      (∀ before c after, text.toList = before ++ c :: after →
        (∀ t ∈ ts, byteLength before < t.span.offset ∨ t.span.stop ≤ byteLength before) → isSpace c = true) ∧
      ((∀ t ∈ ts, t.kind = .intLit → t.lexeme.getLast? ≠ some '.') →
        ∃ us, scan (" ".intercalate (ts.map fun t => String.ofList t.lexeme)) = .ok us ∧
          us.map content = ts.map content) := by
  have hscans : Scans 0 text.toList ts := scans_of_scanFrom h
  refine ⟨hscans.disjoint, fun t ht => ?_, fun before c after htext hout => ?_, fun hpoint => ?_⟩
  · obtain ⟨hne, hlength, before, after, htext, hoffset⟩ := hscans.place t ht
    rw [Nat.zero_add] at hoffset
    exact ⟨hne, hlength, Span.slice_eq htext hoffset (by rw [Span.stop, hoffset, hlength])⟩
  · exact hscans.isSpace_of_outside htext (by simpa using hout)
  · obtain ⟨us, hus, hcontent⟩ := exists_scans_spaced (hscans.matches hpoint) 0
    refine ⟨us, ?_, hcontent⟩
    have htext : (" ".intercalate (ts.map fun t => String.ofList t.lexeme)).toList =
        [' '].intercalate (ts.map lexeme) := by
      simp [String.toList_intercalate, Function.comp_def]
    rw [scan, htext, hus.scanFrom]

/-- A comparison without and with spaces. -/
theorem scan_spaced_ltEq :
    ∃ ts us, scan "x<=1." = .ok ts ∧ scan "x <= 1." = .ok us ∧ us.map content = ts.map content := by
  have hscan : scan "x<=1." = .ok [⟨.ident, ['x'], ⟨0, 1⟩⟩, ⟨.ltEq, ['<', '='], ⟨1, 2⟩⟩,
      ⟨.doubleLit, ['1', '.'], ⟨3, 2⟩⟩] := by
    decide +kernel
  obtain ⟨us, hus, hcontent⟩ := (scan_spaced _ _ hscan).2.2.2 (by decide)
  have htext : " ".intercalate [String.ofList ['x'], String.ofList ['<', '='], String.ofList ['1', '.']] = "x <= 1." :=
    by decide +kernel
  simp only [List.map_cons, List.map_nil, htext] at hus
  exact ⟨_, us, hscan, hus, hcontent⟩

end AnnotationExpr.Token
