import AnnotationExpr.Proofs.Expr.Complete
import AnnotationExpr.Proofs.Expr.Restated
import AnnotationExpr.Proofs.Expr.Tokens
import AnnotationExpr.Proofs.Marker.Clean

/-!
Reading a text with and without names in place of its markers. A name is put where a parameter reference stood, and
between signs, so no token next to it goes on with it; all other tokens stay as they are.
-/

namespace AnnotationExpr

open Text (isDigit)

namespace Token

open AnnotationExpr.Marker (Cut Clean isFirstDigit written stem)

variable {c : Char} {w s : List Char} {k : Kind}

theorem clean_of_string (h : pick c (w ++ s) = .ok (.stringLit, w.length))
    (hmarker : ∀ d, isFirstDigit d = true → ¬ ['#', d] <:+: c :: w) : Clean (c :: w) := by
  obtain ⟨-, body, rfl, -⟩ := exists_items_of_pick h
  rintro r hr
  cases r with
  | nil =>
    have hlast := hr.getLast (List.cons_ne_nil _ _)
    simp at hlast
  | cons d r =>
    refine ⟨d, rfl, Bool.eq_false_iff.2 fun hd => hmarker d hd ?_⟩
    exact (List.prefix_append ['#', d] r).isInfix.trans hr.isInfix

/-- What may come after a token in the text with the names in place. -/
theorem apart_written {ps : List Marker.Piece} (h : pick c (w ++ s) = .ok (k, w.length))
    (hpoint : k = .intLit → '.' ∉ w) (hcut : Cut s ps)
    (hnext : k.isPunct = false → ∀ d ∈ s.head?, isWordRest d = false ∧ d ≠ '#') : Apart k (c :: w) (written ps) := by
  by_cases hk : k.isSymbol = true
  · rcases hcut.head? with hhead | ⟨hhead, -⟩
    · intro d hd
      exact apart_of_pick h hk d (hhead ▸ hd)
    · intro d hd
      rw [hhead] at hd
      cases hd
      cases k <;> first | rfl | cases hk
  · have hk := Bool.eq_false_iff.2 hk
    have hpunct : k.isPunct = false := Bool.eq_false_iff.2 fun hp => by
      rw [isSymbol_of_isPunct hp] at hk
      cases hk
    have hhead : (written ps).head? = s.head? :=
      hcut.head?.resolve_right fun hmark => (hnext hpunct '#' hmark.2).2 rfl
    intro d hd
    rw [hhead] at hd
    have hword := (hnext hpunct d hd).1
    cases k with
    | intLit =>
      rw [joins, hword, Bool.false_or, Bool.and_eq_false_iff]
      by_cases hdot : d = '.'
      · subst hdot
        refine .inr ?_
        obtain ⟨t, rfl⟩ := List.head?_eq_some_iff.1 hd
        rw [isHex_of_point h (hpoint rfl) rfl]
        rfl
      · exact .inl (decide_eq_false hdot)
    | this | super | null | true | false | «class» | ident | longLit | doubleLit => exact hword
    | _ => cases hk

/-- Where the text goes on with no word and no marker, it does so with the names in place. -/
theorem ends_written {ps : List Marker.Piece} (h : Cut s ps)
    (hs : ∀ d ∈ s.head?, isWordRest d = false ∧ d ≠ '#') : Ends (written ps) := by
  rcases h.head? with hhead | ⟨-, hmark⟩
  · intro d hd
    exact (hs d (hhead ▸ hd)).1
  · exact absurd rfl (hs '#' hmark).2

theorem restates_of_marker (ds : List Char) (span span' : Span) :
    Restates ⟨.paramRef, '#' :: ds, span⟩ ⟨.ident, stem ++ ds, span'⟩ :=
  ⟨rfl, nofun⟩

/-- The tokens of a text stay where the names are put in, but for references that turn into names. -/
theorem Scans.written {o : Nat} {ts : List Token} {ps : List Marker.Piece} (h : Scans o s ts) (hcut : Cut s ps)
    (hchain : ts.IsChain Separate) (hpoint : Unpointed ts)
    (hstring : ∀ t ∈ ts, t.kind = .stringLit → ∀ d, isFirstDigit d = true → ¬ ['#', d] <:+: t.lexeme) (o' : Nat) :
    ∃ ts', Scans o' (Marker.written ps) ts' ∧ List.Forall₂ Restates ts ts' := by
  induction h generalizing ps o' with
  | nil =>
    cases hcut
    exact ⟨[], .nil, .nil⟩
  | @space o c s ts hc h ih =>
    have hclean : Clean [c] := Marker.clean_of_notMem (by simpa using (head_of_space hc).2.symm)
    obtain ⟨ps', hcut', hwritten⟩ := Cut.of_clean (w := [c]) hclean hcut
    obtain ⟨ts', hts', hall⟩ := ih hcut' hchain hpoint hstring (o' + c.utf8Size)
    rw [hwritten]
    exact ⟨ts', .space hc hts', hall⟩
  | @token o c w s k ts hc hp h ih =>
    have hnext : k.isPunct = false → ∀ d ∈ s.head?, isWordRest d = false ∧ d ≠ '#' := by
      intro hk
      refine h.head fun u hu => ?_
      rcases (List.isChain_cons.1 hchain).1 u hu with hpunct | hpunct
      · rw [show k.isPunct = true from hpunct] at hk
        cases hk
      · exact hpunct
    have hpointk : k = .intLit → '.' ∉ w := fun hk hmem =>
      hpoint _ List.mem_cons_self hk (List.mem_cons_of_mem _ hmem)
    have hrest {ps' : List Marker.Piece} (hcut' : Cut s ps') (o' : Nat) :
        ∃ ts', Scans o' (Marker.written ps') ts' ∧ List.Forall₂ Restates ts ts' :=
      ih hcut' (List.isChain_cons.1 hchain).2 (fun t ht => hpoint t (List.mem_cons_of_mem _ ht))
        (fun t ht => hstring t (List.mem_cons_of_mem _ ht)) o'
    -- a token without a marker in it stays
    have hsame (hclean : Clean (c :: w)) : ∃ ts', Scans o' (Marker.written ps) ts' ∧
        List.Forall₂ Restates (⟨k, c :: w, ⟨o, byteLength (c :: w)⟩⟩ :: ts) ts' := by
      obtain ⟨ps', hcut', hwritten⟩ := Cut.of_clean (w := c :: w) hclean hcut
      obtain ⟨ts', hts', hall⟩ := hrest hcut' (o' + byteLength (c :: w))
      have hpick : pick c (w ++ Marker.written ps') = .ok (k, w.length) := by
        refine pick_append (pick_of_append hp (Nat.le_refl _) ?_) (apart_written hp hpointk hcut' hnext)
        rwa [List.take_length]
      rw [hwritten]
      exact ⟨_, .token hc hpick hts', .cons ⟨rfl, id⟩ hall⟩
    by_cases hparam : k = .paramRef
    · subst hparam
      obtain ⟨rfl, hrun, hne⟩ := pick_paramRef hp
      have hdigits : ∀ d ∈ w, isDigit 10 d = true := fun d hd =>
        mem_take_run (Nat.le_of_eq hrun) (by rwa [List.take_left])
      obtain ⟨d, ds, rfl⟩ := List.exists_cons_of_ne_nil (List.ne_nil_of_length_pos (Nat.pos_of_ne_zero hne))
      by_cases hd : isFirstDigit d = true
      · have hends : ∀ e ∈ s.head?, isDigit 10 e = false := fun e he => apart_of_pick hp rfl e he
        obtain ⟨ps', hcut', hwritten⟩ := Cut.of_marker hd (List.forall_mem_cons.1 hdigits).2 hends hcut
        have hpick := pick_stem hdigits (ends_written hcut' (hnext rfl))
        obtain ⟨ts', hts', hall⟩ := hrest hcut' (o' + byteLength (stem ++ d :: ds))
        rw [Marker.stem_eq] at hts' hwritten
        have htoken := Scans.token rfl hpick hts'
        rw [List.append_assoc] at htoken
        rw [hwritten]
        refine ⟨_, htoken, .cons ?_ hall⟩
        exact restates_of_marker (d :: ds) _ _
      · refine hsame fun r hr => ?_
        rcases List.suffix_cons_iff.1 hr with he | hr
        · cases he
          exact ⟨d, rfl, Bool.eq_false_iff.2 hd⟩
        · have hmark := hdigits '#' (hr.subset List.mem_cons_self)
          cases hmark
    · by_cases hkind : k = .stringLit
      · subst hkind
        exact hsame (clean_of_string hp (hstring _ List.mem_cons_self rfl))
      · exact hsame (clean_of_pick hp hkind hparam)

end Token

namespace Expr

/-- Putting names in place of markers before reading gives the tree that reading the markers gives. -/
theorem read_prepare {text : String} {ts : List Token} {e : Expr} (hts : Token.scan text = .ok ts)
    (h : Expr.read text = .ok e)
    (hstring : ∀ t ∈ ts, t.kind = .stringLit → ∀ d, Marker.isFirstDigit d = true → ¬ ['#', d] <:+: t.lexeme) :
    ∃ e', Expr.read (Marker.prepare text).text = .ok e' ∧ e'.unplaced = e.unplaced := by
  obtain ⟨ts', hts', hspells⟩ := Parser.read_eq_ok_iff.1 h
  obtain rfl : ts' = ts := Except.ok.inj (hts'.symm.trans hts)
  obtain ⟨us, hus, hall⟩ := (Token.scans_of_scanFrom hts).written (Marker.cut_pieces text.toList) hspells.chain
    hspells.unpointed hstring 0
  obtain ⟨_, hp, hunplaced⟩ := hspells.restated hall
  obtain ⟨e', rfl, he⟩ := Phrase.exists_expr hunplaced
  refine ⟨e', Parser.read_eq_ok_iff.2 ⟨us, ?_, hp⟩, he⟩
  rw [Token.scan, Marker.prepare, Marker.expand, String.toList_ofList]
  exact hus.scanFrom

/-- The mark inside the string is no marker, and the index zero is left to the parser. -/
theorem read_prepare_marked : ∃ ts e e', Token.scan "#1 + f(\"#a\", #0)" = .ok ts ∧
    Expr.read "#1 + f(\"#a\", #0)" = .ok e ∧
    (∀ t ∈ ts, t.kind = .stringLit → ∀ d, Marker.isFirstDigit d = true → ¬ ['#', d] <:+: t.lexeme) ∧
    (Marker.prepare "#1 + f(\"#a\", #0)").text = "_param_1 + f(\"#a\", #0)" ∧
    Expr.read "_param_1 + f(\"#a\", #0)" = .ok e' ∧ e'.unplaced = e.unplaced := by
  have hread : (Expr.read "#1 + f(\"#a\", #0)").toOption.map Expr.text =
      some "_param_1 + f(\"#a\", _param_0)" := by decide +kernel
  have htext : (Marker.prepare "#1 + f(\"#a\", #0)").text = "_param_1 + f(\"#a\", #0)" := by decide +kernel
  have hstrings : (Token.scan "#1 + f(\"#a\", #0)").toOption.map
      (fun ts => (ts.filter fun t => t.kind = .stringLit).map Token.lexeme) = some ["\"#a\"".toList] := by
    decide +kernel
  obtain ⟨e, he, -⟩ := of_toOption_map hread
  obtain ⟨ts, hts, hlexemes⟩ := of_toOption_map hstrings
  have hstring : ∀ t ∈ ts, t.kind = .stringLit → ∀ d, Marker.isFirstDigit d = true → ¬ ['#', d] <:+: t.lexeme := by
    intro t ht hk d hd hinfix
    have hmem : t.lexeme ∈ (ts.filter fun t => t.kind = .stringLit).map Token.lexeme :=
      List.mem_map_of_mem (List.mem_filter.2 ⟨ht, decide_eq_true hk⟩)
    rw [hlexemes, List.mem_singleton] at hmem
    rw [hmem] at hinfix
    have hd' : d = 'a' := by simpa [List.infix_cons_iff] using hinfix
    rw [hd'] at hd
    cases hd
  obtain ⟨e', he', hunplaced⟩ := read_prepare hts he hstring
  rw [htext] at he'
  exact ⟨ts, e, e', hts, he, hstring, htext, he', hunplaced⟩

end Expr
end AnnotationExpr
