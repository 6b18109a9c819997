import AnnotationExpr.Program.Builtin
import AnnotationExpr.Program.Service
import AnnotationExpr.Proofs.Marker.Pieces
import AnnotationExpr.Proofs.Resolution.Arguments
import AnnotationExpr.Proofs.Token.Words

/-!
The markers of a text are all it can depend on. A name that is read from the text with names in place stands for
a marker of the text or for one whose digits start with zero, which no argument answers; only a text that has
the stem of such names in itself can name other arguments.
-/

namespace AnnotationExpr

namespace Marker

open Text (isDigit)

theorem digits?_eq_some {name : String} {digits : List Char} (h : digits? name = some digits) :
    name.toList = stem ++ digits ∧ digits ≠ [] ∧ ∀ d ∈ digits, isDigit 10 d = true := by
  unfold digits? at h
  split at h
  next hp =>
    dsimp only at h
    split at h
    · cases h
    next hd =>
      cases h
      obtain ⟨rest, hrest⟩ := List.isPrefixOf_iff_prefix.1 hp
      rw [← hrest, List.drop_left] at hd ⊢
      simpa using hd
  next => cases h

/-- The digits of a marker of the text, or a leading zero. -/
theorem digits_of_root {text name : String} {e : Expr} {digits : List Char} (ht : ¬ stem <:+: text.toList)
    (he : Expr.read (expand text) = .ok e) (hn : name ∈ e.roots) (hd : digits? name = some digits) :
    .marker digits ∈ pieces text.toList ∨ digits.head? = some '0' := by
  obtain ⟨ts, hts, hnames⟩ := Expr.names_of_read he
  obtain ⟨t, htm, hnt⟩ := hnames name hn
  obtain ⟨hname, hne, hall⟩ := digits?_eq_some hd
  have hcut := cut_pieces text.toList
  have hscan : Token.scanFrom 0 (written (pieces text.toList)) = .ok ts := by
    rwa [Token.scan, expand, String.toList_ofList] at hts
  cases hnt with
  | ident hk =>
    rw [String.toList_ofList] at hname
    obtain ⟨rest, hsuffix, hrest⟩ := Token.lexeme_of_ident hscan htm hk
    rw [hname, List.append_assoc] at hsuffix
    refine .inl (hcut.marker_mem ht hne hall (fun c hc => ?_) hsuffix)
    have := hrest c hc
    simp only [Token.isWordRest, Bool.or_eq_false_iff] at this
    exact this.2
  | paramRef hk =>
    obtain ⟨d, ds, rest, hl, hsuffix, hdigit⟩ := Token.lexeme_of_paramRef hscan htm hk
    rw [hl] at hname hsuffix
    rw [String.toList_ofList] at hname
    obtain rfl := List.append_cancel_left hname
    exact .inr (congrArg some (eq_zero_of_isDigit hdigit (hcut.isFirstDigit_eq_false hsuffix)))

end Marker

theorem Context.argument_withArguments (c : Context) {as bs : List Referent} {index : Nat}
    (hlen : as.length = bs.length) (h : index ≠ 0 → as[index - 1]? = bs[index - 1]?) :
    (c.withArguments as).argument index = (c.withArguments bs).argument index := by
  unfold argument withArguments
  by_cases h0 : index = 0
  · rw [if_pos h0, if_pos h0]
  · rw [if_neg h0, if_neg h0]
    dsimp only
    rw [h h0, hlen]

namespace Lookup

variable {c : Context} {as bs : List Referent} {digits : List Char}

theorem parameter_of_head?_zero (hlen : as.length = bs.length) (h : digits.head? = some '0') :
    parameter (c.withArguments as) digits = parameter (c.withArguments bs) digits := by
  unfold parameter
  by_cases hmany : 1 < digits.length
  · rw [if_pos ⟨hmany, h⟩, if_pos ⟨hmany, h⟩]
  · rw [if_neg fun hn => hmany hn.1, if_neg fun hn => hmany hn.1]
    refine c.argument_withArguments hlen fun h0 => absurd ?_ h0
    cases digits with
    | nil => cases h
    | cons d ds =>
      obtain rfl : ds = [] := List.length_eq_zero_iff.1 (by simp only [List.length_cons] at hmany; omega)
      cases h
      rfl

/-- An index beyond the bound stands for one that is beyond both lists. -/
theorem parameter_of_marker {text : String} (hlen : as.length = bs.length) (hbound : as.length < greatestIndex)
    (h : ∀ i ∈ Marker.indices text, as[i - 1]? = bs[i - 1]?) (hm : .marker digits ∈ Marker.pieces text.toList) :
    parameter (c.withArguments as) digits = parameter (c.withArguments bs) digits := by
  have hindex : Text.value 10 digits < Marker.indexBound → Text.value 10 digits ∈ Marker.indices text := by
    intro hlt
    exact List.mem_filterMap.2 ⟨_, hm, by simp [Marker.Piece.index?, hlt]⟩
  unfold parameter
  split
  · rfl
  · refine c.argument_withArguments hlen fun _ => ?_
    by_cases hlt : Text.value 10 digits < Marker.indexBound
    · have hle : Text.value 10 digits ≤ greatestIndex := Nat.le_pred_of_lt hlt
      rw [Nat.min_eq_left hle]
      exact h _ (hindex hlt)
    · have hle : greatestIndex ≤ Text.value 10 digits := Nat.le_trans (Nat.sub_le _ 1) (Nat.not_lt.1 hlt)
      rw [Nat.min_eq_right hle, List.getElem?_eq_none, List.getElem?_eq_none]
      · omega
      · omega

/-- Two argument lists of one length that agree on the markers of a text give the text the same referent or the
same error. No list in memory is as long as the index that stands for all greater ones. -/
theorem refer_eq_of_indices (l : Lookup) (c : Context) (localScope : Bool) {text : String} {as bs : List Referent}
    (ht : ¬ Marker.stem <:+: text.toList) (hlen : as.length = bs.length) (hbound : as.length < greatestIndex)
    (h : ∀ i ∈ Marker.indices text, as[i - 1]? = bs[i - 1]?) :
    l.refer { c with arguments := some as } localScope text =
      l.refer { c with arguments := some bs } localScope text := by
  unfold refer
  cases he : Expr.read (Marker.expand text) with
  | error e => rfl
  | ok e =>
    have hroots : ∀ n ∈ e.roots, SameParameter (c.withLocalScope localScope) as bs n := by
      intro n hn digits hd
      rcases Marker.digits_of_root ht he hn hd with hm | h0
      · exact parameter_of_marker hlen hbound h hm
      · exact parameter_of_head?_zero hlen h0
    exact congrArg (· >>= _) (resolve_withArguments (c.withLocalScope localScope) e hroots)

/-- `#2[0]` does not depend on the first of two arguments. -/
theorem refer_eq_of_second_index : ∃ (l : Lookup) (c : Context) (as bs : List Referent) (r : Referent),
    ¬ Marker.stem <:+: "#2[0]".toList ∧ as.length = bs.length ∧ as.length < greatestIndex ∧
      (∀ i ∈ Marker.indices "#2[0]", as[i - 1]? = bs[i - 1]?) ∧
      as.map Referent.text ≠ bs.map Referent.text ∧ r.text = "xs[0]" ∧
      l.refer { c with arguments := some as } true "#2[0]" = .ok r ∧
      l.refer { c with arguments := some bs } true "#2[0]" = .ok r := by
  let l := Program.initial.lookupFrom 0
  let c := Context.new none none
  let xs : Referent := .var ⟨"xs", .array .int, .parameter, 1⟩
  let as : List Referent := [.value (.int 1), xs]
  let bs : List Referent := [.value (.int 3), xs]
  have ht : ¬ Marker.stem <:+: "#2[0]".toList := by decide
  have hlen : as.length = bs.length := rfl
  have hbound : as.length < greatestIndex := by decide
  have h : ∀ i ∈ Marker.indices "#2[0]", as[i - 1]? = bs[i - 1]? := by
    have hindices : Marker.indices "#2[0]" = [2] := by decide +kernel
    rw [hindices]
    intro i hi
    rw [List.mem_singleton.1 hi]
    rfl
  have hr : (l.refer { c with arguments := some as } true "#2[0]").toOption.map Referent.text = some "xs[0]" := by
    decide +kernel
  obtain ⟨r, hr, htext⟩ := of_toOption_map hr
  exact ⟨l, c, as, bs, r, ht, hlen, hbound, h, by decide, htext, hr,
    (refer_eq_of_indices l c true ht hlen hbound h).symm.trans hr⟩

end Lookup
end AnnotationExpr
