import AnnotationExpr.Proofs.Marker.Alone
import AnnotationExpr.Proofs.Text.Decimal
import AnnotationExpr.Resolution

/-!
What a parameter reference refers to, from its text to the argument. No lookup is made on the way, so it is the same
for every service.
-/

namespace AnnotationExpr

open Text (isDigit value)

namespace Lookup

variable {l : Lookup} {c : Context} {localScope : Bool} {ds : List Char}

theorem named_of_digits {name : String} (hm : c.inMember = false) (hd : Marker.digits? name = some ds) :
    l.named c name = parameter c ds := by
  unfold named
  rw [hm, if_neg Bool.false_ne_true, hd]

theorem not_class_suffix (hds : ∀ d ∈ ds, isDigit 10 d = true) : "class".toList.isSuffixOf ('#' :: ds) = false := by
  refine Bool.eq_false_iff.2 fun h => ?_
  rcases List.mem_cons.1 ((List.isSuffixOf_iff_suffix.1 h).subset (show 's' ∈ "class".toList by decide)) with hs | hs
  · cases hs
  · have := hds 's' hs
    revert this
    decide

/-- Such a text refers to the argument, but not to a class name alone. -/
theorem refer_mark (hne : ds ≠ []) (hds : ∀ d ∈ ds, isDigit 10 d = true) (hm : c.inMember = false) :
    l.refer c localScope (String.ofList ('#' :: ds)) = parameter c ds >>= fun r =>
      if r.isClassName then .error (.invalid (String.ofList ('#' :: ds)) .classNameAtEnd) else pure r := by
  obtain ⟨span, hread⟩ := Marker.read_mark hne hds
  have hresolve : l.resolve (c.withLocalScope localScope) (.name span (String.ofList (Marker.stem ++ ds))) =
      parameter c ds :=
    named_of_digits (c := c.withLocalScope localScope) hm (Marker.digits?_stem hne hds)
  unfold refer
  simp only [hread, hresolve, String.toList_ofList, not_class_suffix hds, Bool.not_false, Bool.and_true]

theorem parameter_of_leadingZero (hmany : 1 < ds.length) (hzero : ds.head? = some '0') :
    parameter c ds = .error (.invalid (String.ofList ('#' :: ds)) .leadingZero) := by
  unfold parameter
  rw [if_pos ⟨hmany, hzero⟩]

/-- An index that may count arguments. -/
structure Index (ds : List Char) : Prop where
  noLeadingZero : ds.head? ≠ some '0'
  pos : 0 < value 10 ds

theorem index_of_digits (hne : ds ≠ []) (hds : ∀ d ∈ ds, isDigit 10 d = true) (hzero : ds.head? ≠ some '0') :
    Index ds := by
  obtain ⟨d, ds, rfl⟩ := List.exists_cons_of_ne_nil hne
  refine ⟨hzero, Text.value_pos (List.forall_mem_cons.1 hds).1 ?_⟩
  rintro rfl
  exact hzero rfl

theorem Index.parameter (h : Index ds) : parameter c ds = c.argument (min (value 10 ds) greatestIndex) := by
  unfold Lookup.parameter
  rw [if_neg fun hboth => h.noLeadingZero hboth.2]

theorem Index.ne_zero (h : Index ds) : min (value 10 ds) greatestIndex ≠ 0 := by
  have hpos := h.pos
  have hgreatest : 0 < greatestIndex := by decide
  omega

theorem Index.parameter_of_none (h : Index ds) (ha : c.arguments = none) :
    Lookup.parameter c ds =
      .error (.invalid ("#" ++ toString (min (value 10 ds) greatestIndex)) .noParameters) := by
  rw [h.parameter, Context.argument, if_neg h.ne_zero, ha]

/-- An index beyond the greatest one is beyond every argument list, as the greatest one is. -/
theorem Index.parameter_of_lt (h : Index ds) {as : List Referent} (ha : c.arguments = some as)
    (hbound : as.length < greatestIndex) (hlt : as.length < value 10 ds) :
    Lookup.parameter c ds = .error (.indexTooBig (min (value 10 ds) greatestIndex) as.length) := by
  have hnone : as[min (value 10 ds) greatestIndex - 1]? = none := List.getElem?_eq_none (by omega)
  rw [h.parameter, Context.argument, if_neg h.ne_zero, ha]
  simp only [hnone]

theorem Index.parameter_of_le (h : Index ds) {as : List Referent} (ha : c.arguments = some as)
    (hbound : as.length < greatestIndex) (hle : value 10 ds ≤ as.length) :
    ∃ r, as[value 10 ds - 1]? = some r ∧ Lookup.parameter c ds = .ok r := by
  have hpos := h.pos
  have hmin : min (value 10 ds) greatestIndex = value 10 ds := Nat.min_eq_left (by omega)
  have hsome : as[value 10 ds - 1]? = some as[value 10 ds - 1] := List.getElem?_eq_getElem (by omega)
  refine ⟨_, hsome, ?_⟩
  rw [h.parameter, hmin, Context.argument, if_neg (by omega), ha]
  simp only [hsome]

/-- What a mark with digits after it refers to outside of members: nothing for the index zero, for a zero in front, for
an index beyond the arguments or where there are none, and else the argument with that index, unless it is a class name
alone. Greater indices than fit in a machine word are told as the greatest one that does. -/
theorem refer_parameter (l : Lookup) (c : Context) (localScope : Bool) {ds : List Char} (hne : ds ≠ [])
    (hds : ∀ d ∈ ds, isDigit 10 d = true) (hm : c.inMember = false)
    (hbound : ∀ as ∈ c.arguments, as.length < greatestIndex) :
    (ds = ['0'] → l.refer c localScope (String.ofList ('#' :: ds)) = .error (.invalid "#0" .indexZero)) ∧
    (1 < ds.length → ds.head? = some '0' → l.refer c localScope (String.ofList ('#' :: ds)) =
      .error (.invalid (String.ofList ('#' :: ds)) .leadingZero)) ∧
    (ds.head? ≠ some '0' →
      (c.arguments = none → l.refer c localScope (String.ofList ('#' :: ds)) =
        .error (.invalid ("#" ++ toString (min (value 10 ds) greatestIndex)) .noParameters)) ∧
      ∀ as, c.arguments = some as →
        (as.length < value 10 ds → l.refer c localScope (String.ofList ('#' :: ds)) =
          .error (.indexTooBig (min (value 10 ds) greatestIndex) as.length)) ∧
        (value 10 ds ≤ as.length → ∃ r, as[value 10 ds - 1]? = some r ∧
          l.refer c localScope (String.ofList ('#' :: ds)) =
            if r.isClassName then .error (.invalid (String.ofList ('#' :: ds)) .classNameAtEnd) else .ok r)) := by
  rw [refer_mark hne hds hm]
  refine ⟨?_, fun hmany hzero => ?_, fun hzero => ⟨fun ha => ?_, fun as ha => ⟨fun hlt => ?_, fun hle => ?_⟩⟩⟩
  · rintro rfl
    rfl
  · rw [parameter_of_leadingZero hmany hzero]
    rfl
  · rw [(index_of_digits hne hds hzero).parameter_of_none ha]
    rfl
  · rw [(index_of_digits hne hds hzero).parameter_of_lt ha (hbound as ha) hlt]
    rfl
  · obtain ⟨r, hr, hparameter⟩ := (index_of_digits hne hds hzero).parameter_of_le ha (hbound as ha) hle
    refine ⟨r, hr, ?_⟩
    rw [hparameter]
    rfl

/-- A service that fails at every lookup. -/
def silent : Lookup where
  bareName _ := .error ⟨none⟩
  field _ _ := .error ⟨none⟩
  classNamed _ := .error ⟨none⟩
  method _ _ _ := .error ⟨none⟩
  package _ := .error ⟨none⟩
  classIn _ _ := .error ⟨none⟩
  supertypes _ := []
  isInterface _ := false
  enclosing _ := []
  methodParameters := none

/-- With two arguments, the second a class name: `#1` is the first, and the others each refer to nothing. -/
theorem refer_parameter_two : ∃ (c : Context) (as : List Referent) (r : Referent),
    c.inMember = false ∧ c.arguments = some as ∧ as.length = 2 ∧ as.length < greatestIndex ∧ as[0]? = some r ∧
      silent.refer c false "#1" = .ok r ∧
      silent.refer c false "#2" = .error (.invalid "#2" .classNameAtEnd) ∧
      silent.refer c false "#0" = .error (.invalid "#0" .indexZero) ∧
      silent.refer c false "#02" = .error (.invalid "#02" .leadingZero) ∧
      silent.refer c false "#18446744073709551616" = .error (.indexTooBig 18446744073709551615 2) := by
  let as : List Referent := [.value (.int 5), .className .object]
  let c := Context.new none (some as)
  have digits {s : String} (h : s.toList.all (isDigit 10) = true) : ∀ d ∈ s.toList, isDigit 10 d = true :=
    List.all_eq_true.1 h
  have hbound : ∀ as ∈ c.arguments, as.length < greatestIndex := by
    rintro as ⟨⟩
    decide
  have h {s : String} (hne : s.toList ≠ []) (hs : s.toList.all (isDigit 10) = true) :=
    refer_parameter silent c false hne (digits hs) rfl hbound
  obtain ⟨r, hr, hone⟩ := ((@h "1" (by decide) (by decide)).2.2 (by decide)).2 as rfl |>.2 (by decide)
  obtain ⟨r', hr', htwo⟩ := ((@h "2" (by decide) (by decide)).2.2 (by decide)).2 as rfl |>.2 (by decide)
  cases hr
  cases hr'
  exact ⟨c, as, _, rfl, rfl, rfl, by decide, rfl, hone, htwo, (@h "0" (by decide) (by decide)).1 (by decide),
    (@h "02" (by decide) (by decide)).2.1 (by decide) (by decide),
    ((@h "18446744073709551616" (by decide) (by decide)).2.2 (by decide)).2 as rfl |>.1 (by decide)⟩

end Lookup
end AnnotationExpr
