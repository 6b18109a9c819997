import AnnotationExpr.Proofs.Resolution.Parameter
import AnnotationExpr.Proofs.Resolution.ParameterName
import Mathlib.Data.List.Nodup

/-!
A parameter under its name and under its marker. In a method the scope of its body comes first, so with the local scope
the name of a parameter means that parameter, whatever fields and classes have the name; of parameters of one name it
means the last. The marker means the parameter at its index, with and without the local scope.
-/

namespace AnnotationExpr

namespace Lookup

variable {l : Lookup} {c : Context} {name : String}

theorem named_of_bareName {v : Variable} (hm : c.inMember = false) (hd : Marker.digits? name = none)
    (hv : l.bareName name = .ok (some (.var v))) : l.named (c.withLocalScope true) name = .ok (.var v) := by
  have hm : (c.withLocalScope true).inMember = false := hm
  unfold named
  rw [hm, if_neg Bool.false_ne_true, hd, hv]
  rfl

theorem refer_of_named_eq_var (h : Token.IsName name) {localScope : Bool} {v : Variable}
    (hn : l.named (c.withLocalScope localScope) name = .ok (.var v)) : l.refer c localScope name = .ok (.var v) := by
  rw [refer_of_isName h, hn]
  rfl

/-- The marker of a place in the argument list. -/
theorem refer_place (l : Lookup) {c : Context} (localScope : Bool) {as : List Referent} {v : Variable} {k : Nat}
    (hm : c.inMember = false) (ha : c.arguments = some as) (hk : k < greatestIndex) (hv : as[k]? = some (.var v)) :
    l.refer c localScope ("#" ++ toString (k + 1)) = .ok (.var v) := by
  have hmark : "#" ++ toString (k + 1) = String.ofList ('#' :: Nat.toDigits 10 (k + 1)) := by
    rw [show toString (k + 1) = String.ofList (Nat.toDigits 10 (k + 1)) from rfl, ← String.ofList_append]
    rfl
  have hindex : Index (Nat.toDigits 10 (k + 1)) :=
    ⟨Text.head?_toDigits_ne_zero k.succ_pos, by rw [Text.value_toDigits]; exact k.succ_pos⟩
  have hmin : min (k + 1) greatestIndex = k + 1 := Nat.min_eq_left hk
  have hparameter : parameter c (Nat.toDigits 10 (k + 1)) = .ok (.var v) := by
    rw [hindex.parameter, Text.value_toDigits, hmin, Context.argument, if_neg k.succ_ne_zero, ha]
    simp only [Nat.add_sub_cancel, hv]
  rw [hmark, refer_mark Nat.toDigits_ne_nil (fun _ => Text.isDigit_of_mem_toDigits) hm, hparameter]
  rfl

end Lookup

namespace Program

variable {p q : Program} {className name : String} {method : Option String} {c : Context} {scope : Nat}
  {e : ClassEntry} {d : Method} {v : Variable}

/-- The last parameter of a name comes before all else that has the name. -/
theorem Entered.findVariable?_parameter (h : Entered p className method q c scope e (some d))
    (hv : d.parameters.reverse.find? (·.name = name) = some v) : q.findVariable? scope name = some (.var v) := by
  have hbody : q.namedIn? name (.ofMethod d) = some (.var v) := by
    have hvariable : Scope.variable? (.ofMethod d) name = some v := hv
    rw [namedIn?, hvariable]
  rw [Program.findVariable?, h.sees.findSome?_chain fun s => rfl]
  change (Scope.ofMethod d :: _).findSome? _ = _
  rw [List.findSome?_cons, hbody]

/-- Where no two parameters have one name, each is the last of its name. -/
theorem find?_of_nodup (hnames : d.parameterNames.Nodup) (hv : v ∈ d.parameters) :
    d.parameters.reverse.find? (·.name = v.name) = some v := by
  have hsome : (d.parameters.reverse.find? (·.name = v.name)).isSome :=
    List.find?_isSome.2 ⟨v, List.mem_reverse.2 hv, decide_eq_true rfl⟩
  obtain ⟨w, hw⟩ := Option.isSome_iff_exists.1 hsome
  have hmem : w ∈ d.parameters := List.mem_reverse.1 (List.mem_of_find?_eq_some hw)
  have hname : w.name = v.name := by simpa using List.find?_some hw
  rw [hw, List.inj_on_of_nodup_map hnames hmem hv hname]

/-- In every method whose parameters have different names, a parameter has one referent under its name in the local
scope and under its marker, with the local scope or without: the parameter itself. The place of a parameter is a machine
word. -/
theorem Loaded.refer_name_and_mark (hp : p.Loaded) {className method : String}
    (hd : p.declaredMethod? className method = some d) (hnames : d.parameterNames.Nodup) {k : Nat}
    (hv : d.parameters[k]? = some v) (hk : k < Lookup.greatestIndex) (hx : Token.IsName v.name)
    (hmark : Marker.digits? v.name = none) :
    ∃ q c scope, p.enter className (some method) = (q, .ok (c, scope)) ∧
      (q.lookupFrom scope).refer c true v.name = .ok (.var v) ∧
      ∀ localScope, (q.lookupFrom scope).refer c localScope ("#" ++ toString (k + 1)) = .ok (.var v) := by
  obtain ⟨q, c, scope, e, henter, h⟩ := enter_of_declaredMethod? hp.nested hd
  have hm : c.inMember = false := by rw [h.context]; rfl
  have ha : c.arguments = some (d.parameters.map .var) := by rw [h.context]; rfl
  refine ⟨q, c, scope, henter, ?_, fun localScope => ?_⟩
  · have hbare : (q.lookupFrom scope).bareName v.name = .ok (some (.var v)) :=
      congrArg Except.ok (h.findVariable?_parameter (find?_of_nodup hnames (List.mem_of_getElem? hv)))
    exact Lookup.refer_of_named_eq_var hx (Lookup.named_of_bareName hm hmark hbare)
  · have hargument : (d.parameters.map Referent.var)[k]? = some (.var v) := by rw [List.getElem?_map, hv]; rfl
    exact Lookup.refer_place _ localScope hm ha hk hargument

/-- In the static `check` the second parameter goes by the name of a field; `step` and `#2` both mean the parameter. -/
theorem refer_name_and_mark_check : ∃ (p q : Program) (c : Context) (scope : Nat) (d : Method) (v : Variable),
    p.Loaded ∧ p.declaredMethod? "demo.Counter" "check" = some d ∧ d.isStatic = true ∧ d.parameterNames.Nodup ∧
      d.parameters[1]? = some v ∧ v.name = "step" ∧ v.id = 14 ∧
      p.enter "demo.Counter" (some "check") = (q, .ok (c, scope)) ∧
      (q.fieldAround? "demo.Counter" "step").isSome = true ∧
      (q.lookupFrom scope).refer c true "step" = .ok (.var v) ∧
      (q.lookupFrom scope).refer c true "#2" = .ok (.var v) ∧
      (q.lookupFrom scope).refer c false "#2" = .ok (.var v) := by
  let owner : Ty := .declared "demo.Counter" []
  let check : Method :=
    ⟨"check", owner, [⟨"limit", .int, .parameter, 13⟩, ⟨"step", .int, .parameter, 14⟩, ⟨"last", .int, .parameter, 15⟩],
      .void, true, false, .method⟩
  obtain ⟨p, q, c, scope, hp, henter, hfacts⟩ := of_load_enter limited "demo.Counter" (some "check")
    (fun p q _ _ => (p.declaredMethod? "demo.Counter" "check", (q.fieldAround? "demo.Counter" "step").isSome))
    (a := (some check, true)) (by decide +kernel)
  obtain ⟨hcheck, hfield⟩ := Prod.mk.inj hfacts
  have hnames : check.parameterNames.Nodup := by decide
  obtain ⟨q', c', scope', h, hname, hmark⟩ :=
    hp.refer_name_and_mark hcheck hnames (k := 1) rfl (by decide) isName_step (by decide +kernel)
  cases henter.symm.trans h
  exact ⟨p, q, c, scope, check, _, hp, hcheck, rfl, hnames, rfl, rfl, rfl, henter, hfield, hname, hmark true,
    hmark false⟩

end Program
end AnnotationExpr
