import AnnotationExpr.Proofs.Program.Locals
import AnnotationExpr.Proofs.Resolution.Impaired
import AnnotationExpr.Proofs.Resolution.Origin

/-!
Local variables without the local scope. What a service says of bare names is then never asked, so variables that
are declared later change nothing, and no variable comes into a referent but from the context.
-/

namespace AnnotationExpr

namespace Lookup

theorem impaired_bareName (l : Lookup) (bareName : String → Answer Named) :
    l.Impaired (fun _ => False) false { l with bareName } where
  bareName h := nomatch h
  field _ _ := .inl rfl
  classNamed _ := .inl rfl
  method _ _ _ := .inl rfl
  package _ := .inl rfl
  classIn _ _ := .inl rfl
  supertypes := rfl
  isInterface := rfl
  enclosing := rfl
  valueOf := rfl
  returnType := rfl
  methodParameters := rfl
  methodOwner := rfl

/-- Without the local scope it does not matter what bare names stand for. -/
theorem refer_bareName (l : Lookup) (bareName : String → Answer Named) (c : Context) (text : String) :
    Lookup.refer { l with bareName } c false text = l.refer c false text := by
  have h := becomes_refer (l.impaired_bareName bareName) c false (fun h => nomatch h) text
  exact h.eq_or_failed.resolve_right fun ⟨_, _, hf, _⟩ => hf

theorem var_of_refers {l : Lookup} {c : Context} {e : Expr} {r : Referent} {v : Variable}
    (hc : c.localScope = false) (h : l.Refers c e r) (hv : .var v ∈ r.nodes) :
    ∃ s ∈ c.referents, .var v ∈ s.nodes := by
  refine (h.known _ hv).resolve_right fun hm => ?_
  have hs : c.localScope = true := hm.source
  rw [hc] at hs
  cases hs

end Lookup

namespace Program

/-- Without the local scope, programs that differ in declared variables give a text the same referent or the same
error, and the referent has no variables but those that the context brings. -/
theorem Declares.refer_unchanged {p q : Program} (h : p.Declares q) (scope : Nat) (c : Context) (text : String) :
    (q.lookupFrom scope).refer c false text = (p.lookupFrom scope).refer c false text ∧
      ∀ r, (p.lookupFrom scope).refer c false text = .ok r → ∀ v, .var v ∈ r.nodes →
        ∃ s ∈ c.referents, .var v ∈ s.nodes := by
  constructor
  · rw [h.agree.lookupFrom scope]
    exact (p.lookupFrom scope).refer_bareName _ c text
  · intro r hr v hv
    obtain ⟨e, -, he, -⟩ := Lookup.refer_eq_ok.1 hr
    exact Lookup.var_of_refers (c := c.withLocalScope false) rfl he hv

/-- In a block of the class `A` the name `x` means a local variable, once one is declared there; without the local
scope it still means the field. -/
theorem refer_unchanged_block : ∃ (p q : Program) (c : Context) (r s : Referent), p.Declares q ∧
    (q.lookupFrom 2).refer c true "x[#1]" = .ok s ∧ s.text = "x[i]" ∧
      (p.lookupFrom 2).refer c false "x[#1]" = .ok r ∧ r.text = "this.x[i]" ∧
      (q.lookupFrom 2).refer c false "x[#1]" = .ok r ∧
      ∀ v, .var v ∈ r.nodes → ∃ s ∈ c.referents, .var v ∈ s.nodes := by
  let a : Ty := .declared "demo.A" []
  let body := (initial.build "demo" none "A" [.field ⟨"x", .array .int, false, false⟩]).pushClass rootScope "demo.A"
  let block := body.1.pushBlock body.2
  let p := block.1
  let q := (p.declareLocal block.2 "x" (.array .int)).1
  let c := Context.methodUse (.this (some a)) [.var ⟨"i", .int, .parameter, 7⟩]
  have h : p.Declares q := Declares.refl.declareLocal block.2 "x" (.array .int)
  obtain ⟨s, hs, hlocal⟩ := of_toOption_map (show ((q.lookupFrom 2).refer c true "x[#1]").toOption.map Referent.text =
    some "x[i]" by decide +kernel)
  obtain ⟨r, hr, htext⟩ := of_toOption_map (show ((p.lookupFrom 2).refer c false "x[#1]").toOption.map Referent.text =
    some "this.x[i]" by decide +kernel)
  obtain ⟨hsame, hvars⟩ := h.refer_unchanged 2 c "x[#1]"
  exact ⟨p, q, c, r, s, h, hs, hlocal, hr, htext, hsame.trans hr, hvars r hr⟩

end Program
end AnnotationExpr
