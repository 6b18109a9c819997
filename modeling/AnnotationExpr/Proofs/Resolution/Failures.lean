import AnnotationExpr.Catalogue
import AnnotationExpr.Proofs.Outcome
import AnnotationExpr.Proofs.Resolution.Impaired

/-!
Lookups that fail. No failure is swallowed or softened: it becomes the result, as an error of the expression if it
says why and as a fault of the service if it does not, and nothing else is a fault of the service.
-/

namespace AnnotationExpr
namespace Lookup

/-- Failures in place of answers leave the result as it is or are the result: a silent failure as a fault of the
service, and one that says why as an error of the expression with just this explanation. A service whose failures
all say why is never at fault. -/
theorem refer_of_failures (l : Lookup) :
    (∀ l', l.Impaired (·.message = none) true l' → ∀ c localScope text,
      l'.refer c localScope text = l.refer c localScope text ∨
        ∃ expression, l'.refer c localScope text = .error (.silentLookup expression)) ∧
    (∀ message l', l.Impaired (·.message = some message) true l' → ∀ c localScope text,
      l'.refer c localScope text = l.refer c localScope text ∨
        ∃ expression, l'.refer c localScope text = .error (.invalid expression (.lookup message))) ∧
    ((∀ f, l.FailsWith f → f.message ≠ none) → ∀ c localScope text expression,
      l.refer c localScope text ≠ .error (.silentLookup expression)) := by
  refine ⟨fun l' h c localScope text => ?_, fun message l' h c localScope text => ?_,
    fun hl c localScope text expression hr => ?_⟩
  · obtain heq | ⟨f, expression, hf, heq⟩ := (becomes_refer h c localScope (fun _ => rfl) text).eq_or_failed
    · exact .inl heq
    · exact .inr ⟨expression, by rw [heq, ResolveError.ofLookup, hf]⟩
  · obtain heq | ⟨f, expression, hf, heq⟩ := (becomes_refer h c localScope (fun _ => rfl) text).eq_or_failed
    · exact .inl heq
    · exact .inr ⟨expression, by rw [heq, ResolveError.ofLookup, hf]⟩
  · have h := becomes_refer (Impaired.refl l fun _ => False) c localScope (fun _ => rfl) text
    rw [hr] at h
    cases h.raises.isFatal_eq_false hl

end Lookup

namespace Catalogue

/-- The same service, failing at one of its lookups. -/
def failing (c : Catalogue) (q : Question) (f : LookupFailure) : Catalogue :=
  { c with failures := (q, f) :: c.failures }

theorem impaired_answer {α : Type} (c : Catalogue) (q q' : Question) {f : LookupFailure}
    {failed : LookupFailure → Prop} (hf : failed f) (found : Option α) :
    Answer.Impaired failed (c.answer q' found) ((c.failing q f).answer q' found) := by
  by_cases h : q' = q
  · subst h
    exact .inr ⟨f, hf, by simp [answer, failing]⟩
  · have hne : (q' == q) = false := by simpa using h
    exact .inl (by simp only [answer, failing, List.lookup_cons, hne])

theorem impaired_failing (c : Catalogue) (q : Question) {f : LookupFailure} {failed : LookupFailure → Prop}
    (hf : failed f) : c.lookup.Impaired failed true (c.failing q f).lookup where
  bareName _ _ := impaired_answer c q _ hf _
  field _ _ := impaired_answer c q _ hf _
  classNamed _ := impaired_answer c q _ hf _
  method _ _ _ := impaired_answer c q _ hf _
  package _ := impaired_answer c q _ hf _
  classIn _ _ := impaired_answer c q _ hf _
  supertypes := rfl
  isInterface := rfl
  enclosing := rfl
  valueOf := rfl
  returnType := rfl
  methodParameters := rfl
  methodOwner := rfl

/-- A service that knows a method of every type. -/
def sized : Catalogue where
  failures := []
  bareNames := []
  fields := []
  methods := [⟨fun _ => true, ⟨"size", .object, [], .int, false, false, .method⟩⟩]
  classes := []
  packageClasses := []
  packages := []
  methodParameters := none
  enclosing := []
  supertypes := []
  interfaces := []

theorem message_of_failsWith_sized {f : LookupFailure} (h : sized.lookup.FailsWith f) : f.message ≠ none := by
  cases h <;> contradiction

/-- `size()` has a referent, until the lookup of methods fails. -/
theorem refer_of_failures_size : ∃ (l silent spoken : Lookup) (c : Context) (r : Referent),
    l.Impaired (·.message = none) true silent ∧ l.Impaired (·.message = some "no index") true spoken ∧
      (∀ f, l.FailsWith f → f.message ≠ none) ∧ l.refer c true "size()" = .ok r ∧
      (∃ expression, silent.refer c true "size()" = .error (.silentLookup expression)) ∧
      (∃ expression, spoken.refer c true "size()" = .error (.invalid expression (.lookup "no index"))) ∧
      (∀ expression, l.refer c true "length()" ≠ .error (.silentLookup expression)) := by
  let c := Context.classDeclaration .object
  let result (l : Lookup) := (l.refer c true "size()").toOption.map Referent.text
  have hsilent : sized.lookup.Impaired (·.message = none) true (sized.failing .method ⟨none⟩).lookup :=
    impaired_failing sized .method rfl
  have hspoken : sized.lookup.Impaired (·.message = some "no index") true
      (sized.failing .method ⟨some "no index"⟩).lookup :=
    impaired_failing sized .method rfl
  obtain ⟨never, spoke, fatal⟩ := Lookup.refer_of_failures sized.lookup
  obtain ⟨r, hr, -⟩ := of_toOption_map (show result sized.lookup = some "this.size()" by decide +kernel)
  refine ⟨_, _, _, c, r, hsilent, hspoken, fun f => message_of_failsWith_sized, hr, ?_, ?_,
    fatal (fun f => message_of_failsWith_sized) c true "length()"⟩
  · refine (never _ hsilent c true "size()").resolve_left fun heq => ?_
    have hnone : result (sized.failing .method ⟨none⟩).lookup = none := by decide +kernel
    simp only [result, heq, hr] at hnone
    cases hnone
  · refine (spoke _ _ hspoken c true "size()").resolve_left fun heq => ?_
    have hnone : result (sized.failing .method ⟨some "no index"⟩).lookup = none := by decide +kernel
    simp only [result, heq, hr] at hnone
    cases hnone

end Catalogue
end AnnotationExpr
