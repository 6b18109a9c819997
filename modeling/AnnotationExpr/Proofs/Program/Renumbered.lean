import AnnotationExpr.Command
import AnnotationExpr.Proofs.Program.Alike
import AnnotationExpr.Proofs.Program.Packages
import AnnotationExpr.Proofs.Resolution.Renumbered

/-!
Programs that are one but for the numbers of their variables. Whatever one answers the other answers with its own
numbers, and this stays so when both are entered at the same place.
-/

namespace AnnotationExpr

def ClassEntry.renumber (ρ : Equiv.Perm Nat) (e : ClassEntry) : ClassEntry :=
  { e with methods := e.methods.map (·.renumber ρ) }

def Scope.renumber (ρ : Equiv.Perm Nat) (s : Scope) : Scope := { s with declared := s.declared.map (·.renumber ρ) }

theorem Scope.kind_renumber (ρ : Equiv.Perm Nat) (s : Scope) : (s.renumber ρ).kind = s.kind := rfl

theorem Scope.parent_renumber (ρ : Equiv.Perm Nat) (s : Scope) : (s.renumber ρ).parent = s.parent := rfl

theorem ClassEntry.renumber_renumber (ρ τ : Equiv.Perm Nat) (e : ClassEntry) :
    (e.renumber ρ).renumber τ = e.renumber (τ * ρ) := by
  simp only [renumber, List.map_map, Function.comp_def, Method.renumber_renumber]

theorem Scope.renumber_renumber (ρ τ : Equiv.Perm Nat) (s : Scope) :
    (s.renumber ρ).renumber τ = s.renumber (τ * ρ) := by
  simp only [renumber, List.map_map]
  rfl

namespace Program

def Candidate.renumber (ρ : Equiv.Perm Nat) (c : Candidate) : Candidate := { c with method := c.method.renumber ρ }

/-- Under each name, and in each scope, the second program has what the first one has, with other numbers. -/
structure Renumbered (ρ : Equiv.Perm Nat) (p q : Program) : Prop where
  class? : ∀ name, q.class? name = (p.class? name).map (·.renumber ρ)
  mem_packages : ∀ name, name ∈ q.packages ↔ name ∈ p.packages
  imports : q.imports = p.imports
  scopes : q.scopes = p.scopes.map (·.renumber ρ)

/-- The program after it was entered at some places, one after the other. -/
def visited (p : Program) (places : List (String × Option String)) : Program :=
  places.foldl (fun p place => (p.enter place.1 place.2).1) p

variable {ρ : Equiv.Perm Nat} {p q : Program} (h : p.Renumbered ρ q)

include h

namespace Renumbered

theorem alike : p.Alike q := by
  intro name
  cases hp : p.class? name with
  | none => exact .inl ⟨rfl, by rw [h.class?, hp, Option.map_none]⟩
  | some e => exact .inr ⟨e, _, rfl, by rw [h.class?, hp, Option.map_some, ClassEntry.renumber]⟩

theorem trans {τ : Equiv.Perm Nat} {r : Program} (h' : q.Renumbered τ r) : p.Renumbered (τ * ρ) r where
  class? name := by
    rw [h'.class?, h.class?, Option.map_map]
    exact congrArg (Option.map · _) (funext fun e => e.renumber_renumber ρ τ)
  mem_packages name := (h'.mem_packages name).trans (h.mem_packages name)
  imports := h'.imports.trans h.imports
  scopes := by
    rw [h'.scopes, h.scopes, List.map_map]
    exact congrArg (List.map · _) (funext fun s => s.renumber_renumber ρ τ)

/-! The choice among methods. -/

theorem declaredCandidates (name : String) (d : ClassType) :
    q.declaredCandidates name d = (p.declaredCandidates name d).map (·.renumber ρ) := by
  unfold Program.declaredCandidates
  rw [h.class?, h.alike.bindingsOf]
  cases p.class? d.name with
  | none => rfl
  | some e =>
    simp only [Option.map_some, ClassEntry.renumber, List.filter_map, List.map_map, Function.comp_def,
      Method.isMethod_renumber, Method.parameterTypes_renumber]
    rfl

theorem candidatesIn (name : String) (start : List Candidate) (d : ClassType) :
    q.candidatesIn name (start.map (·.renumber ρ)) d = (p.candidatesIn name start d).map (·.renumber ρ) := by
  have hadd (found : List Candidate) (c : Candidate) :
      addCandidate (found.map (·.renumber ρ)) (c.renumber ρ) = (addCandidate found c).map (·.renumber ρ) := by
    have hany : (found.map (·.renumber ρ)).any (fun f => f.erased = (c.renumber ρ).erased) =
        found.any fun f => f.erased = c.erased := by
      rw [List.any_map]
      rfl
    unfold addCandidate
    rw [hany]
    split
    · rfl
    · rw [List.map_append, List.map_singleton]
  have hflat : (p.hierarchy d).flatMap (q.declaredCandidates name) =
      ((p.hierarchy d).flatMap (p.declaredCandidates name)).map (·.renumber ρ) := by
    rw [List.map_flatMap]
    exact congrArg (List.flatMap · _) (funext (h.declaredCandidates name))
  unfold Program.candidatesIn
  rw [h.alike.hierarchy, hflat, List.foldl_map]
  exact List.foldl_hom (List.map (Candidate.renumber ρ)) hadd

theorem candidates (type : Ty) (name : String) :
    q.candidates type name = (p.candidates type name).map (·.renumber ρ) := by
  cases type with
  | declared n as => exact h.candidatesIn name [] ⟨n, as⟩
  | array component =>
    have hclone : (if name = "clone" then [(⟨cloneOf (.array component), []⟩ : Candidate)] else []) =
        (if name = "clone" then [(⟨cloneOf (.array component), []⟩ : Candidate)] else []).map (·.renumber ρ) := by
      split <;> rfl
    exact (congrArg (q.candidatesIn name · .object) hclone).trans (h.candidatesIn name _ .object)
  | var v => exact h.candidatesIn name [] .object
  | _ => rfl

omit h in
theorem choose_renumber (name : String) (actuals : List Ty) (cs : List Candidate) (phases : List Phase) :
    p.choose name actuals (cs.map (·.renumber ρ)) phases = (p.choose name actuals cs phases).map (·.renumber ρ) := by
  have hfilter (phase : Phase) : (cs.map (·.renumber ρ)).filter (p.applies phase actuals) =
      (cs.filter (p.applies phase actuals)).map (·.renumber ρ) := by
    rw [List.filter_map]
    rfl
  have hbest (cs : List Candidate) :
      p.mostSpecific (cs.map (·.renumber ρ)) = (p.mostSpecific cs).map (·.renumber ρ) := by
    simp only [mostSpecific, List.filter_map, List.all_map]
    rfl
  induction phases with
  | nil => rfl
  | cons phase phases ih =>
    rw [choose, choose, hfilter]
    cases cs.filter (p.applies phase actuals) with
    | nil => exact ih
    | cons c cs =>
      have hcons := hbest (c :: cs)
      rw [List.map_cons] at hcons ⊢
      dsimp only
      rw [hcons, List.length_cons, List.length_map]
      cases p.mostSpecific (c :: cs) with
      | nil => rfl
      | cons best others => cases others <;> rfl

theorem findMethod (name : String) (type : Ty) (actuals : List Ty) :
    q.findMethod name type actuals = (p.findMethod name type actuals).map (·.renumber ρ) := by
  rw [Program.findMethod, Program.findMethod, h.candidates, h.alike.choose, choose_renumber]

theorem valueOf? (boxed : Ty) : q.valueOf? boxed = (p.valueOf? boxed).map (·.renumber ρ) := by
  unfold Program.valueOf?
  cases boxed.unboxed? with
  | none => rfl
  | some primitive =>
    cases boxed.class? with
    | none => rfl
    | some d =>
      simp only [bind, Option.bind_some, h.class?]
      cases p.class? d.name with
      | none => rfl
      | some e =>
        simp only [Option.map_some, Option.bind_some, ClassEntry.renumber, List.find?_map, Function.comp_def,
          Method.parameterTypes_renumber]
        rfl

/-! Classes by their names. -/

theorem memberClass? (className name : String) :
    q.memberClass? className name = (p.memberClass? className name).map (·.renumber ρ) := by
  unfold Program.memberClass?
  rw [h.class?, h.alike.hierarchy]
  cases p.class? className with
  | none => rfl
  | some e =>
    simp only [Option.map_some, Option.bind_some, List.map_findSome?, h.class?]
    rfl

theorem classOf? (s : Scope) : q.classOf? (s.renumber ρ) = (p.classOf? s).map (·.renumber ρ) := by
  unfold Program.classOf?
  rw [Scope.kind_renumber]
  cases s.kind with
  | classBody name => exact h.class? name
  | _ => rfl

theorem classIn? (name : String) (s : Scope) :
    q.classIn? name (s.renumber ρ) = (p.classIn? name s).map (·.renumber ρ) := by
  unfold Program.classIn?
  rw [Scope.kind_renumber]
  cases s.kind with
  | classBody outer =>
    dsimp only
    rw [h.memberClass?, h.class?, Option.map_or, Option.filter_map]
    rfl
  | _ => rfl

theorem chain (scope : Nat) : q.chain scope = (p.chain scope).map (·.renumber ρ) := by
  have hupTo (n : Nat) : ∀ scope, q.chainUpTo n scope = (p.chainUpTo n scope).map (·.renumber ρ) := by
    induction n with
    | zero => intro scope; rfl
    | succ n ih =>
      intro scope
      unfold chainUpTo
      rw [h.scopes, List.getElem?_map]
      cases p.scopes[scope]? with
      | none => rfl
      | some s =>
        dsimp only [Option.map_some]
        rw [Scope.parent_renumber, List.map_cons]
        cases s.parent with
        | none => rfl
        | some parent => exact congrArg _ (ih parent)
  unfold Program.chain
  rw [hupTo, h.scopes, List.length_map]

theorem findSome?_chain {α β : Type} {f : Scope → Option α} {g : Scope → Option β} {seen : α → β}
    (hfg : ∀ s : Scope, g (s.renumber ρ) = (f s).map seen) (scope : Nat) :
    (q.chain scope).findSome? g = ((p.chain scope).findSome? f).map seen := by
  rw [h.chain, List.findSome?_map, List.map_findSome?]
  exact congrArg (List.findSome? · _) (funext hfg)

theorem findVariable? (scope : Nat) (name : String) :
    q.findVariable? scope name = (p.findVariable? scope name).map (·.renumber ρ) := by
  refine h.findSome?_chain (fun s => ?_) scope
  unfold namedIn?
  have hvariable : Scope.variable? (s.renumber ρ) name = Option.map (·.renumber ρ) ( s.variable? name) := by
    unfold Scope.variable? Scope.renumber
    rw [List.find?_map]
    rfl
  rw [hvariable, h.classOf?, h.alike.inheritedField?]
  cases s.variable? name with
  | some v => rfl
  | none =>
    dsimp only [Option.map_none]
    cases p.classOf? s with
    | none => rfl
    | some e =>
      change ((p.inheritedField? e.selfClass name).map Named.field) =
        ((p.inheritedField? e.selfClass name).map Named.field).map (·.renumber ρ)
      cases p.inheritedField? e.selfClass name <;> rfl

theorem packageAt (scope : Nat) : q.packageAt scope = p.packageAt scope := by
  unfold Program.packageAt
  simp only [h.chain, List.filterMap_map, Function.comp_def, h.classOf?, ← List.map_filterMap, List.getLast?_map,
    Option.map_map]
  rfl

theorem findClass? (scope : Nat) (name : String) :
    q.findClass? scope name = (p.findClass? scope name).map (·.renumber ρ) := by
  have himported : q.importedClass? name = (p.importedClass? name).map (·.renumber ρ) := by
    simp only [importedClass?, h.imports, List.map_findSome?]
    exact congrArg (List.findSome? · _) (funext h.class?)
  unfold Program.findClass?
  split
  · exact h.class? name
  · rw [h.findSome?_chain (h.classIn? name), h.packageAt, himported, h.class?, h.class?, h.class?]
    simp only [Option.map_or]

theorem classInPackage? (package name : String) :
    q.classInPackage? package name = (p.classInPackage? package name).map (·.renumber ρ) := by
  rw [Program.classInPackage?, Program.classInPackage?, h.class?, Option.filter_map]
  rfl

theorem package? (name : String) : q.package? name = p.package? name := by
  by_cases hp : name ∈ p.packages
  · rw [package?_of_mem hp, package?_of_mem ((h.mem_packages name).2 hp)]
  · have hq : name ∉ q.packages := fun hq => hp ((h.mem_packages name).1 hq)
    have hnone (names : List String) (hn : name ∉ names) : names.find? (· = name) = none :=
      List.find?_eq_none.2 fun n hmem => by simpa using ne_of_mem_of_not_mem hmem hn
    exact (hnone _ hq).trans (hnone _ hp).symm

theorem methodOwner? (scope : Nat) : q.methodOwner? scope = p.methodOwner? scope := by
  unfold Program.methodOwner?
  have hclassOf : q.classOf? ∘ (·.renumber ρ) = Option.map (·.renumber ρ) ∘ p.classOf? := funext h.classOf?
  rw [h.chain, List.dropWhile_map, List.findSome?_map, hclassOf, ← List.map_findSome?, Option.map_map]
  rfl

theorem methodParameters? (scope : Nat) : q.methodParameters? scope = p.methodParameters? scope := by
  unfold Program.methodParameters?
  rw [h.chain, List.findSome?_map]
  rfl

theorem outerClasses (name : String) : q.outerClasses name = (p.outerClasses name).map (·.renumber ρ) := by
  rw [Program.outerClasses, Program.outerClasses, h.alike.outerNames, List.map_filterMap]
  exact congrArg (List.filterMap · _) (funext h.class?)

/-- The service that the second program is gives the answers of the first one with other numbers. -/
theorem lookupFrom (scope : Nat) : q.lookupFrom scope = (p.lookupFrom scope).renumber ρ := by
  have hsymbol (e : Option ClassEntry) : (e.map (·.renumber ρ)).map (·.symbol) = e.map (·.symbol) := by
    cases e <;> rfl
  have hselfClass (es : List ClassEntry) : (es.map (·.renumber ρ)).map (·.selfClass) = es.map (·.selfClass) := by
    rw [List.map_map]
    rfl
  have hvalueOf : q.valueOf? = fun boxed => (p.valueOf? boxed).map (·.renumber ρ) := funext h.valueOf?
  unfold Program.lookupFrom Lookup.renumber
  simp only [h.findVariable?, h.alike.findField?, h.findClass?, hsymbol, h.findMethod, h.package?, h.classInPackage?,
    h.alike.directSupertypes, h.alike.isInterface, h.outerClasses, hselfClass, hvalueOf, h.alike.returnTypeFor,
    h.methodParameters?, h.methodOwner?]
  rfl

/-! Entering classes and methods. -/

theorem push (parent : Nat) (kind : Scope.Kind) (declared : List Variable) :
    (p.push parent kind declared).1.Renumbered ρ (q.push parent kind (declared.map (·.renumber ρ))).1 ∧
      (q.push parent kind (declared.map (·.renumber ρ))).2 = (p.push parent kind declared).2 := by
  refine ⟨⟨h.class?, h.mem_packages, h.imports, ?_⟩, ?_⟩
  · simp [Program.push, h.scopes, Scope.renumber]
  · simp [Program.push, h.scopes]

theorem pushClasses (names : List String) :
    (p.pushClasses names).1.Renumbered ρ (q.pushClasses names).1 ∧
      (q.pushClasses names).2 = (p.pushClasses names).2 := by
  induction names with
  | nil => exact ⟨h, rfl⟩
  | cons name names ih =>
    obtain ⟨hpushed, hscope⟩ := ih
    have hcons : q.pushClasses (name :: names) =
        (q.pushClasses names).1.push (p.pushClasses names).2 (.classBody name) [] :=
      congrArg ((q.pushClasses names).1.push · (.classBody name) []) hscope
    rw [hcons]
    exact hpushed.push _ _ []

theorem pushMethod (parent : Nat) (m : Method) :
    (p.pushMethod parent m).1.Renumbered ρ (q.pushMethod parent (m.renumber ρ)).1 ∧
      (q.pushMethod parent (m.renumber ρ)).2 = (p.pushMethod parent m).2 := by
  have hdeclared : (m.renumber ρ).parameters.reverse = m.parameters.reverse.map (·.renumber ρ) :=
    List.map_reverse.symm
  unfold Program.pushMethod
  rw [hdeclared, Method.parameterNames_renumber]
  exact h.push parent _ _

/-- Entered at the same place, the programs stay the same but for the numbers, and so do context and scope. -/
theorem enter (className : String) (method : Option String) :
    (p.enter className method).1.Renumbered ρ (q.enter className method).1 ∧
      (q.enter className method).2 = (fun place => (place.1.renumber ρ, place.2)) <$> (p.enter className method).2 := by
  obtain ⟨hpushed, hscope⟩ := h.pushClasses (className :: p.outerNames className)
  unfold Program.enter
  rw [h.class?, h.alike.outerNames]
  cases p.class? className with
  | none => exact ⟨h, rfl⟩
  | some e =>
    rcases hp : p.pushClasses (className :: p.outerNames className) with ⟨p', scope⟩
    rcases hq : q.pushClasses (className :: p.outerNames className) with ⟨q', scope'⟩
    rw [hp, hq] at hpushed hscope
    obtain rfl : scope' = scope := hscope
    dsimp only [Option.map_some]
    cases method with
    | none => exact ⟨hpushed, rfl⟩
    | some name =>
      have hmethod : (e.renumber ρ).method? name = (e.method? name).map (·.renumber ρ) := by
        simp only [ClassEntry.method?, ClassEntry.renumber, List.find?_map]
        rfl
      dsimp only
      rw [hmethod]
      cases e.method? name with
      | none => exact ⟨hpushed, rfl⟩
      | some m =>
        obtain ⟨hmethodPushed, hinner⟩ := hpushed.pushMethod scope' m
        dsimp only [Option.map_some]
        refine ⟨hmethodPushed, ?_⟩
        rw [hinner, Context.methodDeclaration_renumber]
        rfl

theorem visited (places : List (String × Option String)) :
    (p.visited places).Renumbered ρ (q.visited places) := by
  induction places generalizing p q with
  | nil => exact h
  | cons place places ih => exact ih (h.enter place.1 place.2).1

theorem referent (r : Request) : Command.referent q r = (·.renumber ρ) <$> Command.referent p r := by
  obtain ⟨hentered, hplace⟩ := h.enter r.className r.method
  unfold Command.referent
  rcases hp : p.enter r.className r.method with ⟨p', place⟩
  rcases hq : q.enter r.className r.method with ⟨q', place'⟩
  rw [hp, hq] at hentered hplace
  obtain rfl : place' = _ := hplace
  cases place with
  | error e => rfl
  | ok place =>
    obtain ⟨c, scope⟩ := place
    change ((q'.lookupFrom scope).refer (c.renumber ρ) r.localScope r.expression).mapError _ = _
    rw [hentered.lookupFrom, Lookup.refer_renumber]
    dsimp only
    cases (p'.lookupFrom scope).refer c r.localScope r.expression <;> rfl

end Renumbered

end Program
end AnnotationExpr
