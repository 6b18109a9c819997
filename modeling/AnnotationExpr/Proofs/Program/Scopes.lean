import AnnotationExpr.Program.Builtin
import AnnotationExpr.Program.Loading
import AnnotationExpr.Proofs.Outcome
import AnnotationExpr.Proofs.Program.Hierarchy

/-!
The scopes of a program that was loaded and entered any number of times. They are a tree with nothing declared in its
root; entering a class or a method gives a scope that sees the method, the bodies of the class and of the classes
around it, and the root.
-/

namespace AnnotationExpr

/-- The scope on its own, without its place among the others. -/
def Scope.apart (s : Scope) : Scope := { s with parent := none }

def Scope.body (className : String) : Scope := ⟨none, .classBody className, []⟩

def Scope.ofMethod (m : Method) : Scope := ⟨none, .method m.name m.parameterNames, m.parameters.reverse⟩

def Scope.outermost : Scope := ⟨none, .root, []⟩

namespace Program

/-- The scopes are a tree, and nothing is declared in its root. -/
structure Nested (p : Program) : Prop extends ScopeTree p where
  outermost : p.scopes[rootScope]? = some .outermost

variable {p : Program}

theorem Nested.push (h : p.Nested) {parent : Nat} (hlt : parent < p.scopes.length) (kind : Scope.Kind)
    (declared : List Variable) : (p.push parent kind declared).1.Nested :=
  ⟨h.toScopeTree.push hlt kind declared, (List.getElem?_append_left h.length_pos).trans h.outermost⟩

theorem chain_rootScope (h : p.Nested) : p.chain rootScope = [.outermost] := by
  rw [(Ancestry.last h.outermost rfl).chain h.toScopeTree, List.filterMap_cons_some h.outermost, List.filterMap_nil]

/-- A place in a program: what it sees, and that it is there. -/
structure Sees (p : Program) (scope : Nat) (seen : List Scope) : Prop where
  nested : p.Nested
  lt : scope < p.scopes.length
  chain : (p.chain scope).map Scope.apart = seen

theorem sees_rootScope (h : p.Nested) : p.Sees rootScope [.outermost] :=
  ⟨h, h.length_pos, by rw [chain_rootScope h]; rfl⟩

theorem Sees.push {scope : Nat} {seen : List Scope} (h : p.Sees scope seen) (kind : Scope.Kind)
    (declared : List Variable) :
    (p.push scope kind declared).1.Sees (p.push scope kind declared).2 (⟨none, kind, declared⟩ :: seen) := by
  refine ⟨h.nested.push h.lt kind declared, snd_push_lt p scope kind declared, ?_⟩
  rw [chain_push h.nested.toScopeTree h.lt, List.map_cons, h.chain]
  rfl

/-- What does not depend on where a scope stands is found among the scopes that a place sees. -/
theorem Sees.findSome?_chain {α : Type} {seen : List Scope} {scope : Nat} (h : p.Sees scope seen)
    {f : Scope → Option α} (hf : ∀ s, f s.apart = f s) : (p.chain scope).findSome? f = seen.findSome? f := by
  rw [← h.chain, List.findSome?_map]
  exact congrArg (List.findSome? · _) (funext fun s => (hf s).symm)

theorem sees_pushClasses (h : p.Nested) (names : List String) :
    (p.pushClasses names).1.Sees (p.pushClasses names).2 (names.map .body ++ [.outermost]) := by
  induction names with
  | nil => exact sees_rootScope h
  | cons name names ih => exact ih.push (.classBody name) []

theorem classes_pushClasses (p : Program) (names : List String) : (p.pushClasses names).1.classes = p.classes := by
  induction names with
  | nil => rfl
  | cons name names ih => exact ih

/-- A program that was loaded, and then entered any number of times. -/
inductive Loaded : Program → Prop where
  | load {d : Description} {p : Program} (h : load d = .ok p) : Loaded p
  | enter {p : Program} (h : Loaded p) (className : String) (method : Option String) :
      Loaded (p.enter className method).1

theorem Loaded.built {p : Program} (h : p.Loaded) : p.Built := by
  induction h with
  | load h => exact .load h
  | enter _ className method ih => exact ih.enter className method

/-- What is known of an entry into a class or a method: the class, and the method if there is one. -/
structure Entered (p : Program) (className : String) (method : Option String) (q : Program) (c : Context)
    (scope : Nat) (e : ClassEntry) (m : Option Method) : Prop where
  classes : q.classes = p.classes
  class? : p.class? className = some e
  method? : method.map e.method? = m.map some
  context : c = m.elim (.classDeclaration e.selfType) (.methodDeclaration · e.selfType)
  sees : q.Sees scope
    (m.toList.map .ofMethod ++ (className :: p.outerNames className).map .body ++ [.outermost])

theorem nested_enter (h : p.Nested) (className : String) (method : Option String) :
    (p.enter className method).1.Nested := by
  unfold enter
  split
  · exact h
  · have hpushed := sees_pushClasses h (className :: p.outerNames className)
    cases method with
    | none => exact hpushed.nested
    | some name =>
      dsimp only
      split
      · exact hpushed.nested
      · exact (hpushed.push _ _).nested

theorem enter_eq_ok (h : p.Nested) {className : String} {method : Option String} {q : Program} {c : Context}
    {scope : Nat} (he : p.enter className method = (q, .ok (c, scope))) :
    ∃ e m, Entered p className method q c scope e m := by
  unfold enter at he
  split at he
  · cases he
  next e hclass =>
    have hpushed := sees_pushClasses h (className :: p.outerNames className)
    have hclasses := classes_pushClasses p (className :: p.outerNames className)
    cases method with
    | none => cases he; exact ⟨e, none, hclasses, hclass, rfl, rfl, hpushed⟩
    | some name =>
      dsimp only at he
      split at he
      · cases he
      next m hm =>
        cases he
        exact ⟨e, some m, hclasses, hclass, congrArg some hm, rfl, hpushed.push _ _⟩

/-- The context of a class or of a method in it: its receiver is `this` of the class, or the class. -/
theorem Entered.receiver {className : String} {method : Option String} {q : Program} {c : Context} {scope : Nat}
    {e : ClassEntry} {m : Option Method} (h : Entered p className method q c scope e m) :
    c.receiver = some (.this (some e.selfType)) ∨ c.receiver = some (.className e.selfType) := by
  rw [h.context]
  cases m with
  | none => exact .inl rfl
  | some d =>
    cases hs : d.isStatic with
    | false => exact .inl (by simp [Context.methodDeclaration, Context.new, Referent.implicit, hs])
    | true => exact .inr (by simp [Context.methodDeclaration, Context.new, Referent.implicit, hs])

theorem Nested.of_scopes (h : p.Nested) {q : Program} (hscopes : q.scopes = p.scopes) : q.Nested :=
  ⟨h.toScopeTree.of_scopes hscopes, hscopes ▸ h.outermost⟩

theorem nested_initial : initial.Nested := ⟨scopeTree_initial, rfl⟩

theorem Loaded.nested {p : Program} (h : p.Loaded) : p.Nested := by
  induction h with
  | @load d p h =>
    have hstart : Nested { initial with imports := d.imports } := nested_initial.of_scopes rfl
    refine foldlM_keeps (P := Nested) (fun q c q' hq h => ?_) hstart h
    obtain ⟨o, -, -, rfl⟩ := addClass_eq_ok.1 h
    exact hq.of_scopes rfl
  | enter _ className method ih => exact nested_enter ih className method

/-- What is computed in a place of a program that is loaded and entered. -/
theorem of_load_enter {α : Type} (d : Description) (className : String) (method : Option String)
    (f : Program → Program → Context → Nat → α) {a : α}
    (h : ((load d).toOption.bind fun p =>
      (p.enter className method).2.toOption.map fun r => f p (p.enter className method).1 r.1 r.2) = some a) :
    ∃ p q c scope, Loaded p ∧ p.enter className method = (q, .ok (c, scope)) ∧ f p q c scope = a := by
  obtain ⟨p, hp, h⟩ := Option.bind_eq_some_iff.1 h
  obtain ⟨p', hload, rfl⟩ := of_toOption_map (f := id) (congrArg (Option.map id) hp)
  obtain ⟨⟨c, scope⟩, hr, hf⟩ := of_toOption_map h
  exact ⟨p', _, c, scope, .load hload, Prod.ext rfl hr, hf⟩

end Program
end AnnotationExpr
