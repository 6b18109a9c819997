import AnnotationExpr.Proofs.Program.Classes

/-!
Programs that differ only in the variables of their scopes. Types, members and classes are found in both alike;
only what a bare name stands for can differ.
-/

namespace AnnotationExpr

/-- The scope without its variables. -/
def Scope.bare (s : Scope) : Scope := { s with declared := [] }

namespace Program

/-- Variables are declared one after the other, in any scopes. -/
inductive Declares (p : Program) : Program → Prop where
  | refl : Declares p p
  | declareLocal {q : Program} (h : Declares p q) (scope : Nat) (name : String) (type : Ty) :
      Declares p (q.declareLocal scope name type).1
  | declareVariable {q : Program} (h : Declares p q) (scope : Nat) (v : Variable) :
      Declares p (q.declareVariable scope v)

/-- The programs are one but for variables. -/
structure Agree (p q : Program) : Prop where
  classes : q.classes = p.classes
  packages : q.packages = p.packages
  imports : q.imports = p.imports
  scopes : q.scopes.map Scope.bare = p.scopes.map Scope.bare

variable {p q : Program}

theorem bare_declareVariable (p : Program) (scope : Nat) (v : Variable) :
    (p.declareVariable scope v).scopes.map Scope.bare = p.scopes.map Scope.bare := by
  refine List.ext_getElem? fun i => ?_
  simp only [declareVariable, List.getElem?_map, List.getElem?_modify]
  cases p.scopes[i]? with
  | none => rfl
  | some s =>
    simp only [Option.map_some]
    split <;> rfl

theorem Declares.agree (h : p.Declares q) : p.Agree q := by
  induction h with
  | refl => exact ⟨rfl, rfl, rfl, rfl⟩
  | @declareLocal q _ scope name type ih =>
    exact ⟨ih.classes, ih.packages, ih.imports, (bare_declareVariable (q.skipIds 1) scope _).trans ih.scopes⟩
  | @declareVariable q _ scope v ih =>
    exact ⟨ih.classes, ih.packages, ih.imports, (bare_declareVariable q scope v).trans ih.scopes⟩

variable (h : p.Agree q)

include h

/-- Both have the same scopes around a place, but for their variables. -/
theorem Agree.chain (scope : Nat) : (q.chain scope).map Scope.bare = (p.chain scope).map Scope.bare := by
  have hscope (i : Nat) : q.scopes[i]?.map Scope.bare = p.scopes[i]?.map Scope.bare := by
    rw [← List.getElem?_map, ← List.getElem?_map, h.scopes]
  have hupTo (n : Nat) : ∀ i, (q.chainUpTo n i).map Scope.bare = (p.chainUpTo n i).map Scope.bare := by
    induction n with
    | zero => intro i; rfl
    | succ n ih =>
      intro i
      have hi := hscope i
      unfold chainUpTo
      cases hq : q.scopes[i]? with
      | none =>
        rw [hq] at hi
        rw [Option.map_eq_none_iff.1 hi.symm]
      | some s =>
        rw [hq] at hi
        obtain ⟨t, ht, hst⟩ := Option.map_eq_some_iff.1 hi.symm
        have hparent : t.parent = s.parent := (congrArg Scope.parent hst :)
        rw [ht]
        simp only [List.map_cons, hst, hparent]
        cases s.parent with
        | none => rfl
        | some j => exact congrArg _ (ih j)
  have hlen : q.scopes.length = p.scopes.length := by
    have := congrArg List.length h.scopes
    rwa [List.length_map, List.length_map] at this
  rw [Program.chain, Program.chain, hlen]
  exact hupTo _ scope

/-- What does not depend on variables is found alike among the scopes around a place. -/
theorem Agree.findSome?_chain {α : Type} {f : Scope → Option α} (hf : ∀ s, f s.bare = f s) (scope : Nat) :
    (q.chain scope).findSome? f = (p.chain scope).findSome? f := by
  have hbare (ss : List Scope) : ss.findSome? f = (ss.map Scope.bare).findSome? f := by
    rw [List.findSome?_map]
    exact congrArg (List.findSome? · ss) (funext fun s => (hf s).symm)
  rw [hbare, h.chain, ← hbare]

theorem Agree.packageAt (scope : Nat) : q.packageAt scope = p.packageAt scope := by
  have hbare (ss : List Scope) : ss.filterMap p.classOf? = (ss.map Scope.bare).filterMap p.classOf? := by
    rw [List.filterMap_map]
    rfl
  rw [Program.packageAt, Program.packageAt, classOf?_congr h.classes, hbare, h.chain, ← hbare]

theorem Agree.findClass? (scope : Nat) (name : String) : q.findClass? scope name = p.findClass? scope name := by
  unfold Program.findClass?
  rw [classIn?_congr h.classes, h.findSome?_chain (fun s => rfl), h.packageAt, class?_congr h.classes,
    importedClass?_congr h.classes h.imports]

theorem Agree.methodOwner? (scope : Nat) : q.methodOwner? scope = p.methodOwner? scope := by
  have hbare (ss : List Scope) : (ss.dropWhile (!·.isMethod)).findSome? p.classOf? =
      ((ss.map Scope.bare).dropWhile (!·.isMethod)).findSome? p.classOf? := by
    rw [List.dropWhile_map, List.findSome?_map]
    rfl
  rw [Program.methodOwner?, Program.methodOwner?, classOf?_congr h.classes, hbare, h.chain, ← hbare]

/-- The services that the programs are differ at most in what they say of bare names. -/
theorem Agree.lookupFrom (scope : Nat) :
    q.lookupFrom scope = { p.lookupFrom scope with bareName := (q.lookupFrom scope).bareName } := by
  unfold Program.lookupFrom
  have hpackage : q.package? = p.package? := by
    funext name
    rw [package?, package?, h.packages]
  have hclassIn : q.classInPackage? = p.classInPackage? := by
    funext package name
    rw [classInPackage?, classInPackage?, class?_congr h.classes]
  have hparameters : q.methodParameters? scope = p.methodParameters? scope := h.findSome?_chain (fun s => rfl) scope
  have halike := alike_of_classes h.classes
  simp only [halike.findField?, findMethod_congr h.classes, halike.directSupertypes, halike.isInterface,
    outerClasses_congr h.classes, valueOf?_congr h.classes, halike.returnTypeFor, h.findClass?, hpackage, hclassIn,
    hparameters, h.methodOwner?]

end Program
end AnnotationExpr
