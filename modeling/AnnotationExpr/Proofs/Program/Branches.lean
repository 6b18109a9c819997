import AnnotationExpr.Proofs.Program.Built
import AnnotationExpr.Proofs.Program.Classes

/-!
Branches of the tree of scopes. What is looked up from a scope is looked up among the scopes on the way outwards from
it, so new scopes, and variables declared off the way, make no difference to it.
-/

namespace AnnotationExpr.Program

variable {p q : Program} {i : Nat} {is : List Nat}

/-- Scopes are pushed and variables declared one after the other, no variable in one of the given scopes. -/
inductive Elsewhere (is : List Nat) (p : Program) : Program → Prop where
  | refl : Elsewhere is p p
  | push {q : Program} (h : Elsewhere is p q) (parent : Nat) (kind : Scope.Kind) (declared : List Variable) :
      Elsewhere is p (q.push parent kind declared).1
  | declareVariable {q : Program} (h : Elsewhere is p q) {scope : Nat} (hscope : scope ∉ is) (v : Variable) :
      Elsewhere is p (q.declareVariable scope v)
  | declareLocal {q : Program} (h : Elsewhere is p q) {scope : Nat} (hscope : scope ∉ is) (name : String)
      (type : Ty) : Elsewhere is p (q.declareLocal scope name type).1

/-- The second program has the classes and imports of the first, and the given scopes as they are there. -/
structure KeepsScopes (is : List Nat) (p q : Program) : Prop where
  classes : q.classes = p.classes
  imports : q.imports = p.imports
  length_le : p.scopes.length ≤ q.scopes.length
  scopes : ∀ k ∈ is, k < p.scopes.length → q.scopes[k]? = p.scopes[k]?

theorem KeepsScopes.declareVariable (h : KeepsScopes is p q) {scope : Nat} (hscope : scope ∉ is) (v : Variable) :
    KeepsScopes is p (q.declareVariable scope v) := by
  refine ⟨h.classes, h.imports, ?_, fun k hk hlt => ?_⟩
  · rw [Program.declareVariable, List.length_modify]
    exact h.length_le
  · have hne : scope ≠ k := fun he => hscope (he ▸ hk)
    exact (List.getElem?_modify_ne _ _ hne).trans (h.scopes k hk hlt)

theorem Elsewhere.keepsScopes (h : Elsewhere is p q) : KeepsScopes is p q := by
  induction h with
  | refl => exact ⟨rfl, rfl, Nat.le_refl _, fun _ _ _ => rfl⟩
  | @push q _ parent kind declared ih =>
    refine ⟨ih.classes, ih.imports, ?_, fun k hk hlt => ?_⟩
    · exact Nat.le_trans ih.length_le (by simp [Program.push])
    · exact (List.getElem?_append_left (Nat.lt_of_lt_of_le hlt ih.length_le)).trans (ih.scopes k hk hlt)
  | declareVariable _ hscope v ih => exact ih.declareVariable hscope v
  | @declareLocal q _ scope hscope name type ih =>
    have hskip : KeepsScopes is p (q.skipIds 1) := ⟨ih.classes, ih.imports, ih.length_le, ih.scopes⟩
    exact hskip.declareVariable hscope _

/-- So the chain of a scope stays as it is. -/
theorem KeepsScopes.chain (h : KeepsScopes is p q) (hi : p.Ancestry i is) (hp : p.ScopeTree) :
    q.chain i = p.chain i := by
  have hscopes : ∀ k ∈ is, q.scopes[k]? = p.scopes[k]? := fun k hk => h.scopes k hk (hi.forall_lt k hk)
  -- the second program need be no tree, so the bound on its chains is compared with the length of this way alone
  have hlen : is.length ≤ q.scopes.length :=
    calc is.length
      _ ≤ i + 1 := hi.length_le hp
      _ ≤ p.scopes.length := hi.forall_lt i hi.self_mem
      _ ≤ q.scopes.length := h.length_le
  calc q.chain i
    _ = is.filterMap (q.scopes[·]?) := (hi.congr hscopes).chainUpTo hlen
    _ = is.filterMap (p.scopes[·]?) := List.filterMap_congr hscopes
    _ = p.chain i := (hi.chain hp).symm

/-- From a scope the second program looks like the first. -/
structure SameFrom (p q : Program) (scope : Nat) : Prop where
  findVariable? : ∀ name, q.findVariable? scope name = p.findVariable? scope name
  findClass? : ∀ name, q.findClass? scope name = p.findClass? scope name
  methodParameters? : q.methodParameters? scope = p.methodParameters? scope
  methodOwner? : q.methodOwner? scope = p.methodOwner? scope

/-- What is looked up from a scope is looked up in its chain, the classes and the imports. -/
theorem sameFrom_of_chain (hclasses : q.classes = p.classes) (himports : q.imports = p.imports)
    (h : q.chain i = p.chain i) : SameFrom p q i := by
  have hnamed : q.namedIn? = p.namedIn? := by
    funext name s
    rw [namedIn?, namedIn?, classOf?_congr hclasses, (alike_of_classes hclasses).inheritedField?]
  have hpackage : q.packageAt i = p.packageAt i := by
    rw [packageAt, packageAt, h, classOf?_congr hclasses]
  refine ⟨fun name => ?_, fun name => ?_, ?_, ?_⟩
  · rw [findVariable?, findVariable?, h, hnamed]
  · unfold findClass?
    rw [h, classIn?_congr hclasses, hpackage, class?_congr hclasses, importedClass?_congr hclasses himports]
  · rw [methodParameters?, methodParameters?, h]
  · rw [methodOwner?, methodOwner?, h, classOf?_congr hclasses]

/-- Every scope but the root has a parent, which comes before it. The way from a scope outwards ends at the root, and
what comes about elsewhere is not seen from the scope. -/
theorem Built.exists_ancestry_sameFrom (h : p.Built) (hi : i < p.scopes.length) :
    (i ≠ rootScope → ∃ s j, p.scopes[i]? = some s ∧ s.parent = some j ∧ j < i) ∧
      ∃ is, p.Ancestry i is ∧ is.Pairwise (· > ·) ∧ is.getLast? = some rootScope ∧
        p.chain i = is.filterMap (p.scopes[·]?) ∧ ∀ q, Elsewhere is p q → SameFrom p q i := by
  have htree := h.scopeTree
  obtain ⟨is, his⟩ := htree.exists_ancestry hi
  refine ⟨fun hne => ?_, is, his, his.pairwise htree, his.getLast? htree, his.chain htree, fun q hq => ?_⟩
  · have hs : p.scopes[i]? = some p.scopes[i] := List.getElem?_eq_getElem hi
    obtain ⟨j, hj⟩ := Option.ne_none_iff_exists'.1 fun hnone => hne ((htree.root hs).1 hnone)
    exact ⟨_, j, hs, hj, htree.parent hs hj⟩
  · have hkeeps := hq.keepsScopes
    exact sameFrom_of_chain hkeeps.classes hkeeps.imports (hkeeps.chain his htree)

/-- A variable in a block is not seen from the block beside it. -/
theorem exists_ancestry_sameFrom_block : ∃ p q : Program, p.Built ∧ 3 < p.scopes.length ∧
    q = ((p.declareLocal 4 "n" .int).1.pushBlock 3).1 ∧
    (p.findVariable? 4 "n").isSome = false ∧ (q.findVariable? 4 "n").isSome = true ∧
    (p.findVariable? 3 "count").isSome = true ∧ SameFrom p q 3 := by
  let m : Method := ⟨"m", .declared "demo.A" [], [⟨"x", .int, .parameter, 1⟩], .int, false, false, .method⟩
  let built := initial.build "demo" none "A" [.field ⟨"count", .int, false, false⟩]
  let body := (built.pushClass rootScope "demo.A").1
  let method := (body.pushMethod 1 m).1
  let blocks := ((method.pushBlock 2).1.pushBlock 2).1
  let p := (blocks.declareLocal 3 "k" .int).1
  have hbuilt : built.Built := .build .initial _ _ _ _
  have hbody : body.Built := hbuilt.push (by decide) _ _
  have hmethod : method.Built := hbody.push (by decide) _ _
  have hblocks : blocks.Built := (hmethod.push (by decide) _ _).push (by decide) _ _
  have hp : p.Built := hblocks.declareLocal 3 "k" .int
  have hlt : 3 < p.scopes.length := by decide
  obtain ⟨-, is, his, -, -, -, hframe⟩ := hp.exists_ancestry_sameFrom hlt
  have hfour : 4 ∉ is := fun hmem => absurd (his.le hp.scopeTree 4 hmem) (by decide)
  exact ⟨p, _, hp, hlt, rfl, by decide +kernel, by decide +kernel, by decide +kernel,
    hframe _ ((Elsewhere.refl.declareLocal hfour _ _).push _ _ _)⟩

end AnnotationExpr.Program
