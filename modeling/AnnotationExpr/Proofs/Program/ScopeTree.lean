import AnnotationExpr.Program.Builtin
import AnnotationExpr.Program.Scopes
import Mathlib.Data.List.Basic

/-!
The tree of scopes. Where each scope is put into one that exists, the way from a scope outwards goes down in numbers
and ends at the root, and the chain of the scope is this whole way. A new scope sees itself and then what its parent
sees.
-/

namespace AnnotationExpr.Program

/-- Only the first scope has no parent, and the parent of any other comes before it. -/
structure ScopeTree (p : Program) : Prop where
  length_pos : rootScope < p.scopes.length
  root : ∀ {i : Nat} {s : Scope}, p.scopes[i]? = some s → (s.parent = none ↔ i = rootScope)
  parent : ∀ {i j : Nat} {s : Scope}, p.scopes[i]? = some s → s.parent = some j → j < i

/-- The numbers of a scope and of those around it, from the scope outwards to one without a parent. -/
inductive Ancestry (p : Program) : Nat → List Nat → Prop where
  | last {i : Nat} {s : Scope} (hs : p.scopes[i]? = some s) (hp : s.parent = none) : Ancestry p i [i]
  | next {i j : Nat} {s : Scope} {is : List Nat} (hs : p.scopes[i]? = some s) (hp : s.parent = some j)
      (h : Ancestry p j is) : Ancestry p i (i :: is)

variable {p q : Program} {i : Nat} {is : List Nat}

/-! Programs keep the tree as they grow. -/

theorem ScopeTree.of_scopes (h : p.ScopeTree) (hscopes : q.scopes = p.scopes) : q.ScopeTree := by
  refine ⟨?_, ?_, ?_⟩ <;> rw [hscopes]
  · exact h.length_pos
  · exact h.root
  · exact h.parent

theorem scopeTree_initial : initial.ScopeTree := by
  have hscopes : initial.scopes = [⟨none, .root, []⟩] := rfl
  have hscope {i : Nat} {s : Scope} (hs : initial.scopes[i]? = some s) : i = rootScope ∧ s.parent = none := by
    rw [hscopes, List.getElem?_singleton, Option.ite_none_right_eq_some] at hs
    obtain ⟨hzero, hs⟩ := hs
    cases hs
    exact ⟨hzero, rfl⟩
  refine ⟨?_, fun {i s} hs => ?_, fun {i j s} hs hj => ?_⟩
  · rw [hscopes]
    exact Nat.one_pos
  · exact iff_of_true (hscope hs).2 (hscope hs).1
  · cases (hscope hs).2.symm.trans hj

/-- A scope was there before, or it is the new one. -/
theorem getElem?_push {i parent : Nat} {kind : Scope.Kind} {declared : List Variable} {s : Scope}
    (h : (p.push parent kind declared).1.scopes[i]? = some s) :
    p.scopes[i]? = some s ∨ i = p.scopes.length ∧ s.parent = some parent := by
  change (p.scopes ++ [_])[i]? = some s at h
  rw [List.getElem?_append] at h
  split at h
  · exact .inl h
  · rw [List.getElem?_singleton, Option.ite_none_right_eq_some] at h
    obtain ⟨hzero, h⟩ := h
    cases h
    exact .inr ⟨by omega, rfl⟩

theorem snd_push_lt (p : Program) (parent : Nat) (kind : Scope.Kind) (declared : List Variable) :
    (p.push parent kind declared).2 < (p.push parent kind declared).1.scopes.length := by
  simp [push]

theorem ScopeTree.push (h : p.ScopeTree) {parent : Nat} (hparent : parent < p.scopes.length) (kind : Scope.Kind)
    (declared : List Variable) : (p.push parent kind declared).1.ScopeTree := by
  refine ⟨?_, fun {i s} hs => ?_, fun {i j s} hs hj => ?_⟩
  · exact Nat.lt_of_lt_of_le h.length_pos (by simp [Program.push])
  · rcases getElem?_push hs with hs | ⟨rfl, hp⟩
    · exact h.root hs
    · simp [hp, Nat.ne_of_gt h.length_pos]
  · rcases getElem?_push hs with hs | ⟨rfl, hp⟩
    · exact h.parent hs hj
    · cases hp.symm.trans hj
      exact hparent

/-- A variable changes no parent. -/
theorem getElem?_declareVariable {scope : Nat} {v : Variable} {s : Scope}
    (h : (p.declareVariable scope v).scopes[i]? = some s) : ∃ t, p.scopes[i]? = some t ∧ s.parent = t.parent := by
  change (p.scopes.modify scope _)[i]? = some s at h
  rw [List.getElem?_modify] at h
  obtain ⟨t, ht, rfl⟩ := Option.map_eq_some_iff.1 h
  refine ⟨t, ht, ?_⟩
  split <;> rfl

theorem ScopeTree.declareVariable (h : p.ScopeTree) (scope : Nat) (v : Variable) :
    (p.declareVariable scope v).ScopeTree := by
  refine ⟨?_, fun {i s} hs => ?_, fun {i j s} hs hj => ?_⟩
  · rw [Program.declareVariable, List.length_modify]
    exact h.length_pos
  · obtain ⟨t, ht, hp⟩ := getElem?_declareVariable hs
    rw [hp]
    exact h.root ht
  · obtain ⟨t, ht, hp⟩ := getElem?_declareVariable hs
    exact h.parent ht (hp.symm.trans hj)

/-! The way outwards. -/

theorem ScopeTree.exists_ancestry (h : p.ScopeTree) (hi : i < p.scopes.length) : ∃ is, p.Ancestry i is := by
  induction i using Nat.strongRecOn with
  | ind i ih =>
    have hs : p.scopes[i]? = some p.scopes[i] := List.getElem?_eq_getElem hi
    cases hp : p.scopes[i].parent with
    | none => exact ⟨_, .last hs hp⟩
    | some j =>
      -- the induction is on the number, as the parent has a smaller one
      have hlt := h.parent hs hp
      obtain ⟨is, his⟩ := ih j hlt (Nat.lt_trans hlt hi)
      exact ⟨_, .next hs hp his⟩

namespace Ancestry

theorem getLast? (h : p.Ancestry i is) (hp : p.ScopeTree) : is.getLast? = some rootScope := by
  induction h with
  | last hs hnone => exact congrArg some ((hp.root hs).1 hnone)
  | next _ _ _ ih => rw [List.getLast?_cons, ih, Option.getD_some]

/-- No scope on the way outwards has a greater number. -/
theorem le (h : p.Ancestry i is) (hp : p.ScopeTree) : ∀ k ∈ is, k ≤ i := by
  induction h with
  | last => exact fun k hk => Nat.le_of_eq (List.mem_singleton.1 hk)
  | next hs hj _ ih =>
    have hlt := hp.parent hs hj
    refine List.forall_mem_cons.2 ⟨Nat.le_refl _, fun k hk => ?_⟩
    exact Nat.le_trans (ih k hk) (Nat.le_of_lt hlt)

theorem pairwise (h : p.Ancestry i is) (hp : p.ScopeTree) : is.Pairwise (· > ·) := by
  induction h with
  | last => exact List.pairwise_singleton _ _
  | next hs hj h ih =>
    refine List.pairwise_cons.2 ⟨fun k hk => ?_, ih⟩
    exact Nat.lt_of_le_of_lt (h.le hp k hk) (hp.parent hs hj)

theorem length_le (h : p.Ancestry i is) (hp : p.ScopeTree) : is.length ≤ i + 1 := by
  induction h with
  | last => exact Nat.le_add_left 1 _
  | next hs hj _ ih =>
    have hlt := hp.parent hs hj
    exact Nat.succ_le_succ (Nat.le_trans ih hlt)

theorem forall_lt (h : p.Ancestry i is) : ∀ k ∈ is, k < p.scopes.length := by
  induction h with
  | last hs => exact List.forall_mem_singleton.2 (List.getElem?_eq_some_iff.1 hs).1
  | next hs _ _ ih => exact List.forall_mem_cons.2 ⟨(List.getElem?_eq_some_iff.1 hs).1, ih⟩

theorem self_mem (h : p.Ancestry i is) : i ∈ is := by
  cases h <;> exact List.mem_cons_self

theorem chainUpTo (h : p.Ancestry i is) {n : Nat} (hn : is.length ≤ n) :
    p.chainUpTo n i = is.filterMap (p.scopes[·]?) := by
  induction h generalizing n with
  | last hs hnone =>
    obtain ⟨n, rfl⟩ := Nat.exists_eq_add_of_le' hn
    simp only [Program.chainUpTo, hs, hnone, List.filterMap_cons, List.filterMap_nil, List.length_singleton]
  | next hs hj _ ih =>
    obtain ⟨n, rfl⟩ := Nat.exists_eq_add_of_le' (Nat.le_trans (Nat.le_add_left 1 _) hn)
    simp only [Program.chainUpTo, hs, hj, List.filterMap_cons, ih (Nat.le_of_succ_le_succ hn)]

/-- A chain is the whole way outwards: the bound on its length is not met before the root is. -/
theorem chain (h : p.Ancestry i is) (hp : p.ScopeTree) : p.chain i = is.filterMap (p.scopes[·]?) :=
  h.chainUpTo (Nat.le_trans (h.length_le hp) (h.forall_lt i h.self_mem))

theorem congr (h : p.Ancestry i is) (hscopes : ∀ k ∈ is, q.scopes[k]? = p.scopes[k]?) :
    q.Ancestry i is := by
  induction h with
  | last hs hnone => exact .last ((hscopes _ List.mem_cons_self).trans hs) hnone
  | next hs hj _ ih =>
    have ⟨hscope, hrest⟩ := List.forall_mem_cons.1 hscopes
    exact .next (hscope.trans hs) hj (ih hrest)

end Ancestry

theorem chain_push (h : p.ScopeTree) {parent : Nat} (hlt : parent < p.scopes.length) (kind : Scope.Kind)
    (declared : List Variable) :
    (p.push parent kind declared).1.chain (p.push parent kind declared).2 =
      ⟨some parent, kind, declared⟩ :: p.chain parent := by
  obtain ⟨is, his⟩ := h.exists_ancestry hlt
  have hnew : (p.push parent kind declared).1.scopes[(p.push parent kind declared).2]? =
      some ⟨some parent, kind, declared⟩ := by
    simp [push]
  have hsame : ∀ k ∈ is, (p.push parent kind declared).1.scopes[k]? = p.scopes[k]? := fun k hk =>
    List.getElem?_append_left (his.forall_lt k hk)
  have hway := Ancestry.next hnew rfl (his.congr hsame)
  rw [hway.chain (h.push hlt kind declared), his.chain h, List.filterMap_cons_some hnew, List.filterMap_congr hsame]

end AnnotationExpr.Program
