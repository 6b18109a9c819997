import AnnotationExpr.Proofs.Program.Members
import AnnotationExpr.Proofs.Ty.Substitution

/-!
What the hierarchy of a class and the classes around it depend on. Both are made of the declared classes alone,
whatever scopes a program has; a class comes first in its own hierarchy, so its own fields come before all others.
-/

namespace AnnotationExpr.Program

variable {p q : Program}

theorem class?_congr (h : q.classes = p.classes) : q.class? = p.class? := by
  funext name
  rw [class?, class?, h]

theorem outerNames_of_class? {name outer : String} {e : ClassEntry} (h : p.class? name = some e)
    (ho : e.enclosing = some outer) : p.outerNames name = outer :: p.outerNames outer := by
  rw [outerNames]
  split
  next h' => rw [h] at h'; cases h'
  next h' =>
    rw [h] at h'
    cases h'
    split
    next ho' => rw [ho] at ho'; cases ho'
    next ho' => rw [ho] at ho'; cases ho'; rfl

theorem outerNames_of_none {name : String} (h : (p.class? name).bind ClassEntry.enclosing = none) :
    p.outerNames name = [] := by
  rw [outerNames]
  split
  · rfl
  next h' =>
    split
    · rfl
    next ho' => rw [h', Option.bind_some, ho'] at h; cases h

theorem walk_of_nil {remaining : List String} {queue : List ClassType}
    (h : (queue.dropWhile fun d => d.name ∉ remaining) = []) : p.walk remaining queue = [] := by
  rw [walk]
  split
  · rfl
  next h' => rw [h] at h'; cases h'

theorem walk_of_cons {remaining : List String} {queue rest : List ClassType} {d : ClassType}
    (h : (queue.dropWhile fun d => d.name ∉ remaining) = d :: rest) :
    p.walk remaining queue = d :: p.walk (without d.name remaining) (rest ++ p.supertypesOf d) := by
  rw [walk]
  split
  next h' => rw [h] at h'; cases h'
  next h' => rw [h] at h'; cases h'; rfl

theorem bindingsOf_eq {d : ClassType} {e : ClassEntry} (he : p.class? d.name = some e)
    (hlength : e.typeParameters.length = d.arguments.length) :
    p.bindingsOf d = bindings e.typeParameters d.arguments := by
  unfold bindingsOf
  rw [he]
  exact if_pos hlength

theorem substitute_bindingsOf_selfClass {e : ClassEntry} (he : p.class? e.qualifiedName = some e) (t : Ty) :
    t.substitute (p.bindingsOf e.selfClass) = t := by
  have hclass : p.class? e.selfClass.name = some e := he
  rw [bindingsOf_eq hclass (List.length_map _).symm]
  exact Ty.substitute_eq_self (fun _ _ h => bindings_var h) t

theorem exists_hierarchy_eq_cons (p : Program) (d : ClassType) : ∃ ds, p.hierarchy d = d :: ds := by
  have hname : d.name ∈ p.reachableNames d := by
    simp [reachableNames, ClassType.toTy, Ty.classNames]
  have hdrop : ([d].dropWhile fun d => d.name ∉ p.reachableNames d) = d :: [] := by simp [hname]
  unfold hierarchy
  dsimp only
  rw [walk_of_cons hdrop]
  split
  · exact ⟨_, rfl⟩
  · exact ⟨_, List.cons_append⟩

theorem self_mem_hierarchy (p : Program) (d : ClassType) : d ∈ p.hierarchy d := by
  obtain ⟨ds, h⟩ := p.exists_hierarchy_eq_cons d
  rw [h]
  exact List.mem_cons_self

theorem field?_eq_none {e : ClassEntry} {name : String} (he : p.class? e.qualifiedName = some e)
    (h : p.inheritedField? e.selfClass name = none) : e.field? name = none := by
  have hself := List.findSome?_eq_none_iff.1 h e.selfClass (p.self_mem_hierarchy e.selfClass)
  have hclass : p.class? e.selfClass.name = some e := he
  rw [hclass, Option.bind_some, Option.map_eq_none_iff] at hself
  exact hself

/-- Where a class neither has nor inherits a field, no field of that name is owned by it. -/
theorem owner_ne_selfType {e : ClassEntry} {name : String} {d : ClassType} {f : Field} (hp : p.OwnsMembers)
    (he : p.class? e.qualifiedName = some e) (h : p.inheritedField? e.selfClass name = none)
    (hf : p.inheritedField? d name = some f) : f.owner ≠ e.selfType := by
  obtain ⟨t, -, e', he', g, hg, hname, rfl⟩ := inheritedField?_eq_some hf
  obtain ⟨as, ho⟩ := (hp e' (mem_of_class? he')).field g hg
  intro howner
  have hq : e'.qualifiedName = e.qualifiedName := by
    have : Ty.declared e'.qualifiedName as = e.selfType := ho.symm.trans howner
    exact (Ty.declared.inj this).1
  have hsame : e' = e := by
    rw [qualifiedName_of_class? he'] at hq
    rw [hq, he] at he'
    exact (Option.some.inj he').symm
  have hnone := field?_eq_none he h
  rw [← hsame] at hnone
  exact absurd (decide_eq_true hname) (by simpa using List.find?_eq_none.1 hnone g hg)

end AnnotationExpr.Program
