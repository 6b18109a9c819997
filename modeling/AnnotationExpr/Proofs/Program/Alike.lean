import AnnotationExpr.Proofs.Program.Supertypes
import AnnotationExpr.Program.Service

/-!
Programs whose classes differ in their methods at most. Supertypes, hierarchies and subtyping are the same in both,
and so are fields and the classes around a class, whatever else the programs hold.
-/

namespace AnnotationExpr.Program

/-- Under each name the programs have classes that are one but for their methods. -/
def Alike (p q : Program) : Prop :=
  ∀ name, p.class? name = none ∧ q.class? name = none ∨
    ∃ e methods, p.class? name = some e ∧ q.class? name = some { e with methods }

theorem alike_of_classes {p q : Program} (h : q.classes = p.classes) : p.Alike q := by
  intro name
  rw [class?_congr h]
  cases p.class? name with
  | none => exact .inl ⟨rfl, rfl⟩
  | some e => exact .inr ⟨e, e.methods, rfl, rfl⟩

namespace Alike

variable {p q : Program} (h : p.Alike q)

include h

theorem bindingsOf : q.bindingsOf = p.bindingsOf := by
  funext d
  rcases h d.name with ⟨hp, hq⟩ | ⟨e, methods, hp, hq⟩
  · simp only [Program.bindingsOf, hp, hq]
  · simp only [Program.bindingsOf, hp, hq]

theorem supertypesOf : q.supertypesOf = p.supertypesOf := by
  funext d
  rcases h d.name with ⟨hp, hq⟩ | ⟨e, methods, hp, hq⟩
  · simp only [Program.supertypesOf, hp, hq]
  · simp only [Program.supertypesOf, hp, hq, h.bindingsOf]

theorem hierarchy : q.hierarchy = p.hierarchy := by
  funext d
  have hreached : q.reached d = p.reached d := by
    refine walk_congr h.supertypesOf fun s hs t ht => ?_
    rw [List.mem_singleton.1 hs] at ht
    have hq : t.name ∈ q.reachableNames d :=
      classNames_of_reaches (by rw [Reaches, h.supertypesOf]; exact ht) List.mem_cons_self
    have hp : t.name ∈ p.reachableNames d := classNames_of_reaches ht List.mem_cons_self
    exact iff_of_true hq hp
  rw [hierarchy_eq, hierarchy_eq, hreached]

theorem isSubtype : q.isSubtype = p.isSubtype := by
  funext sub sup
  fun_induction p.isSubtype sub sup with
  | case1 sub sup ih =>
    rw [isSubtype.eq_def, h.hierarchy]
    split
    case h_11 => simp_all only
    all_goals rfl

theorem isAssignable : q.isAssignable = p.isAssignable := by
  funext actual formal
  rw [Program.isAssignable, Program.isAssignable, h.isSubtype]

theorem inheritedField? : q.inheritedField? = p.inheritedField? := by
  funext d name
  rw [Program.inheritedField?, Program.inheritedField?, h.hierarchy, h.bindingsOf]
  refine congrArg (List.findSome? · _) (funext fun t => ?_)
  rcases h t.name with ⟨hp, hq⟩ | ⟨e, methods, hp, hq⟩
  · rw [hp, hq]
  · rw [hp, hq]
    rfl

theorem findField? : q.findField? = p.findField? := by
  funext name type
  unfold Program.findField?
  rw [h.inheritedField?]

theorem returnTypeFor : q.returnTypeFor = p.returnTypeFor := by
  funext m receiver
  unfold Program.returnTypeFor
  rw [h.hierarchy, h.bindingsOf]

theorem directSupertypes : q.directSupertypes = p.directSupertypes := by
  funext type
  unfold Program.directSupertypes
  rw [h.supertypesOf]

theorem isInterface : q.isInterface = p.isInterface := by
  funext d
  rcases h d.name with ⟨hp, hq⟩ | ⟨e, methods, hp, hq⟩
  · rw [Program.isInterface, Program.isInterface, hp, hq]
  · rw [Program.isInterface, Program.isInterface, hp, hq]
    rfl

theorem applies : q.applies = p.applies := by
  funext phase actuals c
  unfold Program.applies
  rw [h.isSubtype, h.isAssignable]

theorem mostSpecific : q.mostSpecific = p.mostSpecific := by
  have hspecific : q.isMoreSpecific = p.isMoreSpecific := by
    funext c d
    rw [isMoreSpecific, isMoreSpecific, h.isSubtype]
  funext cs
  rw [Program.mostSpecific, Program.mostSpecific, hspecific]

theorem choose (name : String) (actuals : List Ty) (cs : List Candidate) (phases : List Phase) :
    q.choose name actuals cs phases = p.choose name actuals cs phases := by
  induction phases with
  | nil => rfl
  | cons phase phases ih => rw [Program.choose, Program.choose, h.applies, h.mostSpecific, ih]

theorem outerNames : q.outerNames = p.outerNames := by
  funext name
  fun_induction p.outerNames name with
  | case1 name hn =>
    refine outerNames_of_none ?_
    rcases h name with ⟨-, hq⟩ | ⟨e, methods, hp, -⟩
    · rw [hq]; rfl
    · rw [hn] at hp; cases hp
  | case2 name e he ho =>
    refine outerNames_of_none ?_
    rcases h name with ⟨-, hq⟩ | ⟨e', methods, hp, hq⟩
    · rw [hq]; rfl
    · rw [he] at hp; cases hp; rw [hq]; exact ho
  | case3 name e he outer ho hlt ih =>
    rcases h name with ⟨hp, -⟩ | ⟨e', methods, hp, hq⟩
    · rw [he] at hp; cases hp
    · rw [he] at hp; cases hp; rw [outerNames_of_class? hq ho, ih]

end Alike

end AnnotationExpr.Program
