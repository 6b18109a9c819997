import AnnotationExpr.Proofs.Program.Alike

/-!
What a program answers through its classes alone: types, members and the classes around a class. Programs with the
same classes give the same answers, whatever packages, imports and scopes they have.
-/

namespace AnnotationExpr.Program

variable {p q : Program} (h : q.classes = p.classes)

include h

theorem memberClass?_congr : q.memberClass? = p.memberClass? := by
  funext className name
  rw [memberClass?, memberClass?, class?_congr h, (alike_of_classes h).hierarchy]

theorem declaredCandidates_congr : q.declaredCandidates = p.declaredCandidates := by
  funext name d
  unfold declaredCandidates
  rw [class?_congr h, (alike_of_classes h).bindingsOf]

theorem candidates_congr : q.candidates = p.candidates := by
  have hin : q.candidatesIn = p.candidatesIn := by
    funext name start d
    rw [candidatesIn, candidatesIn, (alike_of_classes h).hierarchy, declaredCandidates_congr h]
  funext type name
  unfold candidates
  rw [hin]

theorem findMethod_congr : q.findMethod = p.findMethod := by
  funext name type actuals
  rw [findMethod, findMethod, candidates_congr h, (alike_of_classes h).choose]

theorem valueOf?_congr : q.valueOf? = p.valueOf? := by
  funext boxed
  unfold valueOf?
  rw [class?_congr h]

theorem outerClasses_congr : q.outerClasses = p.outerClasses := by
  funext name
  rw [outerClasses, outerClasses, (alike_of_classes h).outerNames, class?_congr h]

theorem classOf?_congr : q.classOf? = p.classOf? := by
  funext s
  unfold classOf?
  rw [class?_congr h]

theorem classIn?_congr : q.classIn? = p.classIn? := by
  funext name s
  unfold classIn?
  rw [memberClass?_congr h, class?_congr h]

theorem importedClass?_congr (himports : q.imports = p.imports) : q.importedClass? = p.importedClass? := by
  funext name
  rw [importedClass?, importedClass?, himports, class?_congr h]

end AnnotationExpr.Program
