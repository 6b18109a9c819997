import AnnotationExpr.Program.Loading
import AnnotationExpr.Proofs.Loop
import AnnotationExpr.Proofs.Program.FieldAround

/-!
The loops that go from a class outwards to the classes around it: the search for a field, the search for a method, and
the classes in whose bodies an expression stands. None of them looks whether it comes to a class again. It cannot, for
the name of a class has the name of the class around it in front, and so is longer.
-/

namespace AnnotationExpr.Program

variable {p : Program} {d d' : ClassType} {name : String} {e : ClassEntry}

theorem class?_enclosing {outer : String} (h : p.class? name = some e) (ho : e.enclosing = some outer) :
    name = outer ++ "." ++ e.name ∧ outer.length < name.length := by
  obtain rfl : e.qualifiedName = name := qualifiedName_of_class? h
  exact ⟨by rw [ClassEntry.qualifiedName, ho], ClassEntry.length_enclosing_lt ho⟩

/-! The class right around a class is the first of those around it. -/

theorem outerClasses_of_enclosingClass?_eq_none (h : p.enclosingClass? d = none) : p.outerClasses d.name = [] := by
  unfold outerClasses
  cases ho : (p.class? d.name).bind ClassEntry.enclosing with
  | none => rw [outerNames_of_none ho, List.filterMap_nil]
  | some outer =>
    obtain ⟨e, he, ho'⟩ := Option.bind_eq_some_iff.1 ho
    have hunknown : p.class? outer = none := by simpa [enclosingClass?, ho] using h
    have hlast : p.outerNames outer = [] := outerNames_of_none (by rw [hunknown]; rfl)
    rw [outerNames_of_class? he ho', hlast, List.filterMap_cons_none hunknown, List.filterMap_nil]

theorem outerClasses_of_enclosingClass? (h : p.enclosingClass? d = some d') :
    (p.outerClasses d.name).map ClassEntry.selfClass = d' :: (p.outerClasses d'.name).map ClassEntry.selfClass := by
  obtain ⟨outer, ho, h⟩ := Option.bind_eq_some_iff.1 h
  obtain ⟨e, he, ho⟩ := Option.bind_eq_some_iff.1 ho
  obtain ⟨around, haround, rfl⟩ := Option.map_eq_some_iff.1 h
  have hname : around.selfClass.name = outer := qualifiedName_of_class? haround
  rw [hname, outerClasses, outerNames_of_class? he ho, List.filterMap_cons_some haround, List.map_cons]
  rfl

/-! Searches. -/

section Search

variable {α ρ : Type} (visit : ClassType → α → Round α ρ) (last : α → ρ)

/-- One round of a search outwards. What it finds at a class ends it; or else it goes on at the class around that, and
ends where there is none. -/
def outwardRound (p : Program) : Ty × α → Round (Ty × α) ρ
  | (.declared n as, a) =>
    match visit ⟨n, as⟩ a with
    | .done r => .done r
    | .next b => .next (((p.enclosingClass? ⟨n, as⟩).map ClassType.toTy).getD .none, b)
  | (_, a) => .done (last a)

def visitAll : List ClassType → α → ρ
  | [], a => last a
  | d :: ds, a =>
    match visit d a with
    | .done r => r
    | .next b => visitAll ds b

/-- A search outwards ends, whatever it looks for, after a visit to each of the classes around its start at most. -/
theorem ends_outwardRound (p : Program) (d : ClassType) (a : α) :
    Round.Ends (p.outwardRound visit last) (d.toTy, a)
      (visitAll visit last (d :: (p.outerClasses d.name).map ClassEntry.selfClass) a) := by
  generalize hds : (p.outerClasses d.name).map ClassEntry.selfClass = ds
  induction ds generalizing d a with
  | nil =>
    rw [visitAll]
    cases hv : visit d a with
    | done r => exact .done (by simp only [outwardRound, ClassType.toTy, hv])
    | next b =>
      have hnone : p.enclosingClass? d = none := by
        by_contra hsome
        obtain ⟨d', hd'⟩ := Option.ne_none_iff_exists'.1 hsome
        rw [outerClasses_of_enclosingClass? hd'] at hds
        cases hds
      refine .next (t := (.none, b)) ?_ (.done rfl)
      simp only [outwardRound, ClassType.toTy, hv, hnone, Option.map_none, Option.getD_none]
  | cons d' ds ih =>
    rw [visitAll]
    cases hv : visit d a with
    | done r => exact .done (by simp only [outwardRound, ClassType.toTy, hv])
    | next b =>
      cases hd' : p.enclosingClass? d with
      | none =>
        rw [outerClasses_of_enclosingClass?_eq_none hd'] at hds
        cases hds
      | some u =>
        rw [outerClasses_of_enclosingClass? hd'] at hds
        obtain ⟨rfl, htail⟩ := List.cons.inj hds
        refine .next ?_ (ih u b htail)
        simp only [outwardRound, ClassType.toTy, hv, hd', Option.map_some, Option.getD_some]

end Search

/-- Looks for a field at a class. The flag tells whether the search is still at the class where it began. -/
def visitField (p : Program) (name : String) (d : ClassType) (atStart : Bool) : Round Bool (Option (Field × Bool)) :=
  match p.findField? name d.toTy with
  | some f => .done (some (f, atStart))
  | none => .next false

/-- Looks for a method at a class. An answer that is no method, or none, is kept while the search goes on. -/
def visitMethod (p : Program) (text name : String) (types : List Ty) (d : ClassType) (_ : Option Method) :
    Round (Option Method) (Except ResolveError (Option Method)) :=
  match Lookup.asked text (p.findMethod name d.toTy types) with
  | .ok found => if found.any Method.isMethod then .done (.ok found) else .next found
  | .error e => .done (.error e)

theorem visitAll_visitField (p : Program) (name : String) (ds : List ClassType) :
    visitAll (p.visitField name) (fun _ => none) ds false =
      (ds.findSome? (p.inheritedField? · name)).map (·, false) := by
  induction ds with
  | nil => rfl
  | cons d ds ih =>
    have hfield : p.findField? name d.toTy = p.inheritedField? d name := rfl
    rw [visitAll, visitField, hfield, List.findSome?_cons]
    cases p.inheritedField? d name with
    | none => exact ih
    | some f => rfl

theorem visitAll_visitMethod (p : Program) (scope : Nat) (text name : String) (types : List Ty) (ds : List ClassType) :
    ∀ (d : ClassType) (found : Option Method), visitAll (p.visitMethod text name types) .ok (d :: ds) found =
      (p.lookupFrom scope).firstMethod text name types (d :: ds) := by
  induction ds with
  | nil =>
    intro d found
    have hmethod : (p.lookupFrom scope).method name d.toTy types = p.findMethod name d.toTy types := rfl
    rw [visitAll, visitMethod, Lookup.firstMethod, hmethod]
    cases Lookup.asked text (p.findMethod name d.toTy types) with
    | error e => rfl
    | ok found => cases hm : found.any Method.isMethod <;> simp [hm, visitAll, pure, Except.pure, bind, Except.bind]
  | cons d' ds ih =>
    intro d found
    have hmethod : (p.lookupFrom scope).method name d.toTy types = p.findMethod name d.toTy types := rfl
    rw [visitAll, visitMethod, Lookup.firstMethod, hmethod]
    cases Lookup.asked text (p.findMethod name d.toTy types) with
    | error e => rfl
    | ok found =>
      cases hm : found.any Method.isMethod with
      | true => simp [hm, pure, Except.pure, bind, Except.bind]
      | false => simp [hm, bind, Except.bind, ih d' found]

/-! The classes in whose bodies an expression stands. -/

/-- One round of gathering them: the names that there are, and the next if there is one. It may be unknown. -/
def contextRound (p : Program) : List String × Option String → Round (List String × Option String) (List String)
  | (names, some outer) => .next (names ++ [outer], (p.class? outer).bind ClassEntry.enclosing)
  | (names, none) => .done names

theorem ends_contextRound (p : Program) (className : String) (names : List String) :
    Round.Ends p.contextRound (names, (p.class? className).bind ClassEntry.enclosing)
      (names ++ p.outerNames className) := by
  fun_induction p.outerNames className generalizing names with
  | case1 className hnone =>
    rw [hnone, List.append_nil]
    exact .done rfl
  | case2 className e he hnone =>
    rw [he, Option.bind_some, hnone, List.append_nil]
    exact .done rfl
  | case3 className e he outer ho _ ih =>
    rw [he, Option.bind_some, ho, List.append_cons]
    exact .next rfl (ih (names ++ [outer]))

/-- A class around another has the shorter name, and the loops outwards end: the search for a field in any type and that
for a method with what the lookup answers, unless the type is an array, which has no classes around it; and the names
of the classes around a class, for whose bodies scopes are opened. -/
theorem outward_loops_end (p : Program) :
    (∀ name e outer, p.class? name = some e → e.enclosing = some outer →
      name = outer ++ "." ++ e.name ∧ outer.length < name.length) ∧
    (∀ scope name type, ∃ found, Round.Ends (p.outwardRound (p.visitField name) fun _ => none) (type, true) found ∧
      (type.isArray = false → (p.lookupFrom scope).findField name type = .ok found)) ∧
    (∀ scope text name types receiver start, ∃ answer,
      Round.Ends (p.outwardRound (p.visitMethod text name types) .ok) (receiver, start) answer ∧
        (receiver.isArray = false → start = none →
          (p.lookupFrom scope).answeredMethod text name receiver types = answer)) ∧
    ∀ className e, p.class? className = some e → ∃ names,
      Round.Ends p.contextRound ([className], e.enclosing) names ∧
        p.enter className none =
          ((p.pushClasses names).1, .ok (.classDeclaration e.selfType, (p.pushClasses names).2)) := by
  refine ⟨fun name e outer => class?_enclosing, fun scope name type => ?_,
    fun scope text name types receiver start => ?_, fun className e he => ?_⟩
  · cases type with
    | declared n as =>
      refine ⟨_, ends_outwardRound (p.visitField name) _ p ⟨n, as⟩ true, fun _ => ?_⟩
      have hfield : p.findField? name (ClassType.toTy ⟨n, as⟩) = p.inheritedField? ⟨n, as⟩ name := rfl
      rw [visitAll, visitField, hfield, show Ty.declared n as = ClassType.toTy ⟨n, as⟩ from rfl, findField_toTy]
      cases p.inheritedField? ⟨n, as⟩ name with
      | some f => rfl
      | none => exact congrArg Except.ok (p.visitAll_visitField name _).symm
    | array c => exact ⟨none, .done rfl, fun harray => nomatch harray⟩
    | _ => exact ⟨none, .done rfl, fun _ => rfl⟩
  · cases receiver with
    | declared n as =>
      refine ⟨_, ends_outwardRound (p.visitMethod text name types) .ok p ⟨n, as⟩ start, fun _ _ => ?_⟩
      rw [visitAll_visitMethod p scope]
      rfl
    | array c => exact ⟨.ok start, .done rfl, fun harray => nomatch harray⟩
    | _ => exact ⟨.ok start, .done rfl, fun _ hstart => by rw [hstart]; rfl⟩
  · refine ⟨className :: p.outerNames className, ?_, ?_⟩
    · have h := p.ends_contextRound className [className]
      rwa [he] at h
    · simp only [enter, he]

/-- A member of a class that nobody knows, and then a class of its name in a package of that class's name. -/
example :
    let p := initial.build "" (some "demo.Outer") "Inner" []
    p.outerNames "demo.Outer.Inner" = ["demo.Outer"] ∧
      (p.build "demo.Outer" none "Inner" []).outerNames "demo.Outer.Inner" = [] := by
  decide +kernel

end AnnotationExpr.Program
