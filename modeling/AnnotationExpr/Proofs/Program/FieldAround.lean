import AnnotationExpr.Program.Service
import AnnotationExpr.Proofs.Program.Alike
import AnnotationExpr.Proofs.Program.Scopes
import AnnotationExpr.Resolution

/-!
The field that a name means in a class, found in two ways: through the scopes of the class and of those around it,
and in the type of the class and then in the types around it. Both go through the same classes in the same order.
-/

namespace AnnotationExpr.Program

/-- The field of a name that the class with the given name has or inherits. -/
def fieldOf? (p : Program) (name className : String) : Option Field :=
  (p.class? className).bind fun e => p.inheritedField? e.selfClass name

/-- The field that a name means in a class: one that the class has or inherits, or else one of a class around it.
The flag tells whether it is the class's own. -/
def fieldAround? (p : Program) (className name : String) : Option (Field × Bool) :=
  match p.fieldOf? name className with
  | some f => some (f, true)
  | none => ((p.outerNames className).findSome? (p.fieldOf? name)).map (·, false)

variable {p q : Program} {className name : String} {method : Option String} {c : Context} {scope : Nat}
  {e : ClassEntry} {m : Option Method}

theorem namedIn?_body (n : String) : p.namedIn? name (.body n) = (p.fieldOf? name n).map .field := by
  unfold namedIn? fieldOf?
  rw [Option.map_bind]
  rfl

theorem namedIn?_ofMethod {d : Method} (h : name ∉ d.parameterNames) : p.namedIn? name (.ofMethod d) = none := by
  have hvar : Scope.variable? (.ofMethod d) name = none := by
    refine List.find?_eq_none.2 fun v hv => ?_
    have hmem : v.name ∈ d.parameterNames := List.mem_map_of_mem (List.mem_reverse.1 hv)
    simpa using fun hn : v.name = name => h (hn ▸ hmem)
  unfold namedIn?
  rw [hvar]
  rfl

theorem findSome?_bodies (names : List String) :
    (names.map Scope.body ++ [Scope.outermost]).findSome? (p.namedIn? name) =
      (names.findSome? (p.fieldOf? name)).map .field := by
  induction names with
  | nil => rfl
  | cons n names ih =>
    rw [List.map_cons, List.cons_append, List.findSome?_cons, List.findSome?_cons, namedIn?_body, ih]
    cases p.fieldOf? name n <;> rfl

theorem findSome?_around (className name : String) :
    (className :: p.outerNames className).findSome? (p.fieldOf? name) =
      (p.fieldAround? className name).map Prod.fst := by
  unfold fieldAround?
  rw [List.findSome?_cons]
  cases p.fieldOf? name className with
  | some f => rfl
  | none => cases (p.outerNames className).findSome? (p.fieldOf? name) <;> rfl

theorem Entered.findVariable? (h : Entered p className method q c scope e m)
    (hm : ∀ d ∈ m, name ∉ d.parameterNames) :
    q.findVariable? scope name = (q.fieldAround? className name).map fun r => .field r.1 := by
  have hbodies : (((className :: q.outerNames className).map Scope.body ++ [Scope.outermost]).findSome?
      (q.namedIn? name)) = (q.fieldAround? className name).map fun r => .field r.1 := by
    rw [findSome?_bodies, findSome?_around, Option.map_map]
    rfl
  unfold Program.findVariable?
  rw [h.sees.findSome?_chain fun s => rfl, List.append_assoc, List.findSome?_append,
    ← (alike_of_classes h.classes).outerNames]
  cases m with
  | none => exact hbodies
  | some d =>
    have hd : (([d].map Scope.ofMethod).findSome? (q.namedIn? name)) = none :=
      List.findSome?_eq_none_iff.2 fun s hs => by
        rw [List.mem_singleton.1 hs]
        exact namedIn?_ofMethod (hm d rfl)
    rw [Option.toList_some, hd, Option.none_or]
    exact hbodies

theorem Entered.methodParameters? (h : Entered p className method q c scope e m) :
    q.methodParameters? scope = m.map Method.parameterNames := by
  unfold Program.methodParameters?
  rw [h.sees.findSome?_chain fun s => rfl, List.append_assoc]
  cases m with
  | some d => rfl
  | none =>
    refine List.findSome?_eq_none_iff.2 fun s hs => ?_
    have hs : s ∈ (className :: p.outerNames className).map Scope.body ++ [Scope.outermost] := hs
    rcases List.mem_append.1 hs with hs | hs
    · obtain ⟨n, -, rfl⟩ := List.mem_map.1 hs
      rfl
    · rw [List.mem_singleton.1 hs]
      rfl

theorem Entered.parameterIndex? (h : Entered p className method q c scope e m)
    (hm : ∀ d ∈ m, name ∉ d.parameterNames) : (q.lookupFrom scope).parameterIndex? name = none := by
  have hparameters : (q.lookupFrom scope).methodParameters = m.map Method.parameterNames := h.methodParameters?
  unfold Lookup.parameterIndex?
  rw [hparameters]
  cases m with
  | none => rfl
  | some d =>
    have hnone : d.parameterNames.findIdx? (· = name) = none :=
      List.findIdx?_eq_none_iff.2 fun n hn => decide_eq_false fun heq => hm d rfl (heq ▸ hn)
    rw [Option.map_some, Option.bind_some, hnone]
    rfl

theorem firstField_lookupFrom (p : Program) (scope : Nat) (name : String) (ds : List ClassType) :
    (p.lookupFrom scope).firstField name ds = .ok (ds.findSome? fun d => p.inheritedField? d name) := by
  induction ds with
  | nil => rfl
  | cons d ds ih =>
    have hfield : (p.lookupFrom scope).field name d.toTy = .ok (p.inheritedField? d name) := rfl
    rw [Lookup.firstField, hfield, List.findSome?_cons]
    cases p.inheritedField? d name with
    | some f => rfl
    | none => exact ih

theorem findSome?_outerClasses (className name : String) :
    ((p.outerClasses className).map ClassEntry.selfClass).findSome? (fun d => p.inheritedField? d name) =
      (p.outerNames className).findSome? (p.fieldOf? name) := by
  rw [outerClasses, List.findSome?_map, ← List.head?_filterMap, List.filterMap_filterMap, List.head?_filterMap]
  rfl

/-- The fields of a class type and of those above it come first, then those of the classes around it. -/
theorem findField_toTy (p : Program) (scope : Nat) (d : ClassType) (name : String) :
    (p.lookupFrom scope).findField name d.toTy =
      .ok (match p.inheritedField? d name with
        | some f => some (f, true)
        | none => (((p.outerClasses d.name).map ClassEntry.selfClass).findSome? fun d => p.inheritedField? d name).map
            (·, false)) := by
  have hfield : (p.lookupFrom scope).field name d.toTy = .ok (p.inheritedField? d name) := rfl
  have hencl : (p.lookupFrom scope).enclosing d = (p.outerClasses d.name).map ClassEntry.selfClass := rfl
  change ((Lookup.asked name ((p.lookupFrom scope).field name d.toTy)) >>= _) = _
  rw [hfield]
  cases p.inheritedField? d name with
  | some f => rfl
  | none =>
    change ((p.lookupFrom scope).firstField name ((p.lookupFrom scope).enclosing d) >>= _) = _
    rw [firstField_lookupFrom, hencl]
    rfl

theorem findField_selfType (h : p.class? className = some e) (scope : Nat) (name : String) :
    (p.lookupFrom scope).findField name e.selfType = .ok (p.fieldAround? className name) := by
  have hname : e.selfClass.name = className := qualifiedName_of_class? h
  have hown : p.fieldOf? name className = p.inheritedField? e.selfClass name := by
    rw [fieldOf?, h, Option.bind_some]
  rw [ClassEntry.selfType, findField_toTy, hname, findSome?_outerClasses, fieldAround?, hown]

/-- The receiver of the context has the type of the class that is entered. -/
theorem Entered.findField (h : Entered p className method q c scope e m) (name : String) :
    (q.lookupFrom scope).findField name (c.receiverType?.getD .none) = .ok (q.fieldAround? className name) := by
  have hclass : q.class? className = some e := by rw [class?_congr h.classes]; exact h.class?
  have htype : c.receiverType? = some e.selfType := by
    unfold Context.receiverType?
    rcases h.receiver with hr | hr <;> rw [hr] <;> rfl
  rw [htype]
  exact findField_selfType hclass scope name

/-- A field that only a class around has is owned by another class. -/
theorem selfType_ne_owner {f : Field} (hp : p.OwnsMembers) (he : p.class? className = some e)
    (hf : p.fieldAround? className name = some (f, false)) : e.selfType ≠ f.owner := by
  unfold fieldAround? at hf
  split at hf
  · cases hf
  next hnone =>
    rw [fieldOf?, he, Option.bind_some] at hnone
    obtain ⟨g, hg, hgf⟩ := Option.map_eq_some_iff.1 hf
    cases hgf
    obtain ⟨n, -, hn⟩ := List.exists_of_findSome?_eq_some hg
    obtain ⟨e', -, hn⟩ := Option.bind_eq_some_iff.1 hn
    have hself : p.class? e.qualifiedName = some e := by rw [qualifiedName_of_class? he]; exact he
    exact (owner_ne_selfType hp hself hnone hn).symm

end AnnotationExpr.Program
