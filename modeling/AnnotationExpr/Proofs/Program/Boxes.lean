import AnnotationExpr.Proofs.Program.Choice
import AnnotationExpr.Proofs.Program.Subtyping

/-!
Boxing where the classes that box are as every program has them at first. Above such a class there is nothing but the
class of all objects and what stands above that, so a value can be boxed for its own class alone, or else an object of
any kind can stand there.
-/

namespace AnnotationExpr

theorem Primitive.boxClass_injective {a b : Primitive} (h : a.boxClass = b.boxClass) : a = b := by
  have hinjective : ∀ a ∈ all, ∀ b ∈ all, a.boxClass = b.boxClass → a = b := by decide +kernel
  exact hinjective a a.mem_all b b.mem_all h

theorem Primitive.boxClass_ne_object (b : Primitive) : b.boxClass ≠ objectClass := by cases b <;> decide

theorem Primitive.boxClass_of_ofBoxClass? {name : String} {b : Primitive} (h : ofBoxClass? name = some b) :
    b.boxClass = name := by
  simpa using List.find?_some h

theorem Ty.unboxed?_eq_some {t : Ty} {b : Primitive} (h : t.unboxed? = some b) :
    ∃ as, t = .declared b.boxClass as := by
  obtain ⟨d, hd, hb⟩ := Option.bind_eq_some_iff.1 h
  rw [Primitive.boxClass_of_ofBoxClass? hb]
  cases t with
  | declared n as => cases hd; exact ⟨as, rfl⟩
  | _ => cases hd

namespace Program

variable {p : Program} {remaining : List String} {queue : List ClassType}

/-! The walk without a name. -/

theorem without_without (name : String) (names : List String) :
    without name (without name names) = without name names := by
  simp [without]

theorem without_comm (m n : String) (names : List String) : without m (without n names) = without n (without m names) := by
  simp [without, List.filter_filter, Bool.and_comm]

theorem filter_of_dropWhile {rest : List ClassType} {d : ClassType}
    (h : (queue.dropWhile fun d => d.name ∉ remaining) = d :: rest) :
    queue.filter (·.name ∈ remaining) = d :: rest.filter (·.name ∈ remaining) := by
  obtain ⟨passed, rfl, hpassed⟩ := exists_eq_append_of_dropWhile h
  have hd : d.name ∈ remaining := mem_of_dropWhile h
  rw [List.filter_append, List.filter_eq_nil_iff.2 (by simpa using hpassed), List.nil_append,
    List.filter_cons_of_pos (by simpa using hd)]

/-- The walk depends on the types in the queue whose names remain, and on no others. -/
theorem walk_eq_of_filter {queue' : List ClassType}
    (h : queue'.filter (·.name ∈ remaining) = queue.filter (·.name ∈ remaining)) :
    p.walk remaining queue' = p.walk remaining queue := by
  fun_induction p.walk remaining queue generalizing queue' with
  | case1 remaining queue hdrop =>
    have hqueue : queue.filter (·.name ∈ remaining) = [] :=
      List.filter_eq_nil_iff.2 fun t ht => by simpa using List.dropWhile_eq_nil_iff.1 hdrop t ht
    refine walk_of_nil (List.dropWhile_eq_nil_iff.2 fun t ht => ?_)
    simpa using List.filter_eq_nil_iff.1 (h.trans hqueue) t ht
  | case2 remaining queue d rest hdrop _ ih =>
    cases hdrop' : queue'.dropWhile fun d => d.name ∉ remaining with
    | nil =>
      have hqueue' : queue'.filter (·.name ∈ remaining) = [] :=
        List.filter_eq_nil_iff.2 fun t ht => by simpa using List.dropWhile_eq_nil_iff.1 hdrop' t ht
      rw [hqueue', filter_of_dropWhile hdrop] at h
      cases h
    | cons d' rest' =>
      rw [filter_of_dropWhile hdrop', filter_of_dropWhile hdrop] at h
      obtain ⟨rfl, hrest⟩ := List.cons.inj h
      rw [walk_of_cons hdrop', ih ?_]
      -- What remains after a step remained before it, so the tails of the queues agree on it too.
      have hsub : ∀ ts : List ClassType, ts.filter (·.name ∈ without d'.name remaining) =
          (ts.filter (·.name ∈ remaining)).filter (·.name ≠ d'.name) := fun ts => by
        simp [List.filter_filter, without, and_comm]
      rw [List.filter_append, List.filter_append, hsub rest', hsub rest, hrest]

/-- Where the supertypes of a class are no part of the walk, the walk without its name only leaves out the class. -/
theorem walk_without {name : String} (h : ∀ d : ClassType, d.name = name → ∀ u ∈ p.supertypesOf d, u.name ∉ remaining) :
    p.walk (without name remaining) queue = (p.walk remaining queue).filter (·.name ≠ name) := by
  fun_induction p.walk remaining queue with
  | case1 remaining queue hdrop =>
    refine walk_of_nil (List.dropWhile_eq_nil_iff.2 fun t ht => ?_)
    have : t.name ∉ remaining := by simpa using List.dropWhile_eq_nil_iff.1 hdrop t ht
    simp [without, this]
  | case2 remaining queue d rest hdrop _ ih =>
    have ih := ih fun u hu v hv hmem => h u hu v hv (List.mem_of_mem_filter hmem)
    obtain ⟨passed, rfl, hpassed⟩ := exists_eq_append_of_dropWhile hdrop
    have hpassed' : ∀ t ∈ passed, t.name ∉ without name remaining := fun t ht hmem =>
      hpassed t ht (List.mem_of_mem_filter hmem)
    by_cases hd : d.name = name
    · rw [List.filter_cons_of_neg (by simpa using hd), ← ih, hd, without_without]
      refine walk_eq_of_filter ?_
      have hpassed : passed.filter (·.name ∈ without name remaining) = [] :=
        List.filter_eq_nil_iff.2 (by simpa using hpassed')
      have hself : d.name ∉ without name remaining := by simp [without, hd]
      have hsuper : (p.supertypesOf d).filter (·.name ∈ without name remaining) = [] :=
        List.filter_eq_nil_iff.2 fun u hu => by
          simpa using fun hmem : u.name ∈ without name remaining => h d hd u hu (List.mem_of_mem_filter hmem)
      rw [List.filter_append, List.filter_append, hpassed, hsuper, List.filter_cons_of_neg (by simpa using hself),
        List.nil_append, List.append_nil]
    · have hmem : d.name ∈ without name remaining := by simp [without, mem_of_dropWhile hdrop, hd]
      have hdrop' : ((passed ++ d :: rest).dropWhile fun d => d.name ∉ without name remaining) = d :: rest := by
        rw [List.dropWhile_append_of_pos (by simpa using hpassed'), List.dropWhile_cons_of_neg (by simpa using hmem)]
      rw [walk_of_cons hdrop', List.filter_cons_of_pos (by simpa using hd), ← ih, without_comm]

/-! A class right below the class of all objects. -/

section

variable {m n : String} (hm : m ≠ objectClass) (h : ∀ d : ClassType, d.name = m → p.supertypesOf d = [.object])

include hm h

/-- The walk from the class of all objects takes nothing more without this class. -/
theorem mem_reached_object {t : ClassType} (ht : t ∈ p.walk (without m (p.reachableNames .object)) [.object]) :
    t ∈ p.reached .object := by
  have hobject : ClassType.object.name ∈ without m (p.reachableNames .object) := by
    simp [without, reachableNames, ClassType.object, hm.symm]
  have hdrop : ([ClassType.object].dropWhile fun d => d.name ∉ without m (p.reachableNames .object)) =
      .object :: [] := List.dropWhile_cons_of_neg (by simpa using hobject)
  -- Only the class of all objects stands right above this class, and after the first step it is no part of the walk.
  have hwithout : p.walk (without m (without objectClass (p.reachableNames .object))) (p.supertypesOf .object) =
      (p.walk (without objectClass (p.reachableNames .object)) (p.supertypesOf .object)).filter (·.name ≠ m) := by
    refine walk_without fun d hd u hu => ?_
    rw [h d hd, List.mem_singleton] at hu
    simp [hu, without, ClassType.object]
  rw [walk_of_cons hdrop, List.nil_append, without_comm, show ClassType.object.name = objectClass from rfl,
    hwithout] at ht
  rw [reached_eq_cons]
  rcases List.mem_cons.1 ht with rfl | ht
  · exact List.mem_cons_self
  · exact List.mem_cons_of_mem _ (List.mem_of_mem_filter ht)

/-- Above such a class stands what stands above the class of all objects. -/
theorem inherits_object {as : List Ty} (hn : p.Inherits ⟨m, as⟩ n) : n = m ∨ p.Inherits .object n := by
  have hself : p.supertypesOf ⟨m, as⟩ = [.object] := h _ rfl
  obtain ⟨t, ht, rfl⟩ := hn
  rcases mem_hierarchy.1 ht with ht | ⟨rfl, -⟩
  · rw [reached_eq_cons, hself, List.mem_cons] at ht
    rcases ht with rfl | ht
    · exact .inl rfl
    · have hwalk : p.walk (without m (p.reachableNames ⟨m, as⟩)) [.object] =
          p.walk (without m (p.reachableNames .object)) [.object] := by
        refine walk_congr rfl fun s hs t ht => ?_
        obtain rfl := List.mem_singleton.1 hs
        have hreach : t.name ∈ p.reachableNames ⟨m, as⟩ :=
          classNames_of_reaches (.head (hself ▸ List.mem_cons_self) ht) List.mem_cons_self
        have hreach' : t.name ∈ p.reachableNames .object := classNames_of_reaches ht List.mem_cons_self
        simp [without, hreach, hreach']
      exact .inr ⟨t, mem_hierarchy.2 (.inl (mem_reached_object hm h (hwalk ▸ ht))), rfl⟩
  · exact .inr ⟨.object, p.self_mem_hierarchy _, rfl⟩

end

/-! The classes that box. -/

/-- The classes that box primitive types are as every program has them at first. -/
def BoxesBuiltIn (p : Program) : Prop := ∀ b : Primitive, p.class? b.boxClass = initial.class? b.boxClass

instance (p : Program) : Decidable p.BoxesBuiltIn :=
  decidable_of_iff (∀ b ∈ Primitive.all, p.class? b.boxClass = initial.class? b.boxClass)
    ⟨fun h b => h b b.mem_all, fun h b _ => h b⟩

/-- The method of the class that boxes the primitive type takes just a value of this type. -/
structure BoxesBy (p : Program) (b : Primitive) (v : Method) : Prop where
  declared : ∃ e ∈ p.class? b.boxClass, v ∈ e.methods
  name : v.name = "valueOf"
  isStatic : v.isStatic = true
  parameterTypes : v.parameterTypes = [.primitive b]

theorem valueOf?_eq {t : Ty} {b : Primitive} (ht : t.unboxed? = some b) :
    p.valueOf? t = (p.class? b.boxClass).bind fun e =>
      e.methods.find? fun m => m.name = "valueOf" && m.isStatic && m.parameterTypes = [.primitive b] := by
  obtain ⟨as, rfl⟩ := Ty.unboxed?_eq_some ht
  unfold valueOf?
  rw [ht]
  rfl

theorem boxesBy_of_valueOf? {t : Ty} {b : Primitive} {v : Method} (ht : t.unboxed? = some b)
    (hv : p.valueOf? t = some v) : p.BoxesBy b v := by
  rw [valueOf?_eq ht] at hv
  obtain ⟨e, he, hv⟩ := Option.bind_eq_some_iff.1 hv
  obtain ⟨⟨hname, hstatic⟩, htypes⟩ : (v.name = "valueOf" ∧ v.isStatic = true) ∧ v.parameterTypes = [.primitive b] := by
    simpa using List.find?_some hv
  exact ⟨⟨e, he, List.mem_of_find?_eq_some hv⟩, hname, hstatic, htypes⟩

namespace BoxesBuiltIn

variable (h : p.BoxesBuiltIn)

include h

theorem isSome_valueOf? {t : Ty} (ht : t.unboxed?.isSome = true) : (p.valueOf? t).isSome = true := by
  obtain ⟨b, ht⟩ := Option.isSome_iff_exists.1 ht
  have hinitial : ∀ b ∈ Primitive.all, ((initial.class? b.boxClass).bind fun e => e.methods.find? fun m =>
      m.name = "valueOf" && m.isStatic && m.parameterTypes = [.primitive b]).isSome = true := by
    decide +kernel
  rw [valueOf?_eq ht, h b]
  exact hinitial b b.mem_all

theorem supertypesOf_eq {b : Primitive} {d : ClassType} (hd : d.name = b.boxClass) : p.supertypesOf d = [.object] := by
  have hinitial : ∀ b ∈ Primitive.all, ∃ e ∈ initial.class? b.boxClass,
      e.superclass = none ∧ e.interfaces = [] ∧ e.isInterface = false := by
    decide +kernel
  obtain ⟨e, he, hsuperclass, hinterfaces, hinterface⟩ := hinitial b b.mem_all
  have hclass : p.class? d.name = some e := by rw [hd, h b]; exact he
  have hobject : d.name ≠ objectClass := hd ▸ Primitive.boxClass_ne_object b
  simp [supertypesOf, hclass, hsuperclass, hinterfaces, hinterface, hobject]

/-- A primitive type can stand for a class that boxes where the class boxes this type, or where objects of any kind can
stand. -/
theorem eq_or_isSubtype_object {a b : Primitive} {as : List Ty}
    (ha : p.isAssignable (.primitive a) (.declared b.boxClass as) = true) :
    a = b ∨ p.isSubtype .object (.declared b.boxClass []) = true := by
  have hbox : p.Below (.declared a.boxClass []) (.declared b.boxClass as) := by
    rw [isAssignable, Bool.or_eq_true] at ha
    rcases ha with ha | ha
    · cases (below_of_isSubtype ha).primitive?_eq_none rfl
    · exact below_of_isSubtype ha
  generalize hm : a.boxClass = m, hn : b.boxClass = n at hbox
  cases hbox with
  | refl => exact .inl (Primitive.boxClass_injective (hm.trans hn.symm))
  | object => exact absurd hn (Primitive.boxClass_ne_object b)
  | inherits hinherits =>
    subst hm hn
    rcases inherits_object (Primitive.boxClass_ne_object a) (fun d => h.supertypesOf_eq) hinherits with heq | hobject
    · exact .inl (Primitive.boxClass_injective heq).symm
    · exact .inr (isSubtype_of_below (.inherits hobject))

end BoxesBuiltIn

/-! The parameters of a chosen method. -/

theorem Visible.exists_formals {type : Ty} {name : String} {c : Candidate} (h : p.Visible type name c) :
    ∃ s, c.formals = c.method.parameterTypes.map (Ty.substitute s) := by
  rcases h.unhidden with ⟨-, -, rfl⟩ | ⟨_, -, _, t, _, -, ht, -⟩
  · exact ⟨fun _ => none, rfl⟩
  · exact ⟨_, ht.formals⟩

theorem rel_of_getElem? {α β : Type} {R : α → β → Prop} {as : List α} {bs : List β} (h : List.Forall₂ R as bs) {i : Nat}
    {a : α} {b : β} (ha : as[i]? = some a) (hb : bs[i]? = some b) : R a b := by
  have hzip : (as.zip bs)[i]? = some (a, b) := List.getElem?_zip_eq_some.2 ⟨ha, hb⟩
  exact (List.forall₂_iff_zip.1 h).2 (List.mem_of_getElem? hzip)

/-- Where a candidate applies, an argument can be assigned to its parameter, unless the parameter is the array of a
variable number of arguments. -/
theorem Applicable.isAssignable {phase : Phase} {actuals : List Ty} {c : Candidate}
    (h : p.Applicable actuals c phase) {i : Nat} {a f : Ty} (ha : actuals[i]? = some a) (hf : c.formals[i]? = some f) :
    p.isAssignable a f = true ∨ f.isArray = true := by
  cases h with
  | strict h =>
    have hsubtype : p.isSubtype a f = true := rel_of_getElem? h ha hf
    exact .inl (by rw [Program.isAssignable, hsubtype, Bool.true_or])
  | loose h => exact .inl (rel_of_getElem? h ha hf)
  | @variadic fixed passed rest component _ hformals hactuals hpassed _ =>
    rw [hformals] at hf
    by_cases hi : i < fixed.length
    · rw [List.getElem?_append_left hi] at hf
      rw [hactuals, List.getElem?_append_left (hpassed.length_eq ▸ hi)] at ha
      exact .inl (rel_of_getElem? hpassed ha hf)
    · rw [List.getElem?_append_right (Nat.le_of_not_lt hi), List.getElem?_singleton] at hf
      split at hf
      · cases hf
        exact .inr rfl
      · cases hf

/-- Where the chosen method has a class that boxes as its parameter, a primitive value is passed only if the class boxes
its type, or if objects of any kind can stand there. -/
theorem BoxesBuiltIn.eq_or_isSubtype_object_of_findMethod (h : p.BoxesBuiltIn) {name : String} {type : Ty}
    {actuals : List Ty} {m : Method} (hm : p.findMethod name type actuals = .ok (some m)) {i : Nat} {a b : Primitive}
    {t : Ty} (ha : actuals[i]? = some (.primitive a)) (ht : m.parameterTypes[i]? = some t) (hb : t.unboxed? = some b) :
    a = b ∨ p.isSubtype .object (.declared b.boxClass []) = true := by
  obtain ⟨_, phase, _, c, -, -, hc, rfl⟩ := (choose_eq_some_iff (p.nodup_candidates type name)).1 hm
  obtain ⟨s, hs⟩ := (mem_candidates_iff.1 hc.mem).exists_formals
  obtain ⟨as, rfl⟩ := Ty.unboxed?_eq_some hb
  have hformal : c.formals[i]? = some (.declared b.boxClass (Ty.substituteAll s as)) := by
    rw [hs, List.getElem?_map, ht, Option.map_some, Ty.substitute]
  rcases (applies_iff.1 hc.applies).isAssignable ha hformal with hassignable | harray
  · exact h.eq_or_isSubtype_object hassignable
  · cases harray

end Program
end AnnotationExpr
