import AnnotationExpr.Proofs.Program.Hierarchy
import Mathlib.Data.List.TakeWhile
import Mathlib.Logic.Relation

/-!
The walk over the supertypes of a class. It takes all that it meets: the names that remain at its start are those of
every type that can be reached, so with a type its hierarchy has a type for each of its supertypes.
-/

namespace AnnotationExpr

/-- What a class declares to extend or implement. -/
def ClassEntry.supertypes (e : ClassEntry) : List Ty := e.superclass.toList ++ e.interfaces

namespace Ty

theorem classNames_subset_classNamesAll {t : Ty} {ts : List Ty} (h : t ∈ ts) : t.classNames ⊆ classNamesAll ts := by
  induction ts with
  | nil => cases h
  | cons u us ih =>
    rcases List.mem_cons.1 h with rfl | h
    · exact List.subset_append_left _ _
    · exact List.Subset.trans (ih h) (List.subset_append_right _ _)

mutual

/-- Types in place of variables bring in no classes but their own. -/
theorem classNames_substitute {names : List String} {s : String → Option Ty}
    (hs : ∀ v t, s v = some t → t.classNames ⊆ names) (t : Ty) (ht : t.classNames ⊆ names) :
    (t.substitute s).classNames ⊆ names := by
  cases t with
  | var v =>
    cases hv : s v with
    | none => simp [substitute, hv, classNames]
    | some u => simpa [substitute, hv] using hs v u hv
  | declared n as =>
    obtain ⟨hn, has⟩ := List.cons_subset.1 ht
    exact List.cons_subset.2 ⟨hn, classNamesAll_substituteAll hs as has⟩
  | array component => exact classNames_substitute hs component ht
  | _ => exact ht

theorem classNamesAll_substituteAll {names : List String} {s : String → Option Ty}
    (hs : ∀ v t, s v = some t → t.classNames ⊆ names) (ts : List Ty) (hts : classNamesAll ts ⊆ names) :
    classNamesAll (substituteAll s ts) ⊆ names := by
  cases ts with
  | nil => exact hts
  | cons t ts =>
    obtain ⟨ht, hts⟩ := List.append_subset.1 hts
    exact List.append_subset.2 ⟨classNames_substitute hs t ht, classNamesAll_substituteAll hs ts hts⟩

end

end Ty

theorem mem_of_bindings {names : List String} {types : List Ty} {v : String} {t : Ty}
    (h : bindings names types v = some t) : t ∈ types := by
  obtain ⟨before, after, hsplit, -⟩ := List.lookup_eq_some_iff.1 h
  have hmem : (v, t) ∈ (names.zip types).reverse := by
    rw [hsplit]
    exact List.mem_append_right _ List.mem_cons_self
  exact (List.of_mem_zip (List.mem_reverse.1 hmem)).2

namespace Program

variable {p : Program}

theorem mem_arguments_of_bindingsOf {d : ClassType} {v : String} {t : Ty} (h : p.bindingsOf d v = some t) :
    t ∈ d.arguments := by
  unfold bindingsOf at h
  cases he : p.class? d.name with
  | none => simp [he] at h
  | some e =>
    simp only [he] at h
    split at h
    · exact mem_of_bindings h
    · cases h

/-- The class of all objects stands above the class although the class does not say so. -/
def ExtendsObject (p : Program) (name : String) : Prop :=
  name ≠ objectClass ∧ ∀ e ∈ p.class? name, e.superclass = none ∧ e.isInterface = false

/-- The supertypes of a class type: what its class declares, as the arguments have it, and the class of all objects
where there is no superclass. -/
theorem mem_supertypesOf {d u : ClassType} :
    u ∈ p.supertypesOf d ↔ u = .object ∧ p.ExtendsObject d.name ∨
      ∃ e ∈ p.class? d.name, ∃ t ∈ e.supertypes, (t.substitute (p.bindingsOf d)).class? = some u := by
  unfold supertypesOf ExtendsObject
  cases he : p.class? d.name with
  | none => by_cases hn : d.name = objectClass <;> simp [hn]
  | some e =>
    cases hs : e.superclass with
    | none =>
      by_cases hn : d.name ≠ objectClass ∧ e.isInterface = false
      · simp [ClassEntry.supertypes, hs, hn]
      · simp [ClassEntry.supertypes, hs, hn]
    | some t => simp [ClassEntry.supertypes, hs]

theorem classNames_class? {t : Ty} {u : ClassType} (h : t.class? = some u) : u.toTy = t := by
  cases t <;> cases h
  rfl

/-- The supertypes of a type mention no classes that it and the program do not. -/
theorem classNames_supertypesOf {d t u : ClassType} (h : t.toTy.classNames ⊆ p.reachableNames d)
    (hu : u ∈ p.supertypesOf t) : u.toTy.classNames ⊆ p.reachableNames d := by
  rcases mem_supertypesOf.1 hu with ⟨rfl, -⟩ | ⟨e, he, s, hs, hu⟩
  · intro n hn
    have : n = objectClass := by simpa [ClassType.object, ClassType.toTy, Ty.classNames, Ty.classNamesAll] using hn
    simp [reachableNames, this]
  · rw [classNames_class? hu]
    refine Ty.classNames_substitute (fun v a hv => ?_) s fun n hn => ?_
    · exact List.Subset.trans (Ty.classNames_subset_classNamesAll (mem_arguments_of_bindingsOf hv))
        (List.Subset.trans (List.subset_cons_self _ _) h)
    · have : n ∈ p.classes.flatMap fun e => e.supertypes.flatMap Ty.classNames :=
        List.mem_flatMap.2 ⟨e, mem_of_class? he, List.mem_flatMap.2 ⟨s, hs, hn⟩⟩
      exact List.mem_append_left _ (List.mem_append_right _ this)

/-- The second type stands above the first, at any distance, or is the first. -/
def Reaches (p : Program) : ClassType → ClassType → Prop := Relation.ReflTransGen fun d u => u ∈ p.supertypesOf d

/-! The walk: what it takes, and where that comes from. -/

variable {remaining : List String} {queue : List ClassType}

/-- The types that the walk passes over, and the first that it takes. -/
theorem exists_eq_append_of_dropWhile {d : ClassType} {rest : List ClassType}
    (h : (queue.dropWhile fun d => d.name ∉ remaining) = d :: rest) :
    ∃ passed, queue = passed ++ d :: rest ∧ ∀ t ∈ passed, t.name ∉ remaining := by
  refine ⟨queue.takeWhile fun d => d.name ∉ remaining, ?_, fun t ht => ?_⟩
  · rw [← h, List.takeWhile_append_dropWhile]
  · simpa using List.mem_takeWhile_imp ht

theorem exists_mem_walk_of_queue {d : ClassType} (hd : d ∈ queue) (hr : d.name ∈ remaining) :
    ∃ t ∈ p.walk remaining queue, t.name = d.name := by
  fun_induction p.walk remaining queue with
  | case1 remaining queue hdrop =>
    have := List.dropWhile_eq_nil_iff.1 hdrop d hd
    simp [hr] at this
  | case2 remaining queue t rest hdrop _ ih =>
    by_cases hname : d.name = t.name
    · exact ⟨t, List.mem_cons_self, hname.symm⟩
    · have hrest : d ∈ rest := by
        obtain ⟨passed, rfl, hpassed⟩ := exists_eq_append_of_dropWhile hdrop
        rcases List.mem_append.1 hd with hd | hd
        · exact absurd hr (hpassed d hd)
        · exact (List.mem_cons.1 hd).resolve_left fun h => hname (congrArg ClassType.name h)
      obtain ⟨u, hu, hun⟩ := ih (List.mem_append_left _ hrest) (by simp [without, hr, hname])
      exact ⟨u, List.mem_cons_of_mem _ hu, hun⟩

/-- With a type the walk takes one for each of its supertypes whose name was there. -/
theorem exists_mem_walk_of_supertype {t u : ClassType} (ht : t ∈ p.walk remaining queue)
    (hu : u ∈ p.supertypesOf t) (hr : u.name ∈ remaining) : ∃ v ∈ p.walk remaining queue, v.name = u.name := by
  fun_induction p.walk remaining queue with
  | case1 => cases ht
  | case2 remaining queue d rest hdrop _ ih =>
    by_cases hname : u.name = d.name
    · exact ⟨d, List.mem_cons_self, hname.symm⟩
    · have hr' : u.name ∈ without d.name remaining := by simp [without, hr, hname]
      rcases List.mem_cons.1 ht with rfl | ht
      · obtain ⟨v, hv, hvn⟩ := exists_mem_walk_of_queue (p := p) (List.mem_append_right rest hu) hr'
        exact ⟨v, List.mem_cons_of_mem _ hv, hvn⟩
      · obtain ⟨v, hv, hvn⟩ := ih ht hr'
        exact ⟨v, List.mem_cons_of_mem _ hv, hvn⟩

/-- Every type that the walk takes was in the queue, or is reached from there by going to supertypes. -/
theorem reaches_of_mem_walk {t : ClassType} (ht : t ∈ p.walk remaining queue) : ∃ d ∈ queue, p.Reaches d t := by
  fun_induction p.walk remaining queue with
  | case1 => cases ht
  | case2 remaining queue d rest hdrop _ ih =>
    have hsub : d :: rest ⊆ queue := hdrop ▸ (List.dropWhile_sublist _).subset
    rcases List.mem_cons.1 ht with rfl | ht
    · exact ⟨t, hsub List.mem_cons_self, .refl⟩
    · obtain ⟨s, hs, hreach⟩ := ih ht
      rcases List.mem_append.1 hs with hs | hs
      · exact ⟨s, hsub (List.mem_cons_of_mem _ hs), hreach⟩
      · exact ⟨d, hsub List.mem_cons_self, .head hs hreach⟩

/-- Where the supertypes of an image are the images of the supertypes, so is the walk. Only types that it can reach
count, and which of their names remain. -/
theorem walk_map {q : Program} {f : ClassType → ClassType} {remaining' : List String}
    (hf : ∀ d ∈ queue, ∀ t, p.Reaches d t →
      (f t).name = t.name ∧ q.supertypesOf (f t) = (p.supertypesOf t).map f)
    (h : ∀ d ∈ queue, ∀ t, p.Reaches d t → (t.name ∈ remaining' ↔ t.name ∈ remaining)) :
    q.walk remaining' (queue.map f) = (p.walk remaining queue).map f := by
  have hdropWhile (remaining remaining' : List String) (queue : List ClassType)
      (hf : ∀ d ∈ queue, (f d).name = d.name) (h : ∀ d ∈ queue, (d.name ∈ remaining' ↔ d.name ∈ remaining)) :
      ((queue.map f).dropWhile fun d => d.name ∉ remaining') =
        (queue.dropWhile fun d => d.name ∉ remaining).map f := by
    rw [List.dropWhile_map]
    refine congrArg (List.map f) ?_
    induction queue with
    | nil => rfl
    | cons d queue ih =>
      obtain ⟨hd, hqueue⟩ := List.forall_mem_cons.1 h
      obtain ⟨hfd, hfqueue⟩ := List.forall_mem_cons.1 hf
      simp only [List.dropWhile_cons, Function.comp_apply, hfd, hd, ih hfqueue hqueue]
  fun_induction p.walk remaining queue generalizing remaining' with
  | case1 remaining queue hdrop =>
    refine walk_of_nil ?_
    rw [hdropWhile _ _ _ (fun d hd => (hf d hd d .refl).1) (fun d hd => h d hd d .refl), hdrop, List.map_nil]
  | case2 remaining queue d rest hdrop _ ih =>
    have hsub : d :: rest ⊆ queue := hdrop ▸ (List.dropWhile_sublist _).subset
    have hd : d ∈ queue := hsub List.mem_cons_self
    obtain ⟨hname, hsuper⟩ := hf d hd d .refl
    -- What can be reached from the rest of the queue and from the supertypes of its first type could be reached before.
    have hreach : ∀ t ∈ rest ++ p.supertypesOf d, ∀ u, p.Reaches t u → ∃ s ∈ queue, p.Reaches s u := fun t ht u hu => by
      rcases List.mem_append.1 ht with ht | ht
      · exact ⟨t, hsub (List.mem_cons_of_mem _ ht), hu⟩
      · exact ⟨d, hd, .head ht hu⟩
    have hdrop' := hdropWhile remaining remaining' queue (fun d hd => (hf d hd d .refl).1) fun d hd => h d hd d .refl
    rw [hdrop, List.map_cons] at hdrop'
    rw [walk_of_cons hdrop', hname, hsuper, ← List.map_append, ih (fun t ht u hu => ?_) fun t ht u hu => ?_,
      List.map_cons]
    · obtain ⟨s, hs, hsu⟩ := hreach t ht u hu
      exact hf s hs u hsu
    · obtain ⟨s, hs, hsu⟩ := hreach t ht u hu
      simp [without, h s hs u hsu]

/-- The walk depends on the names of types that it can reach, and on no others. -/
theorem walk_congr {q : Program} (hsuper : q.supertypesOf = p.supertypesOf) {remaining' : List String}
    (h : ∀ d ∈ queue, ∀ t, p.Reaches d t → (t.name ∈ remaining' ↔ t.name ∈ remaining)) :
    q.walk remaining' queue = p.walk remaining queue := by
  have hwalk : q.walk remaining' (queue.map id) = (p.walk remaining queue).map id :=
    walk_map (fun _ _ t _ => ⟨rfl, by rw [hsuper, List.map_id]; rfl⟩) h
  rwa [List.map_id, List.map_id] at hwalk

/-! The hierarchy: the types that are reached, and then the class of all objects if it is not among them. -/

def reached (p : Program) (d : ClassType) : List ClassType := p.walk (p.reachableNames d) [d]

theorem reached_eq_cons (p : Program) (d : ClassType) :
    p.reached d = d :: p.walk (without d.name (p.reachableNames d)) (p.supertypesOf d) := by
  have hname : d.name ∈ p.reachableNames d := by simp [reachableNames, ClassType.toTy, Ty.classNames]
  exact walk_of_cons (show ([d].dropWhile fun u => u.name ∉ p.reachableNames d) = d :: [] by simp [hname])

theorem head?_reached (p : Program) (d : ClassType) : (p.reached d).head? = some d := by
  rw [reached_eq_cons, List.head?_cons]

theorem self_mem_reached (p : Program) (d : ClassType) : d ∈ p.reached d := List.mem_of_head? (p.head?_reached d)

theorem hierarchy_eq (p : Program) (d : ClassType) : p.hierarchy d =
    if (p.reached d).any (·.name = objectClass) then p.reached d else p.reached d ++ [.object] := rfl

theorem mem_hierarchy {d t : ClassType} :
    t ∈ p.hierarchy d ↔ t ∈ p.reached d ∨ t = .object ∧ ∀ u ∈ p.reached d, u.name ≠ objectClass := by
  rw [hierarchy_eq]
  split
  next hany =>
    obtain ⟨u, hu, hname⟩ : ∃ u ∈ p.reached d, u.name = objectClass := by simpa using hany
    exact ⟨.inl, fun h => h.resolve_right fun ⟨_, hall⟩ => hall u hu hname⟩
  next hany =>
    have hall : ∀ u ∈ p.reached d, u.name ≠ objectClass := by simpa using hany
    rw [List.mem_append, List.mem_singleton]
    exact or_congr_right ⟨fun h => ⟨h, hall⟩, And.left⟩

/-- The types that are reached mention only names that remain when the walk starts. -/
theorem classNames_of_reaches {d t : ClassType} (h : p.Reaches d t) : t.toTy.classNames ⊆ p.reachableNames d := by
  induction h with
  | refl => exact List.Subset.trans (List.subset_append_left _ _) (List.subset_append_left _ _)
  | tail _ hu ih => exact classNames_supertypesOf ih hu

theorem reaches_of_mem_reached {d t : ClassType} (ht : t ∈ p.reached d) : p.Reaches d t := by
  obtain ⟨s, hs, h⟩ := reaches_of_mem_walk ht
  exact List.mem_singleton.1 hs ▸ h

theorem exists_mem_reached_of_supertype {d t u : ClassType} (ht : t ∈ p.reached d) (hu : u ∈ p.supertypesOf t) :
    ∃ v ∈ p.reached d, v.name = u.name :=
  exists_mem_walk_of_supertype ht hu
    (classNames_supertypesOf (classNames_of_reaches (reaches_of_mem_reached ht)) hu List.mem_cons_self)

end Program
end AnnotationExpr
