import AnnotationExpr.Program.Builder
import AnnotationExpr.Program.Builtin
import AnnotationExpr.Proofs.Loop
import AnnotationExpr.Proofs.Program.Supertypes
import Mathlib.Data.List.Nodup

/-!
The walk over supertypes as a loop over a queue, which remembers the names it has seen. It ends whatever the classes
extend, be it themselves, unknown classes or their type parameters. What it takes is closed: with a type it takes one
of the name of each supertype, and it takes nothing but the type at its start and supertypes of what it has taken.
-/

namespace AnnotationExpr.Program

variable {p : Program} {remaining : List String} {queue : List ClassType}

/-! What the walk takes. -/

theorem name_mem_of_mem_walk {t : ClassType} (ht : t ∈ p.walk remaining queue) : t.name ∈ remaining := by
  fun_induction p.walk remaining queue with
  | case1 => cases ht
  | case2 remaining queue d rest hdrop _ ih =>
    rcases List.mem_cons.1 ht with rfl | ht
    · exact mem_of_dropWhile hdrop
    · exact List.mem_of_mem_filter (ih ht)

theorem nodup_names_walk (p : Program) (remaining : List String) (queue : List ClassType) :
    ((p.walk remaining queue).map ClassType.name).Nodup := by
  fun_induction p.walk remaining queue with
  | case1 => exact List.nodup_nil
  | case2 remaining queue d rest hdrop _ ih =>
    refine List.nodup_cons.2 ⟨fun hmem => ?_, ih⟩
    obtain ⟨t, ht, hname⟩ := List.mem_map.1 hmem
    have := name_mem_of_mem_walk ht
    simp [without, hname] at this

/-- A type that the walk takes was in the queue, or is a supertype of one that it has taken before. -/
theorem source_of_walk {before after : List ClassType} {t : ClassType}
    (h : p.walk remaining queue = before ++ t :: after) : t ∈ queue ∨ ∃ s ∈ before, t ∈ p.supertypesOf s := by
  fun_induction p.walk remaining queue generalizing before with
  | case1 => simp at h
  | case2 remaining queue d rest hdrop _ ih =>
    have hsub : d :: rest ⊆ queue := hdrop ▸ (List.dropWhile_sublist _).subset
    cases before with
    | nil =>
      cases h
      exact .inl (hsub List.mem_cons_self)
    | cons s before =>
      obtain ⟨rfl, hrest⟩ := List.cons.inj h
      rcases ih hrest with ht | ⟨s, hs, ht⟩
      · rcases List.mem_append.1 ht with ht | ht
        · exact .inl (hsub (List.mem_cons_of_mem _ ht))
        · exact .inr ⟨d, List.mem_cons_self, ht⟩
      · exact .inr ⟨s, List.mem_cons_of_mem _ hs, ht⟩

/-! The loop. -/

/-- The state of the loop: what is still to be visited, the names that were seen, and the types that were taken. -/
structure Search where
  queue : List ClassType
  seen : List String
  order : List ClassType

/-- One round takes the first type from the queue, unless its name was seen, and puts its supertypes at the end. -/
def searchRound (p : Program) : Search → Round Search (List ClassType)
  | ⟨[], seen, order⟩ => .done (if objectClass ∈ seen then order else order ++ [.object])
  | ⟨d :: queue, seen, order⟩ =>
    .next (if d.name ∈ seen then ⟨queue, seen, order⟩
      else ⟨queue ++ p.supertypesOf d, d.name :: seen, order ++ [d]⟩)

theorem ends_of_passed {passed rest order result : List ClassType} {seen : List String}
    (hpassed : ∀ t ∈ passed, t.name ∈ seen) (h : Round.Ends p.searchRound ⟨rest, seen, order⟩ result) :
    Round.Ends p.searchRound ⟨passed ++ rest, seen, order⟩ result := by
  induction passed with
  | nil => exact h
  | cons t passed ih =>
    obtain ⟨ht, hpassed⟩ := List.forall_mem_cons.1 hpassed
    exact .next (congrArg Round.next (if_pos ht)) (ih hpassed)

/-- The walk is what the loop adds to the types that were taken, if the names that remain for the walk are those that
the loop has not seen. Only names of types that can be reached count. -/
theorem ends_walk {seen : List String} {order : List ClassType}
    (hseen : ∀ d ∈ queue, ∀ t, p.Reaches d t → (t.name ∈ remaining ↔ t.name ∉ seen))
    (hobject : objectClass ∈ seen ↔ ∃ t ∈ order, t.name = objectClass) :
    Round.Ends p.searchRound ⟨queue, seen, order⟩
      (if (order ++ p.walk remaining queue).any (·.name = objectClass) then order ++ p.walk remaining queue
        else order ++ p.walk remaining queue ++ [.object]) := by
  fun_induction p.walk remaining queue generalizing seen order with
  | case1 remaining queue hdrop =>
    have hpassed : ∀ t ∈ queue, t.name ∈ seen := fun t ht => by
      have hnot : t.name ∉ remaining := by simpa using List.dropWhile_eq_nil_iff.1 hdrop t ht
      simpa [hnot] using hseen t ht t .refl
    rw [← List.append_nil queue]
    refine ends_of_passed hpassed (.done ?_)
    simp [searchRound, hobject]
  | case2 remaining queue d rest hdrop _ ih =>
    obtain ⟨passed, rfl, hpassed⟩ := exists_eq_append_of_dropWhile hdrop
    have hmem : d ∈ passed ++ d :: rest := List.mem_append_right _ List.mem_cons_self
    have hd : d.name ∉ seen := (hseen d hmem d .refl).1 (mem_of_dropWhile hdrop)
    refine ends_of_passed (fun t ht => ?_) (.next (congrArg Round.next (if_neg hd)) ?_)
    · simpa [hpassed t ht] using hseen t (List.mem_append_left _ ht) t .refl
    · have := @ih (d.name :: seen) (order ++ [d]) (fun t ht u hu => ?_) (by simp [hobject, or_comm, eq_comm])
      · rwa [List.append_assoc] at this
      · have hu : u.name ∈ remaining ↔ u.name ∉ seen := by
          rcases List.mem_append.1 ht with ht | ht
          · exact hseen t (List.mem_append_right _ (List.mem_cons_of_mem _ ht)) u hu
          · exact hseen d hmem u (.head ht hu)
        simp [without, hu, and_comm]

theorem ends_hierarchy (p : Program) (d : ClassType) :
    Round.Ends p.searchRound ⟨[d], [], []⟩ (p.hierarchy d) := by
  refine @ends_walk p (p.reachableNames d) [d] [] [] (fun s hs t ht => ?_) (by simp)
  rw [List.mem_singleton.1 hs] at ht
  simpa using classNames_of_reaches ht List.mem_cons_self

/-! The hierarchy. -/

/-- The list starts with the type, has with each type one of the name of each of its supertypes, and has after the
first type only supertypes of those before. -/
structure ClosedFrom (p : Program) (d : ClassType) (found : List ClassType) : Prop where
  head : found.head? = some d
  closed : ∀ t ∈ found, ∀ u ∈ p.supertypesOf t, u.name ∈ found.map ClassType.name
  sourced : ∀ before t after, found = before ++ t :: after → before ≠ [] → ∃ s ∈ before, t ∈ p.supertypesOf s

theorem closedFrom_reached (p : Program) (d : ClassType) : p.ClosedFrom d (p.reached d) where
  head := p.head?_reached d
  closed t ht u hu := List.mem_map.2 (exists_mem_reached_of_supertype ht hu)
  sourced before t after h hne := by
    refine (source_of_walk h).resolve_left fun ht => ?_
    obtain ⟨s, before, rfl⟩ := List.exists_cons_of_ne_nil hne
    have hhead : (p.reached d).head? = some d := p.head?_reached d
    rw [h] at hhead
    have hnodup : ((p.reached d).map ClassType.name).Nodup := nodup_names_walk ..
    rw [h, List.cons_append, List.map_cons, List.nodup_cons] at hnodup
    refine hnodup.1 (List.mem_map.2 ⟨t, by simp, ?_⟩)
    rw [List.mem_singleton.1 ht, Option.some.inj hhead]

theorem hierarchy_eq_reached (p : Program) (d : ClassType) : p.hierarchy d =
    if objectClass ∈ (p.reached d).map ClassType.name then p.reached d else p.reached d ++ [.object] := by
  simp [hierarchy_eq]

/-- The loop over the supertypes of a class type ends, with its hierarchy: the type, then all that it leads to, one type
of each name, and the class of all objects among them or after them. -/
theorem hierarchy_closed (p : Program) (d : ClassType) :
    Round.Ends p.searchRound ⟨[d], [], []⟩ (p.hierarchy d) ∧
      (p.hierarchy d).head? = some d ∧ ((p.hierarchy d).map ClassType.name).Nodup ∧
      objectClass ∈ (p.hierarchy d).map ClassType.name ∧
      ∃ found, p.ClosedFrom d found ∧
        p.hierarchy d = if objectClass ∈ found.map ClassType.name then found else found ++ [.object] := by
  have hnodup : ((p.reached d).map ClassType.name).Nodup := nodup_names_walk ..
  refine ⟨p.ends_hierarchy d, ?_, ?_, ?_, p.reached d, p.closedFrom_reached d, p.hierarchy_eq_reached d⟩
  all_goals rw [hierarchy_eq_reached]
  · split
    · exact p.head?_reached d
    · rw [List.head?_append, p.head?_reached d, Option.some_or]
  · split
    · exact hnodup
    next hobject =>
      rw [List.map_append, List.map_singleton, ← List.concat_eq_append]
      exact hnodup.concat hobject
  · split
    next hobject => exact hobject
    · simp [ClassType.object]

/-- A class that extends itself with ever larger arguments is taken once. -/
example : (initial.build "demo" none "Loop" [.typeParameters ["T"],
      .superclass (.declared "demo.Loop" [.declared "demo.Loop" [.var "T"]])]).hierarchy ⟨"demo.Loop", [.int]⟩ =
    [⟨"demo.Loop", [.int]⟩, .object] := by
  decide +kernel

end AnnotationExpr.Program
