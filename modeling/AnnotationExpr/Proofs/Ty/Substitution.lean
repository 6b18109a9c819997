import AnnotationExpr.Ty
import Mathlib.Data.List.Basic

/-!
Type variables, and what is put in their place. Two substitutions, one after the other, are a single one; where a type
has no variables but names that are bound, the second works on what the names are bound to.
-/

namespace AnnotationExpr

namespace Ty

mutual

/-- The type variables anywhere in a type. -/
def varNames : Ty → List String
  | var name => [name]
  | declared _ arguments => varNamesAll arguments
  | array component => component.varNames
  | _ => []

def varNamesAll : List Ty → List String
  | [] => []
  | t :: ts => t.varNames ++ varNamesAll ts

end

theorem substituteAll_eq_map (s : String → Option Ty) (ts : List Ty) : substituteAll s ts = ts.map (substitute s) := by
  induction ts with
  | nil => rfl
  | cons t ts ih => rw [substituteAll, ih, List.map_cons]

mutual

theorem substitute_eq_self {s : String → Option Ty} (h : ∀ n t, s n = some t → t = .var n) (t : Ty) :
    t.substitute s = t := by
  cases t with
  | var n =>
    rw [substitute]
    cases hn : s n with
    | none => rfl
    | some t => exact h n t hn
  | declared n as => rw [substitute, substituteAll_eq_self h as]
  | array component => rw [substitute, substitute_eq_self h component]
  | _ => rw [substitute]

theorem substituteAll_eq_self {s : String → Option Ty} (h : ∀ n t, s n = some t → t = .var n) (ts : List Ty) :
    substituteAll s ts = ts := by
  cases ts with
  | nil => rw [substituteAll]
  | cons t ts => rw [substituteAll, substitute_eq_self h t, substituteAll_eq_self h ts]

end

mutual

/-- Two substitutions are the one that gives each variable what the first gives it, with the second made there. -/
theorem substitute_substitute {s s' s'' : String → Option Ty} (t : Ty)
    (h : ∀ v ∈ t.varNames, (substitute s (var v)).substitute s' = substitute s'' (var v)) :
    (t.substitute s).substitute s' = t.substitute s'' := by
  cases t with
  | var v => exact h v List.mem_cons_self
  | declared n as => exact congrArg (declared n) (substituteAll_substituteAll as h)
  | array component => exact congrArg array (substitute_substitute component h)
  | _ => rfl

theorem substituteAll_substituteAll {s s' s'' : String → Option Ty} (ts : List Ty)
    (h : ∀ v ∈ varNamesAll ts, (substitute s (var v)).substitute s' = substitute s'' (var v)) :
    substituteAll s' (substituteAll s ts) = substituteAll s'' ts := by
  cases ts with
  | nil => rfl
  | cons t ts =>
    obtain ⟨ht, hts⟩ := List.forall_mem_append.1 h
    exact congrArg₂ List.cons (substitute_substitute t ht) (substituteAll_substituteAll ts hts)

end

end Ty

/-! Names that are bound to types. -/

variable {names : List String} {types : List Ty}

theorem bindings_cons (name : String) (type : Ty) (names : List String) (types : List Ty) (v : String) :
    bindings (name :: names) (type :: types) v =
      (bindings names types v).or (if v = name then some type else none) := by
  unfold bindings
  rw [List.zip_cons_cons, List.reverse_cons, List.lookup_append, List.lookup_cons, List.lookup_nil]
  by_cases hv : v = name
  · simp [hv]
  · rw [beq_false_of_ne hv, if_neg hv]

theorem bindings_map (f : Ty → Ty) (names : List String) (types : List Ty) (v : String) :
    bindings names (types.map f) v = (bindings names types v).map f := by
  induction names generalizing types with
  | nil => rfl
  | cons n names ih =>
    cases types with
    | nil => rfl
    | cons t types =>
      rw [List.map_cons, bindings_cons, bindings_cons, ih, Option.map_or]
      split <;> rfl

theorem bindings_isSome_iff (hlength : names.length = types.length) {v : String} :
    (bindings names types v).isSome ↔ v ∈ names := by
  induction names generalizing types with
  | nil => simp [bindings]
  | cons n names ih =>
    obtain ⟨t, types, rfl⟩ := List.exists_cons_of_length_eq_add_one hlength.symm
    rw [bindings_cons, Option.isSome_or, Bool.or_eq_true, ih (Nat.succ.inj hlength), List.mem_cons, or_comm]
    by_cases hv : v = n <;> simp [hv]

/-- Names that are bound to themselves. -/
theorem bindings_var {name : String} {t : Ty} (h : bindings names (names.map .var) name = some t) : t = .var name := by
  obtain ⟨before, after, hsplit, -⟩ := List.lookup_eq_some_iff.1 h
  have hmem : (name, t) ∈ (names.zip (names.map Ty.var)).reverse := by
    rw [hsplit]
    exact List.mem_append_right _ List.mem_cons_self
  rw [List.mem_reverse, ← List.map_prod_left_eq_zip] at hmem
  obtain ⟨n, -, heq⟩ := List.mem_map.1 hmem
  cases heq
  rfl

/-- What is put in place of bound names, with a substitution made in it. -/
theorem Ty.substitute_bindings (hlength : names.length = types.length) {t : Ty} (ht : t.varNames ⊆ names)
    (s : String → Option Ty) :
    (t.substitute (bindings names types)).substitute s = t.substitute (bindings names (types.map (substitute s))) := by
  refine substitute_substitute t fun v hv => ?_
  obtain ⟨u, hu⟩ := Option.isSome_iff_exists.1 ((bindings_isSome_iff hlength).2 (ht hv))
  rw [substitute, substitute, bindings_map, hu, Option.map_some, Option.getD_some, Option.getD_some]

/-- Names that are all different stand each for its own type. -/
theorem map_substitute_var (hlength : names.length = types.length) (hnodup : names.Nodup) :
    (names.map Ty.var).map (Ty.substitute (bindings names types)) = types := by
  induction names generalizing types with
  | nil => simpa using hlength.symm
  | cons n names ih =>
    obtain ⟨t, types, rfl⟩ := List.exists_cons_of_length_eq_add_one hlength.symm
    obtain ⟨hn, hnodup⟩ := List.nodup_cons.1 hnodup
    have hlength := Nat.succ.inj hlength
    have hnone : bindings names types n = none := by
      simpa [hn] using (bindings_isSome_iff (v := n) hlength).not
    have htail : ∀ u ∈ names.map Ty.var, u.substitute (bindings (n :: names) (t :: types)) =
        u.substitute (bindings names types) := fun u hu => by
      obtain ⟨v, hv, rfl⟩ := List.mem_map.1 hu
      obtain ⟨u, hu⟩ := Option.isSome_iff_exists.1 ((bindings_isSome_iff hlength).2 hv)
      rw [Ty.substitute, Ty.substitute, bindings_cons, hu, Option.some_or]
    have hhead : Ty.substitute (bindings (n :: names) (t :: types)) (.var n) = t := by
      rw [Ty.substitute, bindings_cons, hnone, Option.none_or, if_pos rfl, Option.getD_some]
    calc ((n :: names).map Ty.var).map (Ty.substitute (bindings (n :: names) (t :: types)))
        = t :: (names.map Ty.var).map (Ty.substitute (bindings (n :: names) (t :: types))) := by
          rw [List.map_cons, List.map_cons, hhead]
      _ = t :: (names.map Ty.var).map (Ty.substitute (bindings names types)) := by
          rw [List.map_congr_left htail]
      _ = t :: types := by rw [ih hlength hnodup]

end AnnotationExpr
