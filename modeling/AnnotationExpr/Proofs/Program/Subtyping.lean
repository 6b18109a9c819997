import AnnotationExpr.Proofs.Program.Supertypes

/-!
Subtyping as a relation with one rule for each reason why a type stands below another. Where superclasses and
interfaces are no type variables and nothing but objects stands above objects, copies and serial forms, it is a
preorder, and it sees types only up to erasure.
-/

namespace AnnotationExpr

theorem Primitive.mem_all (a : Primitive) : a ∈ all := by cases a <;> decide

theorem Primitive.widensTo_trans {a b c : Primitive} (hab : a.widensTo b = true) (hbc : b.widensTo c = true) :
    a.widensTo c = true := by
  have htrans : ∀ a ∈ all, ∀ b ∈ all, ∀ c ∈ all, a.widensTo b = true → b.widensTo c = true → a.widensTo c = true := by
    decide
  exact htrans a a.mem_all b b.mem_all c c.mem_all hab hbc

theorem Ty.primitive?_eq_none {t : Ty} (h : ∀ q, t = .primitive q → False) : t.primitive? = Option.none := by
  cases t with
  | primitive q => exact (h q rfl).elim
  | _ => rfl

namespace Program

/-- A class type has a type of this class in its hierarchy. -/
def Inherits (p : Program) (d : ClassType) (name : String) : Prop := ∃ t ∈ p.hierarchy d, t.name = name

inductive Below (p : Program) : Ty → Ty → Prop where
  | refl (a : Ty) : Below p a a
  | widening {a b : Primitive} (h : a.widensTo b = true) : Below p (.primitive a) (.primitive b)
  | null {b : Ty} (hb : b.primitive? = none) : Below p .null b
  | var {a : Ty} {v : String} (ha : a.primitive? = none) : Below p a (.var v)
  | object {a : Ty} {as : List Ty} (ha : a.primitive? = none) : Below p a (.declared objectClass as)
  | inherits {m n : String} {as bs : List Ty} (h : p.Inherits ⟨m, as⟩ n) : Below p (.declared m as) (.declared n bs)
  | copied {a : Ty} {n : String} {as : List Ty} (h : n = cloneableClass ∨ n = serializableClass) :
      Below p (.array a) (.declared n as)
  | array {a b : Ty} (ha : a.primitive? = none) (hb : b.primitive? = none) (h : Below p a b) :
      Below p (.array a) (.array b)

variable {p : Program}

theorem isSubtype_self (a : Ty) : p.isSubtype a a = true := by
  unfold isSubtype
  simp

theorem isSubtype_of_below {a b : Ty} (h : p.Below a b) : p.isSubtype a b = true := by
  induction h with
  | refl a => exact isSubtype_self a
  | widening h => simp [isSubtype, h]
  | @null b hb => cases b <;> simp_all [isSubtype, Ty.primitive?]
  | @var a v ha => cases a <;> simp_all [isSubtype, Ty.primitive?]
  | @object a as ha => cases a <;> simp_all [isSubtype, Ty.primitive?]
  | inherits h =>
    obtain ⟨t, ht, rfl⟩ := h
    simp only [isSubtype, Bool.or_eq_true, List.any_eq_true, decide_eq_true_eq]
    exact .inr (.inr ⟨t, ht, rfl⟩)
  | copied h => rcases h with rfl | rfl <;> simp [isSubtype]
  | @array a b ha hb _ ih => cases a <;> cases b <;> simp_all [isSubtype, Ty.primitive?]

theorem below_of_isSubtype {a b : Ty} (h : p.isSubtype a b = true) : p.Below a b := by
  rw [isSubtype.eq_def, Bool.or_eq_true, decide_eq_true_eq] at h
  rcases h with rfl | h
  · exact .refl a
  split at h
  case h_1 => exact .widening h
  case h_4 hb => exact .null (Ty.primitive?_eq_none hb)
  case h_5 ha _ => exact .var (Ty.primitive?_eq_none ha)
  case h_6 =>
    simp only [Bool.or_eq_true, List.any_eq_true, decide_eq_true_eq] at h
    rcases h with rfl | h
    · exact .object rfl
    · exact .inherits h
  case h_7 =>
    simp only [Bool.or_eq_true, decide_eq_true_eq] at h
    rcases h with (rfl | h) | h
    · exact .object rfl
    · exact .copied (.inl h)
    · exact .copied (.inr h)
  case h_8 ha _ _ _ =>
    rw [of_decide_eq_true h]
    exact .object (Ty.primitive?_eq_none ha)
  case h_11 ha hb => exact .array (Ty.primitive?_eq_none ha) (Ty.primitive?_eq_none hb) (below_of_isSubtype h)
  all_goals cases h

theorem isSubtype_iff {a b : Ty} : p.isSubtype a b = true ↔ p.Below a b := ⟨below_of_isSubtype, isSubtype_of_below⟩

/-- What stands below a type is primitive only if that type is. -/
theorem Below.primitive?_eq_none {a b : Ty} (h : p.Below a b) (hb : b.primitive? = none) : a.primitive? = none := by
  cases h with
  | refl => exact hb
  | widening => cases hb
  | var ha => exact ha
  | object ha => exact ha
  | null | inherits | copied | array => rfl

theorem Below.primitive?_of_primitive?_eq_none {a b : Ty} (h : p.Below a b) (ha : a.primitive? = none) :
    b.primitive? = none := by
  cases h with
  | refl => exact ha
  | widening => cases ha
  | null hb => exact hb
  | var | object | inherits | copied | array => rfl

/-! Programs whose classes extend classes and interfaces only, and nothing above what every array is. -/

/-- No class has a type variable as its superclass or interface, and the class of all objects and the two
interfaces of all arrays declare neither. -/
structure PlainSupertypes (p : Program) : Prop where
  named : ∀ {name : String} {e : ClassEntry}, p.class? name = some e → ∀ t ∈ e.supertypes, ∀ v, t ≠ .var v
  topmost : ∀ {name : String} {e : ClassEntry}, name = objectClass ∨ name = cloneableClass ∨ name = serializableClass →
    p.class? name = some e → e.superclass = none ∧ e.interfaces = []

/-- The class `n` is named by the supertypes of the class `m`. -/
def Extends (p : Program) (m n : String) : Prop := ∃ u ∈ p.supertypesOf ⟨m, []⟩, u.name = n

namespace PlainSupertypes

variable (h : p.PlainSupertypes)

include h

/-- The names of supertypes do not depend on type arguments. -/
theorem exists_supertype {d u : ClassType} (hu : u ∈ p.supertypesOf d) (as : List Ty) :
    ∃ v ∈ p.supertypesOf ⟨d.name, as⟩, v.name = u.name := by
  rcases mem_supertypesOf.1 hu with ⟨rfl, hobject⟩ | ⟨e, he, t, ht, hu⟩
  · exact ⟨.object, mem_supertypesOf.2 (.inl ⟨rfl, hobject⟩), rfl⟩
  · cases t with
    | declared n bs =>
      cases hu
      exact ⟨_, mem_supertypesOf.2 (.inr ⟨e, he, _, ht, rfl⟩), rfl⟩
    | var v => exact absurd rfl (h.named he _ ht v)
    | _ => cases hu

/-- A class inherits from those that a chain of declarations leads to, and from the class of all objects. -/
theorem inherits_iff {d : ClassType} {n : String} :
    p.Inherits d n ↔ Relation.ReflTransGen p.Extends d.name n ∨ n = objectClass := by
  have hextends {a b : ClassType} (hb : b ∈ p.supertypesOf a) : p.Extends a.name b.name := h.exists_supertype hb []
  constructor
  · rintro ⟨t, ht, rfl⟩
    rcases mem_hierarchy.1 ht with ht | ⟨rfl, -⟩
    · exact .inl ((reaches_of_mem_reached ht).lift ClassType.name fun _ _ => hextends)
    · exact .inr rfl
  · rintro (hreach | rfl)
    · have hmem : ∃ t ∈ p.reached d, t.name = n := by
        induction hreach with
        | refl => exact ⟨d, p.self_mem_reached d, rfl⟩
        | tail _ hu ih =>
          obtain ⟨t, ht, rfl⟩ := ih
          obtain ⟨u, hu, rfl⟩ := hu
          obtain ⟨v, hv, hname⟩ := h.exists_supertype hu t.arguments
          obtain ⟨w, hw, hwn⟩ := exists_mem_reached_of_supertype ht hv
          exact ⟨w, hw, hwn.trans hname⟩
      obtain ⟨t, ht, rfl⟩ := hmem
      exact ⟨t, mem_hierarchy.2 (.inl ht), rfl⟩
    · by_cases hobject : ∃ u ∈ p.reached d, u.name = objectClass
      · obtain ⟨u, hu, hname⟩ := hobject
        exact ⟨u, mem_hierarchy.2 (.inl hu), hname⟩
      · exact ⟨.object, mem_hierarchy.2 (.inr ⟨rfl, fun u hu hname => hobject ⟨u, hu, hname⟩⟩), rfl⟩

theorem eq_object_of_extends {m n : String}
    (hm : m = objectClass ∨ m = cloneableClass ∨ m = serializableClass) (hn : p.Extends m n) : n = objectClass := by
  obtain ⟨u, hu, rfl⟩ := hn
  rcases mem_supertypesOf.1 hu with ⟨rfl, -⟩ | ⟨e, he, t, ht, -⟩
  · rfl
  · obtain ⟨hs, hi⟩ := h.topmost hm he
    simp [ClassEntry.supertypes, hs, hi] at ht

/-- Nothing but the class of all objects stands above it and above what every array is. -/
theorem eq_or_object_of_inherits {d : ClassType} {n : String}
    (hd : d.name = objectClass ∨ d.name = cloneableClass ∨ d.name = serializableClass) (hn : p.Inherits d n) :
    n = d.name ∨ n = objectClass := by
  rcases h.inherits_iff.1 hn with hreach | rfl
  · clear hn
    induction hreach with
    | refl => exact .inl rfl
    | tail _ hu ih =>
      rcases ih with rfl | rfl
      · exact .inr (h.eq_object_of_extends hd hu)
      · exact .inr (h.eq_object_of_extends (.inl rfl) hu)
  · exact .inr rfl

theorem inherits_trans {d e : ClassType} {n : String} (hde : p.Inherits d e.name) (hn : p.Inherits e n) :
    p.Inherits d n := by
  rcases h.inherits_iff.1 hn with hreach | rfl
  · rcases h.inherits_iff.1 hde with hde | hobject
    · exact h.inherits_iff.2 (.inl (hde.trans hreach))
    · obtain hname | rfl := h.eq_or_object_of_inherits (.inl hobject) hn
      · exact hname ▸ hde
      · exact h.inherits_iff.2 (.inr rfl)
  · exact h.inherits_iff.2 (.inr rfl)

theorem below_trans {a b c : Ty} (hab : p.Below a b) (hbc : p.Below b c) : p.Below a c := by
  induction hab generalizing c with
  | refl a => exact hbc
  | widening hab =>
    cases hbc with
    | refl => exact .widening hab
    | widening hbc => exact .widening (Primitive.widensTo_trans hab hbc)
    | var hb | object hb => cases hb
  | null hb => exact .null (hbc.primitive?_of_primitive?_eq_none hb)
  | var ha =>
    cases hbc with
    | refl | var => exact .var ha
    | object => exact .object ha
  | object ha =>
    cases hbc with
    | refl => exact .object ha
    | var => exact .var ha
    | object => exact .object ha
    | inherits hn =>
      obtain rfl | rfl := h.eq_or_object_of_inherits (.inl rfl) hn
      all_goals exact .object ha
  | inherits hab =>
    cases hbc with
    | refl => exact .inherits hab
    | var => exact .var rfl
    | object => exact .object rfl
    | inherits hbc => exact .inherits (h.inherits_trans hab hbc)
  | copied hb =>
    cases hbc with
    | refl => exact .copied hb
    | var => exact .var rfl
    | object => exact .object rfl
    | inherits hn =>
      obtain rfl | rfl := h.eq_or_object_of_inherits (.inr hb) hn
      · exact .copied hb
      · exact .object rfl
  | array ha hb hab ih =>
    cases hbc with
    | refl => exact .array ha hb hab
    | var => exact .var rfl
    | object => exact .object rfl
    | copied hc => exact .copied hc
    | array _ hc hbc => exact .array ha hc (ih hbc)

omit h in
theorem primitive?_erasure {a : Ty} (ha : a.primitive? = none) : a.erasure.primitive? = none := by
  cases a with
  | primitive => cases ha
  | _ => rfl

/-- A type and its erasure stand below each other. -/
theorem below_erasure : ∀ a : Ty, p.Below a a.erasure ∧ p.Below a.erasure a
  | .declared n as =>
    ⟨.inherits (h.inherits_iff.2 (.inl .refl)), .inherits (h.inherits_iff.2 (.inl .refl))⟩
  | .array a => by
    cases ha : a.primitive? with
    | none =>
      obtain ⟨hle, hge⟩ := below_erasure a
      exact ⟨.array ha (primitive?_erasure ha) hle, .array (primitive?_erasure ha) ha hge⟩
    | some q =>
      cases a with
      | primitive => exact ⟨.refl _, .refl _⟩
      | _ => cases ha
  | .var v => ⟨.object rfl, .var rfl⟩
  | .primitive _ | .null | .void | .none => ⟨.refl _, .refl _⟩

/-- Subtyping is a preorder, and erasure changes nothing about it. -/
theorem isSubtype_preorder :
    (∀ a, p.isSubtype a a = true) ∧
      (∀ a b c, p.isSubtype a b = true → p.isSubtype b c = true → p.isSubtype a c = true) ∧
      ∀ a b : Ty, p.isSubtype a b = p.isSubtype a.erasure b.erasure := by
  refine ⟨isSubtype_self, fun a b c hab hbc => ?_, fun a b => ?_⟩
  · exact isSubtype_iff.2 (h.below_trans (isSubtype_iff.1 hab) (isSubtype_iff.1 hbc))
  · rw [Bool.eq_iff_iff, isSubtype_iff, isSubtype_iff]
    obtain ⟨ha, ha'⟩ := h.below_erasure a
    obtain ⟨hb, hb'⟩ := h.below_erasure b
    exact ⟨fun hab => h.below_trans (h.below_trans ha' hab) hb, fun hab => h.below_trans (h.below_trans ha hab) hb'⟩

end PlainSupertypes

/-- A heap that is a source and stands in a circle with the class that it extends. -/
def heaps : Program :=
  ((initial.build "demo" none "Source" [.typeParameters ["E"], .interface]).build "demo" none "Heap"
    [.typeParameters ["T"], .superclass (.declared "demo.Pile" [.var "T"]),
      .implemented (.declared "demo.Source" [.array (.var "T")])]).build "demo" none "Pile"
    [.typeParameters ["T"], .superclass (.declared "demo.Heap" [.var "T"])]

theorem plainSupertypes_heaps : heaps.PlainSupertypes where
  named := by
    have hnamed : ∀ e ∈ heaps.classes, ∀ t ∈ e.supertypes, t.class?.isSome = true := by decide +kernel
    rintro name e he t ht v rfl
    cases hnamed e (mem_of_class? he) _ ht
  topmost := by
    have htop : ∀ e ∈ heaps.classes, e.qualifiedName = objectClass ∨ e.qualifiedName = cloneableClass ∨
        e.qualifiedName = serializableClass → e.superclass = none ∧ e.interfaces = [] := by
      decide +kernel
    intro name e hname he
    rw [← qualifiedName_of_class? he] at hname
    exact htop e (mem_of_class? he) hname

/-- An array of piles stands below one of sources and that below one of type variables, so the first stands below the
last; sources do not stand below piles, erased or not. -/
theorem isSubtype_preorder_heaps :
    let piles : Ty := .array (.declared "demo.Pile" [.string])
    let sources : Ty := .array (.declared "demo.Source" [.int])
    heaps.PlainSupertypes ∧ heaps.isSubtype piles piles = true ∧ heaps.isSubtype piles sources = true ∧
      heaps.isSubtype sources (.array (.var "V")) = true ∧ heaps.isSubtype piles (.array (.var "V")) = true ∧
        heaps.isSubtype sources piles = heaps.isSubtype sources.erasure piles.erasure ∧
          heaps.isSubtype sources piles = false := by
  intro piles sources
  obtain ⟨hrefl, htrans, herasure⟩ := plainSupertypes_heaps.isSubtype_preorder
  have hsources : heaps.isSubtype piles sources = true := by decide +kernel
  have hvar : heaps.isSubtype sources (.array (.var "V")) = true := by decide +kernel
  have hnot : heaps.isSubtype sources piles = false := by decide +kernel
  exact ⟨plainSupertypes_heaps, hrefl piles, hsources, hvar, htrans _ _ _ hsources hvar, herasure sources piles, hnot⟩

end Program
end AnnotationExpr
