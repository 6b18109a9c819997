import AnnotationExpr.Proofs.Program.Supertypes
import Mathlib.Data.List.Forall2

/-!
Types with arguments for the parameters of their classes. Where classes extend class types in terms of their own
parameters, what stands above a class type, and the members seen from it, are those of the class with its arguments put
in place of its parameters. The parameters of other classes may have the same names, and so may variables in the
arguments.
-/

namespace AnnotationExpr

def ClassType.substitute (s : String → Option Ty) (d : ClassType) : ClassType :=
  ⟨d.name, d.arguments.map (Ty.substitute s)⟩

theorem Ty.class?_substitute {t : Ty} {u : ClassType} (h : t.class? = some u) (s : String → Option Ty) :
    (t.substitute s).class? = some (u.substitute s) := by
  cases t with
  | declared n as =>
    cases h
    rw [Ty.substitute, substituteAll_eq_map]
    rfl
  | _ => cases h

namespace Program

variable {p : Program} {s : String → Option Ty} {d d' t u : ClassType}

/-- The type has an argument for each parameter of its class, if that is known. -/
def Fits (p : Program) (d : ClassType) : Prop := ∀ e ∈ p.class? d.name, e.typeParameters.length = d.arguments.length

/-- What a class extends are class types in terms of its parameters, with an argument for each parameter of the class
that they name. -/
structure GenericSupertypes (p : Program) : Prop where
  inParameters : ∀ name, ∀ e ∈ p.class? name, ∀ t ∈ e.supertypes, t.varNames ⊆ e.typeParameters
  fits : ∀ name, ∀ e ∈ p.class? name, ∀ t ∈ e.supertypes, ∃ u, t.class? = some u ∧ p.Fits u
  object : p.Fits .object

/-- The second type is of the class of the first, and what it gives to the class's parameters is what the first gives to
them with the substitution made in it. -/
structure Specializes (p : Program) (s : String → Option Ty) (d d' : ClassType) : Prop where
  name : d'.name = d.name
  seen : ∀ e ∈ p.class? d.name, ∀ t : Ty, t.varNames ⊆ e.typeParameters →
    t.substitute (p.bindingsOf d') = (t.substitute (p.bindingsOf d)).substitute s

theorem Fits.substitute (h : p.Fits d) (s : String → Option Ty) : p.Fits (d.substitute s) :=
  fun e he => (h e he).trans (List.length_map _).symm

theorem Fits.specializes (h : p.Fits d) (s : String → Option Ty) : p.Specializes s d (d.substitute s) where
  name := rfl
  seen e he t ht := by
    rw [bindingsOf_eq he (h e he), bindingsOf_eq (d := d.substitute s) he (h.substitute s e he),
      Ty.substitute_bindings (h e he) ht]
    rfl

/-- The type of a class with arguments, beside the type of `this` in the class. -/
theorem specializes_selfClass {e : ClassEntry} {args : List Ty} (he : p.class? e.qualifiedName = some e)
    (hargs : e.typeParameters.length = args.length) :
    p.Specializes (bindings e.typeParameters args) e.selfClass ⟨e.qualifiedName, args⟩ where
  name := rfl
  seen k hk t ht := by
    rw [substitute_bindingsOf_selfClass he, bindingsOf_eq (d := ⟨e.qualifiedName, args⟩) he hargs]

/-! What stands above a type. -/

namespace GenericSupertypes

variable (h : p.GenericSupertypes)

include h

theorem fits_of_supertype (hu : u ∈ p.supertypesOf d) : p.Fits u := by
  rcases mem_supertypesOf.1 hu with ⟨rfl, -⟩ | ⟨e, he, t, ht, hu⟩
  · exact h.object
  · obtain ⟨v, hv, hfits⟩ := h.fits _ e he t ht
    rw [Ty.class?_substitute hv] at hu
    exact Option.some.inj hu ▸ hfits.substitute _

theorem fits_of_reaches (hd : p.Fits d) (hreach : p.Reaches d t) : p.Fits t := by
  cases hreach with
  | refl => exact hd
  | tail _ ht => exact h.fits_of_supertype ht

theorem supertypesOf_eq (hd : p.Specializes s d d') :
    p.supertypesOf d' = (p.supertypesOf d).map (ClassType.substitute s) := by
  unfold supertypesOf
  rw [hd.name]
  cases he : p.class? d.name with
  | none =>
    dsimp only
    split <;> rfl
  | some e =>
    have hseen : ∀ t ∈ e.supertypes, (t.substitute (p.bindingsOf d')).class? =
        (t.substitute (p.bindingsOf d)).class?.map (ClassType.substitute s) := fun t ht => by
      obtain ⟨u, hu, -⟩ := h.fits _ e he t ht
      rw [hd.seen e he t (h.inParameters _ e he t ht), Ty.class?_substitute (Ty.class?_substitute hu _) s,
        Ty.class?_substitute hu, Option.map_some]
    dsimp only
    rw [List.map_append, List.map_filterMap]
    refine congrArg₂ (· ++ ·) ?_ (List.filterMap_congr fun t ht => hseen t (List.mem_append_right _ ht))
    cases hs : e.superclass with
    | none =>
      dsimp only
      split <;> rfl
    | some t =>
      dsimp only
      rw [hseen t (by simp [ClassEntry.supertypes, hs])]
      cases (t.substitute (p.bindingsOf d)).class? <;> rfl

theorem reaches_substitute (hd : p.Fits d) (s : String → Option Ty) (hreach : p.Reaches d t) :
    p.Reaches (d.substitute s) (t.substitute s) := by
  induction hreach with
  | refl => exact .refl
  | tail hbefore hu ih =>
    refine ih.tail ?_
    rw [h.supertypesOf_eq ((h.fits_of_reaches hd hbefore).specializes s)]
    exact List.mem_map_of_mem hu

theorem exists_reached_eq (hd : p.Specializes s d d') :
    ∃ above, p.reached d = d :: above ∧ p.reached d' = d' :: above.map (ClassType.substitute s) ∧
      ∀ t ∈ above, p.Fits t := by
  refine ⟨p.walk (without d.name (p.reachableNames d)) (p.supertypesOf d), p.reached_eq_cons d, ?_, fun t ht => ?_⟩
  · rw [reached_eq_cons, h.supertypesOf_eq hd, hd.name]
    refine congrArg _ (walk_map (fun u hu t hreach => ⟨rfl, ?_⟩) fun u hu t hreach => ?_)
    · exact h.supertypesOf_eq ((h.fits_of_reaches (h.fits_of_supertype hu) hreach).specializes s)
    · have hu' : u.substitute s ∈ p.supertypesOf d' := h.supertypesOf_eq hd ▸ List.mem_map_of_mem hu
      have hreach' : p.Reaches d' (t.substitute s) :=
        .head hu' (h.reaches_substitute (h.fits_of_supertype hu) s hreach)
      have hmem : t.name ∈ p.reachableNames d := classNames_of_reaches (.head hu hreach) List.mem_cons_self
      have hmem' : t.name ∈ p.reachableNames d' := classNames_of_reaches hreach' List.mem_cons_self
      simp [without, hmem, hmem']
  · obtain ⟨u, hu, hreach⟩ := reaches_of_mem_walk ht
    exact h.fits_of_reaches (h.fits_of_supertype hu) hreach

/-- The types above a type have an argument for each parameter, and the substitution made in them gives the types above
the other. -/
theorem exists_hierarchy_eq (hd : p.Specializes s d d') :
    ∃ above, p.hierarchy d = d :: above ∧ p.hierarchy d' = d' :: above.map (ClassType.substitute s) ∧
      ∀ t ∈ above, p.Fits t := by
  obtain ⟨above, hreached, hreached', hfits⟩ := h.exists_reached_eq hd
  have hany : (d' :: above.map (ClassType.substitute s)).any (·.name = objectClass) =
      (d :: above).any (·.name = objectClass) := by
    rw [List.any_cons, List.any_cons, hd.name, List.any_map]
    rfl
  rw [hierarchy_eq, hierarchy_eq, hreached, hreached', hany]
  split
  · exact ⟨above, rfl, rfl, hfits⟩
  · refine ⟨above ++ [.object], rfl, by rw [List.map_append]; rfl, fun t ht => ?_⟩
    rcases List.mem_append.1 ht with ht | ht
    · exact hfits t ht
    · exact List.mem_singleton.1 ht ▸ h.object

theorem hierarchy_specializes (hd : p.Specializes s d d') :
    List.Forall₂ (p.Specializes s) (p.hierarchy d) (p.hierarchy d') := by
  obtain ⟨above, habove, habove', hfits⟩ := h.exists_hierarchy_eq hd
  rw [habove, habove']
  refine .cons hd (List.forall₂_map_right_iff.2 (List.forall₂_same.2 fun t ht => (hfits t ht).specializes s))

end GenericSupertypes

/-! The members that are seen from a type. -/

/-- Both types see the field of the first class above them that has one. -/
theorem inheritedField?_specializes (h : p.GenericSupertypes) (hd : p.Specializes s d d') (name : String) :
    p.inheritedField? d name = none ∧ p.inheritedField? d' name = none ∨
      ∃ t t' e f, p.Specializes s t t' ∧ p.class? t.name = some e ∧ e.field? name = some f ∧
        p.inheritedField? d name = some { f with type := f.type.substitute (p.bindingsOf t) } ∧
        p.inheritedField? d' name = some { f with type := f.type.substitute (p.bindingsOf t') } := by
  have hds := h.hierarchy_specializes hd
  unfold inheritedField?
  generalize p.hierarchy d = ds, p.hierarchy d' = ds' at hds ⊢
  induction hds with
  | nil => exact .inl ⟨rfl, rfl⟩
  | @cons t t' _ _ ht _ ih =>
    rw [List.findSome?_cons, List.findSome?_cons, ht.name]
    cases he : p.class? t.name with
    | none => exact ih
    | some e =>
      rw [Option.bind_some, Option.bind_some]
      cases hf : e.field? name with
      | none => exact ih
      | some f => exact .inr ⟨t, t', e, f, ht, he, hf, rfl, rfl⟩

theorem find?_specializes (h : p.GenericSupertypes) (hd : p.Specializes s d d') (name : String) :
    (∀ t ∈ p.hierarchy d, t.name ≠ name) ∨ ∃ t t', p.Specializes s t t' ∧ t.name = name ∧
      (p.hierarchy d).find? (·.name = name) = some t ∧ (p.hierarchy d').find? (·.name = name) = some t' := by
  have hds := h.hierarchy_specializes hd
  generalize p.hierarchy d = ds, p.hierarchy d' = ds' at hds ⊢
  induction hds with
  | nil => exact .inl fun _ ht => (List.not_mem_nil ht).elim
  | @cons t t' _ _ ht _ ih =>
    by_cases hname : t.name = name
    · refine .inr ⟨t, t', ht, hname, List.find?_cons_of_pos (decide_eq_true hname), ?_⟩
      exact List.find?_cons_of_pos (decide_eq_true (ht.name.trans hname))
    · rw [List.find?_cons_of_neg (by simpa using hname), List.find?_cons_of_neg (by simpa [ht.name] using hname)]
      exact ih.imp_left fun hall => List.forall_mem_cons.2 ⟨hname, hall⟩

/-- The class of the field declares it in terms of its own parameters. -/
def FieldInParameters (p : Program) (f : Field) : Prop :=
  ∀ o ∈ f.owner.class?, ∀ e ∈ p.class? o.name, ∀ g ∈ e.field? f.name, g.type.varNames ⊆ e.typeParameters

variable {name : String}

theorem findField?_specializes (hp : p.OwnsMembers) (h : p.GenericSupertypes) (hd : p.Specializes s d d')
    {f : Field} (hf : p.findField? name d.toTy = some f) :
    ∃ type, p.findField? name d'.toTy = some { f with type } ∧ (p.FieldInParameters f → type = f.type.substitute s) := by
  rcases inheritedField?_specializes h hd name with ⟨hnone, -⟩ | ⟨t, t', e, g, ht, he, hg, hsome, hsome'⟩
  · exact absurd (hnone.symm.trans hf) (by simp)
  · cases hsome.symm.trans hf
    refine ⟨_, hsome', fun hparameters => ht.seen e he _ ?_⟩
    have hname : g.name = name := by simpa using List.find?_some hg
    have hself : p.class? e.qualifiedName = some e := by rw [qualifiedName_of_class? he]; exact he
    obtain ⟨as, howner⟩ := (hp e (mem_of_class? he)).field g (List.mem_of_find?_eq_some hg)
    refine hparameters ⟨e.qualifiedName, as⟩ ?_ e hself g ?_
    · dsimp only
      rw [howner]
      rfl
    · dsimp only
      rw [hname]
      exact hg

theorem returnTypeFor_specializes (hp : p.OwnsMembers) (h : p.GenericSupertypes) (hd : p.Specializes s d d')
    (ht : t ∈ p.hierarchy d) {e : ClassEntry} (he : p.class? t.name = some e) {m : Method} (hm : m ∈ e.methods)
    (hparameters : m.returns.varNames ⊆ e.typeParameters) :
    p.returnTypeFor m d'.toTy = (p.returnTypeFor m d.toTy).substitute s := by
  obtain ⟨as, howner⟩ := (hp e (mem_of_class? he)).method m hm
  rw [qualifiedName_of_class? he] at howner
  obtain ⟨u, u', hu, hname, hfind, hfind'⟩ :=
    (find?_specializes h hd t.name).resolve_left fun hall => hall t ht rfl
  have hreturn : p.returnTypeFor m d.toTy = m.returns.substitute (p.bindingsOf u) := by
    simp [returnTypeFor, ClassType.toTy, Ty.class?, howner, hfind]
  have hreturn' : p.returnTypeFor m d'.toTy = m.returns.substitute (p.bindingsOf u') := by
    simp [returnTypeFor, ClassType.toTy, Ty.class?, howner, hfind']
  rw [hreturn, hreturn', hu.seen e (hname ▸ he) _ hparameters]

/-- What is seen from a class with arguments is what the class itself sees, with the arguments put in place of its
parameters: the types above, and of the first class too unless it has two parameters of one name; the same fields, with
their types; and the types that methods return. -/
theorem GenericSupertypes.members_of_instance (h : p.GenericSupertypes) (hp : p.Built) {e : ClassEntry} {args : List Ty}
    (he : p.class? e.qualifiedName = some e) (hargs : args.length = e.typeParameters.length) :
    let s := bindings e.typeParameters args
    let d : ClassType := ⟨e.qualifiedName, args⟩
    p.hierarchy d = d :: (p.hierarchy e.selfClass).tail.map (ClassType.substitute s) ∧
      (e.typeParameters.Nodup → p.hierarchy d = (p.hierarchy e.selfClass).map (ClassType.substitute s)) ∧
      (∀ name, p.findField? name d.toTy = none ↔ p.findField? name e.selfType = none) ∧
      (∀ name f, p.findField? name e.selfType = some f → ∃ type,
        p.findField? name d.toTy = some { f with type } ∧ (p.FieldInParameters f → type = f.type.substitute s)) ∧
      ∀ t ∈ p.hierarchy e.selfClass, ∀ k ∈ p.class? t.name, ∀ m ∈ k.methods, m.returns.varNames ⊆ k.typeParameters →
        p.returnTypeFor m d.toTy = (p.returnTypeFor m e.selfType).substitute s := by
  intro s d
  have hd : p.Specializes s e.selfClass d := specializes_selfClass he hargs.symm
  obtain ⟨above, habove, habove', -⟩ := h.exists_hierarchy_eq hd
  refine ⟨?_, fun hnodup => ?_, fun name => ?_, fun name f => findField?_specializes hp.ownsMembers h hd,
    fun t ht k hk m hm => returnTypeFor_specializes hp.ownsMembers h hd ht hk hm⟩
  · rw [habove, habove', List.tail_cons]
  · have hself : e.selfClass.substitute s = d :=
      congrArg (ClassType.mk e.qualifiedName) (map_substitute_var hargs.symm hnodup)
    rw [habove, habove', List.map_cons, hself]
  · rcases inheritedField?_specializes h hd name with ⟨hnone, hnone'⟩ | ⟨t, t', k, g, -, -, -, hsome, hsome'⟩
    · exact iff_of_true hnone' hnone
    · refine iff_of_false (fun hnone => ?_) fun hnone => ?_
      · exact absurd (hsome'.symm.trans hnone) (by simp)
      · exact absurd (hsome.symm.trans hnone) (by simp)

theorem genericSupertypes_of_classes
    (hsupertypes : ∀ e ∈ p.classes, ∀ t ∈ e.supertypes, t.varNames ⊆ e.typeParameters ∧
      ∃ u ∈ t.class?, ∀ k ∈ p.classes, k.qualifiedName = u.name → k.typeParameters.length = u.arguments.length)
    (hobject : ∀ k ∈ p.classes, k.qualifiedName = objectClass → k.typeParameters.length = 0) :
    p.GenericSupertypes := by
  refine ⟨fun _ e he t ht => (hsupertypes e (mem_of_class? he) t ht).1, fun _ e he t ht => ?_, fun k hk => ?_⟩
  · obtain ⟨-, u, hu, hfits⟩ := hsupertypes e (mem_of_class? he) t ht
    exact ⟨u, hu, fun k hk => hfits k (mem_of_class? hk) (qualifiedName_of_class? hk)⟩
  · exact hobject k (mem_of_class? hk) (qualifiedName_of_class? hk)

/-- Pairs, which are boxes of arrays of what they hold second; a box's parameter has the name of a pair's first. -/
def pairs : Program :=
  (initial.build "demo" none "Box" [.typeParameters ["A"], .field ⟨"content", .var "A", false, false⟩]).build
    "demo" none "Pair" [.typeParameters ["A", "B"], .superclass (.declared "demo.Box" [.array (.var "B")]),
      .field ⟨"first", .var "A", false, false⟩]

theorem built_pairs : pairs.Built := (Built.initial.build ..).build ..

theorem genericSupertypes_pairs : pairs.GenericSupertypes :=
  genericSupertypes_of_classes (by decide +kernel) (by decide +kernel)

/-- Pairs of variables that have the names of the parameters, the other way round, are boxes of arrays of the last. -/
theorem members_of_instance_pairs :
    let swapped : ClassType := ⟨"demo.Pair", [.var "B", .var "A"]⟩
    pairs.Built ∧ pairs.GenericSupertypes ∧
      (∃ e, pairs.class? e.qualifiedName = some e ∧ swapped.arguments.length = e.typeParameters.length ∧
        e.typeParameters.Nodup ∧ pairs.hierarchy swapped =
          (pairs.hierarchy e.selfClass).map (ClassType.substitute (bindings e.typeParameters swapped.arguments))) ∧
      pairs.hierarchy swapped = [swapped, ⟨"demo.Box", [.array (.var "A")]⟩, .object] ∧
      (pairs.findField? "content" swapped.toTy).map Field.type = some (.array (.var "A")) := by
  intro swapped
  obtain ⟨e, he⟩ := Option.isSome_iff_exists.1 (show (pairs.class? "demo.Pair").isSome = true by decide +kernel)
  have hname : e.qualifiedName = "demo.Pair" := qualifiedName_of_class? he
  have hparameters : e.typeParameters = ["A", "B"] := by
    have : (pairs.class? "demo.Pair").map ClassEntry.typeParameters = some ["A", "B"] := by decide +kernel
    rw [he] at this
    exact Option.some.inj this
  have hself : e.selfClass = ⟨"demo.Pair", [.var "A", .var "B"]⟩ := by
    rw [ClassEntry.selfClass, ClassEntry.symbol, ClassSymbol.of, hname, hparameters]
    rfl
  have hargs : swapped.arguments.length = e.typeParameters.length := by
    rw [hparameters]
    rfl
  have hnodup : e.typeParameters.Nodup := by
    rw [hparameters]
    decide
  have hboxed : pairs.findField? "content" e.selfType =
      some ⟨"content", .array (.var "B"), .declared "demo.Box" [.var "A"], false, false⟩ := by
    rw [ClassEntry.selfType, hself]
    decide +kernel
  obtain ⟨hhead, hhierarchy, -, hfield, -⟩ :=
    genericSupertypes_pairs.members_of_instance built_pairs (hname.symm ▸ he) hargs
  rw [hname] at hhead hhierarchy hfield
  obtain ⟨type, hfound, htype⟩ := hfield "content" _ hboxed
  refine ⟨built_pairs, genericSupertypes_pairs, ⟨e, hname.symm ▸ he, hargs, hnodup, hhierarchy hnodup⟩, ?_, ?_⟩
  · rw [hhead, hself, hparameters]
    decide +kernel
  · rw [hfound, Option.map_some, htype (by unfold FieldInParameters; decide +kernel), hparameters]
    decide +kernel

/-- Twins, which have one name for both parameters, and know themselves. -/
def twins : Program :=
  initial.build "demo" none "Twin"
    [.typeParameters ["A", "A"], .field ⟨"self", .declared "demo.Twin" [.var "A", .var "A"], false, false⟩]

def twin : ClassEntry :=
  let type : Ty := .declared "demo.Twin" [.var "A", .var "A"]
  ⟨"demo", none, "Twin", false, ["A", "A"], none, [], [⟨"self", type, type, false, false⟩], []⟩

theorem genericSupertypes_twins : twins.GenericSupertypes :=
  genericSupertypes_of_classes (by decide +kernel) (by decide +kernel)

/-- The type of `this` of a twin becomes no type with different arguments, whatever is put in place of the one name. -/
theorem not_hierarchy_of_instance : ¬ ∀ (p : Program) (e : ClassEntry) (args : List Ty), p.Built →
    p.GenericSupertypes → p.class? e.qualifiedName = some e → args.length = e.typeParameters.length →
    ∃ s, p.hierarchy ⟨e.qualifiedName, args⟩ = (p.hierarchy e.selfClass).map (ClassType.substitute s) := by
  intro hall
  have hclass : twins.class? twin.qualifiedName = some twin := by decide +kernel
  obtain ⟨s, hs⟩ := hall twins twin [.array .int, .string] (Built.initial.build ..) genericSupertypes_twins hclass rfl
  obtain ⟨above, habove⟩ := twins.exists_hierarchy_eq_cons ⟨twin.qualifiedName, [.array .int, .string]⟩
  obtain ⟨above', habove'⟩ := twins.exists_hierarchy_eq_cons twin.selfClass
  rw [habove, habove', List.map_cons] at hs
  have harguments : [.array .int, .string] = [(Ty.var "A").substitute s, (Ty.var "A").substitute s] :=
    congrArg ClassType.arguments (List.cons.inj hs).1
  obtain ⟨hfirst, hrest⟩ := List.cons.inj harguments
  cases hfirst.trans (List.cons.inj hrest).1.symm

/-- The last of the two arguments is the one that a field sees. -/
example : (twins.findField? "self" (.declared "demo.Twin" [.array .int, .string])).map Field.type =
    some (.declared "demo.Twin" [.string, .string]) := by
  decide +kernel

end Program
end AnnotationExpr
