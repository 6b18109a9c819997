import AnnotationExpr.Proofs.Program.Choice
import AnnotationExpr.Proofs.Program.FieldAround

/-!
Types and the members their objects have. A member that is found on a type belongs to a class in the hierarchy of
the type, or to the array type itself; one that is found through the scopes around a place belongs to a class in the
hierarchy of the class there, or of a class around it.
-/

namespace AnnotationExpr.Program

/-- The owner is a class in the hierarchy. -/
def Above (p : Program) (owner : Ty) (d : ClassType) : Prop := ∃ t ∈ p.hierarchy d, ∃ as, owner = .declared t.name as

/-- The type has the members of the owner. Arrays have members of their own, and arrays and type variables have
those of all objects. -/
def HasMembersOf (p : Program) (owner : Ty) : Ty → Prop
  | .declared n as => p.Above owner ⟨n, as⟩
  | .array component => owner = .array component ∨ p.Above owner .object
  | .var _ => p.Above owner .object
  | _ => False

/-- A class around the type has the members of the owner. -/
def HasAround (p : Program) (owner type : Ty) : Prop :=
  ∃ d ∈ type.class?, ∃ e ∈ p.outerClasses d.name, p.HasMembersOf owner e.selfType

variable {p q : Program}

theorem hasMembersOf_owner {owner type : Ty} (h : p.HasMembersOf owner type) : p.HasMembersOf owner owner := by
  have habove {d : ClassType} (h : p.Above owner d) : p.HasMembersOf owner owner := by
    obtain ⟨t, -, as, rfl⟩ := h
    exact ⟨⟨t.name, as⟩, p.self_mem_hierarchy _, as, rfl⟩
  cases type with
  | declared n as => exact habove h
  | array component =>
    rcases h with rfl | h
    · exact .inl rfl
    · exact habove h
  | var n => exact habove h
  | _ => exact h.elim

theorem above_of_inheritedField? (hp : p.OwnsMembers) {d : ClassType} {name : String} {f : Field}
    (h : p.inheritedField? d name = some f) : p.Above f.owner d := by
  obtain ⟨t, ht, e, he, g, hg, -, rfl⟩ := inheritedField?_eq_some h
  obtain ⟨as, ho⟩ := (hp e (mem_of_class? he)).field g hg
  exact ⟨t, ht, as, qualifiedName_of_class? he ▸ ho⟩

theorem above_of_hasMethod (hp : p.OwnsMembers) {d : ClassType} {m : Method} (h : p.HasMethod d m) :
    p.Above m.owner d := by
  obtain ⟨t, ht, e, he, hm⟩ := h
  obtain ⟨as, ho⟩ := (hp e (mem_of_class? he)).method m hm
  exact ⟨t, ht, as, qualifiedName_of_class? he ▸ ho⟩

theorem hasMembersOf_of_findField? (hp : p.OwnsMembers) {name : String} {type : Ty} {f : Field}
    (h : p.findField? name type = some f) : p.HasMembersOf f.owner type := by
  unfold findField? at h
  split at h
  · exact above_of_inheritedField? hp h
  · obtain ⟨-, hf⟩ := Option.ite_none_right_eq_some.1 h
    cases hf
    exact .inl rfl
  · cases h

theorem hasMembersOf_of_findMethod (hp : p.OwnsMembers) {name : String} {type : Ty} {actuals : List Ty} {m : Method}
    (h : p.findMethod name type actuals = .ok (some m)) : p.HasMembersOf m.owner type := by
  obtain ⟨-, -, ⟨component, rfl, rfl⟩ | ⟨d, hd, hm⟩⟩ := findMethod_eq_some h
  · exact .inl rfl
  · have habove := above_of_hasMethod hp hm
    unfold methodClass? at hd
    split at hd
    · cases hd; exact habove
    · cases hd; exact .inr habove
    · cases hd; exact habove
    · cases hd

variable {className name : String} {method : Option String} {c : Context} {scope : Nat} {e : ClassEntry}
  {m : Option Method}

/-- A field that is found through the scopes around a place is one of the classes whose bodies they are. -/
theorem Entered.fieldOf?_of_findVariable? (h : Entered p className method q c scope e m) {f : Field}
    (hf : q.findVariable? scope name = some (.field f)) :
    ∃ n ∈ className :: q.outerNames className, q.fieldOf? name n = some f := by
  rw [Program.findVariable?, h.sees.findSome?_chain fun s => rfl] at hf
  obtain ⟨s, hs, hn⟩ := List.exists_of_findSome?_eq_some hf
  rw [List.mem_append, List.mem_append] at hs
  rcases hs with (hs | hs) | hs
  · obtain ⟨d, -, rfl⟩ := List.mem_map.1 hs
    unfold namedIn? at hn
    split at hn
    · cases hn
    · cases hn
  · obtain ⟨n, hmem, rfl⟩ := List.mem_map.1 hs
    rw [namedIn?_body] at hn
    obtain ⟨g, hg, hgf⟩ := Option.map_eq_some_iff.1 hn
    cases hgf
    exact ⟨n, (alike_of_classes h.classes).outerNames ▸ hmem, hg⟩
  · rw [List.mem_singleton.1 hs] at hn
    cases hn

theorem Entered.hasMembersOf_of_findVariable? (h : Entered p className method q c scope e m) (hq : q.OwnsMembers)
    {f : Field} (hf : q.findVariable? scope name = some (.field f)) :
    q.HasMembersOf f.owner f.owner ∧ (q.HasMembersOf f.owner e.selfType ∨ q.HasAround f.owner e.selfType) := by
  obtain ⟨n, hn, hf⟩ := h.fieldOf?_of_findVariable? hf
  obtain ⟨e', he', hf⟩ := Option.bind_eq_some_iff.1 hf
  have habove := above_of_inheritedField? hq hf
  refine ⟨hasMembersOf_owner (show q.HasMembersOf f.owner e'.selfType from habove), ?_⟩
  have hclass : q.class? className = some e := by rw [class?_congr h.classes]; exact h.class?
  rcases List.mem_cons.1 hn with rfl | hn
  · rw [hclass] at he'
    cases he'
    exact .inl habove
  · refine .inr ⟨e.selfClass, rfl, e', ?_, habove⟩
    have hname : e.selfClass.name = className := qualifiedName_of_class? hclass
    rw [hname]
    exact List.mem_filterMap.2 ⟨n, hn, he'⟩

end AnnotationExpr.Program
