import AnnotationExpr.Proofs.Program.FieldAround

/-!
The fields of a class as the class itself sees them. Where every class has its type parameters before its members, a
field belongs to the type of `this` in its class; from there it comes before all fields that are inherited or around,
and it has its own type.
-/

namespace AnnotationExpr

/-! Declaring a class in order. -/

def ClassPart.isMember : ClassPart → Bool
  | .field _ | .method _ => true
  | _ => false

def ClassPart.isTypeParameters : ClassPart → Bool
  | .typeParameters _ => true
  | _ => false

/-- No type parameters are given after a member. -/
def ClassPart.InOrder (parts : List ClassPart) : Prop :=
  parts.Pairwise fun a b => a.isMember = true → b.isTypeParameters = false

/-- Each field belongs to the type of `this` in the class. -/
def ClassEntry.OwnsFields (e : ClassEntry) : Prop := ∀ f ∈ e.fields, f.owner = e.selfType

theorem ClassDraft.ownsFields_add {d : ClassDraft} {part : ClassPart} (h : d.entry.OwnsFields)
    (hpart : part.isTypeParameters = true → d.entry.fields = []) : (d.add part).entry.OwnsFields := by
  cases part with
  | typeParameters names =>
    intro f hf
    have hnone : d.entry.fields = [] := hpart rfl
    rw [show (d.add (.typeParameters names)).entry.fields = d.entry.fields from rfl, hnone] at hf
    cases hf
  | field f =>
    intro g hg
    rcases List.mem_append.1 hg with hg | hg
    · exact h g hg
    · rw [List.mem_singleton.1 hg]
      rfl
  | _ => exact h

theorem ClassDraft.fields_add {d : ClassDraft} {part : ClassPart} (h : part.isMember = false) :
    (d.add part).entry.fields = d.entry.fields := by
  cases part with
  | field f => cases h
  | _ => rfl

theorem ClassDraft.ownsFields_foldl {parts : List ClassPart} (ho : ClassPart.InOrder parts) :
    ∀ {d : ClassDraft}, d.entry.OwnsFields →
      (d.entry.fields ≠ [] → ∀ part ∈ parts, part.isTypeParameters = false) →
      (parts.foldl add d).entry.OwnsFields := by
  induction ho with
  | nil => exact fun h _ => h
  | @cons part parts hpart _ ih =>
    intro d h hfields
    refine ih (ownsFields_add h fun hp => ?_) fun hne after hafter => ?_
    · by_contra hne
      have := hfields hne part List.mem_cons_self
      rw [hp] at this
      cases this
    · cases hm : part.isMember with
      | true => exact hpart after hafter hm
      | false =>
        rw [fields_add hm] at hne
        exact hfields hne after (List.mem_cons_of_mem _ hafter)

theorem ClassOutline.inOrder_parts (o : ClassOutline) : ClassPart.InOrder o.parts := by
  refine List.pairwise_cons.2 ⟨nofun, List.pairwise_of_forall_mem_list fun _ _ b hb _ => ?_⟩
  simp only [List.mem_append, List.mem_map] at hb
  rcases hb with (((hb | ⟨_, _, rfl⟩) | ⟨_, _, rfl⟩) | ⟨_, _, rfl⟩) | ⟨_, _, rfl⟩
  · split at hb
    · rw [List.mem_singleton.1 hb]
      rfl
    · cases hb
  all_goals rfl

namespace Program

/-- The programs in which every class was given its type parameters before its members. -/
inductive BuiltInOrder : Program → Prop where
  | initial : BuiltInOrder initial
  | build {p : Program} (h : BuiltInOrder p) (package : String) (enclosing : Option String) (name : String)
      {parts : List ClassPart} (ho : ClassPart.InOrder parts) : BuiltInOrder (p.build package enclosing name parts)
  | skipIds {p : Program} (h : BuiltInOrder p) (n : Nat) : BuiltInOrder (p.skipIds n)
  | addImport {p : Program} (h : BuiltInOrder p) (name : String) : BuiltInOrder (p.addImport name)
  | push {p : Program} (h : BuiltInOrder p) {parent : Nat} (hparent : parent < p.scopes.length) (kind : Scope.Kind)
      (declared : List Variable) : BuiltInOrder (p.push parent kind declared).1
  | declareVariable {p : Program} (h : BuiltInOrder p) (scope : Nat) (v : Variable) :
      BuiltInOrder (p.declareVariable scope v)

def OwnsFields (p : Program) : Prop := ∀ e ∈ p.classes, e.OwnsFields

variable {p : Program} {e : ClassEntry} {name : String} {f : Field}

theorem ownsFields_build (h : p.OwnsFields) (package : String) (enclosing : Option String) (name : String)
    {parts : List ClassPart} (ho : ClassPart.InOrder parts) : (p.build package enclosing name parts).OwnsFields := by
  intro e he
  rcases List.mem_cons.1 he with rfl | he
  · exact ClassDraft.ownsFields_foldl ho (fun f hf => (List.not_mem_nil hf).elim) fun hne => absurd rfl hne
  · exact h e he

theorem BuiltInOrder.ownsFields (h : p.BuiltInOrder) : p.OwnsFields := by
  induction h with
  | initial =>
    refine List.foldlRecOn (motive := OwnsFields) builtins declare (fun _ h => (List.not_mem_nil h).elim)
      fun p hp o _ => ?_
    rw [declare_eq_build]
    exact ownsFields_build hp _ _ _ o.inOrder_parts
  | build _ package enclosing name ho ih => exact ownsFields_build ih package enclosing name ho
  | skipIds _ _ ih => exact ih
  | addImport _ _ ih => exact ih
  | push _ _ _ _ ih => exact ih
  | declareVariable _ _ _ ih => exact ih

/-! The first field of a name in a class. -/

theorem inheritedField?_selfClass (he : p.class? e.qualifiedName = some e) (hf : e.field? name = some f) :
    p.inheritedField? e.selfClass name = some f := by
  have hclass : p.class? e.selfClass.name = some e := he
  obtain ⟨ds, hds⟩ := p.exists_hierarchy_eq_cons e.selfClass
  rw [inheritedField?, hds, List.findSome?_cons, hclass, Option.bind_some, hf, Option.map_some,
    substitute_bindingsOf_selfClass he]

theorem findField_owner (hp : p.OwnsFields) (he : p.class? e.qualifiedName = some e) (hf : e.field? name = some f)
    (scope : Nat) : (p.lookupFrom scope).findField name f.owner = .ok (some (f, true)) := by
  have hown : p.fieldOf? name e.qualifiedName = some f := by
    rw [fieldOf?, he, Option.bind_some]
    exact inheritedField?_selfClass he hf
  have hfirst : p.fieldAround? e.qualifiedName name = some (f, true) := by rw [fieldAround?, hown]
  rw [hp e (mem_of_class? he) f (List.mem_of_find?_eq_some hf), findField_selfType he, hfirst]

end Program
end AnnotationExpr
