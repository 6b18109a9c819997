import AnnotationExpr.Program.Loading
import Mathlib.Data.List.Forall2

/-!
What the description of a class declares. Its types are read one after the other, and the first text that is no type
ends the reading; where all are types, the entry that is declared has the described parts in the described order, each
with the types that its own texts denote.
-/

namespace AnnotationExpr

def MethodDescription.typeTexts (m : MethodDescription) : List String :=
  m.parameters.map Prod.snd ++ [m.returns]

namespace ClassDescription

variable (c : ClassDescription)

/-- The texts of all the types in the description, in the order in which they are read. -/
def typeTexts : List String :=
  c.superclass.toList ++ (c.interfaces ++ (c.fields.map (·.type) ++ c.methods.flatMap (·.typeTexts)))

def Denotes (text : String) (t : Ty) : Prop := Ty.ofText? c.typeParameters text = some t

/-- The first of the texts that is no type. -/
def unread? (texts : List String) : Option String := texts.find? fun text => (Ty.ofText? c.typeParameters text).isNone

/-! What is declared. -/

structure DescribesField (owner : Ty) (f : FieldDescription) (g : Field) : Prop where
  name : g.name = f.name
  type : c.Denotes f.type g.type
  owner : g.owner = owner
  isStatic : g.isStatic = f.isStatic
  isFinal : g.isFinal = f.isFinal

structure DescribesParameter (q : String × String) (v : Variable) : Prop where
  name : v.name = q.1
  type : c.Denotes q.2 v.type
  kind : v.kind = .parameter

structure DescribesMethod (owner : Ty) (m : MethodDescription) (d : Method) : Prop where
  name : d.name = m.name
  owner : d.owner = owner
  parameters : List.Forall₂ c.DescribesParameter m.parameters d.parameters
  returns : c.Denotes m.returns d.returns
  isStatic : d.isStatic = m.isStatic
  isVariadic : d.isVariadic = m.isVariadic
  kind : d.kind = .method

/-- The entry is what the description says, but for the package of a member class. -/
structure Describes (e : ClassEntry) : Prop where
  name : e.name = c.name
  enclosing : e.enclosing = c.enclosing
  package : c.enclosing = none → e.package = c.package
  isInterface : e.isInterface = c.isInterface
  typeParameters : e.typeParameters = c.typeParameters
  superclass : Option.Rel c.Denotes c.superclass e.superclass
  interfaces : List.Forall₂ c.Denotes c.interfaces e.interfaces
  fields : List.Forall₂ (c.DescribesField e.selfType) c.fields e.fields
  methods : List.Forall₂ (c.DescribesMethod e.selfType) c.methods e.methods

theorem Describes.qualifiedName {c : ClassDescription} {e : ClassEntry} (h : c.Describes e) :
    e.qualifiedName = c.qualifiedName := by
  unfold ClassEntry.qualifiedName ClassDescription.qualifiedName
  rw [h.enclosing, h.name]
  cases houter : c.enclosing with
  | some outer => rfl
  | none => rw [h.package houter]

/-! Reading texts one after the other. -/

/-- The computation reads these texts: if all are types it has a result with the property, and else it fails at the
first that is none. -/
structure Reads {α : Type} (texts : List String) (x : Except ProgramError α) (P : α → Prop) : Prop where
  ok : c.unread? texts = none → ∃ a, x = .ok a ∧ P a
  error : ∀ text ∈ c.unread? texts, x = .error (.invalidType text c.qualifiedName)

variable {c} {α β : Type} {ts us : List String} {x : Except ProgramError α} {P : α → Prop}

theorem reads_pure {a : α} (h : P a) : c.Reads [] (pure a) P := ⟨fun _ => ⟨a, rfl, h⟩, nofun⟩

theorem Reads.bind (h : c.Reads ts x P) {f : α → Except ProgramError β} {Q : β → Prop}
    (hf : ∀ a, P a → c.Reads us (f a) Q) : c.Reads (ts ++ us) (x >>= f) Q := by
  have happend : c.unread? (ts ++ us) = (c.unread? ts).or (c.unread? us) := List.find?_append
  refine ⟨fun hnone => ?_, fun text htext => ?_⟩
  · rw [happend, Option.or_eq_none_iff] at hnone
    obtain ⟨a, rfl, ha⟩ := h.ok hnone.1
    exact (hf a ha).ok hnone.2
  · cases hts : c.unread? ts with
    | some unread =>
      rw [happend, hts, Option.some_or] at htext
      cases htext
      rw [h.error text hts]
      rfl
    | none =>
      rw [happend, hts, Option.none_or] at htext
      obtain ⟨a, rfl, ha⟩ := h.ok hts
      exact (hf a ha).error text htext

/-- A result is made of what was read last. -/
theorem Reads.map (h : c.Reads ts x P) {f : α → β} {Q : β → Prop} (hf : ∀ a, P a → Q (f a)) :
    c.Reads ts (x >>= fun a => pure (f a)) Q := by
  rw [← List.append_nil ts]
  exact h.bind fun a ha => reads_pure (hf a ha)

theorem reads_mapM {texts : α → List String} {f : α → Except ProgramError β} {R : α → β → Prop}
    (h : ∀ a, c.Reads (texts a) (f a) (R a)) (as : List α) :
    c.Reads (as.flatMap texts) (as.mapM f) (List.Forall₂ R as) := by
  induction as with
  | nil => exact reads_pure .nil
  | cons a as ih =>
    rw [List.flatMap_cons, List.mapM_cons]
    exact (h a).bind fun b hb => ih.map fun bs hbs => .cons hb hbs

theorem reads_type (text : String) : c.Reads [text] (c.type text) (c.Denotes text) := by
  cases ht : Ty.ofText? c.typeParameters text with
  | some t =>
    have hread : c.type text = .ok t := by rw [type, ht]
    have hnone : c.unread? [text] = none := by simp [unread?, ht]
    exact ⟨fun _ => ⟨t, hread, ht⟩, fun text' h => nomatch hnone.symm.trans h⟩
  | none =>
    have hread : c.type text = .error (.invalidType text c.qualifiedName) := by rw [type, ht]
    have hsome : c.unread? [text] = some text := by simp [unread?, ht]
    refine ⟨fun h => (nomatch hsome.symm.trans h), fun text' h => ?_⟩
    cases hsome.symm.trans h
    exact hread

theorem reads_optionalType (text : Option String) :
    c.Reads text.toList (c.optionalType text) (Option.Rel c.Denotes text) := by
  cases text with
  | none => exact reads_pure .none
  | some text =>
    rw [optionalType, map_eq_pure_bind]
    exact (reads_type text).map fun t ht => .some ht

theorem reads_field (f : FieldDescription) :
    c.Reads [f.type] (c.field f) fun o =>
      ∀ owner, c.DescribesField owner f ⟨o.name, o.type, owner, o.isStatic, o.isFinal⟩ :=
  (reads_type f.type).map fun _ ht _ => ⟨rfl, ht, rfl, rfl, rfl⟩

theorem reads_parameter (q : String × String) :
    c.Reads [q.2] (c.parameter q) fun r => r.1 = q.1 ∧ c.Denotes q.2 r.2 :=
  (reads_type q.2).map fun _ ht => ⟨rfl, ht⟩

/-- Whatever numbers the parameters get. -/
theorem describesParameter_numbered {qs : List (String × String)} {rs : List (String × Ty)}
    (h : List.Forall₂ (fun q r => r.1 = q.1 ∧ c.Denotes q.2 r.2) qs rs) (last : Nat) :
    List.Forall₂ c.DescribesParameter qs (numbered last rs) := by
  induction h generalizing last with
  | nil => exact .nil
  | cons hq _ ih => exact .cons ⟨hq.1, hq.2, rfl⟩ (ih (last + 1))

theorem reads_method (m : MethodDescription) :
    c.Reads m.typeTexts (c.method m) fun o => ∀ owner last, c.DescribesMethod owner m (o.declare owner last) := by
  have hparameters := reads_mapM (c := c) reads_parameter m.parameters
  rw [← List.map_eq_flatMap] at hparameters
  exact hparameters.bind fun rs hrs => (reads_type m.returns).map fun t ht owner last =>
    ⟨rfl, rfl, describesParameter_numbered hrs last, ht, rfl, rfl, rfl⟩

theorem describesMethod_declareAll {ms : List MethodDescription} {os : List MethodOutline} {owner : Ty}
    (h : List.Forall₂ (fun m o => ∀ owner last, c.DescribesMethod owner m (MethodOutline.declare owner last o)) ms os)
    (last : Nat) : List.Forall₂ (c.DescribesMethod owner) ms (MethodOutline.declareAll owner last os) := by
  induction h generalizing last with
  | nil => exact .nil
  | cons hm _ ih => exact .cons (hm owner last) (ih _)

/-- The outline reads all types, and in every program it makes an entry of what is described. -/
theorem reads_outline (c : ClassDescription) :
    c.Reads c.typeTexts c.outline fun o => ∀ p : Program, c.Describes (p.entry o) := by
  have hinterfaces := reads_mapM (c := c) reads_type c.interfaces
  have hfields := reads_mapM (c := c) reads_field c.fields
  rw [← List.map_eq_flatMap] at hinterfaces hfields
  rw [List.map_id'] at hinterfaces
  refine (reads_optionalType c.superclass).bind fun superclass hsuperclass =>
    hinterfaces.bind fun interfaces hinterfaces => hfields.bind fun fields hfields =>
      (reads_mapM reads_method c.methods).map fun methods hmethods p => ?_
  exact {
    name := rfl
    enclosing := rfl
    package := fun htop => (congrArg (p.packageIn · c.package) htop :)
    isInterface := rfl
    typeParameters := rfl
    superclass := hsuperclass
    interfaces := hinterfaces
    fields := List.forall₂_map_right_iff.2 (hfields.imp fun _ _ hf => hf _)
    methods := describesMethod_declareAll hmethods _ }

end ClassDescription
end AnnotationExpr
