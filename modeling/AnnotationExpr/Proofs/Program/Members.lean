import AnnotationExpr.Program.Service
import AnnotationExpr.Proofs.Program.Built
import Mathlib.Data.List.Basic

/-!
Where the fields and methods that a program answers with come from: a class that is declared in it, or the
array type itself.
-/

namespace AnnotationExpr

/-- The method can be called with this many arguments. -/
def Method.Accepts (m : Method) (n : Nat) : Prop :=
  n = m.parameters.length ∨ m.isVariadic = true ∧ m.parameters.length ≤ n + 1

namespace Program

variable {p : Program}

theorem mem_of_class? {name : String} {e : ClassEntry} (h : p.class? name = some e) : e ∈ p.classes :=
  List.mem_of_find?_eq_some h

theorem inheritedField?_eq_some {d : ClassType} {name : String} {f : Field}
    (h : p.inheritedField? d name = some f) :
    ∃ t ∈ p.hierarchy d, ∃ e, p.class? t.name = some e ∧
      ∃ g ∈ e.fields, g.name = name ∧ f = { g with type := g.type.substitute (p.bindingsOf t) } := by
  obtain ⟨t, ht, h⟩ := List.exists_of_findSome?_eq_some h
  obtain ⟨e, he, h⟩ := Option.bind_eq_some_iff.1 h
  obtain ⟨g, hg, rfl⟩ := Option.map_eq_some_iff.1 h
  exact ⟨t, ht, e, he, g, List.mem_of_find?_eq_some hg, by simpa using List.find?_some hg, rfl⟩

/-- The candidate's method is no constructor and has the candidate's parameters. -/
structure Candidate.Faithful (c : Candidate) : Prop where
  isMethod : c.method.isMethod = true
  length : c.formals.length = c.method.parameters.length

/-- The class offers the candidate: it declares the method under this name, and the parameters are as the class type
has them. -/
structure Offers (p : Program) (name : String) (d : ClassType) (c : Candidate) : Prop where
  declared : ∃ e ∈ p.class? d.name, c.method ∈ e.methods
  name : c.method.name = name
  isMethod : c.method.isMethod = true
  formals : c.formals = c.method.parameterTypes.map (Ty.substitute (p.bindingsOf d))

theorem Offers.faithful {name : String} {d : ClassType} {c : Candidate} (h : p.Offers name d c) : c.Faithful :=
  ⟨h.isMethod, by simp [h.formals, Method.parameterTypes]⟩

theorem mem_declaredCandidates {name : String} {d : ClassType} {c : Candidate} :
    c ∈ p.declaredCandidates name d ↔ p.Offers name d c := by
  unfold declaredCandidates
  constructor
  · intro h
    split at h
    · cases h
    next e he =>
      obtain ⟨m, hm, rfl⟩ := List.mem_map.1 h
      obtain ⟨hm, hn⟩ := List.mem_filter.1 hm
      obtain ⟨hn, hk⟩ : m.name = name ∧ m.isMethod = true := by simpa using hn
      exact ⟨⟨e, he, hm⟩, hn, hk, rfl⟩
  · rintro ⟨⟨e, he, hm⟩, hn, hk, hf⟩
    rw [show p.class? d.name = some e from he]
    refine List.mem_map.2 ⟨c.method, List.mem_filter.2 ⟨hm, by simp [hn, hk]⟩, ?_⟩
    rw [← hf]

/-- A class in the hierarchy declares the method. -/
def HasMethod (p : Program) (d : ClassType) (m : Method) : Prop :=
  ∃ t ∈ p.hierarchy d, ∃ e, p.class? t.name = some e ∧ m ∈ e.methods

/-- The class from which the methods of a type come. -/
def methodClass? : Ty → Option ClassType
  | .declared n as => some ⟨n, as⟩
  | .array _ | .var _ => some .object
  | _ => none

theorem valueOf?_eq_some {boxed : Ty} {m : Method} (h : p.valueOf? boxed = some m) :
    m.isStatic = true ∧ m.parameters.length = 1 ∧
      ∃ name as e, boxed = .declared name as ∧ p.class? name = some e ∧ m ∈ e.methods := by
  unfold valueOf? at h
  obtain ⟨primitive, -, h⟩ := Option.bind_eq_some_iff.1 h
  obtain ⟨e, hclass, hm⟩ := Option.bind_eq_some_iff.1 h
  obtain ⟨d, hd, he⟩ := Option.bind_eq_some_iff.1 hclass
  obtain ⟨⟨-, hs⟩, ht⟩ : (m.name = "valueOf" ∧ m.isStatic = true) ∧ m.parameterTypes = [.primitive primitive] := by
    simpa using List.find?_some hm
  refine ⟨hs, by simpa [Method.parameterTypes] using congrArg List.length ht, ?_⟩
  cases boxed with
  | declared name as => cases hd; exact ⟨name, as, e, rfl, he, List.mem_of_find?_eq_some hm⟩
  | _ => cases hd

end Program
end AnnotationExpr
