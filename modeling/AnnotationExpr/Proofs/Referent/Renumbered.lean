import AnnotationExpr.Context
import Mathlib.Logic.Equiv.Defs
import Mathlib.Algebra.Group.End

/-!
Other numbers for the same variables. A renumbering changes the numbers that tell declarations apart, wherever
variables occur, and nothing else.
-/

namespace AnnotationExpr

def Variable.renumber (ρ : Equiv.Perm Nat) (v : Variable) : Variable := { v with id := ρ v.id }

def Method.renumber (ρ : Equiv.Perm Nat) (m : Method) : Method :=
  { m with parameters := m.parameters.map (·.renumber ρ) }

def Named.renumber (ρ : Equiv.Perm Nat) : Named → Named
  | var v => var (v.renumber ρ)
  | field f => field f

mutual

def Referent.renumber (ρ : Equiv.Perm Nat) : Referent → Referent
  | .var v => .var (v.renumber ρ)
  | .field receiver type f => .field (receiver.renumber ρ) type f
  | .element type array index => .element type (array.renumber ρ) (index.renumber ρ)
  | .call type m receiver arguments =>
    .call type (m.renumber ρ) (receiver.renumber ρ) (Referent.renumberAll ρ arguments)
  | .value v => .value v
  | .this type => .this type
  | .className type => .className type
  | .unknown type => .unknown type

def Referent.renumberAll (ρ : Equiv.Perm Nat) : List Referent → List Referent
  | [] => []
  | r :: rs => r.renumber ρ :: Referent.renumberAll ρ rs

end

def Context.renumber (ρ : Equiv.Perm Nat) (c : Context) : Context :=
  { c with
    receiver := c.receiver.map (·.renumber ρ)
    outer := c.outer.map (·.renumber ρ)
    arguments := c.arguments.map (·.map (·.renumber ρ)) }

variable (ρ τ : Equiv.Perm Nat)

theorem Variable.renumber_of_fixed {v : Variable} (h : ρ v.id = v.id) : v.renumber ρ = v := by
  rw [renumber, h]

namespace Method

theorem renumber_of_fixed {m : Method} (h : ∀ v ∈ m.parameters, ρ v.id = v.id) : m.renumber ρ = m := by
  have hmap : m.parameters.map (·.renumber ρ) = m.parameters :=
    (List.map_congr_left fun v hv => Variable.renumber_of_fixed ρ (h v hv)).trans (List.map_id _)
  rw [renumber, hmap]

theorem renumber_renumber (m : Method) : (m.renumber ρ).renumber τ = m.renumber (τ * ρ) := by
  simp only [renumber, List.map_map]
  rfl

theorem renumber_symm (m : Method) : (m.renumber ρ).renumber ρ.symm = m := by
  rw [renumber_renumber]
  exact renumber_of_fixed _ fun v _ => ρ.symm_apply_apply v.id

variable (m : Method)

@[simp] theorem isMethod_renumber : (m.renumber ρ).isMethod = m.isMethod := rfl

@[simp] theorem parameterTypes_renumber : (m.renumber ρ).parameterTypes = m.parameterTypes := by
  simp only [parameterTypes, renumber, List.map_map]
  rfl

@[simp] theorem parameterNames_renumber : (m.renumber ρ).parameterNames = m.parameterNames := by
  simp only [parameterNames, renumber, List.map_map]
  rfl

end Method

namespace Referent

theorem renumberAll_eq_map (rs : List Referent) : renumberAll ρ rs = rs.map (·.renumber ρ) := by
  induction rs with
  | nil => rfl
  | cons r rs ih => rw [renumberAll, ih, List.map_cons]

@[simp] theorem type?_renumber (r : Referent) : (r.renumber ρ).type? = r.type? := by
  cases r <;> rfl

@[simp] theorem isClassName_renumber (r : Referent) : (r.renumber ρ).isClassName = r.isClassName := by
  cases r <;> rfl

@[simp] theorem isThis_renumber (r : Referent) : (r.renumber ρ).isThis = r.isThis := by
  cases r <;> rfl

mutual

@[simp] theorem hasUnknown_renumber (r : Referent) : (r.renumber ρ).hasUnknown = r.hasUnknown := by
  cases r with
  | field receiver type f => exact hasUnknown_renumber receiver
  | element type array index => simp only [renumber, hasUnknown, hasUnknown_renumber array, hasUnknown_renumber index]
  | call type m receiver arguments =>
    simp only [renumber, hasUnknown, hasUnknown_renumber receiver, anyUnknown_renumberAll arguments]
  | _ => rfl

theorem anyUnknown_renumberAll (rs : List Referent) : anyUnknown (renumberAll ρ rs) = anyUnknown rs := by
  cases rs with
  | nil => rfl
  | cons r rs => simp only [renumberAll, anyUnknown, hasUnknown_renumber r, anyUnknown_renumberAll rs]

end

mutual

@[simp] theorem text_renumber (r : Referent) : (r.renumber ρ).text = r.text := by
  cases r with
  | field receiver type f => simp only [renumber, text, text_renumber receiver]
  | element type array index => simp only [renumber, text, text_renumber array, text_renumber index]
  | call type m receiver arguments =>
    simp only [renumber, text, text_renumber receiver, texts_renumberAll arguments]
    rfl
  | _ => rfl

theorem texts_renumberAll (rs : List Referent) : texts (renumberAll ρ rs) = texts rs := by
  cases rs with
  | nil => rfl
  | cons r rs => simp only [renumberAll, texts, text_renumber r, texts_renumberAll rs]

end

end Referent

namespace Context

variable (c : Context)

@[simp] theorem receiverType?_renumber : (c.renumber ρ).receiverType? = c.receiverType? := by
  simp only [receiverType?, renumber, Option.bind_map, Function.comp_def, Referent.type?_renumber]

theorem inMember_renumber : (c.renumber ρ).inMember = c.inMember := rfl

theorem localScope_renumber : (c.renumber ρ).localScope = c.localScope := rfl

theorem toOuter_renumber : (c.renumber ρ).toOuter = c.toOuter.renumber ρ := rfl

theorem argument_renumber (index : Nat) :
    (c.renumber ρ).argument index = (·.renumber ρ) <$> c.argument index := by
  unfold argument
  by_cases h : index = 0
  · rw [if_pos h, if_pos h]
    rfl
  · rw [if_neg h, if_neg h]
    cases harguments : c.arguments with
    | none => simp [renumber, harguments]
    | some rs =>
      simp only [renumber, harguments, Option.map_some, List.getElem?_map, List.length_map]
      cases rs[index - 1]? <;> rfl

theorem methodDeclaration_renumber (m : Method) (enclosing : Ty) :
    methodDeclaration (m.renumber ρ) enclosing = (methodDeclaration m enclosing).renumber ρ := by
  have hreceiver : (Referent.implicit enclosing m.isStatic).renumber ρ = .implicit enclosing m.isStatic := by
    cases m.isStatic <;> rfl
  have harguments : (m.renumber ρ).parameters.map Referent.var =
      (m.parameters.map Referent.var).map (·.renumber ρ) := by
    simp only [Method.renumber, List.map_map]
    rfl
  simp only [methodDeclaration, new, renumber, Option.map_some, hreceiver, harguments]
  rfl

end Context

end AnnotationExpr
