import AnnotationExpr.Proofs.Program.Members
import AnnotationExpr.Referent

/-!
The nodes of a referent, and when each of them is as the language has it: members stand under what owns them,
with the type of the member, and calls pass as many arguments as their method takes.
-/

namespace AnnotationExpr.Referent

mutual

/-- A referent and everything inside it. -/
def nodes : Referent → List Referent
  | field receiver type f => field receiver type f :: receiver.nodes
  | element type array index => element type array index :: (array.nodes ++ index.nodes)
  | call type m receiver arguments => call type m receiver arguments :: (receiver.nodes ++ nodesAll arguments)
  | value v => [value v]
  | this type => [this type]
  | className type => [className type]
  | var v => [var v]
  | unknown type => [unknown type]

def nodesAll : List Referent → List Referent
  | [] => []
  | r :: rs => r.nodes ++ nodesAll rs

end

theorem mem_nodesAll {n : Referent} : ∀ {rs : List Referent}, n ∈ nodesAll rs ↔ ∃ r ∈ rs, n ∈ r.nodes
  | [] => by simp [nodesAll]
  | r :: rs => by simp [nodesAll, @mem_nodesAll n rs]

/-- A class under the name of the class `owner`; their type arguments may differ. -/
def NamesClass (owner : Ty) (r : Referent) : Prop :=
  ∃ name as bs, r = className (.declared name as) ∧ owner = .declared name bs

/-- The place of a member that `owner` declares. -/
def Roots (isStatic : Bool) (owner : Ty) (r : Referent) : Prop :=
  if isStatic then r.NamesClass owner else r.isClassName = false

/-- The condition on a single node. -/
def Proper : Referent → Prop
  | field receiver type f => receiver.Roots f.isStatic f.owner ∧ type = f.type
  | element type array _ => array.type? = some (.array type)
  | call _ m receiver arguments =>
    receiver.Roots m.isStatic m.owner ∧ m.kind = .method ∧ m.Accepts arguments.length
  | _ => True

def WellFormed (r : Referent) : Prop := ∀ n ∈ r.nodes, n.Proper

theorem wellFormed_value (v : Value) : (value v).WellFormed := by simp [WellFormed, nodes, Proper]

theorem wellFormed_this (type : Option Ty) : (this type).WellFormed := by simp [WellFormed, nodes, Proper]

end AnnotationExpr.Referent
