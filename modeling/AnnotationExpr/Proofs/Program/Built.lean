import AnnotationExpr.Program.Builder
import AnnotationExpr.Program.Builtin
import AnnotationExpr.Program.Loading
import AnnotationExpr.Proofs.Outcome
import AnnotationExpr.Proofs.Program.ScopeTree

/-!
The programs that can come about: from the initial one by declaring classes, imports, scopes and variables.
In all of them a class owns its members, only methods are static, and the scopes are a tree; loading a description
and entering a class give such programs.
-/

namespace AnnotationExpr

/-- Each member belongs to the class with this name, and no constructor is static. -/
structure ClassEntry.OwnsMembers (e : ClassEntry) : Prop where
  field : ∀ f ∈ e.fields, ∃ as, f.owner = .declared e.qualifiedName as
  method : ∀ m ∈ e.methods, ∃ as, m.owner = .declared e.qualifiedName as
  isMethod : ∀ m ∈ e.methods, m.isStatic = true → m.isMethod = true

theorem MethodOutline.owner_declare (m : MethodOutline) (owner : Ty) (last : Nat) :
    (m.declare owner last).owner = owner := by
  cases m <;> rfl

theorem MethodOutline.isMethod_declare (m : MethodOutline) (owner : Ty) (last : Nat)
    (h : (m.declare owner last).isStatic = true) : (m.declare owner last).isMethod = true := by
  cases m with
  | method => rfl
  | constructor => simp [declare] at h

/-- A part changes neither the name nor the owner of the members before it. -/
theorem ClassDraft.ownsMembers_add {d : ClassDraft} (h : d.entry.OwnsMembers) (part : ClassPart) :
    (d.add part).entry.OwnsMembers := by
  obtain ⟨hf, hm, hs⟩ := h
  cases part with
  | typeParameters names => exact ⟨hf, hm, hs⟩
  | interface => exact ⟨hf, hm, hs⟩
  | superclass type => exact ⟨hf, hm, hs⟩
  | implemented type => exact ⟨hf, hm, hs⟩
  | field f =>
    refine ⟨fun g hg => ?_, hm, hs⟩
    rcases List.mem_append.1 hg with hg | hg
    · exact hf g hg
    · rw [List.mem_singleton.1 hg]; exact ⟨_, rfl⟩
  | method m =>
    refine ⟨hf, fun n hn => ?_, fun n hn => ?_⟩ <;> rcases List.mem_append.1 hn with hn | hn
    · exact hm n hn
    · rw [List.mem_singleton.1 hn, m.owner_declare]; exact ⟨_, rfl⟩
    · exact hs n hn
    · rw [List.mem_singleton.1 hn]; exact m.isMethod_declare _ _

namespace Program

/-- A new scope is put into one that exists: the way outwards from a scope that is around itself would have no end. A
local variable takes a number and is then declared. -/
inductive Built : Program → Prop where
  | initial : Built initial
  | build {p : Program} (h : Built p) (package : String) (enclosing : Option String) (name : String)
      (parts : List ClassPart) : Built (p.build package enclosing name parts)
  /-- The numbers of a class whose declaration is given up stay taken. -/
  | skipIds {p : Program} (h : Built p) (n : Nat) : Built (p.skipIds n)
  | addImport {p : Program} (h : Built p) (name : String) : Built (p.addImport name)
  /-- The body of a class or of a method, or a block. -/
  | push {p : Program} (h : Built p) {parent : Nat} (hparent : parent < p.scopes.length) (kind : Scope.Kind)
      (declared : List Variable) : Built (p.push parent kind declared).1
  | declareVariable {p : Program} (h : Built p) (scope : Nat) (v : Variable) : Built (p.declareVariable scope v)

def OwnsMembers (p : Program) : Prop := ∀ e ∈ p.classes, e.OwnsMembers

theorem ownsMembers_build {p : Program} (h : p.OwnsMembers) (package : String) (enclosing : Option String)
    (name : String) (parts : List ClassPart) : (p.build package enclosing name parts).OwnsMembers := by
  have hdraft : (parts.foldl ClassDraft.add (p.draft package enclosing name)).entry.OwnsMembers :=
    List.foldlRecOn (motive := fun d : ClassDraft => d.entry.OwnsMembers) parts ClassDraft.add
      ⟨by simp [draft], by simp [draft], by simp [draft]⟩ fun _ hd part _ => ClassDraft.ownsMembers_add hd part
  intro e he
  rcases List.mem_cons.1 he with rfl | he
  · exact hdraft
  · exact h e he

theorem ownsMembers_declare {p : Program} (h : p.OwnsMembers) (o : ClassOutline) :
    (p.declare o).OwnsMembers := by
  rw [declare_eq_build]
  exact ownsMembers_build h _ _ _ _

theorem Built.ownsMembers {p : Program} (h : p.Built) : p.OwnsMembers := by
  induction h with
  | initial =>
    exact List.foldlRecOn (motive := OwnsMembers) builtins declare (fun _ h => (List.not_mem_nil h).elim)
      fun _ hp o _ => ownsMembers_declare hp o
  | build _ package enclosing name parts ih => exact ownsMembers_build ih _ _ _ _
  | skipIds _ _ ih => exact ih
  | addImport _ _ ih => exact ih
  | push _ _ _ _ ih => exact ih
  | declareVariable _ _ _ ih => exact ih

theorem Built.scopeTree {p : Program} (h : p.Built) : p.ScopeTree := by
  induction h with
  | initial => exact scopeTree_initial
  | build _ _ _ _ _ ih => exact ih.of_scopes rfl
  | skipIds _ _ ih => exact ih.of_scopes rfl
  | addImport _ _ ih => exact ih.of_scopes rfl
  | push _ hparent kind declared ih => exact ih.push hparent kind declared
  | declareVariable _ scope v ih => exact ih.declareVariable scope v

theorem Built.declare {p : Program} (h : p.Built) (o : ClassOutline) : (p.declare o).Built := by
  rw [declare_eq_build]
  exact h.build ..

theorem Built.declareLocal {p : Program} (h : p.Built) (scope : Nat) (name : String) (type : Ty) :
    (p.declareLocal scope name type).1.Built :=
  (h.skipIds 1).declareVariable scope _

theorem Built.withImports {p : Program} (h : p.Built) (names : List String) :
    Built { p with imports := p.imports ++ names } := by
  induction names generalizing p with
  | nil => simpa using h
  | cons name names ih => simpa [Program.addImport] using ih (h.addImport name)

theorem addClass_eq_ok {p q : Program} {c : ClassDescription} :
    p.addClass c = .ok q ↔
      ∃ o, c.outline = .ok o ∧ (∀ outer ∈ c.enclosing, (p.class? outer).isSome) ∧ q = p.declare o := by
  unfold addClass
  rw [bind_eq_ok]
  refine exists_congr fun o => and_congr_right fun _ => ?_
  cases c.enclosing with
  | none => simpa [pure_eq_ok] using Eq.comm
  | some outer =>
    cases hclass : p.class? outer with
    | none => simp [hclass]
    | some e => simpa [hclass, pure_eq_ok] using Eq.comm

theorem Built.load {d : Description} {p : Program} (h : load d = .ok p) : p.Built :=
  foldlM_keeps (P := Built) (fun _ _ _ hp h => by obtain ⟨o, -, -, rfl⟩ := addClass_eq_ok.1 h; exact hp.declare o)
    (Built.initial.withImports d.imports) h

theorem Built.snd_pushClasses_lt {p : Program} (h : p.Built) (names : List String) :
    (p.pushClasses names).2 < (p.pushClasses names).1.scopes.length := by
  cases names with
  | nil => exact h.scopeTree.length_pos
  | cons name names => exact snd_push_lt _ _ _ _

theorem Built.pushClasses {p : Program} (h : p.Built) (names : List String) : (p.pushClasses names).1.Built := by
  induction names with
  | nil => exact h
  | cons name names ih => exact ih.push (h.snd_pushClasses_lt names) _ _

theorem Built.enter {p : Program} (h : p.Built) (className : String) (method : Option String) :
    (p.enter className method).1.Built := by
  unfold Program.enter
  split
  · exact h
  · have hpushed := h.pushClasses (className :: p.outerNames className)
    have hlt := h.snd_pushClasses_lt (className :: p.outerNames className)
    cases method with
    | none => exact hpushed
    | some name =>
      dsimp only
      split
      · exact hpushed
      · exact hpushed.push hlt _ _

end Program
end AnnotationExpr
