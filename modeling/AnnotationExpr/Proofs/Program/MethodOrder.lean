import AnnotationExpr.Proofs.Program.Alike
import AnnotationExpr.Proofs.Program.Choice
import Mathlib.Data.List.Perm.Basic

/-!
Methods in another order. Where the methods of a name in one class are told apart by their erased parameters, the
candidates on a type are the same up to order, and the choice among them does not look at the order.
-/

namespace AnnotationExpr

/-- The class with its methods in any order. -/
def ClassEntry.Reordered (e e' : ClassEntry) : Prop := ∃ methods, methods.Perm e.methods ∧ e' = { e with methods }

namespace Program

/-- The programs have the same classes, one after the other, but for the order of methods in each. -/
def Reordered (p q : Program) : Prop := List.Forall₂ ClassEntry.Reordered p.classes q.classes

/-- In each class from which the type has methods, those of the name differ in their erased parameters, as seen from
the type. -/
def Distinguishes (p : Program) (type : Ty) (name : String) : Prop :=
  ∀ d ∈ methodClass? type, ∀ t ∈ p.hierarchy d, ((p.declaredCandidates name t).map Candidate.erased).Nodup

/-! Candidates in another order. -/

/-- Candidates that differ among themselves are kept unless one that was there before has the same parameters. -/
theorem foldl_addCandidate_of_nodup {cs start : List Candidate} (h : (cs.map Candidate.erased).Nodup) :
    cs.foldl addCandidate start = start ++ cs.filter fun c => !start.any (·.erased = c.erased) := by
  induction cs generalizing start with
  | nil => simp
  | cons x cs ih =>
    obtain ⟨hx, hcs⟩ := List.nodup_cons.1 h
    rw [List.foldl_cons, ih hcs, addCandidate]
    split
    next hany => simp [hany]
    next hany =>
      have hsame : ∀ c ∈ cs, (!(start ++ [x]).any (·.erased = c.erased)) = !start.any (·.erased = c.erased) := by
        intro c hc
        have hne : x.erased ≠ c.erased := fun heq => hx (heq ▸ List.mem_map_of_mem hc)
        simp [hne]
      rw [List.filter_congr hsame, List.filter_cons_of_pos (by simpa using hany), List.append_assoc]
      rfl

theorem perm_foldl_addCandidate {cs cs' start start' : List Candidate} (hcs : cs.Perm cs')
    (hnodup : (cs.map Candidate.erased).Nodup) (hstart : start.Perm start') :
    (cs.foldl addCandidate start).Perm (cs'.foldl addCandidate start') := by
  have hnodup' : (cs'.map Candidate.erased).Nodup := (hcs.map _).nodup_iff.1 hnodup
  have hany : (fun c : Candidate => !start.any (·.erased = c.erased)) = fun c => !start'.any (·.erased = c.erased) :=
    funext fun c => by rw [hstart.any_eq]
  rw [foldl_addCandidate_of_nodup hnodup, foldl_addCandidate_of_nodup hnodup', hany]
  exact hstart.append (hcs.filter _)

/-- Class after class, where each offers the same candidates in both orders. -/
theorem perm_foldl_flatMap {α : Type} {f g : α → List Candidate} {ts : List α} {start start' : List Candidate}
    (h : ∀ t ∈ ts, (f t).Perm (g t) ∧ ((f t).map Candidate.erased).Nodup) (hstart : start.Perm start') :
    ((ts.flatMap f).foldl addCandidate start).Perm ((ts.flatMap g).foldl addCandidate start') := by
  induction ts generalizing start start' with
  | nil => exact hstart
  | cons t ts ih =>
    obtain ⟨⟨hperm, hnodup⟩, hts⟩ := List.forall_mem_cons.1 h
    rw [List.flatMap_cons, List.flatMap_cons, List.foldl_append, List.foldl_append]
    exact ih hts (perm_foldl_addCandidate hperm hnodup hstart)

theorem mostSpecific_perm {p : Program} {cs cs' : List Candidate} (h : cs.Perm cs') :
    (p.mostSpecific cs).Perm (p.mostSpecific cs') := by
  have hall : (fun c : Candidate => cs.all (p.isMoreSpecific c)) = fun c => cs'.all (p.isMoreSpecific c) :=
    funext fun c => h.all_eq
  rw [mostSpecific, mostSpecific, hall]
  exact h.filter _

theorem choose_perm {p : Program} {cs cs' : List Candidate} (h : cs.Perm cs') (name : String) (actuals : List Ty)
    (phases : List Phase) : p.choose name actuals cs phases = p.choose name actuals cs' phases := by
  induction phases with
  | nil => rfl
  | cons phase phases ih =>
    have happly := h.filter (p.applies phase actuals)
    have hbest := mostSpecific_perm (p := p) happly
    rw [choose, choose]
    cases hl : cs.filter (p.applies phase actuals) with
    | nil =>
      rw [hl] at happly
      rw [List.nil_perm.1 happly]
      exact ih
    | cons c cs₁ =>
      cases hr : cs'.filter (p.applies phase actuals) with
      | nil => exact absurd (hl.symm.trans (List.perm_nil.1 (hr ▸ happly))) (List.cons_ne_nil c cs₁)
      | cons c' cs₂ =>
        rw [hl, hr] at happly hbest
        dsimp only
        split
        next best hone =>
          rw [hone] at hbest
          rw [← List.singleton_perm.1 hbest]
        next hmany =>
          split
          next best hone => exact absurd (List.perm_singleton.1 (hone ▸ hbest)) (hmany best)
          next => rw [happly.length_eq]

/-! Programs with their methods in another order. -/

variable {p q : Program} (h : p.Reordered q)

include h

theorem Reordered.class? (name : String) : p.class? name = none ∧ q.class? name = none ∨
    ∃ e methods, p.class? name = some e ∧ methods.Perm e.methods ∧ q.class? name = some { e with methods } := by
  unfold Reordered at h
  unfold Program.class?
  generalize p.classes = es, q.classes = es' at h
  induction h with
  | nil => exact .inl ⟨rfl, rfl⟩
  | @cons e e' es es' he _ ih =>
    obtain ⟨methods, hperm, rfl⟩ := he
    by_cases hname : e.qualifiedName = name
    · have hname' : { e with methods }.qualifiedName = name := hname
      exact .inr ⟨e, methods, List.find?_cons_of_pos (by simpa using hname), hperm,
        List.find?_cons_of_pos (by simpa using hname')⟩
    · have hname' : { e with methods }.qualifiedName ≠ name := hname
      rw [List.find?_cons_of_neg (by simpa using hname), List.find?_cons_of_neg (by simpa using hname')]
      exact ih

theorem Reordered.alike : p.Alike q := by
  intro name
  rcases h.class? name with hnone | ⟨e, methods, hp, -, hq⟩
  · exact .inl hnone
  · exact .inr ⟨e, methods, hp, hq⟩

theorem Reordered.declaredCandidates_perm (name : String) (t : ClassType) :
    (p.declaredCandidates name t).Perm (q.declaredCandidates name t) := by
  unfold declaredCandidates
  rcases h.class? t.name with ⟨hp, hq⟩ | ⟨e, methods, hp, hperm, hq⟩
  · rw [hp, hq]
  · rw [hp, hq, h.alike.bindingsOf]
    exact (hperm.symm.filter _).map _

theorem Reordered.candidates_perm {type : Ty} {name : String} (hd : p.Distinguishes type name) :
    (p.candidates type name).Perm (q.candidates type name) := by
  rw [candidates_eq_foldl, candidates_eq_foldl, allCandidates, allCandidates, List.foldl_append, List.foldl_append,
    h.alike.hierarchy]
  cases htype : methodClass? type with
  | none => exact .refl _
  | some d =>
    rw [Option.toList_some, List.flatMap_singleton, List.flatMap_singleton]
    exact perm_foldl_flatMap (fun t ht => ⟨h.declaredCandidates_perm name t, hd d htype t ht⟩) (.refl _)

/-- The order of methods in the classes changes nothing about the choice among overloads that their erased parameters
tell apart. -/
theorem Reordered.findMethod_eq {type : Ty} {name : String} (hd : p.Distinguishes type name) (actuals : List Ty) :
    q.findMethod name type actuals = p.findMethod name type actuals := by
  rw [findMethod, findMethod, h.alike.choose, choose_perm (h.candidates_perm hd)]

omit h

/-- Printers print a variable number of integers and, as all printers above them do, a long or two numbers in either
order of their types. -/
def printers : Program :=
  let long : Ty := .primitive .long
  (initial.build "demo" none "Base" [
    .method (instanceMethod "print" [("value", long)] .void),
    .method (instanceMethod "print" [("left", .int), ("right", long)] .void),
    .method (instanceMethod "print" [("left", long), ("right", .int)] .void)]).build "demo" none "Printer" [
      .superclass (.declared "demo.Base" []),
      .method (.method "print" [("values", .array .int)] .void false true),
      .method (instanceMethod "print" [("text", .string)] .void)]

def printersBackwards : Program :=
  { printers with classes := printers.classes.map fun e => { e with methods := e.methods.reverse } }

theorem reordered_printersBackwards : printers.Reordered printersBackwards :=
  List.forall₂_map_right_iff.2 (List.forall₂_same.2 fun e _ => ⟨e.methods.reverse, e.methods.reverse_perm, rfl⟩)

theorem distinguishes_printers : printers.Distinguishes (.declared "demo.Printer" []) "print" := by
  intro d hd
  cases hd
  decide +kernel

/-- One number is printed as a long, and two are printed in two ways. -/
theorem findMethod_eq_printersBackwards :
    let printer : Ty := .declared "demo.Printer" []
    printersBackwards ≠ printers ∧ printers.Reordered printersBackwards ∧ printers.Distinguishes printer "print" ∧
      (printersBackwards.findMethod "print" printer [.int]).toOption.map (·.map (·.parameterTypes)) =
        some (some [.primitive .long]) ∧
      printersBackwards.findMethod "print" printer [.int, .int] = .error (ambiguous "print" 2) := by
  intro printer
  have hsame := reordered_printersBackwards.findMethod_eq distinguishes_printers
  refine ⟨by decide +kernel, reordered_printersBackwards, distinguishes_printers, ?_, ?_⟩
  · rw [hsame]
    decide +kernel
  · rw [hsame]
    decide +kernel

end Program
end AnnotationExpr
