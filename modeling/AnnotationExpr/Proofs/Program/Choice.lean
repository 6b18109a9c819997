import AnnotationExpr.Proofs.Program.Members
import AnnotationExpr.Proofs.Program.Hierarchy
import Mathlib.Data.List.Nodup

/-!
The choice among overloads. The candidates on a type are the methods that its classes declare, less those for which
an earlier one has the same erased parameters; no two candidates have the same. The choice is the one candidate, of
those that apply in the first phase in which some do, that is more specific than all of these.
-/

namespace AnnotationExpr.Program

variable {p : Program}

/-! Candidates, one after the other. -/

theorem mem_addCandidate {found : List Candidate} {c d : Candidate} :
    d ∈ addCandidate found c ↔ d ∈ found ∨ d = c ∧ ∀ e ∈ found, e.erased ≠ c.erased := by
  unfold addCandidate
  split
  next h =>
    obtain ⟨e, he, hec⟩ : ∃ e ∈ found, e.erased = c.erased := by simpa using h
    exact ⟨.inl, fun h => h.resolve_right fun ⟨_, hall⟩ => hall e he hec⟩
  next h =>
    have hall : ∀ e ∈ found, e.erased ≠ c.erased := by simpa using h
    rw [List.mem_append, List.mem_singleton]
    exact or_congr_right ⟨fun h => ⟨h, hall⟩, And.left⟩

/-- Once a candidate was added, there is one with its erased parameters. -/
theorem exists_erased_addCandidate (found : List Candidate) (c : Candidate) :
    ∃ d ∈ addCandidate found c, d.erased = c.erased := by
  by_cases h : ∃ d ∈ found, d.erased = c.erased
  · obtain ⟨d, hd, hdc⟩ := h
    exact ⟨d, mem_addCandidate.2 (.inl hd), hdc⟩
  · exact ⟨c, mem_addCandidate.2 (.inr ⟨rfl, fun e he hec => h ⟨e, he, hec⟩⟩), rfl⟩

/-- The candidate stands in the list before all others with its erased parameters. -/
def Candidate.FirstIn (c : Candidate) (cs : List Candidate) : Prop :=
  ∃ before after, cs = before ++ c :: after ∧ ∀ d ∈ before, d.erased ≠ c.erased

theorem Candidate.FirstIn.of_append {c : Candidate} {as bs : List Candidate} (h : c.FirstIn (as ++ bs)) :
    c.FirstIn as ∨ c.FirstIn bs ∧ ∀ d ∈ as, d.erased ≠ c.erased := by
  obtain ⟨before, after, hsplit, hbefore⟩ := h
  rcases List.append_eq_append_iff.1 hsplit with ⟨middle, rfl, hbs⟩ | ⟨middle, rfl, hafter⟩
  · obtain ⟨has, hmiddle⟩ := List.forall_mem_append.1 hbefore
    exact .inr ⟨⟨middle, after, hbs, hmiddle⟩, has⟩
  · cases middle with
    | nil => exact .inr ⟨⟨[], after, hafter.symm, by simp⟩, by simpa using hbefore⟩
    | cons x middle =>
      cases hafter
      exact .inl ⟨before, middle, rfl, hbefore⟩

theorem Candidate.FirstIn.of_flatMap {α : Type} {f : α → List Candidate} {c : Candidate} {ts : List α}
    (h : c.FirstIn (ts.flatMap f)) :
    ∃ before t after, ts = before ++ t :: after ∧ c ∈ f t ∧ ∀ u ∈ before, ∀ d ∈ f u, d.erased ≠ c.erased := by
  induction ts with
  | nil => obtain ⟨before, after, hsplit, -⟩ := h; simp at hsplit
  | cons t ts ih =>
    rcases h.of_append with ⟨before, after, hsplit, -⟩ | ⟨hts, ht⟩
    · exact ⟨[], t, ts, rfl, by simp [hsplit], by simp⟩
    · obtain ⟨before, u, after, rfl, hu, hbefore⟩ := ih hts
      exact ⟨t :: before, u, after, rfl, hu, List.forall_mem_cons.2 ⟨ht, hbefore⟩⟩

theorem mem_foldl_addCandidate_iff {c : Candidate} {cs start : List Candidate} :
    c ∈ cs.foldl addCandidate start ↔ c ∈ start ∨ c.FirstIn cs ∧ ∀ d ∈ start, d.erased ≠ c.erased := by
  induction cs generalizing start with
  | nil => simp [Candidate.FirstIn]
  | cons x cs ih =>
    rw [List.foldl_cons, ih, mem_addCandidate, or_assoc]
    refine or_congr_right ⟨?_, ?_⟩
    · rintro (⟨rfl, hstart⟩ | ⟨⟨before, after, rfl, hbefore⟩, hadded⟩)
      · exact ⟨⟨[], cs, rfl, by simp⟩, hstart⟩
      · obtain ⟨y, hy, hyx⟩ := exists_erased_addCandidate start x
        refine ⟨⟨x :: before, after, rfl, ?_⟩, fun d hd => hadded d (mem_addCandidate.2 (.inl hd))⟩
        exact List.forall_mem_cons.2 ⟨hyx ▸ hadded y hy, hbefore⟩
    · rintro ⟨⟨before, after, hsplit, hbefore⟩, hstart⟩
      cases before with
      | nil =>
        cases hsplit
        exact .inl ⟨rfl, hstart⟩
      | cons y before =>
        cases hsplit
        obtain ⟨hx, hbefore⟩ := List.forall_mem_cons.1 hbefore
        refine .inr ⟨⟨before, after, rfl, hbefore⟩, fun d hd => ?_⟩
        rcases mem_addCandidate.1 hd with hd | ⟨rfl, -⟩
        · exact hstart d hd
        · exact hx

theorem nodup_erased_addCandidate {found : List Candidate} {c : Candidate} (h : (found.map Candidate.erased).Nodup) :
    ((addCandidate found c).map Candidate.erased).Nodup := by
  unfold addCandidate
  split
  · exact h
  next hc =>
    have hall : ∀ e ∈ found, e.erased ≠ c.erased := by simpa using hc
    have hnot : c.erased ∉ found.map Candidate.erased := fun hmem => by
      obtain ⟨e, he, hec⟩ := List.mem_map.1 hmem
      exact hall e he hec
    rw [List.map_append, List.map_singleton]
    exact List.Nodup.append h (List.nodup_singleton _) (List.disjoint_singleton.2 hnot)

/-! The candidates on a type. -/

/-- The methods of a name on a type, nearest first: the copy of an array, and what the classes of the hierarchy
declare. -/
def allCandidates (p : Program) (type : Ty) (name : String) : List Candidate :=
  (if type.isArray ∧ name = "clone" then [⟨cloneOf type, []⟩] else []) ++
    (methodClass? type).toList.flatMap fun d => (p.hierarchy d).flatMap (p.declaredCandidates name)

theorem candidates_eq_foldl (type : Ty) (name : String) :
    p.candidates type name = (p.allCandidates type name).foldl addCandidate [] := by
  unfold candidates allCandidates
  cases type with
  | array component =>
    by_cases hname : name = "clone"
    · simp [hname, candidatesIn, methodClass?, Ty.isArray, addCandidate]
    · simp [hname, candidatesIn, methodClass?, Ty.isArray]
  | declared n as => simp [candidatesIn, methodClass?, Ty.isArray]
  | var v => simp [candidatesIn, methodClass?, Ty.isArray]
  | _ => rfl

/-- A method that no earlier one overrides. -/
def Visible (p : Program) (type : Ty) (name : String) (c : Candidate) : Prop := c.FirstIn (p.allCandidates type name)

theorem mem_candidates_iff {type : Ty} {name : String} {c : Candidate} :
    c ∈ p.candidates type name ↔ p.Visible type name c := by
  rw [candidates_eq_foldl, mem_foldl_addCandidate_iff]
  simp [Visible]

theorem nodup_candidates (p : Program) (type : Ty) (name : String) : (p.candidates type name).Nodup := by
  have herased : ((p.candidates type name).map Candidate.erased).Nodup := by
    rw [candidates_eq_foldl]
    exact List.foldlRecOn (motive := fun cs : List Candidate => (cs.map Candidate.erased).Nodup) _ _ List.nodup_nil
      fun _ h _ _ => nodup_erased_addCandidate h
  exact herased.of_map

/-- A candidate copies an array, or a class of the hierarchy offers it and no class before that offers one with the
same erased parameters. -/
def Unhidden (p : Program) (type : Ty) (name : String) (c : Candidate) : Prop :=
  (type.isArray = true ∧ name = "clone" ∧ c = ⟨cloneOf type, []⟩) ∨
    ∃ d ∈ methodClass? type, ∃ before t after, p.hierarchy d = before ++ t :: after ∧
      p.Offers name t c ∧ ∀ u ∈ before, ∀ e, p.Offers name u e → e.erased ≠ c.erased

theorem Visible.unhidden {type : Ty} {name : String} {c : Candidate} (h : p.Visible type name c) :
    p.Unhidden type name c := by
  rcases Candidate.FirstIn.of_append h with ⟨before, after, hsplit, -⟩ | ⟨h, -⟩
  · have hc : c ∈ if type.isArray ∧ name = "clone" then [⟨cloneOf type, []⟩] else [] := by simp [hsplit]
    split at hc
    next hclone => exact .inl ⟨hclone.1, hclone.2, List.mem_singleton.1 hc⟩
    · cases hc
  · cases hd : methodClass? type with
    | none => simp [hd, Candidate.FirstIn] at h
    | some d =>
      rw [hd, Option.toList_some, List.flatMap_singleton] at h
      obtain ⟨before, t, after, hsplit, hc, hbefore⟩ := h.of_flatMap
      exact .inr ⟨d, hd, before, t, after, hsplit, mem_declaredCandidates.1 hc,
        fun u hu e he => hbefore u hu e (mem_declaredCandidates.2 he)⟩

theorem Visible.faithful {type : Ty} {name : String} {c : Candidate} (h : p.Visible type name c) : c.Faithful := by
  rcases h.unhidden with ⟨-, -, rfl⟩ | ⟨d, -, before, t, after, -, ht, -⟩
  · exact ⟨rfl, rfl⟩
  · exact ht.faithful

theorem Visible.hasMethod {type : Ty} {name : String} {c : Candidate} (h : p.Visible type name c) :
    (∃ component, type = .array component ∧ c.method = cloneOf type) ∨
      ∃ d ∈ methodClass? type, p.HasMethod d c.method := by
  rcases h.unhidden with ⟨harray, -, rfl⟩ | ⟨d, hd, before, t, after, hsplit, ht, -⟩
  · cases type with
    | array component => exact .inl ⟨component, rfl, rfl⟩
    | _ => cases harray
  · obtain ⟨e, he, hm⟩ := ht.declared
    exact .inr ⟨d, hd, t, hsplit ▸ List.mem_append_right before List.mem_cons_self, e, he, hm⟩

/-! Which candidates apply. -/

/-- The candidate takes the arguments: each is a subtype of its parameter, or can be boxed or unboxed for it, or the
last ones are items of an array that is the last parameter. -/
inductive Applicable (p : Program) (actuals : List Ty) (c : Candidate) : Phase → Prop where
  | strict (h : List.Forall₂ (fun a f => p.isSubtype a f = true) actuals c.formals) : Applicable p actuals c .strict
  | loose (h : List.Forall₂ (fun a f => p.isAssignable a f = true) actuals c.formals) : Applicable p actuals c .loose
  | variadic {fixed passed rest : List Ty} {component : Ty} (hv : c.method.isVariadic = true)
      (hf : c.formals = fixed ++ [.array component]) (ha : actuals = passed ++ rest)
      (hpassed : List.Forall₂ (fun a f => p.isAssignable a f = true) passed fixed)
      (hrest : ∀ a ∈ rest, p.isAssignable a component = true) : Applicable p actuals c .variadic

theorem pairwise_iff {related : Ty → Ty → Bool} {as bs : List Ty} :
    pairwise related as bs = true ↔ List.Forall₂ (fun a b => related a b = true) as bs := by
  induction as generalizing bs with
  | nil => cases bs <;> simp [pairwise]
  | cons a as ih => cases bs <;> simp [pairwise, ih]

theorem applies_iff {phase : Phase} {actuals : List Ty} {c : Candidate} :
    p.applies phase actuals c = true ↔ p.Applicable actuals c phase := by
  cases phase with
  | strict => exact pairwise_iff.trans ⟨.strict, fun | .strict h => h⟩
  | loose => exact pairwise_iff.trans ⟨.loose, fun | .loose h => h⟩
  | variadic =>
    constructor
    · intro h
      unfold applies at h
      rw [Bool.and_eq_true] at h
      obtain ⟨hv, h⟩ := h
      split at h
      next component hlast =>
        simp only [Bool.and_eq_true, decide_eq_true_eq, pairwise_iff, List.all_eq_true] at h
        obtain ⟨⟨-, hpassed⟩, hrest⟩ := h
        refine .variadic hv ?_ (List.take_append_drop _ _).symm hpassed hrest
        exact (List.dropLast_append_getLast? _ hlast).symm
      · cases h
    · intro h
      cases h with
      | variadic hv hf ha hpassed hrest =>
        subst ha
        simp [applies, hv, hf, ← List.Forall₂.length_eq hpassed, pairwise_iff, hpassed]
        exact hrest

theorem Applicable.accepts {phase : Phase} {actuals : List Ty} {c : Candidate} (h : p.Applicable actuals c phase)
    (hc : c.Faithful) : c.method.Accepts actuals.length := by
  cases h with
  | strict h => exact .inl (h.length_eq.trans hc.length)
  | loose h => exact .inl (h.length_eq.trans hc.length)
  | variadic hv hf ha hpassed hrest =>
    have hlength := hc.length
    rw [hf, List.length_append, ← hpassed.length_eq, List.length_singleton] at hlength
    rw [ha, List.length_append]
    exact .inr ⟨hv, by omega⟩

/-! The choice. -/

/-- Of the candidates that apply in a phase this one, and no other, is more specific than all. -/
structure Picks (p : Program) (actuals : List Ty) (cs : List Candidate) (phase : Phase) (c : Candidate) : Prop where
  mem : c ∈ cs
  applies : p.applies phase actuals c = true
  mostSpecific : ∀ d ∈ cs, p.applies phase actuals d = true → p.isMoreSpecific c d = true
  only : ∀ d ∈ cs, p.applies phase actuals d = true →
    (∀ e ∈ cs, p.applies phase actuals e = true → p.isMoreSpecific d e = true) → d = c

theorem mostSpecific_eq_singleton {actuals : List Ty} {cs : List Candidate} {phase : Phase} {c : Candidate}
    (hcs : cs.Nodup) : p.mostSpecific (cs.filter (p.applies phase actuals)) = [c] ↔ p.Picks actuals cs phase c := by
  have hmem (d : Candidate) : d ∈ p.mostSpecific (cs.filter (p.applies phase actuals)) ↔
      (d ∈ cs ∧ p.applies phase actuals d = true) ∧
        ∀ e ∈ cs, p.applies phase actuals e = true → p.isMoreSpecific d e = true := by
    simp only [mostSpecific, List.mem_filter, List.all_eq_true, and_imp]
  constructor
  · intro h
    have hc := (hmem c).1 (h ▸ List.mem_singleton_self c)
    refine ⟨hc.1.1, hc.1.2, hc.2, fun d hd ha hall => ?_⟩
    exact List.mem_singleton.1 (h ▸ (hmem d).2 ⟨⟨hd, ha⟩, hall⟩)
  · intro h
    refine List.perm_singleton.1 ((List.perm_ext_iff_of_nodup ((hcs.filter _).filter _) (List.nodup_singleton c)).2
      fun d => ?_)
    rw [List.mem_singleton]
    refine (hmem d).trans ⟨fun ⟨⟨hd, ha⟩, hall⟩ => h.only d hd ha hall, ?_⟩
    rintro rfl
    exact ⟨⟨h.mem, h.applies⟩, h.mostSpecific⟩

/-- The phases that are tried before one. -/
def Phase.earlier : Phase → List Phase
  | .strict => []
  | .loose => [.strict]
  | .variadic => [.strict, .loose]

theorem Phase.eq_earlier {before after : List Phase} {phase : Phase} (h : Phase.all = before ++ phase :: after) :
    before = phase.earlier := by
  rcases before with _ | ⟨_, _ | ⟨_, _ | ⟨_, before⟩⟩⟩
  · cases h
    rfl
  · cases h
    rfl
  · cases h
    rfl
  · simp [Phase.all] at h

theorem choose_eq_none_iff {name : String} {actuals : List Ty} {cs : List Candidate} {phases : List Phase} :
    p.choose name actuals cs phases = .ok none ↔ ∀ phase ∈ phases, ∀ c ∈ cs, p.applies phase actuals c = false := by
  induction phases with
  | nil => simp [choose]
  | cons phase phases ih =>
    rw [choose, List.forall_mem_cons]
    split
    next hnone =>
      have hphase : ∀ c ∈ cs, p.applies phase actuals c = false := by simpa using hnone
      rw [ih]
      exact ⟨fun h => ⟨hphase, h⟩, And.right⟩
    next hsome =>
      have hphase : ¬∀ c ∈ cs, p.applies phase actuals c = false := fun h => hsome (by simpa using h)
      refine ⟨fun h => ?_, fun h => absurd h.1 hphase⟩
      split at h <;> cases h

theorem choose_eq_some_iff {name : String} {actuals : List Ty} {cs : List Candidate} {m : Method} (hcs : cs.Nodup)
    {phases : List Phase} :
    p.choose name actuals cs phases = .ok (some m) ↔ ∃ before phase after c, phases = before ++ phase :: after ∧
      (∀ q ∈ before, ∀ d ∈ cs, p.applies q actuals d = false) ∧ p.Picks actuals cs phase c ∧ c.method = m := by
  induction phases with
  | nil => simp [choose]
  | cons phase phases ih =>
    rw [choose]
    split
    next hnone =>
      have hphase : ∀ c ∈ cs, p.applies phase actuals c = false := by simpa using hnone
      rw [ih]
      constructor
      · rintro ⟨before, q, after, c, rfl, hbefore, hc⟩
        exact ⟨phase :: before, q, after, c, rfl, List.forall_mem_cons.2 ⟨hphase, hbefore⟩, hc⟩
      · rintro ⟨before, q, after, c, hsplit, hbefore, hc, hm⟩
        cases before with
        | nil =>
          cases hsplit
          exact absurd hc.applies (by simp [hphase c hc.mem])
        | cons q' before =>
          cases hsplit
          exact ⟨before, q, after, c, rfl, (List.forall_mem_cons.1 hbefore).2, hc, hm⟩
    next hsome =>
      have hphase : ¬∀ c ∈ cs, p.applies phase actuals c = false := fun h => hsome (by simpa using h)
      constructor
      · intro h
        split at h
        next c hc =>
          cases h
          exact ⟨[], phase, phases, c, rfl, by simp, (mostSpecific_eq_singleton hcs).1 hc, rfl⟩
        · cases h
      · rintro ⟨before, q, after, c, hsplit, hbefore, hc, rfl⟩
        cases before with
        | nil =>
          cases hsplit
          rw [(mostSpecific_eq_singleton hcs).2 hc]
        | cons q' before =>
          cases hsplit
          exact absurd (List.forall_mem_cons.1 hbefore).1 hphase

/-- A chosen method takes the arguments it was chosen for; a class declares it, or it copies an array. -/
theorem findMethod_eq_some {name : String} {type : Ty} {actuals : List Ty} {m : Method}
    (h : p.findMethod name type actuals = .ok (some m)) :
    m.isMethod = true ∧ m.Accepts actuals.length ∧
      ((∃ component, type = .array component ∧ m = cloneOf type) ∨ ∃ d ∈ methodClass? type, p.HasMethod d m) := by
  obtain ⟨before, phase, after, c, -, -, hc, rfl⟩ := (choose_eq_some_iff (p.nodup_candidates type name)).1 h
  have hvisible := mem_candidates_iff.1 hc.mem
  exact ⟨hvisible.faithful.isMethod, (applies_iff.1 hc.applies).accepts hvisible.faithful, hvisible.hasMethod⟩

/-- What is chosen for some arguments: a visible candidate that applies in the first phase in which any does, and is
there the only one with parameters that are subtypes of those of each. -/
structure Chosen (p : Program) (name : String) (type : Ty) (actuals : List Ty) (phase : Phase) (c : Candidate) :
    Prop where
  visible : p.Visible type name c
  unhidden : p.Unhidden type name c
  isMethod : c.method.isMethod = true
  applicable : p.Applicable actuals c phase
  first : ∀ earlier ∈ phase.earlier, ∀ d, p.Visible type name d → ¬p.Applicable actuals d earlier
  mostSpecific : ∀ d, p.Visible type name d → p.Applicable actuals d phase →
    List.Forall₂ (fun a b => p.isSubtype a b = true) c.formals d.formals
  only : ∀ d, p.Visible type name d → p.Applicable actuals d phase →
    (∀ e, p.Visible type name e → p.Applicable actuals e phase →
      List.Forall₂ (fun a b => p.isSubtype a b = true) d.formals e.formals) → d = c

theorem chosen_iff {name : String} {type : Ty} {actuals : List Ty} {phase : Phase} {c : Candidate} :
    p.Chosen name type actuals phase c ↔ p.Picks actuals (p.candidates type name) phase c ∧
      ∀ q ∈ phase.earlier, ∀ d ∈ p.candidates type name, p.applies q actuals d = false := by
  simp only [← Bool.not_eq_true, mem_candidates_iff, applies_iff]
  constructor
  · intro h
    refine ⟨⟨mem_candidates_iff.2 h.visible, applies_iff.2 h.applicable, fun d hd ha => ?_, fun d hd ha hall => ?_⟩,
      h.first⟩
    · exact pairwise_iff.2 (h.mostSpecific d (mem_candidates_iff.1 hd) (applies_iff.1 ha))
    · refine h.only d (mem_candidates_iff.1 hd) (applies_iff.1 ha) fun e he hea => ?_
      exact pairwise_iff.1 (hall e (mem_candidates_iff.2 he) (applies_iff.2 hea))
  · rintro ⟨h, hfirst⟩
    have hvisible := mem_candidates_iff.1 h.mem
    refine ⟨hvisible, hvisible.unhidden, hvisible.faithful.isMethod, applies_iff.1 h.applies, hfirst, fun d hd ha => ?_,
      fun d hd ha hall => ?_⟩
    · exact pairwise_iff.1 (h.mostSpecific d (mem_candidates_iff.2 hd) (applies_iff.2 ha))
    · refine h.only d (mem_candidates_iff.2 hd) (applies_iff.2 ha) fun e he hea => ?_
      exact pairwise_iff.2 (hall e (mem_candidates_iff.1 he) (applies_iff.1 hea))

/-- A method is found exactly if it is chosen, and none exactly if no visible candidate applies in any phase. -/
theorem findMethod_chooses (p : Program) (name : String) (type : Ty) (actuals : List Ty) :
    (∀ m, p.findMethod name type actuals = .ok (some m) ↔
      ∃ phase c, p.Chosen name type actuals phase c ∧ c.method = m) ∧
    (p.findMethod name type actuals = .ok none ↔
      ∀ phase c, p.Visible type name c → ¬p.Applicable actuals c phase) := by
  have hall (phase : Phase) : phase ∈ Phase.all := by cases phase <;> decide
  constructor
  · intro m
    rw [findMethod, choose_eq_some_iff (p.nodup_candidates type name)]
    constructor
    · rintro ⟨before, phase, after, c, hsplit, hbefore, hc, hm⟩
      exact ⟨phase, c, chosen_iff.2 ⟨hc, Phase.eq_earlier hsplit ▸ hbefore⟩, hm⟩
    · rintro ⟨phase, c, hc, hm⟩
      obtain ⟨hc, hearlier⟩ := chosen_iff.1 hc
      obtain ⟨before, after, hsplit⟩ := List.append_of_mem (hall phase)
      exact ⟨before, phase, after, c, hsplit, Phase.eq_earlier hsplit ▸ hearlier, hc, hm⟩
  · rw [findMethod, choose_eq_none_iff]
    simp only [← Bool.not_eq_true, mem_candidates_iff, applies_iff]
    exact ⟨fun h phase => h phase (hall phase), fun h phase _ => h phase⟩

end AnnotationExpr.Program
