import AnnotationExpr.Proofs.Resolution.Boxing

/-!
Which primitive values a call boxes, of those that the choice of its method took for boxed. The choice goes by the
types of the parameters as seen from the receiver, and by the items of the last one; boxing goes by the parameters as
they are declared. So a value stays as it is for a parameter whose type is a type variable, and among a variable number
of values.
-/

namespace AnnotationExpr

namespace Lookup

variable {l : Lookup} {text name : String} {types : List Ty} {receiver : Ty} {m : Method}

/-- The service answers the method for this type, and no method for those in which it is looked for before. -/
def FoundOn (l : Lookup) (name : String) (receiver : Ty) (types : List Ty) (m : Method) (found : Ty) : Prop :=
  ∃ before after, l.methodTypes receiver = before ++ found :: after ∧ l.method name found types = .ok (some m) ∧
    ∀ t ∈ before, ∃ answer, l.method name t types = .ok answer ∧ answer.any Method.isMethod = false

theorem split_of_firstMethod {ds : List ClassType} (h : l.firstMethod text name types ds = .ok (some m)) :
    ∃ before d after, ds = before ++ d :: after ∧ l.method name d.toTy types = .ok (some m) ∧
      ∀ u ∈ before, ∃ answer, l.method name u.toTy types = .ok answer ∧ answer.any Method.isMethod = false := by
  induction ds with
  | nil => cases h
  | cons d ds ih =>
    obtain ⟨answer, hanswer, h⟩ := bind_eq_ok.1 h
    rw [asked_eq_ok] at hanswer
    split at h
    next =>
      cases h
      exact ⟨[], d, ds, rfl, hanswer, by simp⟩
    next hnone =>
      obtain ⟨before, e, after, rfl, he, hbefore⟩ := ih h
      have hd : answer.any Method.isMethod = false := by
        simp only [Bool.or_eq_true, not_or, Bool.not_eq_true] at hnone
        exact hnone.1
      exact ⟨d :: before, e, after, rfl, he, List.forall_mem_cons.2 ⟨⟨answer, hanswer, hd⟩, hbefore⟩⟩

theorem foundOn_of_findMethod (h : l.findMethod text name receiver types = .ok m) :
    ∃ found, l.FoundOn name receiver types m found := by
  obtain ⟨answer, hanswer, h⟩ := bind_eq_ok.1 h
  cases answer with
  | none => cases h
  | some n =>
    obtain rfl : n = m := by
      dsimp only at h
      split at h
      · exact Except.ok.inj h
      · cases h
    unfold answeredMethod at hanswer
    split at hanswer
    next component => exact ⟨_, [], [], rfl, asked_eq_ok.1 hanswer, by simp⟩
    next n as types =>
      obtain ⟨before, d, after, hsplit, hd, hbefore⟩ := split_of_firstMethod hanswer
      refine ⟨d.toTy, before.map ClassType.toTy, after.map ClassType.toTy, ?_, hd, List.forall_mem_map.2 hbefore⟩
      exact (congrArg (List.map ClassType.toTy) hsplit).trans (by rw [List.map_append, List.map_cons])
    next => cases hanswer

end Lookup

namespace Program

variable {p : Program} {phase : Phase} {actuals passed : List Referent} {scope : Nat} {c : Context} {i : Nat}

/-- The type that the choice compares an argument with: the parameter in its place as seen from the receiver, or the
items of the last one if the argument is one of a variable number. -/
def Candidate.formal? (c : Candidate) : Phase → Nat → Option Ty
  | .variadic, i => if i + 1 < c.formals.length then c.formals[i]? else c.formals.getLast?.bind Ty.component?
  | _, i => c.formals[i]?

theorem Candidate.formal?_fixed {cand : Candidate} {fixed : List Ty} {component : Ty}
    (h : cand.formals = fixed ++ [.array component]) (hi : i < fixed.length) :
    cand.formal? .variadic i = fixed[i]? := by
  rw [formal?, h, if_pos (by simpa using hi), List.getElem?_append_left hi]

/-- The choice that a call rests on: what its arguments are resolved to, and for the types of these a phase and a
candidate, on the type on which the method is found. -/
structure RestsOn (p : Program) (scope : Nat) (c : Context) (name : String) (arguments : List Expr) (m : Method)
    (actuals : List Referent) (phase : Phase) (cand : Candidate) : Prop where
  resolved : (p.lookupFrom scope).resolveAll c.toOuter arguments = .ok actuals
  chosen : ∃ found,
    (p.lookupFrom scope).FoundOn name (c.receiverType?.getD .none) (actuals.map fun a => a.type?.getD .none) m found ∧
      p.Chosen name found (actuals.map fun a => a.type?.getD .none) phase cand
  method : cand.method = m

/-- What becomes of a value that was taken for boxed by the class of `b`: it is boxed if its parameter is declared with
this class. It is not if its parameter is declared with a type variable, and not if it is one of a variable number. -/
inductive Converted (p : Program) (m : Method) (phase : Phase) (i : Nat) (b : Primitive) (a : Referent) :
    Referent → Prop where
  | boxed {t : Ty} {v : Method} (ht : m.parameterTypes[i]? = some t) (hb : t.unboxed? = some b) (hv : p.BoxesBy b v) :
      Converted p m phase i b a (.call t v (.className t) [a])
  | ofVariable {name : String} (ht : m.parameterTypes[i]? = some (.var name)) : Converted p m phase i b a a
  | item (hphase : phase = .variadic) (hi : m.parameterTypes.length ≤ i + 1) : Converted p m phase i b a a

theorem eq_of_box {l : Lookup} {text : String} {t : Ty} {a x : Referent} (h : l.box text t a = .ok x)
    (ht : t.unboxed? = none) : x = a := by
  rw [Lookup.box, ht] at h
  exact (Except.ok.inj h).symm

theorem exists_boxesBy_of_box {text : String} {t : Ty} {a x : Referent} {b q : Primitive}
    (h : (p.lookupFrom scope).box text t a = .ok x) (ht : t.unboxed? = some b) (ha : a.type? = some (.primitive q)) :
    ∃ v, p.BoxesBy b v ∧ x = .call t v (.className t) [a] := by
  unfold Lookup.box at h
  rw [if_pos (by simp [ht, ha, Ty.primitive?])] at h
  split at h
  next v hv => exact ⟨v, boxesBy_of_valueOf? ht hv, (Except.ok.inj h).symm⟩
  next => cases h

/-- A type that becomes a class by substitution is this class or a type variable. -/
theorem unboxed?_of_substitute {s : String → Option Ty} {t : Ty} {b : Primitive}
    (h : (t.substitute s).unboxed? = some b) : t.unboxed? = some b ∨ ∃ name, t = .var name := by
  cases t with
  | declared n as => exact .inl h
  | var name => exact .inr ⟨name, rfl⟩
  | _ => cases h

/-- A parameter from the last one on, which is an array as seen from the receiver, is declared with no class that
boxes. -/
theorem unboxed?_of_item {s : String → Option Ty} {ts fixed : List Ty} {t component : Ty}
    (h : fixed ++ [.array component] = ts.map (Ty.substitute s)) (hi : fixed.length ≤ i) (ht : ts[i]? = some t) :
    t.unboxed? = none := by
  have hlength : fixed.length + 1 = ts.length := by simpa using congrArg List.length h
  have hlast : (fixed ++ [.array component])[i]? = some (t.substitute s) := by
    rw [h, List.getElem?_map, ht, Option.map_some]
  obtain ⟨hlt, -⟩ := List.getElem?_eq_some_iff.1 ht
  obtain rfl : i = fixed.length := by omega
  rw [List.getElem?_concat_length] at hlast
  cases t with
  | declared n as => cases hlast
  | _ => rfl

/-- The argument in one place, where the choice compared it with a class that boxes. -/
theorem RestsOn.converted {name text : String} {arguments : List Expr} {m : Method} {cand : Candidate}
    (h : p.RestsOn scope c name arguments m actuals phase cand)
    (hpassed : (p.lookupFrom scope).boxAll text m.parameterTypes actuals = .ok passed) {a : Referent} {q b : Primitive}
    {t : Ty} (ha : actuals[i]? = some a) (hq : a.type? = some (.primitive q)) (ht : cand.formal? phase i = some t)
    (hb : t.unboxed? = some b) : ∃ x, passed[i]? = some x ∧ p.Converted m phase i b a x := by
  obtain ⟨found, -, hchosen⟩ := h.chosen
  obtain ⟨s, hs⟩ := hchosen.visible.exists_formals
  rw [h.method] at hs
  obtain ⟨x, hx, hbox, hbeyond⟩ := (Lookup.getElem?_of_boxAll hpassed).2 i a ha
  refine ⟨x, hx, ?_⟩
  -- a parameter in its own place is compared as it is declared, but for its type variables
  have hown (ht : cand.formals[i]? = some t) : p.Converted m phase i b a x := by
    rw [hs, List.getElem?_map, Option.map_eq_some_iff] at ht
    obtain ⟨declared, hdeclared, rfl⟩ := ht
    rcases unboxed?_of_substitute hb with hb | ⟨name, rfl⟩
    · obtain ⟨v, hv, rfl⟩ := exists_boxesBy_of_box (hbox declared hdeclared) hb hq
      exact .boxed hdeclared hb hv
    · rw [eq_of_box (hbox _ hdeclared) rfl]
      exact .ofVariable hdeclared
  cases phase with
  | strict => exact hown ht
  | loose => exact hown ht
  | variadic =>
    obtain ⟨fixed, component, hformals⟩ : ∃ fixed component, cand.formals = fixed ++ [.array component] := by
      cases hchosen.applicable with
      | variadic _ hformals _ _ _ => exact ⟨_, _, hformals⟩
    rcases Nat.lt_or_ge i fixed.length with hlt | hle
    · refine hown ?_
      rw [← ht, Candidate.formal?_fixed hformals hlt, hformals, List.getElem?_append_left hlt]
    · rw [hformals] at hs
      have hx : x = a := by
        cases hd : m.parameterTypes[i]? with
        | none => exact hbeyond hd
        | some declared => exact eq_of_box (hbox declared hd) (unboxed?_of_item hs hle hd)
      have hlength : fixed.length + 1 = m.parameterTypes.length := by simpa using congrArg List.length hs
      rw [hx]
      exact .item rfl (by omega)

theorem exists_chosen {name : String} {type : Ty} {types : List Ty} {m : Method}
    (h : p.findMethod name type types = .ok (some m)) :
    ∃ phase cand, p.Chosen name type types phase cand ∧ cand.method = m := by
  obtain ⟨before, phase, after, cand, hsplit, hbefore, hpicks, hm⟩ :=
    (choose_eq_some_iff (p.nodup_candidates type name)).1 h
  exact ⟨phase, cand, chosen_iff.2 ⟨hpicks, Phase.eq_earlier hsplit ▸ hbefore⟩, hm⟩

/-- Every call rests on a choice. -/
theorem exists_restsOn {span : Span} {name : String} {arguments : List Expr} {r : Referent}
    (h : (p.lookupFrom scope).resolve c (.call span name arguments) = .ok r) :
    ∃ type m base passed actuals text phase cand, r = .call type m base passed ∧
      (p.lookupFrom scope).boxAll text m.parameterTypes actuals = .ok passed ∧
      p.RestsOn scope c name arguments m actuals phase cand := by
  rw [Lookup.resolve, bind_eq_ok] at h
  obtain ⟨actuals, hactuals, h⟩ := h
  obtain ⟨m, passed, hm, hpassed, h⟩ := Lookup.invoke_eq_ok h
  obtain ⟨type, base, rfl⟩ : ∃ type base, r = .call type m base passed := by
    split at h
    · exact ⟨_, _, h⟩
    · exact ⟨_, _, h.2⟩
  obtain ⟨found, hfound⟩ := Lookup.foundOn_of_findMethod hm
  have ⟨_, _, _, hmethod, _⟩ := hfound
  obtain ⟨phase, cand, hchosen, hcand⟩ := exists_chosen hmethod
  exact ⟨type, m, base, passed, actuals, _, phase, cand, rfl, hpassed, hactuals, ⟨found, hfound, hchosen⟩, hcand⟩

/-- A call boxes a primitive value that the choice of its method took for boxed where the parameter is declared with a
class that boxes, and passes it as it is for a type variable and among a variable number of values. -/
theorem converted_of_call {span : Span} {name : String} {arguments : List Expr} {r : Referent}
    (h : (p.lookupFrom scope).resolve c (.call span name arguments) = .ok r) :
    ∃ type m base passed, r = .call type m base passed ∧
      (∃ actuals phase cand, p.RestsOn scope c name arguments m actuals phase cand) ∧
      ∀ actuals phase cand, p.RestsOn scope c name arguments m actuals phase cand →
        ∀ (i : Nat) (a : Referent) (q b : Primitive) (t : Ty), actuals[i]? = some a → a.type? = some (.primitive q) →
          cand.formal? phase i = some t → t.unboxed? = some b →
            ∃ x, passed[i]? = some x ∧ p.Converted m phase i b a x := by
  obtain ⟨type, m, base, passed, actuals, text, phase, cand, rfl, hpassed, hrests⟩ := exists_restsOn h
  refine ⟨type, m, base, passed, rfl, ⟨actuals, phase, cand, hrests⟩, ?_⟩
  intro actuals' phase' cand' h i a q b t ha hq ht hb
  obtain rfl : actuals = actuals' := Except.ok.inj (hrests.resolved.symm.trans h.resolved)
  exact h.converted hpassed ha hq ht hb

/-! Values for a type variable, and among a variable number. -/

/-- A shelf with a box of boxed integers, and with a method that takes any number of these. -/
def shelf : Program :=
  let boxes := initial.build "demo" none "Box"
    [.typeParameters ["T"], .method (instanceMethod "put" [("value", .var "T")] .void)]
  boxes.build "demo" none "Shelf" [.field ⟨"box", .declared "demo.Box" [integer], false, false⟩,
    .method (.method "sum" [("ns", .array integer)] .void false true)]

def shelfContext : Context := .classDeclaration (.declared "demo.Shelf" [])

/-- For what follows the box and a point. -/
def boxContext : Context :=
  shelfContext.memberOf (.field (.this (some (.declared "demo.Shelf" []))) (.declared "demo.Box" [integer])
    ⟨"box", .declared "demo.Box" [integer], .declared "demo.Shelf" [], false, false⟩)

def five : Expr := .literal ⟨0, 0⟩ (.value (.int 5))

theorem built_shelf : shelf.Built := (Built.initial.build ..).build ..

def putCandidate : Candidate :=
  ⟨⟨"put", .declared "demo.Box" [.var "T"], [⟨"value", .var "T", .parameter, 11⟩], .void, false, false, .method⟩,
    [integer]⟩

def sumCandidate : Candidate :=
  ⟨⟨"sum", .declared "demo.Shelf" [], [⟨"ns", .array integer, .parameter, 12⟩], .void, false, true, .method⟩,
    [.array integer]⟩

/-- Where there is one type to look for a method, with one candidate, a call rests on it. -/
theorem RestsOn.eq_of_singleton {name : String} {arguments : List Expr} {m : Method} {t : Ty} {cand only : Candidate}
    (h : p.RestsOn scope c name arguments m actuals phase cand)
    (htypes : (p.lookupFrom scope).methodTypes (c.receiverType?.getD .none) = [t])
    (hcandidates : p.candidates t name = [only]) : cand = only := by
  obtain ⟨found, ⟨before, after, hsplit, -⟩, hchosen⟩ := h.chosen
  have hfound : found ∈ [t] := by
    rw [← htypes, hsplit]
    simp
  have hmem : cand ∈ p.candidates found name := mem_candidates_iff.2 hchosen.visible
  rw [List.mem_singleton.1 hfound, hcandidates] at hmem
  exact List.mem_singleton.1 hmem

/-- One of a variable number of values, which the choice took for boxed. -/
theorem converted_of_call_sum : ∃ type m base actuals,
    (shelf.lookupFrom rootScope).resolve shelfContext (.call ⟨0, 0⟩ "sum" [five]) =
      .ok (.call type m base [.value (.int 5)]) ∧
    shelf.RestsOn rootScope shelfContext "sum" [five] m actuals .variadic sumCandidate ∧
    sumCandidate.formal? .variadic 0 = some integer := by
  obtain ⟨r, hr, htypes⟩ : ∃ r, (shelf.lookupFrom rootScope).resolve shelfContext (.call ⟨0, 0⟩ "sum" [five]) = .ok r ∧
      passedTypes r = ([.array integer], [some .int]) :=
    of_toOption_map (by decide +kernel)
  obtain ⟨type, m, base, passed, rfl, ⟨actuals, phase, cand, hrests⟩, hall⟩ := converted_of_call hr
  obtain ⟨hformals, htypes⟩ := Prod.mk.inj htypes
  obtain rfl : cand = sumCandidate :=
    hrests.eq_of_singleton (t := .declared "demo.Shelf" []) (by decide +kernel) (by decide +kernel)
  obtain rfl : [Referent.value (.int 5)] = actuals := Except.ok.inj hrests.resolved
  have hphase : phase = .variadic := by
    obtain ⟨found, -, hchosen⟩ := hrests.chosen
    have happlies := applies_iff.2 hchosen.applicable
    cases phase with
    | variadic => rfl
    | strict | loose => exact absurd happlies (by decide +kernel)
  obtain ⟨y, rfl⟩ : ∃ y, passed = [y] := List.length_eq_one_iff.1 (by simpa using congrArg List.length htypes)
  subst hphase
  obtain ⟨x, hx, hconverted⟩ := hall _ _ _ hrests 0 _ .int .int integer rfl rfl rfl (by decide)
  obtain rfl : y = x := Option.some.inj hx
  refine ⟨type, m, base, _, ?_, hrests, rfl⟩
  cases hconverted with
  | boxed ht hb _ =>
    rw [hformals] at ht
    cases ht
    cases hb
  | ofVariable | item => exact hr

/-- Not every value that the choice took for boxed is boxed. -/
theorem not_boxed_as_chosen : ¬∀ p : Program, p.Built → p.BoxesBuiltIn →
    ∀ scope c span name arguments type m base passed,
      (p.lookupFrom scope).resolve c (.call span name arguments) = .ok (.call type m base passed) →
        ∀ actuals phase cand, p.RestsOn scope c name arguments m actuals phase cand →
          ∀ (i : Nat) (a : Referent) (q b : Primitive) (t : Ty), actuals[i]? = some a → a.type? = some (.primitive q) →
            cand.formal? phase i = some t → t.unboxed? = some b →
              ∃ v, p.BoxesBy b v ∧ passed[i]? = some (.call t v (.className t) [a]) := by
  intro hall
  obtain ⟨r, hr, htypes⟩ : ∃ r, (shelf.lookupFrom rootScope).resolve boxContext (.call ⟨0, 0⟩ "put" [five]) = .ok r ∧
      passedTypes r = ([.var "T"], [some .int]) :=
    of_toOption_map (by decide +kernel)
  obtain ⟨type, m, base, passed, actuals, text, phase, cand, rfl, -, hrests⟩ := exists_restsOn hr
  obtain rfl : cand = putCandidate :=
    hrests.eq_of_singleton (t := .declared "demo.Box" [integer]) (by decide +kernel) (by decide +kernel)
  obtain rfl : [Referent.value (.int 5)] = actuals := Except.ok.inj hrests.resolved
  have hformal : putCandidate.formal? phase 0 = some integer := by
    obtain ⟨found, -, hchosen⟩ := hrests.chosen
    cases hchosen.applicable with
    | strict | loose => rfl
    | variadic hv _ _ _ _ => cases hv
  obtain ⟨v, -, hx⟩ := hall shelf built_shelf (by decide +kernel) _ _ _ _ _ _ _ _ _ hr _ _ _ hrests 0 _ .int .int
    integer rfl rfl hformal (by decide)
  have htype : (passed.map Referent.type?)[0]? = some (some integer) := by
    rw [List.getElem?_map, hx]
    rfl
  rw [(Prod.mk.inj htypes).2] at htype
  cases htype

end Program
end AnnotationExpr
