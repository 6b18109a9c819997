import AnnotationExpr.Proofs.Program.Boxes
import AnnotationExpr.Proofs.Resolution.Impaired
import AnnotationExpr.Proofs.Resolution.Rules

/-!
The arguments of a call on their way into it. Each is passed in its place, as it is or boxed for the class that its
parameter has; the choice of the method lets a primitive value stand there only if this is the class that boxes it.
-/

namespace AnnotationExpr

namespace Lookup

variable {l : Lookup} {c : Context}

/-- Each of the actual arguments is passed in its place, boxed for its parameter if there is one. -/
theorem getElem?_of_boxAll {text : String} : ∀ {formals : List Ty} {actuals passed : List Referent},
    l.boxAll text formals actuals = .ok passed → passed.length = actuals.length ∧
      ∀ (i : Nat) (a : Referent), actuals[i]? = some a → ∃ x, passed[i]? = some x ∧ (∀ t ∈ formals[i]?, l.box text t a = .ok x) ∧
        (formals[i]? = none → x = a)
  | [], actuals, passed, h => by
    cases h
    exact ⟨rfl, fun i a ha => ⟨a, ha, fun t ht => (by simp at ht), fun _ => rfl⟩⟩
  | t :: ts, [], passed, h => by
    cases h
    exact ⟨rfl, fun i a ha => by simp at ha⟩
  | t :: ts, a :: as, passed, h => by
    obtain ⟨b, hb, h⟩ := bind_eq_ok.1 h
    obtain ⟨bs, hbs, h⟩ := bind_eq_ok.1 h
    cases h
    obtain ⟨hlength, hall⟩ := getElem?_of_boxAll hbs
    refine ⟨congrArg (· + 1) hlength, fun i => ?_⟩
    cases i with
    | zero =>
      rintro _ ⟨⟩
      exact ⟨b, rfl, fun u hu => by cases hu; exact hb, fun hnone => nomatch hnone⟩
    | succ i => exact hall i

/-- Each of the expressions is resolved in its place. -/
theorem getElem?_of_resolveAll {es : List Expr} {rs : List Referent} (h : l.resolveAll c es = .ok rs) :
    rs.length = es.length ∧ ∀ (i : Nat) (e : Expr), es[i]? = some e → ∃ r, rs[i]? = some r ∧ l.resolve c e = .ok r := by
  obtain ⟨hlength, hall⟩ := (ruledAll l c es rs).1 h
  refine ⟨hlength.symm, fun i e he => ?_⟩
  obtain ⟨hi, -⟩ := List.getElem?_eq_some_iff.1 he
  have hr : rs[i]? = some rs[i] := List.getElem?_eq_getElem (hlength ▸ hi)
  have hzip : (es.zip rs)[i]? = some (e, rs[i]) := List.getElem?_zip_eq_some.2 ⟨he, hr⟩
  exact ⟨_, hr, resolve_eq_ok_iff.2 (hall _ (List.mem_of_getElem? hzip))⟩

theorem raises_of_resolve {e : Expr} {error : ResolveError} (h : l.resolve c e = .error error) : l.Raises error := by
  have hbecomes := becomes_resolve (Impaired.refl l fun _ => False) c (fun _ => rfl) e
  rw [h] at hbecomes
  exact hbecomes.raises

theorem Raises.valueOf_eq_none {text : String} {formal : Ty} (h : l.Raises (.invalid text (.noValueOf formal))) :
    formal.unboxed?.isSome = true ∧ l.valueOf formal = none := by
  generalize he : ResolveError.invalid text (.noValueOf formal) = error at h
  cases h with
  | own h => rw [← he] at h; cases h
  | noValueOf _ hf hv => cases he; exact ⟨hf, hv⟩
  | lookup expression =>
    unfold ResolveError.ofLookup at he
    split at he <;> cases he

end Lookup

namespace Program

variable {p : Program}

/-- What an argument is passed as, for a parameter of the given type: a primitive value for a parameter of a class that
boxes is boxed by this class, which is the one that boxes its type unless objects of any kind are of this class too;
everything else is passed as it is. -/
inductive PassedAs (p : Program) (formal : Option Ty) (a : Referent) : Referent → Prop where
  | itself (h : (formal.bind Ty.unboxed?).isSome = true → ∀ q, a.type? ≠ some (.primitive q)) : PassedAs p formal a a
  | boxed {t : Ty} {b q : Primitive} {v : Method} (ht : formal = some t) (hb : t.unboxed? = some b)
      (ha : a.type? = some (.primitive q)) (hv : p.BoxesBy b v)
      (hq : q = b ∨ p.isSubtype .object (.declared b.boxClass []) = true) :
      PassedAs p formal a (.call t v (.className t) [a])

variable {scope : Nat} {c : Context}

theorem passedAs_of_box {text : String} {t : Ty} {a x : Referent} (h : (p.lookupFrom scope).box text t a = .ok x)
    (hq : ∀ b q, t.unboxed? = some b → a.type? = some (.primitive q) →
      q = b ∨ p.isSubtype .object (.declared b.boxClass []) = true) : p.PassedAs (some t) a x := by
  unfold Lookup.box at h
  split at h
  next hbox =>
    rw [Bool.and_eq_true] at hbox
    obtain ⟨b, hb⟩ := Option.isSome_iff_exists.1 hbox.1
    obtain ⟨q, hprimitive⟩ := Option.isSome_iff_exists.1 hbox.2
    obtain ⟨type, ha, htype⟩ := Option.bind_eq_some_iff.1 hprimitive
    obtain rfl : type = .primitive q := by
      cases type with
      | primitive q' => cases htype; rfl
      | _ => cases htype
    split at h
    next v hv =>
      cases h
      exact .boxed rfl hb ha (boxesBy_of_valueOf? hb hv) (hq b q hb ha)
    next => cases h
  next hbox =>
    cases h
    refine .itself fun hb q ha => hbox ?_
    rw [Bool.and_eq_true, ha]
    exact ⟨hb, rfl⟩

/-- A call passes each of its arguments, as written but for the boxing of primitive values for the classes that box
them, and never lacks a method that boxes. -/
theorem BoxesBuiltIn.passedAs_of_call (h : p.BoxesBuiltIn) (scope : Nat) (c : Context) (span : Span) (name : String)
    (arguments : List Expr) :
    (∀ r, (p.lookupFrom scope).resolve c (.call span name arguments) = .ok r → ∃ type m base passed,
      r = .call type m base passed ∧ passed.length = arguments.length ∧
        ∀ (i : Nat) (e : Expr), arguments[i]? = some e → ∃ a x, (p.lookupFrom scope).resolve c.toOuter e = .ok a ∧
          passed[i]? = some x ∧ p.PassedAs m.parameterTypes[i]? a x) ∧
    ∀ text formal,
      (p.lookupFrom scope).resolve c (.call span name arguments) ≠ .error (.invalid text (.noValueOf formal)) := by
  constructor
  · intro r hr
    rw [Lookup.resolve, bind_eq_ok] at hr
    obtain ⟨actuals, hactuals, hr⟩ := hr
    obtain ⟨m, passed, hm, hpassed, hr⟩ := Lookup.invoke_eq_ok hr
    obtain ⟨type, base, rfl⟩ : ∃ type base, r = .call type m base passed := by
      split at hr
      · exact ⟨_, _, hr⟩
      · exact ⟨_, _, hr.2⟩
    obtain ⟨hlength, hresolved⟩ := Lookup.getElem?_of_resolveAll hactuals
    obtain ⟨hlength', hboxed⟩ := Lookup.getElem?_of_boxAll hpassed
    obtain ⟨-, t, -, hfound⟩ := Lookup.method_of_findMethod hm
    refine ⟨type, m, base, passed, rfl, hlength'.trans hlength, fun i e he => ?_⟩
    obtain ⟨a, ha, hresolve⟩ := hresolved i e he
    obtain ⟨x, hx, hbox, hbeyond⟩ := hboxed i a ha
    refine ⟨a, x, hresolve, hx, ?_⟩
    cases hformal : m.parameterTypes[i]? with
    | none =>
      rw [hbeyond hformal]
      exact .itself fun hb => nomatch hb
    | some formal =>
      refine passedAs_of_box (hbox formal hformal) fun b q hb hq => ?_
      have htype : (actuals.map fun a => a.type?.getD .none)[i]? = some (.primitive q) := by
        rw [List.getElem?_map, ha, Option.map_some, hq, Option.getD_some]
      exact h.eq_or_isSubtype_object_of_findMethod hfound htype hformal hb
  · intro text formal herror
    obtain ⟨hf, hnone⟩ := (Lookup.raises_of_resolve herror).valueOf_eq_none
    have hsome : (p.valueOf? formal).isSome = true := h.isSome_valueOf? hf
    have hnone : p.valueOf? formal = none := hnone
    rw [hnone] at hsome
    cases hsome

/-! One argument, boxed by the class that boxes its type and by another one. -/

def integer : Ty := .declared Primitive.int.boxClass []

/-- A class with a method that takes an `int` boxed. -/
def taker (p : Program) : Program :=
  p.build "demo" none "Taker" [.method (instanceMethod "take" [("n", integer)] .void)]

def takerContext : Context := .classDeclaration (.declared "demo.Taker" [])

def takeCall (v : Value) : Expr := .call ⟨0, 0⟩ "take" [.literal ⟨0, 0⟩ (.value v)]

/-- The types of the parameters of a call, and those of what is passed for them. -/
def passedTypes : Referent → List Ty × List (Option Ty)
  | .call _ m _ passed => (m.parameterTypes, passed.map Referent.type?)
  | _ => ([], [])

theorem passedAs_of_call_int : (taker initial).BoxesBuiltIn ∧ ∃ type m base v,
    ((taker initial).lookupFrom rootScope).resolve takerContext (takeCall (.int 5)) =
      .ok (.call type m base [.call integer v (.className integer) [.value (.int 5)]]) ∧
    (taker initial).BoxesBy .int v := by
  have hboxes : (taker initial).BoxesBuiltIn := by decide +kernel
  obtain ⟨r, hr, htypes⟩ : ∃ r, ((taker initial).lookupFrom rootScope).resolve takerContext (takeCall (.int 5)) = .ok r ∧
      passedTypes r = ([integer], [some integer]) :=
    of_toOption_map (by decide +kernel)
  obtain ⟨hok, -⟩ := hboxes.passedAs_of_call rootScope takerContext ⟨0, 0⟩ "take" [.literal ⟨0, 0⟩ (.value (.int 5))]
  obtain ⟨type, m, base, passed, rfl, hlength, hall⟩ := hok r hr
  obtain ⟨a, x, ha, hx, hpassed⟩ := hall 0 _ rfl
  obtain rfl : Referent.value (.int 5) = a := Except.ok.inj ha
  obtain ⟨y, rfl⟩ := List.length_eq_one_iff.1 hlength
  obtain rfl : y = x := Option.some.inj hx
  have hformals : m.parameterTypes = [integer] := congrArg Prod.fst htypes
  rw [hformals] at hpassed
  refine ⟨hboxes, type, m, base, ?_⟩
  cases hpassed with
  | itself h => exact absurd rfl (h (by decide) .int)
  | boxed ht hb _ hv _ =>
    cases ht
    cases hb
    exact ⟨_, hr, hv⟩

/-- The class of all objects extends the class that boxes `int`. -/
def allIntegers : Program := initial.build builtinPackage none "Object" [.superclass integer]

/-- Not every value is boxed by the class that boxes its type, even where these classes are as at first. -/
theorem not_boxed_by_type : ¬∀ p : Program, p.Built → p.BoxesBuiltIn → ∀ scope c span name arguments type m base passed,
    (p.lookupFrom scope).resolve c (.call span name arguments) = .ok (.call type m base passed) →
      ∀ (i : Nat) (e : Expr) (a : Referent), arguments[i]? = some e →
        (p.lookupFrom scope).resolve c.toOuter e = .ok a → passed[i]? = some a ∨
          ∃ t b v, m.parameterTypes[i]? = some t ∧ t.unboxed? = some b ∧ p.BoxesBy b v ∧
            passed[i]? = some (.call t v (.className t) [a]) ∧ a.type? = some (.primitive b) := by
  intro hall
  have hbuilt : (taker allIntegers).Built := (Built.initial.build ..).build ..
  have hboxes : (taker allIntegers).BoxesBuiltIn := by decide +kernel
  obtain ⟨r, hr, htypes⟩ : ∃ r, ((taker allIntegers).lookupFrom rootScope).resolve takerContext (takeCall (.long 5)) =
      .ok r ∧ passedTypes r = ([integer], [some integer]) :=
    of_toOption_map (by decide +kernel)
  cases r with
  | call type m base passed =>
    obtain ⟨hformals, htypes⟩ := Prod.mk.inj htypes
    rcases hall _ hbuilt hboxes _ _ _ _ _ _ _ _ _ hr 0 _ _ rfl rfl with hsame | ⟨t, b, v, ht, hb, -, -, ha⟩
    · have hlong : (passed.map Referent.type?)[0]? = some (some (.primitive .long)) := by
        rw [List.getElem?_map, hsame]
        rfl
      rw [htypes] at hlong
      cases hlong
    · rw [hformals] at ht
      cases ht
      cases ha
      cases hb
  | _ => cases htypes

end Program
end AnnotationExpr
