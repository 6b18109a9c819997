import AnnotationExpr.Proofs.Program.Classes
import AnnotationExpr.Proofs.Program.Packages
import AnnotationExpr.Proofs.Resolution.BareName

/-!
A parameter under its name. Without the local scope the name of a parameter of the method around the place is refused,
in favour of its marker: before any field or class of the name on the method's own `this`, and elsewhere only where
there are none. A static method has no `this`, so there a field or a class may take the name.
-/

namespace AnnotationExpr

namespace Lookup

variable {l : Lookup} {c : Context} {name : String}

/-- Fields and classes of the name are not looked for. -/
theorem named_of_onOwnMethod (hm : c.inMember = false) (hd : Marker.digits? name = none)
    (ho : l.onOwnMethod c = true) {k : Nat} (hk : l.parameterIndex? name = some k) :
    l.named (c.withLocalScope false) name = .error (.parameterName name k) := by
  have ho : l.onOwnMethod (c.withLocalScope false) = true := ho
  have hm' : (c.withLocalScope false).inMember = false := hm
  rw [named_withoutScope hm hd, fieldOrClass, ho, hk, hm']
  rfl

theorem Open.named_of_class (h : l.Open c name) (hf : l.findField name (c.receiverType?.getD .none) = .ok none)
    {k : ClassSymbol} (hk : l.classNamed name = .ok (some k)) :
    l.named (c.withLocalScope false) name = .ok (.className k.selfType) := by
  have hf : l.findField name ((c.withLocalScope false).receiverType?.getD .none) = .ok none := hf
  rw [named_withoutScope h.inMember h.noMarker, fieldOrClass, h.unhidden, hf, hk]
  rfl

theorem Open.named_of_parameter (h : l.Open c name) (hf : l.findField name (c.receiverType?.getD .none) = .ok none)
    (hk : l.classNamed name = .ok none) {k : Nat} (hi : l.parameterIndex? name = some k) :
    l.named (c.withLocalScope false) name = .error (.parameterName name k) := by
  have hf : l.findField name ((c.withLocalScope false).receiverType?.getD .none) = .ok none := hf
  rw [named_withoutScope h.inMember h.noMarker, fieldOrClass, h.unhidden, hf, hk, hi]
  rfl

theorem refer_of_named_eq_error (h : Token.IsName name) {localScope : Bool} {e : ResolveError}
    (hn : l.named (c.withLocalScope localScope) name = .error e) : l.refer c localScope name = .error e := by
  rw [refer_of_isName h, hn]
  rfl

theorem refer_of_named_eq_className (h : Token.IsName name) {localScope : Bool} {type : Ty}
    (hn : l.named (c.withLocalScope localScope) name = .ok (.className type)) :
    l.refer c localScope name =
      if "class".toList <:+ name.toList then .ok (.className type) else .error (.invalid name .classNameAtEnd) := by
  rw [refer_of_isName h, hn]
  change (if (!"class".toList.isSuffixOf name.toList) = true then _ else _) = _
  by_cases hs : "class".toList <:+ name.toList
  · rw [if_pos hs, List.isSuffixOf_iff_suffix.2 hs]
    rfl
  · have hsuffix : "class".toList.isSuffixOf name.toList = false :=
      Bool.eq_false_iff.2 fun h => hs (List.isSuffixOf_iff_suffix.1 h)
    rw [if_neg hs, hsuffix]
    rfl

end Lookup

namespace Program

variable {p q : Program} {className name : String} {method : Option String} {c : Context} {scope : Nat}
  {e : ClassEntry} {m : Option Method} {d : Method}

/-- The class that is entered declares the method that is entered. -/
theorem Entered.methodOwner? (h : Entered p className method q c scope e m) :
    q.methodOwner? scope = m.map fun _ => e.selfType := by
  have hclass : q.classOf? (.body className) = some e := by
    rw [classOf?_congr h.classes]
    exact h.class?
  have hapart (ss : List Scope) : (ss.dropWhile (!·.isMethod)).findSome? q.classOf? =
      ((ss.map Scope.apart).dropWhile (!·.isMethod)).findSome? q.classOf? := by
    rw [List.dropWhile_map, List.findSome?_map]
    rfl
  rw [Program.methodOwner?, hapart, h.sees.chain]
  cases m with
  | some d =>
    change (((Scope.ofMethod d :: Scope.body className :: _).findSome? q.classOf?).map _) = _
    rw [List.findSome?_cons_of_isNone rfl, List.findSome?_cons, hclass]
    rfl
  | none =>
    have hnone : (([].map Scope.ofMethod ++ (className :: p.outerNames className).map Scope.body ++
        [Scope.outermost]).dropWhile (!·.isMethod)) = [] := by
      refine List.dropWhile_eq_nil_iff.2 fun s hs => ?_
      rcases List.mem_append.1 hs with hs | hs
      · obtain ⟨n, -, rfl⟩ := List.mem_map.1 hs
        rfl
      · rw [List.mem_singleton.1 hs]
        rfl
    change ((List.findSome? q.classOf? (List.dropWhile _ ([].map Scope.ofMethod ++ _ ++ _))).map _) = _
    rw [hnone]
    rfl

/-- A place is on the method around it where its `this` is of the class that declares the method. -/
theorem onOwnMethod_iff {owner : Ty} {isStatic : Bool} (houter : c.outer = some (.implicit owner isStatic)) :
    (p.lookupFrom scope).onOwnMethod c = true ↔
      isStatic = false ∧ ∃ t, p.methodOwner? scope = some t ∧ t.erasure = owner.erasure := by
  have howner : (p.lookupFrom scope).methodOwner = p.methodOwner? scope := rfl
  unfold Lookup.onOwnMethod
  rw [houter, howner, Referent.implicit]
  cases isStatic with
  | true => simp
  | false =>
    cases p.methodOwner? scope with
    | none => simp
    | some t => simp [eq_comm]

theorem Entered.onOwnMethod_iff (h : Entered p className method q c scope e (some d)) :
    (q.lookupFrom scope).onOwnMethod c = true ↔ d.isStatic = false := by
  have houter : c.outer = some (.implicit e.selfType d.isStatic) := by rw [h.context]; rfl
  exact (Program.onOwnMethod_iff houter).trans (and_iff_left ⟨e.selfType, h.methodOwner?, rfl⟩)

theorem parameterIndex?_eq_some {index : Nat} :
    (p.lookupFrom scope).parameterIndex? name = some index ↔
      ∃ names k, p.methodParameters? scope = some names ∧ names.findIdx? (· = name) = some k ∧ k + 1 = index := by
  have hparameters : (p.lookupFrom scope).methodParameters = p.methodParameters? scope := rfl
  unfold Lookup.parameterIndex?
  simp only [hparameters, Option.bind_eq_some_iff, Option.map_eq_some_iff, exists_and_left]

theorem enter_of_declaredMethod? {className method : String} (hp : p.Nested)
    (hd : p.declaredMethod? className method = some d) :
    ∃ q c scope e, p.enter className (some method) = (q, .ok (c, scope)) ∧
      Entered p className (some method) q c scope e (some d) := by
  obtain ⟨e, he, hm⟩ := Option.bind_eq_some_iff.1 hd
  have henter : ∃ q c scope, p.enter className (some method) = (q, .ok (c, scope)) := by
    unfold enter
    rw [he]
    simp only [hm]
    exact ⟨_, _, _, rfl⟩
  obtain ⟨q, c, scope, h⟩ := henter
  obtain ⟨e', m, hentered⟩ := enter_eq_ok hp h
  have hsame : some e' = some e := hentered.class?.symm.trans he
  cases hsame
  have hmethod : some (some d) = m.map some := by rw [← hm]; exact hentered.method?
  obtain ⟨d', rfl, hd'⟩ := Option.map_eq_some_iff.1 hmethod.symm
  cases hd'
  exact ⟨q, c, scope, e, h, hentered⟩

/-- In a method that is not static, the name of a parameter is refused whatever fields and classes have it. In a static
method a field of the name comes before the parameter, and so does a class. -/
theorem Loaded.refer_parameterName (hp : p.Loaded) {className method : String}
    (hd : p.declaredMethod? className method = some d) (hx : Token.IsName name) (hmark : Marker.digits? name = none)
    {k : Nat} (hk : d.parameterNames.findIdx? (· = name) = some k) :
    ∃ q c scope, p.enter className (some method) = (q, .ok (c, scope)) ∧
      (d.isStatic = false → (q.lookupFrom scope).refer c false name = .error (.parameterName name (k + 1))) ∧
      (d.isStatic = true →
        (∀ f own, q.fieldAround? className name = some (f, own) → f.isStatic = true →
          (q.lookupFrom scope).refer c false name = .ok (.field (.className f.owner) f.type f)) ∧
        (∀ f, q.fieldAround? className name = some (f, true) → f.isStatic = false →
          (q.lookupFrom scope).refer c false name = .error (.invalid name .fieldOfClassName)) ∧
        (∀ f, q.fieldAround? className name = some (f, false) → f.isStatic = false →
          (q.lookupFrom scope).refer c false name = .ok (.field (.this (some f.owner)) f.type f)) ∧
        (q.fieldAround? className name = none →
          (∀ a, q.findClass? scope name = some a → (q.lookupFrom scope).refer c false name =
            if "class".toList <:+ name.toList then .ok (.className a.selfType)
            else .error (.invalid name .classNameAtEnd)) ∧
          (q.findClass? scope name = none →
            (q.lookupFrom scope).refer c false name = .error (.parameterName name (k + 1))))) := by
  obtain ⟨q, c, scope, e, henter, h⟩ := enter_of_declaredMethod? hp.nested hd
  have hm : c.inMember = false := by rw [h.context]; rfl
  have hindex : (q.lookupFrom scope).parameterIndex? name = some (k + 1) :=
    parameterIndex?_eq_some.2 ⟨_, k, h.methodParameters?, hk, rfl⟩
  refine ⟨q, c, scope, henter, fun hs => ?_, fun hs => ?_⟩
  · exact Lookup.refer_of_named_eq_error hx (Lookup.named_of_onOwnMethod hm hmark (h.onOwnMethod_iff.2 hs) hindex)
  · have hopen : (q.lookupFrom scope).Open c name :=
      ⟨hm, hmark, fun ho => nomatch hs.symm.trans (h.onOwnMethod_iff.1 ho)⟩
    have hclass : c.receiver = some (.className e.selfType) := by
      rw [h.context]
      simp [Context.methodDeclaration, Context.new, Referent.implicit, hs]
    have hfield := h.findField name
    refine ⟨fun f own hf hstatic => ?_, fun f hf hstatic => ?_, fun f hf hstatic => ?_,
      fun hf => ⟨fun a ha => ?_, fun ha => ?_⟩⟩
    all_goals rw [hf] at hfield
    · refine Lookup.refer_of_named_eq_field hx ?_
      rw [hopen.named_of_field hfield, Lookup.access_static hstatic]
    · refine Lookup.refer_of_named_eq_error hx ?_
      rw [hopen.named_of_field hfield, Lookup.access_onClassName hstatic hclass]
    · refine Lookup.refer_of_named_eq_field hx ?_
      rw [hopen.named_of_field hfield, Lookup.access_onOwner hstatic]
    · have hknown : (q.lookupFrom scope).classNamed name = .ok (some a.symbol) := by
        rw [classNamed_lookupFrom, ha]
        rfl
      exact Lookup.refer_of_named_eq_className hx (hopen.named_of_class hfield hknown)
    · have hunknown : (q.lookupFrom scope).classNamed name = .ok none := by
        rw [classNamed_lookupFrom, ha]
        rfl
      exact Lookup.refer_of_named_eq_error hx (hopen.named_of_parameter hfield hunknown hindex)

/-- A counter, with its own step and a limit for all, and a static method that takes names for parameters from both. -/
def limited : Description where
  imports := []
  classes := [
    ⟨"demo", "Counter", none, false, [], none, [], [⟨"step", "int", false, false⟩, ⟨"limit", "int", true, false⟩],
      [⟨"advance", [("limit", "int"), ("step", "int")], "void", false, false⟩,
        ⟨"check", [("limit", "int"), ("step", "int"), ("last", "int")], "void", true, false⟩]⟩]

theorem isName_limit : Token.IsName "limit" := Token.isName_of_toOption ⟨0, 5⟩ (by decide +kernel)

theorem isName_step : Token.IsName "step" := Token.isName_of_toOption ⟨0, 4⟩ (by decide +kernel)

theorem isName_last : Token.IsName "last" := Token.isName_of_toOption ⟨0, 4⟩ (by decide +kernel)

/-- In `advance` the names of its parameters are refused. In the static `check` one of them means the static field, one
would be the field that needs an object, and only the third is refused as a parameter. -/
theorem refer_parameterName_static : ∃ (p q r : Program) (c s : Context) (i j : Nat) (limit : Field),
    p.Loaded ∧ p.enter "demo.Counter" (some "advance") = (q, .ok (c, i)) ∧
      (q.lookupFrom i).refer c false "limit" = .error (.parameterName "limit" 1) ∧
      p.enter "demo.Counter" (some "check") = (r, .ok (s, j)) ∧
      (r.lookupFrom j).refer s false "limit" = .ok (.field (.className limit.owner) limit.type limit) ∧
      (r.lookupFrom j).refer s false "step" = .error (.invalid "step" .fieldOfClassName) ∧
      (r.lookupFrom j).refer s false "last" = .error (.parameterName "last" 3) := by
  let owner : Ty := .declared "demo.Counter" []
  let step : Field := ⟨"step", .int, owner, false, false⟩
  let limit : Field := ⟨"limit", .int, owner, true, false⟩
  let advance : Method :=
    ⟨"advance", owner, [⟨"limit", .int, .parameter, 11⟩, ⟨"step", .int, .parameter, 12⟩], .void, false, false, .method⟩
  let check : Method :=
    ⟨"check", owner, [⟨"limit", .int, .parameter, 13⟩, ⟨"step", .int, .parameter, 14⟩, ⟨"last", .int, .parameter, 15⟩],
      .void, true, false, .method⟩
  obtain ⟨p, r, s, j, hp, henter, hfacts⟩ := of_load_enter limited "demo.Counter" (some "check")
    (fun p r _ j => ((p.declaredMethod? "demo.Counter" "advance", p.declaredMethod? "demo.Counter" "check"),
      ["limit", "step", "last"].map (r.fieldAround? "demo.Counter"), r.classSeen? j "last"))
    (a := ((some advance, some check), [some (limit, true), some (step, true), none], none)) (by decide +kernel)
  obtain ⟨hmethods, hnames⟩ := Prod.mk.inj hfacts
  obtain ⟨hadvance, hcheck⟩ := Prod.mk.inj hmethods
  obtain ⟨hfields, hclass⟩ := Prod.mk.inj hnames
  obtain ⟨hlimit, hfields⟩ := List.cons.inj hfields
  obtain ⟨hstep, hfields⟩ := List.cons.inj hfields
  obtain ⟨hlast, -⟩ := List.cons.inj hfields
  obtain ⟨q, c, i, hq, hinstance, -⟩ :=
    hp.refer_parameterName hadvance isName_limit (by decide +kernel) (k := 0) (by decide +kernel)
  have hstatic {name : String} (hx : Token.IsName name) (hmark : Marker.digits? name = none) {k : Nat}
      (hk : check.parameterNames.findIdx? (· = name) = some k) := hp.refer_parameterName hcheck hx hmark hk
  obtain ⟨_, _, _, h, -, hs⟩ := hstatic isName_limit (by decide +kernel) (k := 0) (by decide +kernel)
  cases henter.symm.trans h
  obtain ⟨_, _, _, h', -, hs'⟩ := hstatic isName_step (by decide +kernel) (k := 1) (by decide +kernel)
  cases henter.symm.trans h'
  obtain ⟨_, _, _, h'', -, hs''⟩ := hstatic isName_last (by decide +kernel) (k := 2) (by decide +kernel)
  cases henter.symm.trans h''
  exact ⟨p, q, r, c, s, i, j, limit, hp, hq, hinstance rfl, henter, (hs rfl).1 limit true hlimit rfl,
    (hs' rfl).2.1 step hstep rfl, ((hs'' rfl).2.2.2 hlast).2 ((findClass?_of_simple (by decide) j).trans hclass)⟩

/-- In the static `check` the name of the first parameter has a referent. -/
theorem not_refer_parameterName : ¬ ∀ (p q : Program) (className method name : String) (d : Method) (k : Nat)
    (c : Context) (scope : Nat), p.Loaded → p.declaredMethod? className method = some d → Token.IsName name →
    Marker.digits? name = none → d.parameterNames.findIdx? (· = name) = some k →
    p.enter className (some method) = (q, .ok (c, scope)) →
    (q.lookupFrom scope).refer c false name = .error (.parameterName name (k + 1)) := by
  intro hall
  obtain ⟨p, q, c, scope, hp, henter, hfacts⟩ := of_load_enter limited "demo.Counter" (some "check")
    (fun p q c scope =>
      ((p.declaredMethod? "demo.Counter" "check").map fun d => d.parameterNames.findIdx? (· = "limit"),
        ((q.lookupFrom scope).refer c false "limit").toOption.map Referent.text))
    (a := (some (some 0), some "demo.Counter.limit")) (by decide +kernel)
  obtain ⟨hd, hrefer⟩ := Prod.mk.inj hfacts
  obtain ⟨d, hd, hk⟩ := Option.map_eq_some_iff.1 hd
  rw [hall p q _ _ "limit" d 0 c scope hp hd isName_limit (by decide +kernel) hk henter] at hrefer
  cases hrefer

end Program
end AnnotationExpr
