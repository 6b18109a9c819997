import AnnotationExpr.Proofs.Expr.Ending
import AnnotationExpr.Proofs.Resolution.Origin

/-!
Class names in referents. A class stands where a static member is accessed. Anywhere else it comes from an operand
that refers to the class, and at the top of a referent from a text that ends in the word `class`: a class literal,
or a name that ends so.
-/

namespace AnnotationExpr

/-- The parts of a node at which an object is expected: all but the class of a static member. -/
def Referent.objects : Referent → List Referent
  | field receiver _ f => if f.isStatic then [] else [receiver]
  | element _ array index => [array, index]
  | call _ m receiver arguments => if m.isStatic then arguments else receiver :: arguments
  | _ => []

/-- Inside the referent class names stand only under static members. -/
def Referent.ClassesQualify (r : Referent) : Prop := ∀ n ∈ r.nodes, ∀ x ∈ n.objects, x.isClassName = false

namespace Expr

/-- The expression without the parentheses around it. -/
def unwrapped : Expr → Expr
  | enclosed _ e => e.unwrapped
  | e => e

/-- The shapes of expressions that can refer to a class. -/
def CanNameClass : Expr → Prop
  | this _ | name _ _ | field _ _ _ | classLiteral _ _ => True
  | _ => False

end Expr

namespace Lookup

variable {l : Lookup} {c : Context} {e : Expr} {r : Referent}

theorem isClassName_of_invoke {text name : String} {actuals : List Referent}
    (h : l.invoke c text name actuals = .ok r) : r.isClassName = false := by
  obtain ⟨_, _, _, _, rfl⟩ := call_of_invoke h
  rfl

theorem Refers.canNameClass (h : l.Refers c e r) (hr : r.isClassName = true) : e.unwrapped.CanNameClass := by
  induction h with
  | value | element => cases hr
  | super h =>
    unfold superReferent at h
    split at h
    · cases h; cases hr
    · cases h
  | enclosed _ ih => exact ih hr
  | call _ _ h => rw [isClassName_of_invoke h] at hr; cases hr
  | memberCall _ _ _ h => rw [isClassName_of_invoke h] at hr; cases hr
  | _ => trivial

/-- Behind parentheses or not, a class literal refers to a class or to what the name in it refers to. -/
theorem Refers.of_unwrapped {s : Span} {t : TypeName} (h : l.Refers c e r) (he : e.unwrapped = .classLiteral s t) :
    l.Refers c (.classLiteral s t) r := by
  induction h with
  | enclosed _ ih => exact ih he
  | primitiveLiteral hp => cases he; exact .primitiveLiteral hp
  | nameLiteral hp hd h => cases he; exact .nameLiteral hp hd h
  | arrayLiteral hp hd h => cases he; exact .arrayLiteral hp hd h
  | _ => cases he

/-- A field that is not static does not stand under a class. -/
theorem isClassName_of_access {name : String} {onReceiver : Bool} {f : Field} {n x : Referent}
    (h : access c name onReceiver f = .ok n) (hx : x ∈ n.objects) : x.isClassName = false := by
  obtain ⟨base, rfl, hbase⟩ := access_eq_ok.1 h
  rw [Referent.objects] at hx
  split at hx
  · cases hx
  next hs =>
    rw [if_neg hs] at hbase
    rw [List.mem_singleton.1 hx]
    exact hbase.2

/-- A class among the objects of a call has been passed to it: boxing gives no class, nor does a call stand under one. -/
theorem mem_of_invoke {text name : String} {actuals : List Referent} {n x : Referent}
    (h : l.invoke c text name actuals = .ok n) (hx : x ∈ n.objects) (hclass : x.isClassName = true) :
    x ∈ actuals := by
  obtain ⟨m, passed, -, hp, h⟩ := invoke_eq_ok h
  have hpassed (hx : x ∈ passed) : x ∈ actuals := by
    obtain ⟨hlen, hboxed⟩ := List.forall₂_iff_zip.1 (boxed_of_boxAll hp)
    obtain ⟨a, ha, hz⟩ := exists_zip_of_mem hlen hx
    cases hboxed hz with
    | asIs => exact ha
    | called => cases hclass
  split at h
  next hs =>
    subst h
    rw [Referent.objects, if_pos hs] at hx
    exact hpassed hx
  next hs =>
    obtain ⟨hbase, rfl⟩ := h
    rw [Referent.objects, if_neg hs] at hx
    rcases List.mem_cons.1 hx with rfl | hx
    · rw [hbase] at hclass
      cases hclass
    · exact hpassed hx

/-- Where a step puts a class name for an object, an operand refers to it. -/
theorem Made.operand_of_objects (hv : ∀ {type m}, l.valueOf type = some m → m.isStatic = true) {n x : Referent}
    (h : l.Made c e n) (hx : x ∈ n.objects) (hclass : x.isClassName = true) : l.Operand c e x := by
  cases h with
  | value | this | className | var => cases hx
  | inScope _ _ _ ha | field _ ha =>
    rw [isClassName_of_access ha hx] at hclass
    cases hclass
  | element ha hi =>
    rcases List.mem_cons.1 hx with rfl | hx
    · exact ha
    · rw [List.mem_singleton.1 hx]
      exact hi
  | call ho h => exact ho x (mem_of_invoke h hx hclass)
  | boxed ha hm =>
    rw [Referent.objects, if_pos (hv hm)] at hx
    rw [List.mem_singleton.1 hx]
    exact ha

/-- A class literal of a primitive type or with dimensions refers to a class, any other to what its name refers to. -/
theorem Refers.of_classLiteral {s : Span} {t : TypeName} (h : l.Refers c (.classLiteral s t) r) :
    if t.primitive?.isSome ∨ t.dimensions ≠ 0 then r.isClassName = true
    else l.resolve c (.ofNames t.span t.root t.members) = .ok r := by
  cases h with
  | primitiveLiteral hp => rw [if_pos (.inl (by rw [hp]; rfl))]; rfl
  | nameLiteral hp hd h =>
    rw [if_neg (by simp [hp, hd])]
    exact resolve_eq_ok_iff.2 h
  | arrayLiteral hp hd h => rw [if_pos (.inr hd)]; rfl

end Lookup

namespace Program

/-- A class name at the top of a referent comes from a text that ends in `class`, and there from a class literal or
from a name that ends so. A class literal refers to a class, unless it is made of a name that refers to something
else. Inside a referent a class name stands under a static member, or where an operand refers to the class. -/
theorem classNames_of_refer (p : Program) (scope : Nat) {c : Context} (hc : ∀ s ∈ c.referents, s.ClassesQualify)
    {localScope : Bool} {text : String} {r : Referent}
    (hr : (p.lookupFrom scope).refer c localScope text = .ok r) :
    ∃ e, Expr.read (Marker.expand text) = .ok e ∧
      (r.isClassName = true → "class".toList <:+ text.toList ∧
        ((∃ s t, e = .classLiteral s t) ∨ (∃ s n, e = .name s n ∧ "class".toList <:+ n.toList) ∨
          ∃ s d n, e = .field s d n ∧ "class".toList <:+ n.toList)) ∧
      (∀ s t, e.unwrapped = .classLiteral s t →
        if t.primitive?.isSome ∨ t.dimensions ≠ 0 then r.isClassName = true
        else (p.lookupFrom scope).resolve (c.withLocalScope localScope) (.ofNames t.span t.root t.members) = .ok r) ∧
      ∀ n ∈ r.nodes, ∀ x ∈ n.objects, x.isClassName = true → ∃ o ∈ e.operands, o.unwrapped.CanNameClass ∧
        ((p.lookupFrom scope).resolve (c.withLocalScope localScope) o = .ok x ∨
          (p.lookupFrom scope).resolve (c.withLocalScope localScope).toOuter o = .ok x) := by
  obtain ⟨e, he, h, hclass⟩ := Lookup.refer_eq_ok.1 hr
  refine ⟨e, he, fun hr => ⟨hclass hr, ?_⟩, fun s t hu => (h.of_unwrapped hu).of_classLiteral,
    fun n hn x hx hxc => ?_⟩
  · have hshape := h.canNameClass hr
    have hends := Expr.endsIn_of_read he (hclass hr)
    cases e with
    | classLiteral s t => exact .inl ⟨s, t, rfl⟩
    | name s n => exact .inr (.inl ⟨s, n, rfl, hends⟩)
    | field s d n => exact .inr (.inr ⟨s, d, n, rfl, hends⟩)
    | this | enclosed => exact hends.elim
    | _ => exact hshape.elim
  · rcases h.known n hn with ⟨s, hs, hns⟩ | hmade
    · rw [hc s hs n hns x hx] at hxc
      cases hxc
    · obtain ⟨o, ho, hox⟩ := hmade.operand_of_objects (fun h => (valueOf?_eq_some h).1) hx hxc
      refine ⟨o, ho, hox.elim (·.canNameClass hxc) (·.canNameClass hxc), ?_⟩
      exact hox.imp Lookup.resolve_eq_ok_iff.2 Lookup.resolve_eq_ok_iff.2

/-- A class with a field and a method that takes any object, and one whose name has the ending of a class literal. -/
def taking : Program :=
  (initial.build "demo" none "A" [.field ⟨"count", .int, false, false⟩,
    .method (.method "take" [("any", .object)] .void false false)]).build "demo" none "Subclass" []

/-- The body of the first class. -/
def inTaking : Context := .classDeclaration (.declared "demo.A" [])

theorem classesQualify_inTaking : ∀ s ∈ inTaking.referents, s.ClassesQualify := by
  intro s hs n hn x hx
  obtain rfl : s = .this (some (.declared "demo.A" [])) := by
    simpa [Context.referents, inTaking, Context.classDeclaration, Context.new] using hs
  rw [List.mem_singleton.1 hn] at hx
  cases hx

/-- The class literal in `take(demo.A.class)` is an operand, and the class it refers to an argument. -/
theorem classNames_of_refer_argument : ∃ (p : Program) (c : Context) (r : Referent) (e : Expr),
    (∀ s ∈ c.referents, s.ClassesQualify) ∧ (p.lookupFrom 0).refer c true "take(demo.A.class)" = .ok r ∧
      r.text = "this.take(demo.A)" ∧ Expr.read (Marker.expand "take(demo.A.class)") = .ok e ∧
      ∀ n ∈ r.nodes, ∀ x ∈ n.objects, x.isClassName = true → ∃ o ∈ e.operands, o.unwrapped.CanNameClass ∧
        ((p.lookupFrom 0).resolve c o = .ok x ∨ (p.lookupFrom 0).resolve c.toOuter o = .ok x) := by
  obtain ⟨r, hr, htext⟩ := of_toOption_map (show ((taking.lookupFrom 0).refer inTaking true
    "take(demo.A.class)").toOption.map Referent.text = some "this.take(demo.A)" by decide +kernel)
  obtain ⟨e, he, -, -, hinside⟩ := classNames_of_refer taking 0 classesQualify_inTaking hr
  exact ⟨taking, inTaking, r, e, classesQualify_inTaking, hr, htext, he, hinside⟩

/-- In a context where class names only qualify, and none is an argument, the text has the tree `e` and refers to `r`. -/
structure Parses (p : Program) (scope : Nat) (c : Context) (localScope : Bool) (text : String) (e : Expr)
    (r : Referent) : Prop where
  qualify : ∀ s ∈ c.referents, s.ClassesQualify
  arguments : ∀ rs ∈ c.arguments, ∀ a ∈ rs, a.isClassName = false
  tree : Expr.read (Marker.expand text) = .ok e
  referent : (p.lookupFrom scope).refer c localScope text = .ok r

theorem parses_taking (text : String) {α β : Type} {f : Expr → α} {g : Referent → β} {a : α} {b : β}
    (he : (Expr.read (Marker.expand text)).toOption.map f = some a)
    (hr : ((taking.lookupFrom 0).refer inTaking true text).toOption.map g = some b) :
    ∃ e r, taking.Parses 0 inTaking true text e r ∧ f e = a ∧ g r = b := by
  obtain ⟨e, he, hf⟩ := of_toOption_map he
  obtain ⟨r, hr, hg⟩ := of_toOption_map hr
  have hargs : ∀ rs ∈ inTaking.arguments, ∀ a ∈ rs, a.isClassName = false := by
    intro rs hrs a ha
    cases hrs
    cases ha
  exact ⟨e, r, ⟨classesQualify_inTaking, hargs, he, hr⟩, hf, hg⟩

def isClassLiteral : Expr → Bool
  | .classLiteral _ _ => true
  | _ => false

/-- Whether the arguments of a call are class names. -/
def classArguments : Referent → List Bool
  | .call _ _ _ arguments => arguments.map Referent.isClassName
  | _ => []

/-- Class names and class literals do not coincide either way, and class names do more than qualify: the text
`demo.Subclass` has the ending of a class literal, the literal `count.class` refers to the field `count`, and the one
in `take(demo.A.class)` is an argument. -/
theorem not_classNames_coincide :
    ¬ (∀ p scope c localScope text e r, Parses p scope c localScope text e r →
        r.isClassName = true → ∃ s t, e.unwrapped = .classLiteral s t) ∧
      ¬ (∀ p scope c localScope text e r, Parses p scope c localScope text e r →
        (∃ s t, e.unwrapped = .classLiteral s t) → r.isClassName = true) ∧
      ¬ ∀ p scope c localScope text e r, Parses p scope c localScope text e r → r.ClassesQualify := by
  refine ⟨fun hall => ?_, fun hall => ?_, fun hall => ?_⟩
  · obtain ⟨e, r, h, he, hr⟩ := parses_taking "demo.Subclass" (f := fun e => isClassLiteral e.unwrapped) (a := false)
      (g := Referent.isClassName) (b := true) (by decide +kernel) (by decide +kernel)
    obtain ⟨s, t, hu⟩ := hall _ _ _ _ _ _ _ h hr
    rw [hu] at he
    cases he
  · obtain ⟨e, r, h, he, hr⟩ := parses_taking "count.class" (f := isClassLiteral) (a := true)
      (g := Referent.isClassName) (b := false) (by decide +kernel) (by decide +kernel)
    cases e with
    | classLiteral s t =>
      rw [hall _ _ _ _ _ _ _ h ⟨s, t, rfl⟩] at hr
      cases hr
    | _ => cases he
  · obtain ⟨e, r, h, -, hr⟩ := parses_taking "take(demo.A.class)" (f := isClassLiteral) (a := false)
      (g := classArguments) (b := [true]) (by decide +kernel) (by decide +kernel)
    cases r with
    | call type m base passed =>
      obtain ⟨x, rfl, hx⟩ := List.map_eq_singleton_iff.1 hr
      have hmem : x ∈ Referent.objects (.call type m base [x]) := by
        rw [Referent.objects]
        split
        · exact List.mem_cons_self
        · exact List.mem_cons_of_mem _ List.mem_cons_self
      rw [hall _ _ _ _ _ _ _ h _ List.mem_cons_self x hmem] at hx
      cases hx
    | _ => cases hr

end Program
end AnnotationExpr
