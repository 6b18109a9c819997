import AnnotationExpr.Proofs.Referent.WellFormed
import AnnotationExpr.Proofs.Resolution.Rules

/-!
Where the nodes of a referent come from. Each of them is part of what the context brings, or is made in one step:
by a literal, a name, an index or a call. So what holds in the context and of all that one step makes holds at
every node of a referent.
-/

namespace AnnotationExpr

namespace Expr

mutual

/-- The arguments, the arrays and the indices of an expression, at every depth. -/
def operands : Expr → List Expr
  | enclosed _ e | field _ e _ | unary _ _ e => e.operands
  | element _ array index => array :: index :: (array.operands ++ index.operands)
  | call _ _ arguments => arguments ++ operandsAll arguments
  | memberCall _ e _ arguments => e.operands ++ (arguments ++ operandsAll arguments)
  | binary _ _ a b => a.operands ++ b.operands
  | literal _ _ | this _ | super _ | name _ _ | classLiteral _ _ => []

def operandsAll : List Expr → List Expr
  | [] => []
  | e :: es => e.operands ++ operandsAll es

end

theorem operands_subset_operandsAll {e : Expr} : ∀ {es : List Expr}, e ∈ es → e.operands ⊆ operandsAll es
  | d :: es, h => by
    rcases List.mem_cons.1 h with rfl | h
    · exact List.subset_append_left ..
    · exact List.subset_append_of_subset_right _ (operands_subset_operandsAll h)

theorem operands_ofNames (s : Span) (root : String) (members : List String) :
    (ofNames s root members).operands = [] :=
  List.foldlRecOn (motive := fun e : Expr => e.operands = []) members _ rfl fun _ h _ _ => h

end Expr

/-- What the context brings. -/
def Context.referents (c : Context) : List Referent :=
  c.receiver.toList ++ c.outer.toList ++ c.arguments.getD []

namespace Lookup

/-- What an operand of the expression refers to, in the context or in the outer one. -/
def Operand (l : Lookup) (c : Context) (e : Expr) (r : Referent) : Prop :=
  ∃ o ∈ e.operands, l.Refers c o r ∨ l.Refers c.toOuter o r

/-- The nodes that one step of resolution makes. -/
inductive Made (l : Lookup) (c : Context) (e : Expr) : Referent → Prop where
  | value (v : Value) : Made l c e (.value v)
  | this (type : Option Ty) : Made l c e (.this type)
  | className (type : Ty) : Made l c e (.className type)
  | var {name : String} {v : Variable} (hs : c.localScope = true) (h : l.bareName name = .ok (some (.var v))) :
      Made l c e (.var v)
  | inScope {here : Context} {name : String} {f : Field} {n : Referent} (hh : here = c ∨ here = c.toOuter)
      (hs : c.localScope = true) (h : l.bareName name = .ok (some (.field f)))
      (ha : access here name (here.receiver.any Referent.isThis) f = .ok n) : Made l c e n
  | field {here : Context} {name : String} {f : Field} {onReceiver : Bool} {n : Referent}
      (h : l.findField name (here.receiverType?.getD .none) = .ok (some (f, onReceiver)))
      (ha : access here name onReceiver f = .ok n) : Made l c e n
  | element {array index : Referent} {component : Ty} (ha : l.Operand c e array) (hi : l.Operand c e index)
      (ht : array.type? = some (.array component)) : Made l c e (.element component array index)
  | call {here : Context} {text name : String} {actuals : List Referent} {n : Referent}
      (ha : ∀ a ∈ actuals, l.Operand c e a) (h : l.invoke here text name actuals = .ok n) : Made l c e n
  | boxed {formal : Ty} {m : Method} {actual : Referent} (ha : l.Operand c e actual)
      (h : l.valueOf formal = some m) : Made l c e (.call formal m (.className formal) [actual])

/-- The origin of a node. -/
def Origin (l : Lookup) (c : Context) (e : Expr) (n : Referent) : Prop :=
  (∃ s ∈ c.referents, n ∈ s.nodes) ∨ l.Made c e n

variable {l : Lookup} {c : Context} {e d : Expr} {n r : Referent}

theorem Operand.mono (h : l.Operand c d r) (hsub : d.operands ⊆ e.operands) : l.Operand c e r := by
  obtain ⟨o, ho, h⟩ := h
  exact ⟨o, hsub ho, h⟩

theorem Operand.of_toOuter (h : l.Operand c.toOuter e r) : l.Operand c e r := by
  obtain ⟨o, ho, h⟩ := h
  exact ⟨o, ho, .inr (h.elim id id)⟩

theorem Made.mono (h : l.Made c d n) (hsub : d.operands ⊆ e.operands) : l.Made c e n := by
  cases h with
  | value v => exact .value v
  | this type => exact .this type
  | className type => exact .className type
  | var hs h => exact .var hs h
  | inScope hh hs h ha => exact .inScope hh hs h ha
  | field h ha => exact .field h ha
  | element ha hi ht => exact .element (ha.mono hsub) (hi.mono hsub) ht
  | call ha h => exact .call (fun a hm => (ha a hm).mono hsub) h
  | boxed ha h => exact .boxed (ha.mono hsub) h

theorem Made.of_toOuter (h : l.Made c.toOuter e n) : l.Made c e n := by
  cases h with
  | value v => exact .value v
  | this type => exact .this type
  | className type => exact .className type
  | var hs h => exact .var hs h
  | inScope hh hs h ha => exact .inScope (.inr (hh.elim id id)) hs h ha
  | field h ha => exact .field h ha
  | element ha hi ht => exact .element ha.of_toOuter hi.of_toOuter ht
  | call ha h => exact .call (fun a hm => (ha a hm).of_toOuter) h
  | boxed ha h => exact .boxed ha.of_toOuter h

theorem Origin.mono (h : l.Origin c d n) (hsub : d.operands ⊆ e.operands) : l.Origin c e n :=
  h.imp_right (·.mono hsub)

theorem Origin.of_toOuter (h : l.Origin c.toOuter e n) : l.Origin c e n := by
  refine h.imp (fun ⟨s, hs, hn⟩ => ⟨s, ?_, hn⟩) (·.of_toOuter)
  have houter : c.toOuter.referents = c.outer.toList ++ c.outer.toList ++ c.arguments.getD [] := rfl
  rw [houter] at hs
  simp only [Context.referents, List.mem_append] at hs ⊢
  tauto

/-- Every node of the referent has an origin. -/
def Known (l : Lookup) (c : Context) (e : Expr) (r : Referent) : Prop := ∀ n ∈ r.nodes, l.Origin c e n

theorem Known.mono (h : l.Known c d r) (hsub : d.operands ⊆ e.operands) : l.Known c e r :=
  fun n hn => (h n hn).mono hsub

theorem Known.of_toOuter (h : l.Known c.toOuter e r) : l.Known c e r := fun n hn => (h n hn).of_toOuter

theorem known_of_referents (h : r ∈ c.referents) : l.Known c e r := fun _ hn => .inl ⟨r, h, hn⟩

theorem known_this (type : Option Ty) : l.Known c e (.this type) := by
  intro n hn
  rw [List.mem_singleton.1 hn]
  exact .inr (.this type)

theorem known_className (type : Ty) : l.Known c e (.className type) := by
  intro n hn
  rw [List.mem_singleton.1 hn]
  exact .inr (.className type)

theorem known_getD {receiver : Option Referent} (h : ∀ r ∈ receiver, l.Known c e r) (type : Option Ty) :
    l.Known c e (receiver.getD (.this type)) := by
  cases receiver with
  | none => exact known_this type
  | some r => exact h r rfl

/-- A context in which a part of the expression is resolved: that of the whole, the outer one, or that of a
member of something whose nodes are known. -/
structure Within (l : Lookup) (c : Context) (e : Expr) (here : Context) : Prop where
  eq : here.inMember = false → here = c
  localScope : here.localScope = c.localScope
  arguments : here.arguments = c.arguments
  receiver : ∀ r ∈ here.receiver, l.Known c e r

theorem within_memberOf {before : Referent} (h : l.Known c e before) : l.Within c e (c.memberOf before) :=
  ⟨fun hm => (nomatch hm), rfl, rfl, fun _ hr => Option.mem_some_iff.1 hr ▸ h⟩

theorem within_self (l : Lookup) (c : Context) (e : Expr) : l.Within c e c :=
  ⟨fun _ => rfl, rfl, rfl, fun r hr => known_of_referents (by simp [Context.referents, Option.mem_def.1 hr])⟩

variable {here : Context}

theorem known_of_access (h : l.Within c e here) {name : String} {onReceiver : Bool} {f : Field}
    (ha : access here name onReceiver f = .ok r) (hr : l.Made c e r) : l.Known c e r := by
  obtain ⟨base, rfl, hbase⟩ := access_eq_ok.1 ha
  have hknown : l.Known c e base := by
    split at hbase
    · rw [hbase]
      exact known_className _
    · rw [hbase.1]
      cases onReceiver with
      | true => exact known_getD h.receiver _
      | false => exact known_this _
  exact List.forall_mem_cons.2 ⟨.inr hr, hknown⟩

theorem mem_of_argument {index : Nat} (h : c.argument index = .ok r) : ∃ rs ∈ c.arguments, r ∈ rs := by
  unfold Context.argument at h
  split at h
  · cases h
  · split at h
    · cases h
    next arguments ha =>
      split at h
      next hr => cases h; exact ⟨arguments, ha, List.mem_of_getElem? hr⟩
      · cases h

theorem known_of_named (h : l.Within c e here) {name : String} (hn : l.named here name = .ok r) :
    l.Known c e r := by
  cases means_of_named hn with
  | parameter _ _ hp =>
    unfold parameter at hp
    split at hp
    · cases hp
    · obtain ⟨rs, hrs, hr⟩ := mem_of_argument hp
      rw [h.arguments] at hrs
      exact known_of_referents (by simp [Context.referents, Option.mem_def.1 hrs, hr])
  | var _ hs hv =>
    intro n hn
    rw [List.mem_singleton.1 hn]
    exact .inr (.var (h.localScope ▸ hs) hv)
  | inScope hm hs hf ha => exact known_of_access h ha (.inScope (.inl (h.eq hm)) (h.localScope ▸ hs) hf ha)
  | field hf ha => exact known_of_access h ha (.field hf ha)
  | className => exact known_className _

theorem known_of_boxed {actual passed : Referent} (h : l.Boxed actual passed) (ho : l.Operand c e actual)
    (ha : l.Known c e actual) : l.Known c e passed := by
  cases h with
  | asIs => exact ha
  | called h =>
    refine List.forall_mem_cons.2 ⟨.inr (.boxed ho h), fun n hn => ?_⟩
    rcases List.mem_append.1 hn with hn | hn
    · exact known_className _ n hn
    · obtain ⟨a, hm, hn⟩ := Referent.mem_nodesAll.1 hn
      rw [List.mem_singleton.1 hm] at hn
      exact ha n hn

theorem known_of_invoke (h : l.Within c e here) {text name : String} {actuals : List Referent}
    (ho : ∀ a ∈ actuals, l.Operand c e a) (ha : ∀ a ∈ actuals, l.Known c e a)
    (hr : l.invoke here text name actuals = .ok r) : l.Known c e r := by
  obtain ⟨m, passed, -, hp, hcase⟩ := invoke_eq_ok hr
  have hpassed : ∀ q ∈ passed, l.Known c e q := by
    intro q hq
    obtain ⟨hlen, hboxed⟩ := List.forall₂_iff_zip.1 (boxed_of_boxAll hp)
    obtain ⟨a, hm, hz⟩ := exists_zip_of_mem hlen hq
    exact known_of_boxed (hboxed hz) (ho a hm) (ha a hm)
  have hcall : ∀ {type base}, r = .call type m base passed → l.Known c e base → l.Known c e r := by
    rintro type base rfl hbase
    refine List.forall_mem_cons.2 ⟨.inr (.call ho hr), fun n hn => ?_⟩
    rcases List.mem_append.1 hn with hn | hn
    · exact hbase n hn
    · obtain ⟨q, hq, hn⟩ := Referent.mem_nodesAll.1 hn
      exact hpassed q hq n hn
  split at hcase
  · exact hcall hcase (known_className _)
  · exact hcall hcase.2 (known_getD h.receiver _)

/-- The referents of the arguments of a call are referents of operands, and their nodes are known. -/
theorem operands_of_arguments {es : List Expr} {actuals : List Referent} (hlen : es.length = actuals.length)
    (ha : ∀ q ∈ es.zip actuals, l.Refers c.toOuter q.1 q.2) (ih : ∀ q ∈ es.zip actuals, l.Known c.toOuter q.1 q.2)
    (hes : es ++ Expr.operandsAll es ⊆ e.operands) : ∀ a ∈ actuals, l.Operand c e a ∧ l.Known c e a := by
  intro a hm
  obtain ⟨o, ho, hz⟩ := exists_zip_of_mem hlen hm
  have hsub : o.operands ⊆ e.operands := fun x hx =>
    hes (List.mem_append_right _ (Expr.operands_subset_operandsAll ho hx))
  exact ⟨⟨o, hes (List.mem_append_left _ ho), .inr (ha _ hz)⟩, (ih _ hz).of_toOuter.mono hsub⟩

theorem Refers.known (h : l.Refers c e r) : l.Known c e r := by
  induction h with
  | value =>
    intro n hn
    rw [List.mem_singleton.1 hn]
    exact .inr (.value _)
  | @this c s =>
    unfold thisReferent
    split
    next r hr =>
      split
      · exact known_this _
      · exact (within_self l c _).receiver r hr
    · exact known_this _
  | super h =>
    unfold superReferent at h
    split at h
    · cases h; exact known_this _
    · cases h
  | name h => exact known_of_named (within_self ..) h
  | enclosed _ ih => exact ih.mono (List.Subset.refl _)
  | ofPackage => exact known_className _
  | field _ _ hn ih => exact known_of_named (within_memberOf (ih.mono (List.Subset.refl _))) hn
  | @element c s array index a i component ha hi ht iha ihi =>
    have harray : l.Operand c (.element s array index) a := ⟨array, by simp [Expr.operands], .inl ha⟩
    have hindex : l.Operand c (.element s array index) i := ⟨index, by simp [Expr.operands], .inr hi⟩
    refine List.forall_mem_cons.2 ⟨.inr (.element harray hindex ht), fun n hn => ?_⟩
    rcases List.mem_append.1 hn with hn | hn
    · exact iha.mono (fun x hx => by simp [Expr.operands, hx]) n hn
    · exact ihi.of_toOuter.mono (fun x hx => by simp [Expr.operands, hx]) n hn
  | @call c s n es actuals r hlen ha h ih =>
    have hall := operands_of_arguments (e := .call s n es) hlen ha ih (List.Subset.refl _)
    exact known_of_invoke (within_self ..) (fun a hm => (hall a hm).1) (fun a hm => (hall a hm).2) h
  | @memberCall c s e n es before actuals r _ hlen ha h ihb ih =>
    have hall := operands_of_arguments (e := .memberCall s e n es) hlen ha ih (List.subset_append_right _ _)
    exact known_of_invoke (within_memberOf (ihb.mono (List.subset_append_left _ _))) (fun a hm => (hall a hm).1)
      (fun a hm => (hall a hm).2) h
  | primitiveLiteral => exact known_className _
  | nameLiteral _ _ _ ih => exact ih.mono (by simp [Expr.operands_ofNames])
  | arrayLiteral => exact known_className _

theorem call_of_invoke {text name : String} {actuals : List Referent} (h : l.invoke c text name actuals = .ok r) :
    ∃ type m base passed, r = .call type m base passed := by
  obtain ⟨m, passed, -, -, h⟩ := invoke_eq_ok h
  split at h
  · exact ⟨_, _, _, _, h⟩
  · exact ⟨_, _, _, _, h.2⟩

/-- What has been looked up for a node that one step makes: a variable is a name in the local scope, a field a name
there or on a type, and a call is made by a call or boxes an argument of one. -/
def Source (l : Lookup) (c : Context) (e : Expr) : Referent → Prop
  | .var _ => c.localScope = true
  | .field base type f =>
    (∃ here name, (here = c ∨ here = c.toOuter) ∧ c.localScope = true ∧ l.bareName name = .ok (some (.field f)) ∧
        access here name (here.receiver.any Referent.isThis) f = .ok (.field base type f)) ∨
      ∃ here name onReceiver, l.findField name (here.receiverType?.getD .none) = .ok (some (f, onReceiver)) ∧
        access here name onReceiver f = .ok (.field base type f)
  | .element _ array index => l.Operand c e array ∧ l.Operand c e index
  | .call type m base passed =>
    (∃ here text name actuals, (∀ a ∈ actuals, l.Operand c e a) ∧
        l.invoke here text name actuals = .ok (.call type m base passed)) ∨
      l.valueOf type = some m ∧ base = .className type ∧ ∃ a, l.Operand c e a ∧ passed = [a]
  | _ => True

theorem Made.source (h : l.Made c e n) : l.Source c e n := by
  cases h with
  | value | this | className => trivial
  | var hs => exact hs
  | inScope hh hs hf ha =>
    obtain ⟨_, rfl, -⟩ := access_eq_ok.1 ha
    exact .inl ⟨_, _, hh, hs, hf, ha⟩
  | field hf ha =>
    obtain ⟨_, rfl, -⟩ := access_eq_ok.1 ha
    exact .inr ⟨_, _, _, hf, ha⟩
  | element ha hi => exact ⟨ha, hi⟩
  | call ho h =>
    obtain ⟨_, _, _, _, rfl⟩ := call_of_invoke h
    exact .inl ⟨_, _, _, _, ho, h⟩
  | boxed ho h => exact .inr ⟨h, rfl, _, ho, rfl⟩

end Lookup
end AnnotationExpr
