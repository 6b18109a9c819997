import AnnotationExpr.Proofs.Outcome
import AnnotationExpr.Resolution
import Mathlib.Data.List.Forall2

/-!
Resolution read backwards: what the lookups have answered when a name, a member of something or a call
has a referent.
-/

namespace AnnotationExpr.Lookup

variable {l : Lookup} {c : Context}

theorem asked_eq_ok {α : Type} {expression : String} {answer : Answer α} {found : Option α} :
    asked expression answer = .ok found ↔ answer = .ok found := by
  cases answer <;> simp [asked]

/-- A static field stands under its class, any other under an object. -/
theorem access_eq_ok {name : String} {onReceiver : Bool} {f : Field} {r : Referent} :
    access c name onReceiver f = .ok r ↔
      ∃ base, r = .field base f.type f ∧
        if f.isStatic then base = .className f.owner
        else base = (if onReceiver then c.receiver else none).getD (.this (some f.owner)) ∧
          base.isClassName = false := by
  unfold access
  cases f.isStatic with
  | true => simp only [if_true, exists_eq_right, Except.ok.injEq, eq_comm]
  | false =>
    cases hb : ((if onReceiver then c.receiver else none).getD (.this (some f.owner))).isClassName with
    | true => simp [hb]
    | false => simp [hb, eq_comm (a := r)]

theorem field_of_firstField {name : String} {f : Field} {ds : List ClassType}
    (h : l.firstField name ds = .ok (some f)) : ∃ d ∈ ds, l.field name d.toTy = .ok (some f) := by
  induction ds with
  | nil => cases h
  | cons d ds ih =>
    obtain ⟨found, ha, h⟩ := bind_eq_ok.1 h
    rw [asked_eq_ok] at ha
    cases found with
    | some g => cases h; exact ⟨d, by simp, ha⟩
    | none =>
      obtain ⟨d', hd', hf⟩ := ih h
      exact ⟨d', by simp [hd'], hf⟩

/-- A field that is found is one that the service knows, on the type itself or on a class around it, or the length
of an array. -/
theorem field_of_findField {name : String} {type : Ty} {f : Field} {onReceiver : Bool}
    (h : l.findField name type = .ok (some (f, onReceiver))) :
    (∃ t, l.field name t = .ok (some f) ∧ (onReceiver = true → t = type)) ∨
      ∃ component, type = .array component ∧ f = .arrayLength type := by
  unfold findField at h
  split at h
  case h_1 component =>
    split at h
    · obtain ⟨found, ha, h⟩ := bind_eq_ok.1 h
      rw [asked_eq_ok] at ha
      cases found with
      | some g => cases h; exact .inl ⟨_, ha, fun _ => rfl⟩
      | none => cases h; exact .inr ⟨component, rfl, rfl⟩
    · cases h
  case h_2 n as =>
    obtain ⟨found, ha, h⟩ := bind_eq_ok.1 h
    rw [asked_eq_ok] at ha
    cases found with
    | some g => cases h; exact .inl ⟨_, ha, fun _ => rfl⟩
    | none =>
      obtain ⟨outer, ho, h⟩ := bind_eq_ok.1 h
      cases outer with
      | none => cases h
      | some g =>
        cases h
        obtain ⟨d, -, hd⟩ := field_of_firstField ho
        exact .inl ⟨_, hd, fun h => nomatch h⟩
  case h_3 => cases h

/-- The ways in which a name has a referent. -/
inductive Means (l : Lookup) (c : Context) (name : String) : Referent → Prop where
  | parameter {digits : List Char} {r : Referent} (hm : c.inMember = false)
      (hd : Marker.digits? name = some digits) (h : parameter c digits = .ok r) : Means l c name r
  | var {v : Variable} (hm : c.inMember = false) (hs : c.localScope = true)
      (h : l.bareName name = .ok (some (.var v))) : Means l c name (.var v)
  | inScope {f : Field} {r : Referent} (hm : c.inMember = false) (hs : c.localScope = true)
      (h : l.bareName name = .ok (some (.field f)))
      (ha : access c name (c.receiver.any Referent.isThis) f = .ok r) : Means l c name r
  | field {f : Field} {onReceiver : Bool} {r : Referent}
      (h : l.findField name (c.receiverType?.getD .none) = .ok (some (f, onReceiver)))
      (ha : access c name onReceiver f = .ok r) : Means l c name r
  | className {k : ClassSymbol} (h : l.classNamed name = .ok (some k)) : Means l c name (.className k.selfType)

theorem means_of_fieldOrClass {name : String} {r : Referent} (h : l.fieldOrClass c name = .ok r) :
    l.Means c name r := by
  unfold fieldOrClass at h
  split at h
  · cases h
  · obtain ⟨found, hf, h⟩ := bind_eq_ok.1 h
    rcases found with _ | ⟨f, onReceiver⟩
    · obtain ⟨known, hk, h⟩ := bind_eq_ok.1 h
      rw [asked_eq_ok] at hk
      cases known with
      | some k => cases h; exact .className hk
      | none => dsimp only at h; split at h <;> cases h
    · exact .field hf h

theorem means_of_named {name : String} {r : Referent} (h : l.named c name = .ok r) : l.Means c name r := by
  unfold named at h
  split at h
  case h_1 digits hd =>
    split at hd
    · cases hd
    next hm => exact .parameter (by simpa using hm) hd h
  case h_2 =>
    split at h
    next => exact means_of_fieldOrClass h
    next hc =>
      obtain ⟨hm, hs⟩ : c.inMember = false ∧ c.localScope = true := by simpa using hc
      obtain ⟨found, hf, h⟩ := bind_eq_ok.1 h
      rw [asked_eq_ok] at hf
      rcases found with _ | (v | f)
      · exact means_of_fieldOrClass h
      · cases h; exact .var hm hs hf
      · exact .inScope hm hs hf h

/-- What an argument may become on the way into a call. -/
inductive Boxed (l : Lookup) (actual : Referent) : Referent → Prop where
  | asIs : Boxed l actual actual
  | called {formal : Ty} {m : Method} (h : l.valueOf formal = some m) :
      Boxed l actual (.call formal m (.className formal) [actual])

theorem boxed_of_box {text : String} {formal : Ty} {actual passed : Referent}
    (h : l.box text formal actual = .ok passed) : l.Boxed actual passed := by
  unfold box at h
  split at h
  · split at h
    · cases h; exact .called ‹_›
    · cases h
  · cases h; exact .asIs

theorem boxed_of_boxAll {text : String} :
    ∀ {formals : List Ty} {actuals passed : List Referent}, l.boxAll text formals actuals = .ok passed →
      List.Forall₂ l.Boxed actuals passed
  | [], actuals, passed, h => by
    cases h
    exact List.forall₂_same.2 fun _ _ => .asIs
  | _ :: _, [], passed, h => by cases h; exact .nil
  | t :: ts, a :: as, passed, h => by
    obtain ⟨b, hb, h⟩ := bind_eq_ok.1 h
    obtain ⟨bs, hbs, h⟩ := bind_eq_ok.1 h
    cases h
    exact .cons (boxed_of_box hb) (boxed_of_boxAll hbs)

theorem method_of_firstMethod {text name : String} {types : List Ty} {m : Method} {ds : List ClassType}
    (h : l.firstMethod text name types ds = .ok (some m)) : ∃ d ∈ ds, l.method name d.toTy types = .ok (some m) := by
  induction ds with
  | nil => cases h
  | cons d ds ih =>
    obtain ⟨found, hf, h⟩ := bind_eq_ok.1 h
    rw [asked_eq_ok] at hf
    split at h
    · cases h; exact ⟨d, by simp, hf⟩
    · obtain ⟨d', hd', hm⟩ := ih h
      exact ⟨d', by simp [hd'], hm⟩

/-- The types on which a method is looked for: that of the receiver, and those of the classes around it. -/
def methodTypes (l : Lookup) (receiver : Ty) : List Ty :=
  receiver :: ((receiver.class?.map l.enclosing).getD []).map ClassType.toTy

theorem method_of_answeredMethod {text name : String} {receiver : Ty} {types : List Ty} {m : Method}
    (h : l.answeredMethod text name receiver types = .ok (some m)) :
    ∃ t ∈ l.methodTypes receiver, l.method name t types = .ok (some m) := by
  unfold answeredMethod at h
  split at h
  · exact ⟨_, List.mem_cons_self, asked_eq_ok.1 h⟩
  · obtain ⟨d, hd, hm⟩ := method_of_firstMethod h
    refine ⟨d.toTy, ?_, hm⟩
    rcases List.mem_cons.1 hd with rfl | hd
    · exact List.mem_cons_self
    · exact List.mem_cons_of_mem _ (List.mem_map_of_mem hd)
  · cases h

/-- The method of a call is no constructor, and the service has chosen it for these arguments. -/
theorem method_of_findMethod {text name : String} {receiver : Ty} {types : List Ty} {m : Method}
    (h : l.findMethod text name receiver types = .ok m) :
    m.isMethod = true ∧ ∃ t ∈ l.methodTypes receiver, l.method name t types = .ok (some m) := by
  obtain ⟨found, hf, h⟩ := bind_eq_ok.1 h
  cases found with
  | none => cases h
  | some n =>
    dsimp only at h
    split at h
    next hm => cases h; exact ⟨hm, method_of_answeredMethod hf⟩
    next => cases h

theorem invoke_eq_ok {text name : String} {actuals : List Referent} {r : Referent}
    (h : l.invoke c text name actuals = .ok r) :
    ∃ m passed,
      l.findMethod text name (c.receiverType?.getD .none) (actuals.map fun a => a.type?.getD .none) = .ok m ∧
      l.boxAll text m.parameterTypes actuals = .ok passed ∧
      if m.isStatic then r = .call m.returns m (.className m.owner) passed
      else (c.receiver.getD (.this none)).isClassName = false ∧
        r = .call (l.returnType m (c.receiverType?.getD .none)) m (c.receiver.getD (.this none)) passed := by
  unfold invoke at h
  obtain ⟨m, hm, h⟩ := bind_eq_ok.1 h
  obtain ⟨passed, hp, h⟩ := bind_eq_ok.1 h
  refine ⟨m, passed, hm, hp, ?_⟩
  cases hs : m.isStatic <;> simp only [hs, if_true, if_false, Bool.false_eq_true] at h ⊢
  · cases hr : (c.receiver.getD (.this none)).isClassName <;> simp only [hr] at h
    · exact ⟨rfl, (pure_eq_ok.1 h).symm⟩
    · cases h
  · exact (pure_eq_ok.1 h).symm

end AnnotationExpr.Lookup
