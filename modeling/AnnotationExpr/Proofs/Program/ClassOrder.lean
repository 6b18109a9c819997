import AnnotationExpr.Proofs.Program.Numbers

/-!
Classes in another order. A class that is described may change places with the one before it unless that is around it,
so every order in which the classes around a class come before it can be had from every other; on the way nothing
changes but the numbers of variables.
-/

namespace AnnotationExpr

/-- The description may stand before the other one. -/
structure ClassDescription.Before (c later : ClassDescription) : Prop where
  name : c.qualifiedName ≠ later.qualifiedName
  enclosing : c.enclosing ≠ some later.qualifiedName

theorem ClassDescription.of_outline {c : ClassDescription} {o : ClassOutline} (h : c.outline = .ok o) :
    o.qualifiedName = c.qualifiedName ∧ o.enclosing = c.enclosing := by
  unfold outline at h
  obtain ⟨superclass, -, h⟩ := bind_eq_ok.1 h
  obtain ⟨interfaces, -, h⟩ := bind_eq_ok.1 h
  obtain ⟨fields, -, h⟩ := bind_eq_ok.1 h
  obtain ⟨methods, -, h⟩ := bind_eq_ok.1 h
  rw [← pure_eq_ok.1 h]
  exact ⟨rfl, rfl⟩

namespace Program

variable {p q r p' : Program}

/-- The programs have taken as many numbers, and are the same but for those. -/
structure Rearranged (p q : Program) : Prop where
  lastId : q.lastId = p.lastId
  renumbered : ∃ ρ : Equiv.Perm Nat, (∀ n, p.lastId < n → ρ n = n) ∧ p.Renumbered ρ q

theorem Rearranged.refl (h : p.Numbered) : p.Rearranged p :=
  have hfixed : ∀ n ≤ p.lastId, (1 : Equiv.Perm Nat) n = n := fun _ _ => rfl
  ⟨rfl, 1, fun _ _ => rfl,
    ⟨fun name => (h.renumber_class? hfixed name).symm, fun _ => .rfl, rfl, (h.renumber_scopes hfixed).symm⟩⟩

theorem Rearranged.trans (h : p.Rearranged q) (h' : q.Rearranged r) : p.Rearranged r := by
  obtain ⟨hlast, ρ, hρ, hpq⟩ := h
  obtain ⟨hlast', τ, hτ, hqr⟩ := h'
  refine ⟨hlast'.trans hlast, τ * ρ, fun n hn => ?_, hpq.trans hqr⟩
  rw [Equiv.Perm.mul_apply, hρ n hn, hτ n (hlast ▸ hn)]

/-- A class that can be added to one of two such programs can be added to the other, and they stay such programs. -/
theorem Rearranged.addClass (h : p.Rearranged q) {c : ClassDescription} (hc : p.addClass c = .ok p') :
    ∃ q', q.addClass c = .ok q' ∧ p'.Rearranged q' := by
  obtain ⟨o, ho, houter, rfl⟩ := addClass_eq_ok.1 hc
  obtain ⟨hlast, ρ, hρ, hpq⟩ := h
  have houter' : ∀ outer ∈ c.enclosing, (q.class? outer).isSome := by
    intro outer hmem
    rw [hpq.class?, Option.isSome_map]
    exact houter outer hmem
  have hmoves : Moves ρ p.lastId q.lastId (MethodOutline.idCount o.methods) := by
    intro k hk _
    rw [hlast, hρ _ (by omega)]
  refine ⟨q.declare o, addClass_eq_ok.2 ⟨o, ho, houter', rfl⟩, congrArg (· + _) hlast, ρ, fun n hn => ?_,
    hpq.declare hmoves⟩
  exact hρ n (Nat.lt_of_le_of_lt (Nat.le_add_right _ _) hn)

theorem foldlM_cons_eq_ok {c : ClassDescription} {cs : List ClassDescription} :
    (c :: cs).foldlM addClass p = .ok p' ↔ ∃ q, p.addClass c = .ok q ∧ cs.foldlM addClass q = .ok p' := by
  rw [List.foldlM_cons]
  exact bind_eq_ok

theorem Rearranged.foldlM (h : p.Rearranged q) {cs : List ClassDescription} (hcs : cs.foldlM Program.addClass p = .ok p') :
    ∃ q', cs.foldlM Program.addClass q = .ok q' ∧ p'.Rearranged q' := by
  induction cs generalizing p q with
  | nil => cases hcs; exact ⟨q, rfl, h⟩
  | cons c cs ih =>
    obtain ⟨p₁, hp₁, hcs⟩ := foldlM_cons_eq_ok.1 hcs
    obtain ⟨q₁, hq₁, h₁⟩ := h.addClass hp₁
    obtain ⟨q', hq', h'⟩ := ih h₁ hcs
    exact ⟨q', foldlM_cons_eq_ok.2 ⟨q₁, hq₁, hq'⟩, h'⟩

theorem Numbered.addClass (h : p.Numbered) {c : ClassDescription} (hc : p.addClass c = .ok p') : p'.Numbered := by
  obtain ⟨o, -, -, rfl⟩ := addClass_eq_ok.1 hc
  exact h.declare o

/-- Two descriptions of which either may stand before the other can change places. -/
theorem Numbered.addClass_addClass (h : p.Numbered) {c c' : ClassDescription} (hcc : c.Before c') (hcc' : c'.Before c)
    (hc : p.addClass c = .ok q) (hc' : q.addClass c' = .ok r) :
    ∃ q' r', p.addClass c' = .ok q' ∧ q'.addClass c = .ok r' ∧ r.Rearranged r' := by
  obtain ⟨o, ho, houter, rfl⟩ := addClass_eq_ok.1 hc
  obtain ⟨o', ho', houter', rfl⟩ := addClass_eq_ok.1 hc'
  obtain ⟨hname, henclosing⟩ := ClassDescription.of_outline ho
  obtain ⟨hname', henclosing'⟩ := ClassDescription.of_outline ho'
  have hfirst : ∀ outer ∈ c'.enclosing, (p.class? outer).isSome := by
    intro outer hmem
    have hne : o.qualifiedName ≠ outer := fun heq => hcc'.enclosing (hname ▸ heq ▸ hmem)
    have hsome := houter' outer hmem
    rwa [class?_declare, if_neg hne] at hsome
  have hsecond : ∀ outer ∈ c.enclosing, ((p.declare o').class? outer).isSome := by
    intro outer hmem
    rw [class?_declare]
    split
    · rfl
    · exact houter outer hmem
  have hne : o.qualifiedName ≠ o'.qualifiedName := by
    rw [hname, hname']
    exact hcc.name
  have hout : o.enclosing ≠ some o'.qualifiedName := by
    rw [henclosing, hname']
    exact hcc.enclosing
  have hout' : o'.enclosing ≠ some o.qualifiedName := by
    rw [henclosing', hname]
    exact hcc'.enclosing
  refine ⟨p.declare o', (p.declare o').declare o, addClass_eq_ok.2 ⟨o', ho', hfirst, rfl⟩,
    addClass_eq_ok.2 ⟨o, ho, hsecond, rfl⟩, Nat.add_right_comm _ _ _, _, fun n hn => exchange_of_lt hn,
    h.declare_declare hne hout hout'⟩

/-- A description goes past all those before it that may as well stand after it. -/
theorem Numbered.foldlM_middle (h : p.Numbered) {c : ClassDescription} {before after : List ClassDescription}
    (hbefore : ∀ b ∈ before, b.Before c ∧ c.Before b) (hp' : (before ++ c :: after).foldlM Program.addClass p = .ok p') :
    ∃ q', (c :: (before ++ after)).foldlM Program.addClass p = .ok q' ∧ p'.Rearranged q' := by
  induction before generalizing p with
  | nil =>
    have hnumbered : p'.Numbered := foldlM_keeps (fun _ _ _ hp hc => hp.addClass hc) h hp'
    exact ⟨p', hp', .refl hnumbered⟩
  | cons b before ih =>
    obtain ⟨⟨hbc, hcb⟩, hbefore⟩ := List.forall_mem_cons.1 hbefore
    obtain ⟨p₁, hb, hp'⟩ := foldlM_cons_eq_ok.1 hp'
    obtain ⟨q₁, hq₁, hsame⟩ := ih (h.addClass hb) hbefore hp'
    obtain ⟨p₂, hc, hrest⟩ := foldlM_cons_eq_ok.1 hq₁
    obtain ⟨r₁, r₂, hc', hb', hsame'⟩ := h.addClass_addClass hbc hcb hb hc
    obtain ⟨q', hrest', hsame''⟩ := hsame'.foldlM hrest
    exact ⟨q', foldlM_cons_eq_ok.2 ⟨r₁, hc', foldlM_cons_eq_ok.2 ⟨r₂, hb', hrest'⟩⟩, hsame.trans hsame''⟩

theorem Numbered.foldlM_perm (h : p.Numbered) {cs cs' : List ClassDescription} (hperm : cs'.Perm cs)
    (hcs : cs.Pairwise ClassDescription.Before) (hcs' : cs'.Pairwise ClassDescription.Before)
    (hp' : cs.foldlM Program.addClass p = .ok p') : ∃ q', cs'.foldlM Program.addClass p = .ok q' ∧ p'.Rearranged q' := by
  induction cs' generalizing p p' cs with
  | nil =>
    rw [List.nil_perm.1 hperm] at hp'
    cases hp'
    exact ⟨p, rfl, .refl h⟩
  | cons c cs' ih =>
    obtain ⟨before, after, rfl⟩ := List.append_of_mem (hperm.subset List.mem_cons_self)
    have hrest : cs'.Perm (before ++ after) := (hperm.trans List.perm_middle).cons_inv
    obtain ⟨hc, hcs'⟩ := List.pairwise_cons.1 hcs'
    have hbefore : ∀ b ∈ before, b.Before c ∧ c.Before b := fun b hb =>
      ⟨(List.pairwise_append.1 hcs).2.2 b hb c List.mem_cons_self,
        hc b (hrest.mem_iff.2 (List.mem_append_left _ hb))⟩
    obtain ⟨q₁, hq₁, hsame⟩ := h.foldlM_middle hbefore hp'
    obtain ⟨p₁, hp₁, hq₁⟩ := foldlM_cons_eq_ok.1 hq₁
    have hsublist : (before ++ after).Sublist (before ++ c :: after) :=
      (List.sublist_cons_self c after).append_left before
    obtain ⟨q', hq', hsame'⟩ := ih (h.addClass hp₁) hrest (hcs.sublist hsublist) hcs' hq₁
    exact ⟨q', foldlM_cons_eq_ok.2 ⟨p₁, hp₁, hq'⟩, hsame.trans hsame'⟩

end Program

/-- The same classes in another order. In both, no class has the name of another, and those around a class come
before it. -/
structure Description.Reordered (d d' : Description) : Prop where
  imports : d'.imports = d.imports
  classes : d'.classes.Perm d.classes
  names : (d.classes.map (·.qualifiedName)).Nodup
  outerFirst : d.classes.Pairwise fun c later => c.enclosing ≠ some later.qualifiedName
  outerFirst' : d'.classes.Pairwise fun c later => c.enclosing ≠ some later.qualifiedName

variable {d d' : Description}

theorem Description.Reordered.symm (h : d.Reordered d') : d'.Reordered d :=
  ⟨h.imports.symm, h.classes.symm, (h.classes.map _).nodup_iff.2 h.names, h.outerFirst', h.outerFirst⟩

theorem Description.Reordered.before (h : d.Reordered d') : d.classes.Pairwise ClassDescription.Before :=
  ((List.pairwise_map.1 h.names).and h.outerFirst).imp fun hboth => ⟨hboth.1, hboth.2⟩

theorem Description.Reordered.load (h : d.Reordered d') {p : Program} (hp : Program.load d = .ok p) :
    ∃ q, Program.load d' = .ok q ∧ p.Rearranged q := by
  have hstart : Program.Numbered { Program.initial with imports := d.imports } :=
    ⟨Program.numbered_initial.methods, Program.numbered_initial.scopes⟩
  unfold Program.load
  rw [h.imports]
  exact hstart.foldlM_perm h.classes h.before h.symm.before hp

/-- Of two orders of the classes one can be loaded if the other can, and wherever the programs are entered, a text has
the same error or the same referent, up to one renumbering of variables. -/
theorem Description.Reordered.same_referents (h : d.Reordered d') :
    ((∃ p, Program.load d = .ok p) ↔ ∃ q, Program.load d' = .ok q) ∧
      ∀ p q, Program.load d = .ok p → Program.load d' = .ok q → ∃ ρ : Equiv.Perm Nat, ∀ places r,
        Command.referent (q.visited places) r = (·.renumber ρ) <$> Command.referent (p.visited places) r := by
  refine ⟨⟨fun ⟨p, hp⟩ => ?_, fun ⟨q, hq⟩ => ?_⟩, fun p q hp hq => ?_⟩
  · obtain ⟨q, hq, -⟩ := h.load hp
    exact ⟨q, hq⟩
  · obtain ⟨p, hp, -⟩ := h.symm.load hq
    exact ⟨p, hp⟩
  · obtain ⟨q', hq', -, ρ, -, hsame⟩ := h.load hp
    cases hq.symm.trans hq'
    exact ⟨ρ, fun places r => (hsame.visited places).referent r⟩

def shed : ClassDescription :=
  ⟨"demo", "Shed", none, false, [], none, [], [], [⟨"paint", [("coats", "int")], "void", false, false⟩]⟩

def shedDoor : ClassDescription :=
  ⟨"", "Door", some "demo.Shed", false, [], none, [], [],
    [⟨"open", [("key", "demo.Tool"), ("angle", "int")], "void", false, false⟩]⟩

def tool : ClassDescription :=
  ⟨"demo", "Tool", none, false, [], none, [], [], [⟨"fit", [("door", "demo.Shed.Door")], "void", false, false⟩]⟩

theorem reordered_shed : Description.Reordered ⟨[], [shed, shedDoor, tool]⟩ ⟨[], [tool, shed, shedDoor]⟩ where
  imports := rfl
  classes := show ([tool] ++ [shed, shedDoor]).Perm ([shed, shedDoor] ++ [tool]) from List.perm_append_comm
  names := by decide +kernel
  outerFirst := by decide +kernel
  outerFirst' := by decide +kernel

/-- Opening the door that a tool is to be fitted to. -/
def opening : Request := ⟨"#1.open(this, 90)", "demo.Tool", some "fit", false⟩

def parameterNumbers : Referent → List Nat
  | .call _ m _ _ => m.parameters.map Variable.id
  | _ => []

/-- The parameters of the method that is called have other numbers when the class of the tool comes first. -/
theorem same_referents_shed : ∃ p q, Description.Reordered ⟨[], [shed, shedDoor, tool]⟩ ⟨[], [tool, shed, shedDoor]⟩ ∧
    Program.load ⟨[], [shed, shedDoor, tool]⟩ = .ok p ∧ Program.load ⟨[], [tool, shed, shedDoor]⟩ = .ok q ∧
      (∃ ρ : Equiv.Perm Nat, ∀ places r,
        Command.referent (q.visited places) r = (·.renumber ρ) <$> Command.referent (p.visited places) r) ∧
      (Command.referent p opening).toOption.map parameterNumbers = some [12, 13] ∧
      (Command.referent q opening).toOption.map parameterNumbers = some [13, 14] := by
  obtain ⟨p, hp, hcall⟩ := of_toOption_map (f := fun p => (Command.referent p opening).toOption.map parameterNumbers)
    (show (Program.load ⟨[], [shed, shedDoor, tool]⟩).toOption.map _ = some (some [12, 13]) by decide +kernel)
  obtain ⟨q, hq, hcall'⟩ := of_toOption_map (f := fun p => (Command.referent p opening).toOption.map parameterNumbers)
    (show (Program.load ⟨[], [tool, shed, shedDoor]⟩).toOption.map _ = some (some [13, 14]) by decide +kernel)
  exact ⟨p, q, reordered_shed, hp, hq, reordered_shed.same_referents.2 p q hp hq, hcall, hcall'⟩

end AnnotationExpr
