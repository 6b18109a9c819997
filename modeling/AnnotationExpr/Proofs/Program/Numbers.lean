import AnnotationExpr.Proofs.Program.Renumbered

/-!
Numbers of variables where classes are declared. A declaration takes the numbers right after the last one, so two
declarations one after the other take two stretches of numbers, and those are exchanged when the declarations are.
-/

namespace AnnotationExpr

/-! Numbers that move together. -/

/-- The `n` numbers after `last` become, in their order, those after `last'`. -/
def Moves (ρ : Equiv.Perm Nat) (last last' n : Nat) : Prop := ∀ k, 0 < k → k ≤ n → ρ (last + k) = last' + k

theorem Moves.le {ρ : Equiv.Perm Nat} {last last' n m : Nat} (h : Moves ρ last last' n) (hm : m ≤ n) :
    Moves ρ last last' m :=
  fun k hk hkm => h k hk (hkm.trans hm)

theorem Moves.after {ρ : Equiv.Perm Nat} {last last' n m : Nat} (h : Moves ρ last last' (n + m)) :
    Moves ρ (last + n) (last' + n) m := by
  intro k hk hkm
  rw [Nat.add_assoc, Nat.add_assoc]
  exact h (n + k) (by omega) (by omega)

/-- Where a number goes when the `a` numbers after `last` change places with the `b` numbers after those. -/
def exchanged (last a b n : Nat) : Nat :=
  if n ≤ last ∨ last + a + b < n then n else if n ≤ last + a then n + b else n - a

def exchange (last a b : Nat) : Equiv.Perm Nat where
  toFun := exchanged last a b
  invFun := exchanged last b a
  left_inv n := by unfold exchanged; split_ifs <;> omega
  right_inv n := by unfold exchanged; split_ifs <;> omega

variable {last a b n : Nat}

theorem exchange_of_le (h : n ≤ last) : exchange last a b n = n := if_pos (.inl h)

theorem exchange_of_lt (h : last + a + b < n) : exchange last a b n = n := if_pos (.inr h)

theorem moves_exchange_first : Moves (exchange last a b) last (last + b) a := by
  intro k hk hka
  change exchanged last a b (last + k) = last + b + k
  unfold exchanged
  split_ifs <;> omega

theorem moves_exchange_second : Moves (exchange last a b) (last + a) last b := by
  intro k hk hkb
  change exchanged last a b (last + a + k) = last + k
  unfold exchanged
  split_ifs <;> omega

/-! Numbers of parameters. -/

variable {ρ : Equiv.Perm Nat} {last' : Nat}

theorem renumber_numbered {parameters : List (String × Ty)} (h : Moves ρ last last' parameters.length) :
    (numbered last parameters).map (·.renumber ρ) = numbered last' parameters := by
  induction parameters generalizing last last' with
  | nil => rfl
  | cons q rest ih =>
    obtain ⟨name, type⟩ := q
    have hfirst : ρ (last + 1) = last' + 1 := h 1 (by omega) (by simp)
    have hrest : Moves ρ (last + 1) (last' + 1) rest.length := Moves.after (by simpa [Nat.add_comm] using h)
    rw [numbered, numbered, List.map_cons, ih hrest, Variable.renumber, hfirst]

theorem id_le_of_mem_numbered {parameters : List (String × Ty)} {v : Variable} (h : v ∈ numbered last parameters) :
    v.id ≤ last + parameters.length := by
  induction parameters generalizing last with
  | nil => cases h
  | cons q rest ih =>
    obtain ⟨name, type⟩ := q
    rcases List.mem_cons.1 h with rfl | h
    · simp
    · have hle := ih h
      rw [List.length_cons]
      omega

namespace MethodOutline

theorem parameters_declare (m : MethodOutline) (owner : Ty) (last : Nat) :
    (m.declare owner last).parameters = numbered last m.parameters := by
  cases m <;> rfl

theorem renumber_declare {m : MethodOutline} (h : Moves ρ last last' m.parameters.length) (owner : Ty) :
    (m.declare owner last).renumber ρ = m.declare owner last' := by
  cases m <;> simp only [parameters] at h <;> simp only [Method.renumber, declare, renumber_numbered h]

theorem renumber_declareAll {ms : List MethodOutline} (h : Moves ρ last last' (idCount ms)) (owner : Ty) :
    (declareAll owner last ms).map (·.renumber ρ) = declareAll owner last' ms := by
  induction ms generalizing last last' with
  | nil => rfl
  | cons m ms ih =>
    have hm : Moves ρ last last' m.parameters.length := h.le (Nat.le_add_right _ _)
    rw [declareAll, declareAll, List.map_cons, renumber_declare hm, ih (Moves.after h)]

theorem id_le_of_mem_declareAll {owner : Ty} {ms : List MethodOutline} {m : Method} (hm : m ∈ declareAll owner last ms)
    {v : Variable} (hv : v ∈ m.parameters) : v.id ≤ last + idCount ms := by
  induction ms generalizing last with
  | nil => cases hm
  | cons o ms ih =>
    rw [idCount]
    rcases List.mem_cons.1 hm with rfl | hm
    · rw [parameters_declare] at hv
      have hle := id_le_of_mem_numbered hv
      omega
    · have hle := ih hm
      omega

end MethodOutline

def ClassOutline.qualifiedName (o : ClassOutline) : String :=
  match o.enclosing with
  | some outer => outer ++ "." ++ o.name
  | none => Text.qualify o.package o.name

namespace Program

variable {p q : Program}

theorem qualifiedName_entry (p : Program) (o : ClassOutline) : (p.entry o).qualifiedName = o.qualifiedName := by
  unfold entry ClassEntry.qualifiedName ClassOutline.qualifiedName packageOf packageIn
  cases o.enclosing <;> rfl

/-! Numbers of declarations. -/

/-- No variable has a number beyond the last one. -/
structure Numbered (p : Program) : Prop where
  methods : ∀ e ∈ p.classes, ∀ m ∈ e.methods, ∀ v ∈ m.parameters, v.id ≤ p.lastId
  scopes : ∀ s ∈ p.scopes, ∀ v ∈ s.declared, v.id ≤ p.lastId

theorem Numbered.declare (h : p.Numbered) (o : ClassOutline) : (p.declare o).Numbered := by
  have hle : p.lastId ≤ (p.declare o).lastId := Nat.le_add_right _ _
  refine ⟨fun e he m hm v hv => ?_, fun s hs v hv => (h.scopes s hs v hv).trans hle⟩
  rcases List.mem_cons.1 he with rfl | he
  · exact MethodOutline.id_le_of_mem_declareAll hm hv
  · exact (h.methods e he m hm v hv).trans hle

theorem numbered_initial : initial.Numbered := by
  refine List.foldlRecOn (motive := Numbered) builtins Program.declare ⟨by simp [empty], by simp [empty]⟩
    fun _ hp o _ => hp.declare o

theorem packageOf_congr {o : ClassOutline}
    (h : ∀ outer ∈ o.enclosing, (q.class? outer).map (·.package) = (p.class? outer).map (·.package)) :
    q.packageOf o = p.packageOf o := by
  unfold packageOf packageIn
  cases ho : o.enclosing with
  | none => rfl
  | some outer => exact congrArg (Option.getD · "") (h outer ho)

theorem renumber_entry {o : ClassOutline} (hpackage : q.packageOf o = p.packageOf o)
    (h : Moves ρ p.lastId q.lastId (MethodOutline.idCount o.methods)) : (p.entry o).renumber ρ = q.entry o := by
  unfold entry ClassEntry.renumber
  rw [hpackage]
  dsimp only
  rw [MethodOutline.renumber_declareAll h]

theorem class?_declare (p : Program) (o : ClassOutline) (name : String) :
    (p.declare o).class? name = if o.qualifiedName = name then some (p.entry o) else p.class? name := by
  rw [← p.qualifiedName_entry o]
  by_cases h : (p.entry o).qualifiedName = name
  · rw [if_pos h]
    exact List.find?_cons_of_pos (by simpa using h)
  · rw [if_neg h]
    exact List.find?_cons_of_neg (by simpa using h)

theorem packageOf_declare {o o' : ClassOutline} (h : o'.enclosing ≠ some o.qualifiedName) :
    (p.declare o).packageOf o' = p.packageOf o' := by
  refine packageOf_congr fun outer ho => ?_
  have hne : o.qualifiedName ≠ outer := fun heq => h (heq ▸ ho)
  rw [class?_declare, if_neg hne]

/-- Declared in both programs, a class keeps them the same but for the numbers. -/
theorem Renumbered.declare (h : p.Renumbered ρ q) {o : ClassOutline}
    (hm : Moves ρ p.lastId q.lastId (MethodOutline.idCount o.methods)) :
    (p.declare o).Renumbered ρ (q.declare o) := by
  have hpackage : q.packageOf o = p.packageOf o := by
    refine packageOf_congr fun outer _ => ?_
    rw [h.class?, Option.map_map]
    rfl
  refine ⟨fun name => ?_, fun name => ?_, h.imports, h.scopes⟩
  · rw [class?_declare, class?_declare, h.class?, ← renumber_entry hpackage hm]
    split <;> rfl
  · change name ∈ q.packages ++ packagesOf (q.packageOf o) ↔ name ∈ p.packages ++ packagesOf (p.packageOf o)
    rw [List.mem_append, List.mem_append, hpackage, h.mem_packages]

/-- What has no number beyond the last stays when only those are renumbered. -/
theorem Numbered.renumber_class? (h : p.Numbered) (hρ : ∀ n ≤ p.lastId, ρ n = n) (name : String) :
    (p.class? name).map (·.renumber ρ) = p.class? name := by
  cases he : p.class? name with
  | none => rfl
  | some e =>
    have hmethods : e.methods.map (·.renumber ρ) = e.methods.map id :=
      List.map_congr_left fun m hm =>
        Method.renumber_of_fixed ρ fun v hv => hρ v.id (h.methods e (mem_of_class? he) m hm v hv)
    rw [Option.map_some, ClassEntry.renumber, hmethods, List.map_id]

theorem Numbered.renumber_scopes (h : p.Numbered) (hρ : ∀ n ≤ p.lastId, ρ n = n) :
    p.scopes.map (·.renumber ρ) = p.scopes := by
  have hscope : ∀ s ∈ p.scopes, s.renumber ρ = s := by
    intro s hs
    have hdeclared : s.declared.map (·.renumber ρ) = s.declared.map id :=
      List.map_congr_left fun v hv => Variable.renumber_of_fixed ρ (hρ v.id (h.scopes s hs v hv))
    rw [Scope.renumber, hdeclared, List.map_id]
  exact (List.map_congr_left hscope).trans (List.map_id _)

/-- Two classes of which neither is around the other may be declared in either order. -/
theorem Numbered.declare_declare (h : p.Numbered) {o o' : ClassOutline} (hname : o.qualifiedName ≠ o'.qualifiedName)
    (ho : o.enclosing ≠ some o'.qualifiedName) (ho' : o'.enclosing ≠ some o.qualifiedName) :
    ((p.declare o).declare o').Renumbered
      (exchange p.lastId (MethodOutline.idCount o.methods) (MethodOutline.idCount o'.methods))
        ((p.declare o').declare o) := by
  have hpackage : (p.declare o').packageOf o = p.packageOf o := packageOf_declare ho
  have hpackage' : (p.declare o).packageOf o' = p.packageOf o' := packageOf_declare ho'
  have hfixed : ∀ n ≤ p.lastId, exchange p.lastId (MethodOutline.idCount o.methods)
      (MethodOutline.idCount o'.methods) n = n := fun n hn => exchange_of_le hn
  refine ⟨fun name => ?_, fun name => ?_, rfl, (h.renumber_scopes hfixed).symm⟩
  · rw [class?_declare, class?_declare, class?_declare, class?_declare]
    by_cases hn : o.qualifiedName = name
    · have hn' : o'.qualifiedName ≠ name := fun heq => hname (hn.trans heq.symm)
      rw [if_pos hn, if_pos hn, if_neg hn', Option.map_some, renumber_entry hpackage moves_exchange_first]
    · rw [if_neg hn, if_neg hn]
      split
      · rw [Option.map_some, renumber_entry hpackage'.symm moves_exchange_second]
      · exact (h.renumber_class? hfixed name).symm
  · change name ∈ (p.packages ++ packagesOf (p.packageOf o')) ++ packagesOf ((p.declare o').packageOf o) ↔
      name ∈ (p.packages ++ packagesOf (p.packageOf o)) ++ packagesOf ((p.declare o).packageOf o')
    rw [hpackage, hpackage', List.append_assoc, List.append_assoc]
    exact (List.Perm.append_left p.packages List.perm_append_comm).mem_iff

end Program
end AnnotationExpr
