import AnnotationExpr.Proofs.Expr.Steps

/-!
What the parser reads is spelled by the tokens it takes. The loop over binary operators keeps two facts: the
expression so far binds as tightly as is asked for, and the operator after it binds no tighter than it does.
-/

namespace AnnotationExpr.Expr.Parser

variable {stop : Span}

theorem Calm.mono {least greater : Nat} {ts : List Token} (h : Calm least ts) (hle : least ≤ greater) :
    Calm greater ts :=
  fun t ht op hop => Nat.lt_of_lt_of_le (h t ht op hop) hle

theorem calm_of_lt {least : Nat} (h : 6 < least) (ts : List Token) : Calm least ts :=
  fun _ _ op _ => Nat.lt_of_le_of_lt op.precedence_le h

theorem exists_of_not_calm {least : Nat} {ts : List Token} (h : ¬ Calm least ts) :
    ∃ t rest op, ts = t :: rest ∧ BinaryOp.ofKind? t.kind = some op ∧ least ≤ op.precedence := by
  cases ts with
  | nil => exact absurd (fun t ht => nomatch ht) h
  | cons t rest =>
    by_contra hn
    refine h fun t' ht' op hop => ?_
    cases ht'
    exact Nat.not_le.1 fun hle => hn ⟨t, rest, op, rfl, hop, hle⟩

mutual

theorem spells_of_binary {least : Nat} {ts rest : List Token} {e : Expr} (hleast : least ≤ 7)
    (h : Gives (binary stop least ts) e rest) :
    ∃ us, ts = us ++ rest ∧ Spells us (.expr e) ∧ least ≤ e.tightness ∧ Calm least rest := by
  obtain ⟨left, mid, hleft, hclimb⟩ := gives_binary.1 h
  have := hleft.bound
  obtain ⟨us, hts, hus, htight⟩ := spells_of_unary hleft
  have hle : least ≤ left.tightness := hleast.trans htight
  have hnext : Calm (left.tightness + 1) mid := calm_of_lt (Nat.lt_succ_of_lt htight) mid
  obtain ⟨vs, hmid, hvs, hle', hcalm⟩ := spells_of_climb hleast hus hle hnext hclimb
  exact ⟨us ++ vs, by simp [hts, hmid], hvs, hle', hcalm⟩
termination_by 8 * ts.length + 4

theorem spells_of_climb {least : Nat} {us ts rest : List Token} {left e : Expr} (hleast : least ≤ 7)
    (hleft : Spells us (.expr left)) (hle : least ≤ left.tightness) (hnext : Calm (left.tightness + 1) ts)
    (h : Gives (climb stop least left ts) e rest) :
    ∃ vs, ts = vs ++ rest ∧ Spells (us ++ vs) (.expr e) ∧ least ≤ e.tightness ∧ Calm least rest := by
  by_cases hcalm : Calm least ts
  · obtain ⟨rfl, rfl⟩ := (gives_climb_calm hcalm).1 h
    exact ⟨[], rfl, by simpa using hleft, hle, hcalm⟩
  · obtain ⟨t, ts', op, rfl, hop, hleop⟩ := exists_of_not_calm hcalm
    obtain ⟨right, mid, hright, hclimb⟩ := (gives_climb_cons hop hleop).1 h
    have := hright.bound
    obtain ⟨vs, hts, hvs, hlt, hcalm'⟩ := spells_of_binary (Nat.succ_le_succ op.precedence_le) hright
    -- the operator that is next binds no tighter than `op`, which is now the outermost one
    have hwhole := Spells.binary hleft (Nat.lt_succ_iff.1 (hnext t rfl op hop)) hop hvs (Nat.lt_of_succ_le hlt)
    obtain ⟨ws, hmid, hws, hle', hcalm''⟩ := spells_of_climb hleast hwhole hleop hcalm' hclimb
    exact ⟨t :: (vs ++ ws), by simp [hts, hmid], by simpa using hws, hle', hcalm''⟩
termination_by 8 * ts.length
decreasing_by all_goals subst_vars; simp only [List.length_cons]; omega

theorem spells_of_unary {ts rest : List Token} {e : Expr} (h : Gives (unary stop ts) e rest) :
    ∃ us, ts = us ++ rest ∧ Spells us (.expr e) ∧ 7 ≤ e.tightness := by
  cases ts with
  | nil => exact absurd h.bound (by simp)
  | cons t ts =>
    cases hop : UnaryOp.ofKind? t.kind with
    | some op =>
      obtain ⟨operand, rfl, hoperand⟩ := (gives_unary_sign hop).1 h
      obtain ⟨us, hts, hus, htight⟩ := spells_of_unary hoperand
      exact ⟨t :: us, by simp [hts], .unary hop hus htight, le_refl 7⟩
    | none =>
      obtain ⟨base, mid, hbase, hsuffixes⟩ := (gives_unary hop).1 h
      have := hbase.bound
      obtain ⟨us, hts, hus, htight⟩ := spells_of_primary hbase
      obtain ⟨vs, hmid, hvs, htight'⟩ := spells_of_suffixes hus htight hsuffixes
      exact ⟨us ++ vs, by simp [hts, hmid], hvs, by simp [htight']⟩
termination_by 8 * ts.length + 3
decreasing_by all_goals subst_vars; simp only [List.length_cons]; omega

theorem spells_of_suffixes {us ts rest : List Token} {base e : Expr} (hbase : Spells us (.expr base))
    (htight : base.tightness = 8) (h : Gives (suffixes stop base ts) e rest) :
    ∃ vs, ts = vs ++ rest ∧ Spells (us ++ vs) (.expr e) ∧ e.tightness = 8 := by
  by_cases hbare : Bare ts
  · obtain ⟨rfl, rfl⟩ := (gives_suffixes_bare hbare).1 h
    exact ⟨[], rfl, by simpa using hbase, htight⟩
  · obtain ⟨base', mid, hs, hsuffixes⟩ := suffix_of_gives hbare h
    cases hs with
    | @field t m _ ht hm _ =>
      obtain ⟨vs, hmid, hvs, he⟩ := spells_of_suffixes (.field hbase htight ht hm) rfl hsuffixes
      exact ⟨t :: m :: vs, by simp [hmid], by simpa using hvs, he⟩
    | @memberCall t m ts' _ es last ht hm hts ha =>
      have := ha.bound
      obtain ⟨o, as, u, hts', ho, hu, rfl, has⟩ := spells_of_arguments ha
      obtain ⟨vs, hmid, hvs, he⟩ := spells_of_suffixes (.memberCall hbase htight ht hm ho has hu) rfl hsuffixes
      exact ⟨t :: m :: o :: (as ++ u :: vs), by simp [hts', hmid], by simpa using hvs, he⟩
    | @element t u ts' _ index ht hts hi hu =>
      have : mid.length + 1 < ts'.length := hi.bound
      obtain ⟨is, hts', his, -⟩ := spells_of_binary (by decide) hi
      obtain ⟨vs, hmid, hvs, he⟩ := spells_of_suffixes (.element hbase htight ht his hu) rfl hsuffixes
      exact ⟨t :: (is ++ u :: vs), by simp [hts', hmid], by simpa using hvs, he⟩
    | @classLiteral t u bs _ n root members hb ht hu hd =>
      obtain ⟨vs, hmid, hvs, he⟩ := spells_of_suffixes (.classLiteral hbase hd hb ht hu) rfl hsuffixes
      exact ⟨bs ++ t :: u :: vs, by simp [hmid], by simpa using hvs, he⟩
termination_by 8 * ts.length
decreasing_by all_goals subst_vars; simp only [List.length_cons, List.length_append]; omega

theorem spells_of_arguments {ts rest : List Token} {es : List Expr} {last : Span}
    (h : Gives (arguments stop ts) (es, last) rest) :
    ∃ o us u, ts = o :: (us ++ u :: rest) ∧ o.kind = .lparen ∧ u.kind = .rparen ∧ last = u.span ∧
      Spells us (.list es) := by
  obtain ⟨o, mid, rfl, ho, ⟨u, rfl, hu, rfl, rfl⟩ | ⟨-, hlist⟩⟩ := gives_arguments.1 h
  · exact ⟨o, [], u, rfl, ho, hu, rfl, .none⟩
  · obtain ⟨us, u, hmid, hu, rfl, hus, -⟩ := spells_of_list hlist
    exact ⟨o, us, u, by simp [hmid], ho, hu, rfl, hus⟩
termination_by 8 * ts.length
decreasing_by all_goals subst_vars; simp only [List.length_cons]; omega

theorem spells_of_list {ts rest : List Token} {es : List Expr} {last : Span}
    (h : Gives (list stop ts) (es, last) rest) :
    ∃ us u, ts = us ++ u :: rest ∧ u.kind = .rparen ∧ last = u.span ∧ Spells us (.list es) ∧ es ≠ [] := by
  obtain ⟨e, mid, he, hmore⟩ := gives_list.1 h
  have := he.bound
  obtain ⟨us, hts, hus, -⟩ := spells_of_binary (by decide) he
  obtain ⟨u, rfl, hu, rfl, rfl⟩ | ⟨u, mid', es', rfl, hu, rfl, hlist⟩ := hmore
  · exact ⟨us, u, hts, hu, rfl, .last hus, by simp⟩
  · obtain ⟨vs, v, hmid, hv, rfl, hvs, hne⟩ := spells_of_list hlist
    exact ⟨us ++ u :: vs, v, by simp [hts, hmid], hv, rfl, .next hus hu hvs hne, by simp⟩
termination_by 8 * ts.length + 5
decreasing_by all_goals subst_vars; simp only [List.length_cons] at *; omega

theorem spells_of_primary {t : Token} {ts rest : List Token} {e : Expr} (h : Gives (primary stop t ts) e rest) :
    ∃ us, t :: ts = us ++ rest ∧ Spells us (.expr e) ∧ e.tightness = 8 := by
  cases head_of_gives h with
  | literal ht => exact ⟨[t], rfl, .literal ht, rfl⟩
  | this ht => exact ⟨[t], rfl, .this ht, rfl⟩
  | super ht => exact ⟨[t], rfl, .super ht, rfl⟩
  | paramRef ht => exact ⟨[t], rfl, .paramRef ht, rfl⟩
  | name ht => exact ⟨[t], rfl, .name ht, rfl⟩
  | call ht _ ha =>
    obtain ⟨o, as, u, hts, ho, hu, rfl, has⟩ := spells_of_arguments ha
    exact ⟨t :: o :: (as ++ [u]), by simp [hts], .call ht ho has hu, rfl⟩
  | @enclosed _ _ u _ ht hi hu =>
    obtain ⟨is, hts, his, -⟩ := spells_of_binary (by decide) hi
    exact ⟨t :: (is ++ [u]), by simp [hts], .enclosed ht his hu, rfl⟩
termination_by 8 * ts.length + 6

end

theorem root_eq_ok {ts : List Token} {e : Expr} : root stop ts = .ok e ↔ Gives (binary stop 1 ts) e [] := by
  constructor
  · intro h
    obtain ⟨⟨e', rest, hrest⟩, hp, h⟩ := bind_eq_ok.1 h
    cases rest with
    | nil =>
      cases h
      exact ⟨hrest, hp⟩
    | cons t rest => cases h
  · rintro ⟨hrest, hp⟩
    exact bind_eq_ok.2 ⟨_, hp, rfl⟩

theorem spells_of_root {ts : List Token} {e : Expr} (h : root stop ts = .ok e) : Spells ts (.expr e) := by
  obtain ⟨us, rfl, hus, -⟩ := spells_of_binary (by decide) (root_eq_ok.1 h)
  simpa using hus

/-- An expression is spelled by all the tokens of its text. -/
theorem spells_of_read {text : String} {e : Expr} (h : Expr.read text = .ok e) :
    ∃ ts, Token.scan text = .ok ts ∧ Spells ts (.expr e) := by
  obtain ⟨ts, hts, h⟩ := bind_eq_ok.1 h
  exact ⟨ts, hts, spells_of_root h⟩

end AnnotationExpr.Expr.Parser
