import AnnotationExpr.Proofs.Expr.Spelling
import Mathlib.Data.List.Forall2

/-!
Expressions that differ in their places only. Tokens that say the same in the same order spell the same tree, wherever
they stand, if names that are called or are members stay names.
-/

namespace AnnotationExpr

/-- The second token says what the first does, and is a plain name if the first is. -/
structure Token.Restates (t t' : Token) : Prop where
  word : t'.word? = t.word?
  ident : t.kind = .ident → t'.kind = .ident

namespace Token.Restates

variable {t t' : Token}

theorem sign {k : Kind} (h : Restates t t') (hk : t.kind = k) (hsign : k.isSign = true) : t'.kind = k := by
  have hword : t.word? = some (.sign k) := hk ▸ word?_of_isSign (hk.symm ▸ hsign)
  exact (word?_eq_sign (h.word.trans hword)).1

theorem lexeme (h : Restates t t') (hk : t.kind = .ident) :
    t'.kind = .ident ∧ String.ofList t'.lexeme = String.ofList t.lexeme := by
  have hident := h.ident hk
  have hword := h.word
  rw [word?_of_ident hk, word?_of_ident hident] at hword
  exact ⟨hident, Word.name.inj (Option.some.inj hword)⟩

end Token.Restates

namespace Expr

open AnnotationExpr.Expr.Parser (literal?)

theorem tightness_of_unplaced {e e' : Expr} (h : e'.unplaced = e.unplaced) : e'.tightness = e.tightness := by
  rw [← tightness_mapSpans (fun _ => ⟨0, 0⟩) e', ← tightness_mapSpans (fun _ => ⟨0, 0⟩) e]
  exact congrArg tightness h

theorem dotted?_of_unplaced {e e' : Expr} (h : e'.unplaced = e.unplaced) : e'.dotted? = e.dotted? := by
  rw [← dotted?_mapSpans (fun _ => ⟨0, 0⟩) e', ← dotted?_mapSpans (fun _ => ⟨0, 0⟩) e]
  exact congrArg dotted? h

theorem Phrase.exists_expr {p : Phrase} {e : Expr} (h : p.unplaced = (Phrase.expr e).unplaced) :
    ∃ e', p = .expr e' ∧ e'.mapSpans (fun _ => ⟨0, 0⟩) = e.mapSpans fun _ => ⟨0, 0⟩ := by
  cases p with
  | expr e' => exact ⟨e', rfl, Phrase.expr.inj h⟩
  | list es => cases h

theorem Phrase.exists_list {p : Phrase} {es : List Expr} (h : p.unplaced = (Phrase.list es).unplaced) :
    ∃ es', p = .list es' ∧ mapSpansAll (fun _ => ⟨0, 0⟩) es' = mapSpansAll (fun _ => ⟨0, 0⟩) es := by
  cases p with
  | expr e => cases h
  | list es' => exact ⟨es', rfl, Phrase.list.inj h⟩

theorem forall₂_append {ts us vs : List Token} (h : List.Forall₂ Token.Restates (ts ++ us) vs) :
    ∃ ts' us', vs = ts' ++ us' ∧ List.Forall₂ Token.Restates ts ts' ∧ List.Forall₂ Token.Restates us us' :=
  ⟨_, _, (List.take_append_drop ts.length vs).symm, (List.forall₂_take_append vs ts us h.flip).flip,
    (List.forall₂_drop_append vs ts us h.flip).flip⟩

theorem Brackets.restated {n : Nat} {ts ts' : List Token} (h : Brackets n ts)
    (hs : List.Forall₂ Token.Restates ts ts') : Brackets n ts' := by
  induction h generalizing ts' with
  | zero =>
    cases hs
    exact .zero
  | succ ht hu _ ih =>
    obtain _ | ⟨hst, _ | ⟨hsu, hs⟩⟩ := hs
    exact .succ (hst.sign ht rfl) (hsu.sign hu rfl) (ih hs)

theorem Spells.restated {ts ts' : List Token} {p : Phrase} (h : Spells ts p)
    (hs : List.Forall₂ Token.Restates ts ts') : ∃ p', Spells ts' p' ∧ p'.unplaced = p.unplaced := by
  induction h generalizing ts' with
  | literal h =>
    obtain _ | ⟨hst, ⟨⟩⟩ := hs
    have hword := Token.word?_eq_literal.2 h
    exact ⟨_, .literal (Token.word?_eq_literal.1 (hst.word.trans hword)), rfl⟩
  | this h =>
    obtain _ | ⟨hst, ⟨⟩⟩ := hs
    exact ⟨_, .this (hst.sign h rfl), rfl⟩
  | super h =>
    obtain _ | ⟨hst, ⟨⟩⟩ := hs
    exact ⟨_, .super (hst.sign h rfl), rfl⟩
  | paramRef h =>
    obtain _ | ⟨hst, ⟨⟩⟩ := hs
    -- the name may be written as such now
    rcases Token.word?_eq_name (hst.word.trans (Token.word?_of_paramRef h)) with ⟨hk, hn⟩ | ⟨hk, hn⟩
    · exact ⟨_, .name hk, by rw [← hn]; rfl⟩
    · exact ⟨_, .paramRef hk, by rw [← hn]; rfl⟩
  | name h =>
    obtain _ | ⟨hst, ⟨⟩⟩ := hs
    obtain ⟨hident, hlexeme⟩ := hst.lexeme h
    exact ⟨_, .name hident, by rw [hlexeme]; rfl⟩
  | enclosed ht h hu ih =>
    obtain _ | ⟨hst, hs⟩ := hs
    obtain ⟨vs, _, rfl, hvs, _ | ⟨hsu, ⟨⟩⟩⟩ := forall₂_append hs
    obtain ⟨_, hp, hpp⟩ := ih hvs
    obtain ⟨e', rfl, heq⟩ := Phrase.exists_expr hpp
    refine ⟨_, .enclosed (hst.sign ht rfl) hp (hsu.sign hu rfl), ?_⟩
    simp only [Phrase.unplaced, Phrase.mapSpans, mapSpans, heq]
  | call ht ho h hu ih =>
    obtain _ | ⟨hst, _ | ⟨hso, hs⟩⟩ := hs
    obtain ⟨vs, _, rfl, hvs, _ | ⟨hsu, ⟨⟩⟩⟩ := forall₂_append hs
    obtain ⟨_, hp, hpp⟩ := ih hvs
    obtain ⟨es', rfl, heq⟩ := Phrase.exists_list hpp
    obtain ⟨hident, hlexeme⟩ := hst.lexeme ht
    refine ⟨_, .call hident (hso.sign ho rfl) hp (hsu.sign hu rfl), ?_⟩
    simp only [Phrase.unplaced, Phrase.mapSpans, mapSpans, hlexeme, heq]
  | field h he ht hm ih =>
    obtain ⟨vs, _, rfl, hvs, _ | ⟨hst, _ | ⟨hsm, ⟨⟩⟩⟩⟩ := forall₂_append hs
    obtain ⟨_, hp, hpp⟩ := ih hvs
    obtain ⟨e', rfl, heq⟩ := Phrase.exists_expr hpp
    obtain ⟨hident, hlexeme⟩ := hsm.lexeme hm
    refine ⟨_, .field hp (by rw [tightness_of_unplaced heq, he]) (hst.sign ht rfl) hident, ?_⟩
    simp only [Phrase.unplaced, Phrase.mapSpans, mapSpans, hlexeme, heq]
  | memberCall h he ht hm ho ha hu ih iha =>
    obtain ⟨vs, _, rfl, hvs, _ | ⟨hst, _ | ⟨hsm, _ | ⟨hso, hrest⟩⟩⟩⟩ := forall₂_append hs
    obtain ⟨ws, _, rfl, hws, _ | ⟨hsu, ⟨⟩⟩⟩ := forall₂_append hrest
    obtain ⟨_, hp, hpp⟩ := ih hvs
    obtain ⟨e', rfl, heq⟩ := Phrase.exists_expr hpp
    obtain ⟨_, hq, hqp⟩ := iha hws
    obtain ⟨es', rfl, heqs⟩ := Phrase.exists_list hqp
    obtain ⟨hident, hlexeme⟩ := hsm.lexeme hm
    refine ⟨_, .memberCall hp (by rw [tightness_of_unplaced heq, he]) (hst.sign ht rfl) hident (hso.sign ho rfl) hq
      (hsu.sign hu rfl), ?_⟩
    simp only [Phrase.unplaced, Phrase.mapSpans, mapSpans, hlexeme, heq, heqs]
  | element h he ht hi hu ih ihi =>
    obtain ⟨vs, _, rfl, hvs, _ | ⟨hst, hrest⟩⟩ := forall₂_append hs
    obtain ⟨ws, _, rfl, hws, _ | ⟨hsu, ⟨⟩⟩⟩ := forall₂_append hrest
    obtain ⟨_, hp, hpp⟩ := ih hvs
    obtain ⟨e', rfl, heq⟩ := Phrase.exists_expr hpp
    obtain ⟨_, hq, hqp⟩ := ihi hws
    obtain ⟨i', rfl, heqi⟩ := Phrase.exists_expr hqp
    refine ⟨_, .element hp (by rw [tightness_of_unplaced heq, he]) (hst.sign ht rfl) hq (hsu.sign hu rfl), ?_⟩
    simp only [Phrase.unplaced, Phrase.mapSpans, mapSpans, heq, heqi]
  | classLiteral h hd hb ht hu ih =>
    obtain ⟨vs, _, rfl, hvs, hrest⟩ := forall₂_append hs
    obtain ⟨bs, _, rfl, hbs, _ | ⟨hst, _ | ⟨hsu, ⟨⟩⟩⟩⟩ := forall₂_append hrest
    obtain ⟨_, hp, hpp⟩ := ih hvs
    obtain ⟨e', rfl, heq⟩ := Phrase.exists_expr hpp
    exact ⟨_, .classLiteral hp (by rw [dotted?_of_unplaced heq, hd]) (hb.restated hbs) (hst.sign ht rfl)
      (hsu.sign hu rfl), rfl⟩
  | @unary t ts op e ht h he ih =>
    obtain _ | ⟨hst, hrest⟩ := hs
    obtain ⟨_, hp, hpp⟩ := ih hrest
    obtain ⟨e', rfl, heq⟩ := Phrase.exists_expr hpp
    have hkind := hst.sign (UnaryOp.ofKind?_eq_some.1 ht) (by cases op <;> rfl)
    have hle : 7 ≤ e'.tightness := by rwa [tightness_of_unplaced heq]
    refine ⟨_, .unary (UnaryOp.ofKind?_eq_some.2 hkind) hp hle, ?_⟩
    simp only [Phrase.unplaced, Phrase.mapSpans, mapSpans, heq]
  | @binary t ts us op a b ha hle ht hb hlt iha ihb =>
    obtain ⟨vs, _, rfl, hvs, _ | ⟨hst, hrest⟩⟩ := forall₂_append hs
    obtain ⟨_, hp, hpp⟩ := iha hvs
    obtain ⟨a', rfl, heqa⟩ := Phrase.exists_expr hpp
    obtain ⟨_, hq, hqp⟩ := ihb hrest
    obtain ⟨b', rfl, heqb⟩ := Phrase.exists_expr hqp
    have hkind := hst.sign (BinaryOp.ofKind?_eq_some.1 ht) (by cases op <;> rfl)
    have hle' : op.precedence ≤ a'.tightness := by rwa [tightness_of_unplaced heqa]
    have hlt' : op.precedence < b'.tightness := by rwa [tightness_of_unplaced heqb]
    refine ⟨_, .binary hp hle' (BinaryOp.ofKind?_eq_some.2 hkind) hq hlt', ?_⟩
    simp only [Phrase.unplaced, Phrase.mapSpans, mapSpans, heqa, heqb]
  | none =>
    cases hs
    exact ⟨_, .none, rfl⟩
  | last h ih =>
    obtain ⟨_, hp, hpp⟩ := ih hs
    obtain ⟨e', rfl, heq⟩ := Phrase.exists_expr hpp
    refine ⟨_, .last hp, ?_⟩
    simp only [Phrase.unplaced, Phrase.mapSpans, mapSpansAll, heq]
  | @next u ts us e es h hu hes hne ih ihs =>
    obtain ⟨vs, _, rfl, hvs, _ | ⟨hsu, hrest⟩⟩ := forall₂_append hs
    obtain ⟨_, hp, hpp⟩ := ih hvs
    obtain ⟨e', rfl, heq⟩ := Phrase.exists_expr hpp
    obtain ⟨_, hq, hqp⟩ := ihs hrest
    obtain ⟨es', rfl, heqs⟩ := Phrase.exists_list hqp
    have hne' : es' ≠ [] := by
      rintro rfl
      obtain ⟨e, es, rfl⟩ := List.exists_cons_of_ne_nil hne
      cases heqs
    refine ⟨_, .next hp (hsu.sign hu rfl) hq hne', ?_⟩
    simp only [Phrase.unplaced, Phrase.mapSpans, mapSpansAll, heq, heqs]

end Expr
end AnnotationExpr
