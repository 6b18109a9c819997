import AnnotationExpr.Proofs.Expr.Complete
import AnnotationExpr.Proofs.Expr.Tokens
import Mathlib.Data.String.Basic

/-!
The places that a tree records. Each node reaches from the start of its first token to the end of its last, and the
part of the text there is read as that node, with its places counted from its own start.
-/

namespace AnnotationExpr

namespace Span

/-- The part of a text at a place. -/
def slice (s : Span) (text : String) : String := String.Pos.Raw.extract text ⟨s.offset⟩ ⟨s.stop⟩

@[simp] theorem offset_join (a b : Span) : (a.join b).offset = a.offset := rfl

theorem stop_join {a b : Span} (h : a.offset ≤ b.stop) : (a.join b).stop = b.stop :=
  Nat.add_sub_cancel' h

theorem offset_le_stop (s : Span) : s.offset ≤ s.stop := Nat.le_add_right _ _

theorem since_join {k : Nat} {a b : Span} (ha : k ≤ a.offset) (hb : k ≤ b.offset) :
    (a.join b).since k = (a.since k).join (b.since k) := by
  simp only [join, since, stop, Span.mk.injEq, true_and]
  omega

theorem slice_eq {s : Span} {text : String} {before part after : List Char}
    (htext : text.toList = before ++ part ++ after) (hoffset : s.offset = Token.byteLength before)
    (hstop : s.stop = Token.byteLength before + Token.byteLength part) : s.slice text = String.ofList part := by
  have hbytes (s : List Char) : Token.byteLength s = String.utf8Len s := by
    induction s with
    | nil => rfl
    | cons c s ih => rw [Token.byteLength, ih, String.utf8Len, Nat.add_comm]
  have htext : text = String.ofList (before ++ part ++ after) := by rw [← htext, String.ofList_toList]
  rw [slice, hoffset, hstop, htext, hbytes, hbytes]
  exact String.extract_of_valid before part after

end Span

namespace Expr

/-- An expression starts where its first token does. -/
theorem Spells.offset {ts : List Token} {e : Expr} (h : Spells ts (.expr e)) :
    ∃ t, ts.head? = some t ∧ e.span.offset = t.span.offset := by
  generalize hp : Phrase.expr e = p at h
  induction h generalizing e with
  | none | last | next => cases hp
  | literal | this | super | paramRef | name | enclosed | call | unary =>
    cases hp
    exact ⟨_, rfl, rfl⟩
  | field _ _ _ _ ih | memberCall _ _ _ _ _ _ _ ih | element _ _ _ _ _ ih | classLiteral _ _ _ _ _ ih
  | binary _ _ _ _ _ ih =>
    cases hp
    obtain ⟨t, ht, hoffset⟩ := ih rfl
    exact ⟨t, by rw [List.head?_append, ht]; rfl, hoffset⟩

theorem Spells.stop_of_join {ts : List Token} {e : Expr} {a b : Span} {last : Token} (h : Spells ts (.expr e))
    (hts : ts.Pairwise fun t u => t.span.offset ≤ u.span.offset) (he : e.span = a.join b)
    (hlast : ts.getLast? = some last) (hb : b.stop = last.span.stop) : e.span.stop = last.span.stop := by
  obtain ⟨first, hfirst, hoffset⟩ := h.offset
  obtain ⟨rest, rfl⟩ := List.head?_eq_some_iff.1 hfirst
  have hle : first.span.offset ≤ last.span.offset := by
    rcases List.mem_cons.1 (List.mem_of_getLast? hlast) with rfl | hmem
    · exact Nat.le_refl _
    · exact List.rel_of_pairwise_cons hts hmem
  rw [he, Span.offset_join] at hoffset
  rw [he, Span.stop_join, hb]
  rw [hoffset, hb]
  exact Nat.le_trans hle last.span.offset_le_stop

/-- An expression ends where its last token does. -/
theorem Spells.stop {ts : List Token} {e : Expr} (h : Spells ts (.expr e))
    (hts : ts.Pairwise fun t u => t.span.offset ≤ u.span.offset) :
    ∃ t, ts.getLast? = some t ∧ e.span.stop = t.span.stop := by
  generalize hp : Phrase.expr e = p at h
  induction h generalizing e with
  | none | last | next => cases hp
  | literal | this | super | paramRef | name =>
    cases hp
    exact ⟨_, rfl, rfl⟩
  | @enclosed t u ts e ht h hu =>
    cases hp
    have hlast : (t :: (ts ++ [u])).getLast? = some u := by simp [List.getLast?_cons]
    exact ⟨u, hlast, (Spells.enclosed ht h hu).stop_of_join hts rfl hlast rfl⟩
  | @call t o u ts es ht ho h hu =>
    cases hp
    have hlast : (t :: o :: (ts ++ [u])).getLast? = some u := by simp [List.getLast?_cons]
    exact ⟨u, hlast, (Spells.call ht ho h hu).stop_of_join hts rfl hlast rfl⟩
  | @field t m ts e h he ht hm =>
    cases hp
    have hlast : (ts ++ [t, m]).getLast? = some m := by simp
    exact ⟨m, hlast, (Spells.field h he ht hm).stop_of_join hts rfl hlast rfl⟩
  | @memberCall t m o u ts us e es h he ht hm ho ha hu =>
    cases hp
    have hlast : (ts ++ t :: m :: o :: (us ++ [u])).getLast? = some u := by simp [List.getLast?_cons]
    exact ⟨u, hlast, (Spells.memberCall h he ht hm ho ha hu).stop_of_join hts rfl hlast rfl⟩
  | @element t u ts us e i h he ht hi hu =>
    cases hp
    have hlast : (ts ++ t :: (us ++ [u])).getLast? = some u := by simp [List.getLast?_cons]
    exact ⟨u, hlast, (Spells.element h he ht hi hu).stop_of_join hts rfl hlast rfl⟩
  | @classLiteral t u ts bs e root members n h hd hb ht hu =>
    cases hp
    have hlast : (ts ++ (bs ++ [t, u])).getLast? = some u := by simp
    exact ⟨u, hlast, (Spells.classLiteral h hd hb ht hu).stop_of_join hts rfl hlast rfl⟩
  | @unary t ts op e ht h he ih =>
    cases hp
    obtain ⟨last, hmem, hstop⟩ := ih hts.of_cons rfl
    have hlast : (t :: ts).getLast? = some last := by simp [List.getLast?_cons, hmem]
    exact ⟨last, hlast, (Spells.unary ht h he).stop_of_join hts rfl hlast hstop⟩
  | @binary t ts us op a b ha hle ht hb hlt iha ihb =>
    cases hp
    obtain ⟨last, hmem, hstop⟩ := ihb (List.pairwise_append.1 hts).2.1.of_cons rfl
    have hlast : (ts ++ t :: us).getLast? = some last := by simp [List.getLast?_append, List.getLast?_cons, hmem]
    exact ⟨last, hlast, (Spells.binary ha hle ht hb hlt).stop_of_join hts rfl hlast hstop⟩

theorem Brackets.since (k : Nat) {n : Nat} {ts : List Token} (h : Brackets n ts) :
    Brackets n (ts.map (Token.since k)) := by
  induction h with
  | zero => exact .zero
  | succ ht hu _ ih => exact .succ ht hu ih

theorem Spells.le_offset {k : Nat} {ts : List Token} {e : Expr} (h : Spells ts (.expr e))
    (hk : ∀ t ∈ ts, k ≤ t.span.offset) : k ≤ e.span.offset := by
  obtain ⟨t, ht, hoffset⟩ := h.offset
  rw [hoffset]
  exact hk t (List.mem_of_head? ht)

/-- The tokens with places counted from later on spell the tree with its places counted so. -/
theorem Spells.since {k : Nat} {ts : List Token} {p : Phrase} (h : Spells ts p)
    (hk : ∀ t ∈ ts, k ≤ t.span.offset) : Spells (ts.map (Token.since k)) (p.mapSpans (Span.since k)) := by
  induction h with
  | literal h => exact .literal (t := Token.since k _) h
  | this h => exact .this (t := Token.since k _) h
  | super h => exact .super (t := Token.since k _) h
  | paramRef h => exact .paramRef (t := Token.since k _) h
  | name h => exact .name (t := Token.since k _) h
  | @enclosed t u ts e ht h hu ih =>
    simp only [List.forall_mem_cons, List.forall_mem_append] at hk
    obtain ⟨hkt, hkts, hku, -⟩ := hk
    simp only [Phrase.mapSpans, mapSpans, List.map_cons, List.map_append, List.map_nil, Span.since_join hkt hku]
    exact .enclosed (t := t.since k) (u := u.since k) ht (ih hkts) hu
  | @call t o u ts es ht ho h hu ih =>
    simp only [List.forall_mem_cons, List.forall_mem_append] at hk
    obtain ⟨hkt, hko, hkts, hku, -⟩ := hk
    simp only [Phrase.mapSpans, mapSpans, List.map_cons, List.map_append, List.map_nil, Span.since_join hkt hku]
    exact .call (t := t.since k) (o := o.since k) (u := u.since k) ht ho (ih hkts) hu
  | @field t m ts e h he ht hm ih =>
    simp only [List.forall_mem_cons, List.forall_mem_append] at hk
    obtain ⟨hkts, hkt, hkm, -⟩ := hk
    simp only [Phrase.mapSpans, mapSpans, List.map_cons, List.map_append, List.map_nil,
      Span.since_join (h.le_offset hkts) hkm, ← span_mapSpans (Span.since k) e]
    exact .field (t := t.since k) (m := m.since k) (ih hkts) (by rw [tightness_mapSpans, he]) ht hm
  | @memberCall t m o u ts us e es h he ht hm ho ha hu ih iha =>
    simp only [List.forall_mem_cons, List.forall_mem_append] at hk
    obtain ⟨hkts, hkt, hkm, hko, hkus, hku, -⟩ := hk
    simp only [Phrase.mapSpans, mapSpans, List.map_cons, List.map_append, List.map_nil,
      Span.since_join (h.le_offset hkts) hku, ← span_mapSpans (Span.since k) e]
    exact .memberCall (t := t.since k) (m := m.since k) (o := o.since k) (u := u.since k) (ih hkts)
      (by rw [tightness_mapSpans, he]) ht hm ho (iha hkus) hu
  | @element t u ts us e i h he ht hi hu ih ihi =>
    simp only [List.forall_mem_cons, List.forall_mem_append] at hk
    obtain ⟨hkts, hkt, hkus, hku, -⟩ := hk
    simp only [Phrase.mapSpans, mapSpans, List.map_cons, List.map_append, List.map_nil,
      Span.since_join (h.le_offset hkts) hku, ← span_mapSpans (Span.since k) e]
    exact .element (t := t.since k) (u := u.since k) (ih hkts) (by rw [tightness_mapSpans, he]) ht (ihi hkus) hu
  | @classLiteral t u ts bs e root members n h hd hb ht hu ih =>
    simp only [List.forall_mem_cons, List.forall_mem_append] at hk
    obtain ⟨hkts, hkbs, hkt, hku, -⟩ := hk
    simp only [Phrase.mapSpans, mapSpans, List.map_cons, List.map_append, List.map_nil,
      Span.since_join (h.le_offset hkts) hku, ← span_mapSpans (Span.since k) e]
    exact .classLiteral (t := t.since k) (u := u.since k) (ih hkts) (by rw [dotted?_mapSpans, hd]) (hb.since k) ht hu
  | @unary t ts op e ht h he ih =>
    obtain ⟨hkt, hkts⟩ := List.forall_mem_cons.1 hk
    simp only [Phrase.mapSpans, mapSpans, List.map_cons, Span.since_join hkt (h.le_offset hkts),
      ← span_mapSpans (Span.since k) e]
    exact .unary (t := t.since k) ht (ih hkts) (by rw [tightness_mapSpans]; exact he)
  | @binary t ts us op a b ha hle ht hb hlt iha ihb =>
    simp only [List.forall_mem_cons, List.forall_mem_append] at hk
    obtain ⟨hkts, hkt, hkus⟩ := hk
    simp only [Phrase.mapSpans, mapSpans, List.map_cons, List.map_append,
      Span.since_join (ha.le_offset hkts) (hb.le_offset hkus), ← span_mapSpans (Span.since k) a,
      ← span_mapSpans (Span.since k) b]
    exact .binary (t := t.since k) (iha hkts) (by rw [tightness_mapSpans]; exact hle) ht (ihb hkus)
      (by rw [tightness_mapSpans]; exact hlt)
  | none => exact .none
  | last h ih => exact .last (ih hk)
  | @next u ts us e es h hu hs hne ih ihs =>
    simp only [List.forall_mem_cons, List.forall_mem_append] at hk
    obtain ⟨hkts, hku, hkus⟩ := hk
    simp only [Phrase.mapSpans, mapSpansAll, List.map_cons, List.map_append]
    refine .next (u := u.since k) (ih hkts) hu (ihs hkus) ?_
    obtain ⟨e', es, rfl⟩ := List.exists_cons_of_ne_nil hne
    exact List.cons_ne_nil _ _

/-- The text at the place of a node is read as that node. -/
theorem read_slice {text : String} {e n : Expr} (h : Expr.read text = .ok e) (hn : n ∈ e.nodes) :
    Expr.read (n.span.slice text) = .ok (n.mapSpans (Span.since n.span.offset)) := by
  obtain ⟨ts, hts, hspells⟩ := Parser.read_eq_ok_iff.1 h
  obtain ⟨us, ⟨before, after, rfl⟩, hus⟩ := hspells.node n hn
  have hscans : Token.Scans 0 text.toList (before ++ (us ++ after)) := by
    rw [← List.append_assoc]
    exact Token.scans_of_scanFrom hts
  obtain ⟨s₁, s₂, htext, hrest, hfirst⟩ := hscans.drop
  obtain ⟨part, s₃, rfl, hpart, -, hlast⟩ := hrest.take hus.unpointed
  rw [Nat.zero_add] at hfirst hpart hlast
  have hoffset : n.span.offset = Token.byteLength s₁ := by
    obtain ⟨t, ht, hoffset⟩ := hus.offset
    rw [hoffset]
    exact hfirst t (by rw [List.head?_append, ht]; rfl)
  have hstop : n.span.stop = Token.byteLength s₁ + Token.byteLength part := by
    obtain ⟨t, ht, hstop⟩ := hus.stop hpart.pairwise
    rw [hstop]
    exact hlast t ht
  have hslice : n.span.slice text = String.ofList part :=
    Span.slice_eq (htext.trans (List.append_assoc _ _ _).symm) hoffset hstop
  have hscan : Token.scan (String.ofList part) = .ok (us.map (Token.since (Token.byteLength s₁))) := by
    have hsince := hpart.since (Nat.le_refl _)
    rw [Nat.sub_self] at hsince
    rw [Token.scan, String.toList_ofList]
    exact hsince.scanFrom
  rw [hslice, hoffset]
  exact Parser.read_eq_ok_iff.2 ⟨_, hscan, hus.since hpart.offset_le⟩

/-- Places count bytes: the string before the call takes four of them. -/
theorem read_slice_argument : ∃ e n, Expr.read "\"é\" + f(a - 1)" = .ok e ∧ n ∈ e.nodes ∧ n.span = ⟨9, 5⟩ ∧
    n.span.slice "\"é\" + f(a - 1)" = "a - 1" ∧ n.text = "a - 1" ∧
    Expr.read (n.span.slice "\"é\" + f(a - 1)") = .ok (n.mapSpans (Span.since 9)) := by
  have hread : (Expr.read "\"é\" + f(a - 1)").toOption.map (fun e => e.nodes.map fun n => (n.span, n.text)) =
      some [(⟨0, 15⟩, "\"\\u\x7be9\x7d\" + f(a - 1)"), (⟨0, 4⟩, "\"\\u\x7be9\x7d\""), (⟨7, 8⟩, "f(a - 1)"),
        (⟨9, 5⟩, "a - 1"), (⟨9, 1⟩, "a"), (⟨13, 1⟩, "1")] := by decide +kernel
  obtain ⟨e, he, hnodes⟩ := of_toOption_map hread
  have hmem : (⟨9, 5⟩, "a - 1") ∈ e.nodes.map fun n => (n.span, n.text) := by
    rw [hnodes]
    decide
  obtain ⟨n, hn, hspan⟩ := List.mem_map.1 hmem
  obtain ⟨hspan, htext⟩ := Prod.mk.inj hspan
  have hslice : n.span.slice "\"é\" + f(a - 1)" = "a - 1" := by
    rw [hspan]
    decide +kernel
  refine ⟨e, n, he, hn, hspan, hslice, htext, ?_⟩
  have hnode := read_slice he hn
  rwa [hspan] at hnode ⊢

end Expr
end AnnotationExpr
