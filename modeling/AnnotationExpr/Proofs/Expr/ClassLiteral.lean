import AnnotationExpr.Proofs.Expr.Display
import AnnotationExpr.Proofs.Expr.Name

/-! A dotted name with `.class` after it is the class literal of that name. -/

namespace AnnotationExpr

theorem Token.IsName.named {text : String} (h : IsName text) : Named text := by
  obtain ⟨span, hscan⟩ := h
  refine Expr.named_of_mem (x := .name text) hscan (List.mem_singleton_self _) ?_
  rw [word?_of_ident rfl, String.ofList_toList]

theorem Token.IsName.ne_empty {text : String} (h : IsName text) : text ≠ "" := by
  rintro rfl
  obtain ⟨c, w, hcw, -⟩ := h.named
  cases hcw

namespace Expr

/-- A token that says a name and does not write it by its index. -/
theorem kind_of_name {t : Token} {n : String} (hw : t.word? = some (.name n)) (hk : t.kind ≠ .paramRef) :
    t.kind = .ident ∧ n = String.ofList t.lexeme :=
  (Token.word?_eq_name hw).resolve_right fun h => hk h.1

/-- Members are added to a name one by one. -/
theorem Spells.members {root : String} {members : List String} :
    ∀ {ts us : List Token} {e : Expr} {before : List String}, Spells ts (.expr e) → e.dotted? = some (root, before) →
      us.map Token.word? = (members.flatMap fun m => [.sign .dot, .name m]).map some → (∀ t ∈ us, t.kind ≠ .paramRef) →
      ∃ e', Spells (ts ++ us) (.expr e') ∧ e'.dotted? = some (root, before ++ members) := by
  induction members with
  | nil =>
    intro ts us e before h hd hw _
    obtain rfl := List.map_eq_nil_iff.1 hw
    exact ⟨e, by rwa [List.append_nil], by rwa [List.append_nil]⟩
  | cons m members ih =>
    intro ts us e before h hd hw hk
    obtain ⟨t, us, rfl, ht, hafter⟩ := List.map_eq_cons_iff.1 hw
    obtain ⟨u, us, rfl, hu, hrest⟩ := List.map_eq_cons_iff.1 hafter
    obtain ⟨hident, rfl⟩ := kind_of_name hu (hk u (by simp))
    have hfield := Spells.field h (tightness_of_dotted hd) (Token.word?_eq_sign ht).1 hident
    have hdotted : (Expr.field (e.span.join u.span) e (String.ofList u.lexeme)).dotted? =
        some (root, before ++ [String.ofList u.lexeme]) := by
      rw [dotted?, hd]
      rfl
    obtain ⟨e', he', hd'⟩ := ih hfield hdotted hrest fun x hx =>
      hk x (List.mem_cons_of_mem _ (List.mem_cons_of_mem _ hx))
    exact ⟨e', by simpa using he', by simpa using hd'⟩

theorem read_classLiteral {root : String} {members : List String} (hroot : Token.IsName root)
    (hmembers : ∀ m ∈ members, Token.IsName m) :
    ∃ span inner, Expr.read (".".intercalate (root :: members) ++ ".class") =
      .ok (.classLiteral span ⟨root, members, 0, inner⟩) := by
  let t : TypeName := ⟨root, members, 0, ⟨0, 0⟩⟩
  have hsays := Says.type (t := t) hroot.named (fun m hm => (hmembers m hm).named) Token.ends_nil Says.nil
  obtain ⟨us, hus, hwords, hkinds⟩ := hsays 0
  have htext : t.text.toList ++ (".class".toList ++ []) = (".".intercalate (root :: members) ++ ".class").toList := by
    rw [List.append_nil, ← String.toList_append, TypeName.text]
    simp [t, TypeName.segments]
  rw [htext] at hus
  rw [List.append_nil] at hwords
  obtain ⟨first, rest, rfl, hfirst, hrest⟩ := List.map_eq_cons_iff.1 hwords
  obtain ⟨middle, last, rfl, hmiddle, hlast⟩ := List.map_eq_append_iff.1 (hrest.trans (List.map_append ..))
  obtain ⟨point, last, rfl, hpoint, hlast⟩ := List.map_eq_cons_iff.1 hlast
  obtain ⟨keyword, last, rfl, hkeyword, hlast⟩ := List.map_eq_cons_iff.1 hlast
  obtain rfl := List.map_eq_nil_iff.1 hlast
  obtain ⟨hident, hname⟩ := kind_of_name hfirst (hkinds first List.mem_cons_self)
  have hspells : Spells [first] (.expr (.name first.span root)) := by
    rw [show root = String.ofList first.lexeme from hname]
    exact .name hident
  obtain ⟨e, he, hd⟩ := hspells.members rfl hmiddle fun t ht => hkinds t (by simp [ht])
  have hliteral := Spells.classLiteral he hd .zero (Token.word?_eq_sign hpoint).1 (Token.word?_eq_sign hkeyword).1
  exact ⟨_, _, Parser.read_eq_ok_iff.2 ⟨_, hus.scanFrom, hliteral⟩⟩

end Expr
end AnnotationExpr
