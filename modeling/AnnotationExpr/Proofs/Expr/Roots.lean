import AnnotationExpr.Proofs.Expr.Grammar

/-!
Where the names in an expression come from. A name that is no member is read from a token: an identifier as it
stands, a parameter reference as the name of its marker.
-/

namespace AnnotationExpr

namespace Expr

mutual

/-- The names in an expression that are members of nothing; in a class literal it is the first of its type. -/
def roots : Expr → List String
  | name _ n => [n]
  | classLiteral _ type => [type.root]
  | enclosed _ e | field _ e _ | unary _ _ e => e.roots
  | element _ a b | binary _ _ a b => a.roots ++ b.roots
  | call _ _ arguments => rootsAll arguments
  | memberCall _ e _ arguments => e.roots ++ rootsAll arguments
  | literal _ _ | this _ | super _ => []

def rootsAll : List Expr → List String
  | [] => []
  | e :: es => e.roots ++ rootsAll es

end

theorem root_mem_roots : ∀ {e : Expr} {root : String} {members : List String},
    e.dotted? = some (root, members) → root ∈ e.roots
  | name _ n, root, members, h => by cases h; exact List.mem_singleton_self _
  | field _ scope n, root, members, h => by
    obtain ⟨⟨r, ms⟩, hd, h⟩ := Option.map_eq_some_iff.1 h
    cases h
    exact root_mem_roots (e := scope) hd

end Expr

/-- The name that a token stands for. -/
inductive Token.Names : Token → String → Prop where
  | ident {t : Token} (h : t.kind = .ident) : Names t (String.ofList t.lexeme)
  | paramRef {t : Token} (h : t.kind = .paramRef) : Names t (String.ofList (Marker.stem ++ t.lexeme.drop 1))

namespace Expr.Parser

def Part.roots : Part → List String
  | expr e => e.roots
  | arguments es | list es => rootsAll es

theorem Reads.names {ts rest : List Token} {part : Part} (h : Reads ts part rest) :
    ∀ n ∈ part.roots, ∃ t ∈ ts, t.Names n := by
  have later {ts ts' : List Token} {n : String} (hs : ts' <:+ ts) (h : ∃ t ∈ ts', t.Names n) :
      ∃ t ∈ ts, t.Names n := by
    obtain ⟨t, ht, hn⟩ := h
    exact ⟨t, hs.subset ht, hn⟩
  have both {ts ts' : List Token} {first second : List String} (hfirst : ∀ n ∈ first, ∃ t ∈ ts, t.Names n)
      (hs : ts' <:+ ts) (hsecond : ∀ n ∈ second, ∃ t ∈ ts', t.Names n) :
      ∀ n ∈ first ++ second, ∃ t ∈ ts, t.Names n := by
    intro n hn
    rcases List.mem_append.1 hn with hn | hn
    · exact hfirst n hn
    · exact later hs (hsecond n hn)
  induction h with
  | literal | this | super | noArguments => exact List.forall_mem_nil _
  | @paramRef t rest h =>
    intro n hn
    rw [List.mem_singleton.1 hn]
    exact ⟨t, List.mem_cons_self, .paramRef h⟩
  | @name t rest h =>
    intro n hn
    rw [List.mem_singleton.1 hn]
    exact ⟨t, List.mem_cons_self, .ident h⟩
  | enclosed _ _ _ ih | call _ _ ih | unary _ _ ih | arguments _ _ ih =>
    exact fun n hn => later (List.suffix_cons _ _) (ih n hn)
  | field _ _ _ ih => exact ih
  | memberCall h _ _ _ ih iha =>
    exact both ih ((List.suffix_cons _ _).trans ((List.suffix_cons _ _).trans h.suffix)) iha
  | element h _ _ _ ih ihi => exact both ih ((List.suffix_cons _ _).trans h.suffix) ihi
  | classLiteral _ hd _ _ ih =>
    intro n hn
    rw [List.mem_singleton.1 hn]
    exact ih _ (root_mem_roots hd)
  | binary ha _ _ iha ihb => exact both iha ((List.suffix_cons _ _).trans ha.suffix) ihb
  | last _ _ ih => exact both ih (List.nil_suffix) (List.forall_mem_nil _)
  | next h _ _ ih ihs => exact both ih ((List.suffix_cons _ _).trans h.suffix) ihs

end Expr.Parser

/-- A name in an expression that is no member is one that a token of its text stands for. -/
theorem Expr.names_of_read {text : String} {e : Expr} (h : Expr.read text = .ok e) :
    ∃ ts, Token.scan text = .ok ts ∧ ∀ n ∈ e.roots, ∃ t ∈ ts, t.Names n := by
  obtain ⟨ts, hts, hr⟩ := Parser.reads_of_read h
  exact ⟨ts, hts, hr.names⟩

end AnnotationExpr
