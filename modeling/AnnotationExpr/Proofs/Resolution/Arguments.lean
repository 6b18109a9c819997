import AnnotationExpr.Proofs.Expr.Roots
import AnnotationExpr.Resolution

/-!
What resolution reads of the arguments. It asks for an argument only where a name that is no member stands for
a marker, so two argument lists that agree on the markers among these names give the same result.
-/

namespace AnnotationExpr

def Context.withArguments (c : Context) (arguments : List Referent) : Context :=
  { c with arguments := some arguments }

theorem Context.toOuter_withArguments (c : Context) (arguments : List Referent) :
    (c.withArguments arguments).toOuter = c.toOuter.withArguments arguments := rfl

namespace Lookup

/-- Two argument lists answer a name alike, if it is the name of a marker at all. -/
def SameParameter (c : Context) (as bs : List Referent) (name : String) : Prop :=
  ∀ digits ∈ Marker.digits? name, parameter (c.withArguments as) digits = parameter (c.withArguments bs) digits

variable {l : Lookup} {as bs : List Referent}

theorem named_withArguments {c : Context} {name : String} (h : SameParameter c as bs name) :
    l.named (c.withArguments as) name = l.named (c.withArguments bs) name := by
  unfold named
  cases hm : c.inMember with
  | true =>
    simp only [Context.withArguments, hm]
    rfl
  | false =>
    cases hd : Marker.digits? name with
    | some digits =>
      simp only [Context.withArguments, hm]
      exact h digits hd
    | none =>
      simp only [Context.withArguments, hm]
      rfl

theorem member_withArguments {c : Context} {text name : String} {outer : Option String}
    {scope : Except ResolveError Referent} :
    l.member (c.withArguments as) text outer name scope =
      l.member (c.withArguments bs) text outer name scope := rfl

theorem dotted_withArguments {c : Context} {root : String} (members : List String)
    (h : SameParameter c as bs root) :
    l.dotted (c.withArguments as) root members = l.dotted (c.withArguments bs) root members := by
  unfold dotted
  rw [named_withArguments h]
  rfl

theorem classBase_withArguments {c : Context} {t : TypeName} (h : SameParameter c as bs t.root) :
    l.classBase (c.withArguments as) t = l.classBase (c.withArguments bs) t := by
  unfold classBase
  rw [dotted_withArguments t.members h]

mutual

theorem resolve_withArguments (c : Context) (e : Expr) (h : ∀ n ∈ e.roots, SameParameter c as bs n) :
    l.resolve (c.withArguments as) e = l.resolve (c.withArguments bs) e := by
  cases e with
  | literal s v => cases v <;> rfl
  | this => rfl
  | super => rfl
  | name s n => exact named_withArguments (h n (by simp [Expr.roots]))
  | enclosed s e => exact resolve_withArguments c e h
  | field s e name =>
    rw [resolve, resolve, resolve_withArguments c e h]
    exact member_withArguments
  | element s a i =>
    have ha := resolve_withArguments c a fun n hn => h n (by simp [Expr.roots, hn])
    have hi := resolve_withArguments c.toOuter i fun n hn => h n (by simp [Expr.roots, hn])
    rw [resolve, resolve, ha]
    exact congrArg _ (funext fun _ => by rw [Context.toOuter_withArguments, hi]; rfl)
  | call s n es =>
    rw [resolve, resolve, Context.toOuter_withArguments, resolveAll_withArguments c.toOuter es h]
    rfl
  | memberCall s e n es =>
    have he := resolve_withArguments c e fun n hn => h n (by simp [Expr.roots, hn])
    have hes := resolveAll_withArguments c.toOuter es fun n hn => h n (by simp [Expr.roots, hn])
    rw [resolve, resolve, he]
    exact congrArg _ (funext fun _ => by rw [Context.toOuter_withArguments, hes]; rfl)
  | classLiteral s t =>
    rw [resolve, resolve, classLiteral, classLiteral, classBase_withArguments (h t.root (by simp [Expr.roots]))]
  | unary => rfl
  | binary => rfl

theorem resolveAll_withArguments (c : Context) (es : List Expr)
    (h : ∀ n ∈ Expr.rootsAll es, SameParameter c as bs n) :
    l.resolveAll (c.withArguments as) es = l.resolveAll (c.withArguments bs) es := by
  cases es with
  | nil => rfl
  | cons e es =>
    have he := resolve_withArguments c e fun n hn => h n (by simp [Expr.rootsAll, hn])
    have hes := resolveAll_withArguments c es fun n hn => h n (by simp [Expr.rootsAll, hn])
    rw [resolveAll, resolveAll, he, hes]

end

end Lookup
end AnnotationExpr
