/-! Loops: one round after the other, until a round gives the result. -/

namespace AnnotationExpr

/-- What a round of a loop gives: the result of the loop, or the state for the next round. -/
inductive Round (σ ρ : Type) where
  | done (result : ρ)
  | next (state : σ)

/-- From this state the loop comes to this result in finitely many rounds. -/
inductive Round.Ends {σ ρ : Type} (round : σ → Round σ ρ) : σ → ρ → Prop where
  | done {s : σ} {r : ρ} (h : round s = .done r) : Ends round s r
  | next {s t : σ} {r : ρ} (h : round s = .next t) (ht : Ends round t r) : Ends round s r

end AnnotationExpr
