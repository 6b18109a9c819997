/-! Digits in a radix up to sixteen, and the number that a run of them denotes. -/

namespace AnnotationExpr.Text

def digit? (radix : Nat) (c : Char) : Option Nat :=
  let value :=
    if '0' ≤ c ∧ c ≤ '9' then c.toNat - '0'.toNat
    else if 'a' ≤ c ∧ c ≤ 'f' then c.toNat - 'a'.toNat + 10
    else if 'A' ≤ c ∧ c ≤ 'F' then c.toNat - 'A'.toNat + 10
    else radix
  if value < radix then some value else none

def isDigit (radix : Nat) (c : Char) : Bool := (digit? radix c).isSome

theorem isDigit_ten {c : Char} : isDigit 10 c = true ↔ '0' ≤ c ∧ c ≤ '9' := by
  unfold isDigit digit?
  by_cases h : '0' ≤ c ∧ c ≤ '9'
  · have h9 : c.toNat ≤ '9'.toNat := h.2
    have : c.toNat - 48 < 10 := Nat.lt_of_le_of_lt (Nat.sub_le_sub_right h9 _) (by decide)
    simp [h, this]
  · simp only [h, if_false, iff_false]
    split
    · simp
    · split <;> simp

/-- Characters that are no digits count as zero; callers test them first. -/
def value (radix : Nat) (s : List Char) : Nat :=
  s.foldl (fun n c => n * radix + (digit? radix c).getD 0) 0

/-- The number a nonempty run of digits denotes, and nothing for any other text. -/
def number? (radix : Nat) (s : List Char) : Option Nat :=
  if s.isEmpty || !s.all (isDigit radix) then none else some (value radix s)

end AnnotationExpr.Text
