import AnnotationExpr.Proofs.Token.Extent
import AnnotationExpr.Proofs.Token.Layout

/-!
The tokens of a text by rules, each with the text that is left behind it. Tokens that follow each other are the tokens
of the part of the text that they take up, and what comes before that part only moves them.
-/

namespace AnnotationExpr.Token

inductive Scans : Nat → List Char → List Token → Prop where
  | nil {o : Nat} : Scans o [] []
  | space {o : Nat} {c : Char} {s : List Char} {ts : List Token} (hc : isSpace c = true)
      (h : Scans (o + c.utf8Size) s ts) : Scans o (c :: s) ts
  | token {o : Nat} {c : Char} {w s : List Char} {k : Kind} {ts : List Token} (hc : isSpace c = false)
      (hp : pick c (w ++ s) = .ok (k, w.length)) (h : Scans (o + byteLength (c :: w)) s ts) :
      Scans o (c :: (w ++ s)) (⟨k, c :: w, ⟨o, byteLength (c :: w)⟩⟩ :: ts)

theorem scans_of_scanFrom {o : Nat} {s : List Char} {ts : List Token} (h : scanFrom o s = .ok ts) :
    Scans o s ts := by
  fun_induction scanFrom o s generalizing ts with
  | case1 => cases h; exact .nil
  | case2 o c s hc ih => exact .space hc (ih h)
  | case3 => cases h
  | case4 =>
    rename_i o c s hc k n hp lexeme ih
    obtain ⟨rest, hr, h⟩ := bind_eq_ok.1 h
    cases h
    have hlen : (s.take n).length = n := List.length_take_of_le (pick_le hp)
    have htoken := @Scans.token o c (s.take n) (s.drop n) k rest (Bool.eq_false_iff.2 hc)
      (by rw [List.take_append_drop, hlen, hp]) (ih hr)
    rwa [List.take_append_drop] at htoken

theorem Scans.scanFrom {o : Nat} {s : List Char} {ts : List Token} (h : Scans o s ts) : scanFrom o s = .ok ts := by
  induction h with
  | nil => rw [Token.scanFrom]
  | space hc _ ih => rw [Token.scanFrom, if_pos hc, ih]
  | @token o c w s k ts hc hp _ ih =>
    rw [Token.scanFrom, if_neg (Bool.eq_false_iff.1 hc), hp]
    simp only [List.take_left, List.drop_left, ih]
    rfl

/-- The tokens of a text are those that the rules give it. -/
theorem scanFrom_eq_ok {o : Nat} {s : List Char} {ts : List Token} : scanFrom o s = .ok ts ↔ Scans o s ts :=
  ⟨scans_of_scanFrom, Scans.scanFrom⟩

/-! Parts of a text. -/

@[simp] theorem byteLength_append (s t : List Char) : byteLength (s ++ t) = byteLength s + byteLength t := by
  induction s with
  | nil => simp [byteLength]
  | cons c s ih => simp [byteLength, ih, Nat.add_assoc]

/-- An integer literal with a point in it has no value. -/
def Unpointed (ts : List Token) : Prop := ∀ t ∈ ts, t.kind = .intLit → '.' ∉ t.lexeme

theorem Scans.drop {o : Nat} {s : List Char} {before ts : List Token} (h : Scans o s (before ++ ts)) :
    ∃ s₁ s₂, s = s₁ ++ s₂ ∧ Scans (o + byteLength s₁) s₂ ts ∧
      ∀ t ∈ ts.head?, t.span.offset = o + byteLength s₁ := by
  generalize hall : before ++ ts = all at h
  induction h generalizing before with
  | nil =>
    obtain ⟨rfl, rfl⟩ := List.append_eq_nil_iff.1 hall
    exact ⟨[], [], rfl, .nil, nofun⟩
  | @space o c s all hc h ih =>
    obtain ⟨s₁, s₂, rfl, h', hhead⟩ := ih hall
    refine ⟨c :: s₁, s₂, rfl, ?_, ?_⟩
    · rwa [byteLength, ← Nat.add_assoc]
    · rwa [byteLength, ← Nat.add_assoc]
  | @token o c w s k all hc hp h ih =>
    cases before with
    | nil =>
      obtain rfl : ts = _ := hall
      refine ⟨[], _, rfl, .token hc hp h, ?_⟩
      rintro t ⟨⟩
      rfl
    | cons t before =>
      obtain ⟨s₁, s₂, rfl, h', hhead⟩ := ih (List.cons.inj hall).2
      refine ⟨c :: (w ++ s₁), s₂, by simp, ?_, ?_⟩
      · rwa [← List.cons_append, byteLength_append, ← Nat.add_assoc]
      · rwa [← List.cons_append, byteLength_append, ← Nat.add_assoc]

theorem Scans.take {o : Nat} {s : List Char} {ts after : List Token} (h : Scans o s (ts ++ after))
    (hpoint : Unpointed ts) :
    ∃ s₁ s₂, s = s₁ ++ s₂ ∧ Scans o s₁ ts ∧ (ts = [] → s₁ = []) ∧
      ∀ t ∈ ts.getLast?, t.span.stop = o + byteLength s₁ := by
  generalize hall : ts ++ after = all at h
  induction h generalizing ts with
  | nil =>
    obtain ⟨rfl, -⟩ := List.append_eq_nil_iff.1 hall
    exact ⟨[], [], rfl, .nil, fun _ => rfl, nofun⟩
  | @space o c s all hc h ih =>
    cases ts with
    | nil => exact ⟨[], _, rfl, .nil, fun _ => rfl, nofun⟩
    | cons t ts =>
      obtain ⟨s₁, s₂, rfl, h', -, hlast⟩ := ih hpoint hall
      refine ⟨c :: s₁, s₂, rfl, .space hc h', nofun, ?_⟩
      rwa [byteLength, ← Nat.add_assoc]
  | @token o c w s k all hc hp h ih =>
    cases ts with
    | nil => exact ⟨[], _, rfl, .nil, fun _ => rfl, nofun⟩
    | cons t ts =>
      obtain ⟨rfl, hrest⟩ := List.cons.inj hall
      obtain ⟨s₁, s₂, rfl, h', hnil, hlast⟩ := ih (fun u hu => hpoint u (List.mem_cons_of_mem _ hu)) hrest
      have hp' : pick c (w ++ s₁) = .ok (k, w.length) := by
        rw [← List.append_assoc] at hp
        refine pick_of_append hp (by simp) fun hk => ?_
        rw [List.take_left]
        exact fun hw => hpoint _ List.mem_cons_self hk (List.mem_cons_of_mem _ hw)
      refine ⟨c :: (w ++ s₁), s₂, by simp, .token hc hp' h', nofun, ?_⟩
      rw [← List.cons_append, byteLength_append, ← Nat.add_assoc]
      cases ts with
      | nil =>
        rintro t ⟨⟩
        rw [hnil rfl]
        rfl
      | cons u ts => rwa [List.getLast?_cons_cons]

/-! Places. -/

end AnnotationExpr.Token

namespace AnnotationExpr

/-- A place in what is left of a text from a later offset on. -/
def Span.since (k : Nat) (s : Span) : Span := ⟨s.offset - k, s.length⟩

def Token.since (k : Nat) (t : Token) : Token := { t with span := t.span.since k }

namespace Token

theorem Scans.offset_le {o : Nat} {s : List Char} {ts : List Token} (h : Scans o s ts) :
    ∀ t ∈ ts, o ≤ t.span.offset := by
  induction h with
  | nil => exact List.forall_mem_nil _
  | space _ _ ih => exact fun t ht => Nat.le_trans (Nat.le_add_right _ _) (ih t ht)
  | token _ _ _ ih =>
    refine List.forall_mem_cons.2 ⟨Nat.le_refl _, fun t ht => ?_⟩
    exact Nat.le_trans (Nat.le_add_right _ _) (ih t ht)

/-- Later tokens start later. -/
theorem Scans.pairwise {o : Nat} {s : List Char} {ts : List Token} (h : Scans o s ts) :
    ts.Pairwise fun t u => t.span.offset ≤ u.span.offset := by
  induction h with
  | nil => exact .nil
  | space _ _ ih => exact ih
  | token _ _ h ih => exact .cons (fun t ht => Nat.le_trans (Nat.le_add_right _ _) (h.offset_le t ht)) ih

theorem Scans.since {o k : Nat} {s : List Char} {ts : List Token} (h : Scans o s ts) (hk : k ≤ o) :
    Scans (o - k) s (ts.map (Token.since k)) := by
  induction h with
  | nil => exact .nil
  | @space o c s ts hc _ ih =>
    have hih := ih (Nat.le_trans hk (Nat.le_add_right _ _))
    rw [Nat.sub_add_comm hk] at hih
    exact .space hc hih
  | token hc hp _ ih =>
    have hih := ih (Nat.le_trans hk (Nat.le_add_right _ _))
    rw [Nat.sub_add_comm hk] at hih
    exact .token hc hp hih

end Token
end AnnotationExpr
