import AnnotationExpr.Proofs.Token.Words

/-!
How the tokens of a text lie in it: their characters one after the other, with nothing but blanks before, between
and after them. So a word at the end of a text lies within the last token, unless it goes back over a blank or over
the token before.
-/

namespace AnnotationExpr.Token

inductive Laid : List Char → List Token → Prop where
  | nil {s : List Char} (h : ∀ c ∈ s, isSpace c = true) : Laid s []
  | cons {blanks s : List Char} {t : Token} {ts : List Token} (hb : ∀ c ∈ blanks, isSpace c = true)
      (h : Laid s ts) : Laid (blanks ++ (t.lexeme ++ s)) (t :: ts)

theorem Laid.space {c : Char} {s : List Char} {ts : List Token} (hc : isSpace c = true) (h : Laid s ts) :
    Laid (c :: s) ts := by
  cases h with
  | nil h => exact .nil (List.forall_mem_cons.2 ⟨hc, h⟩)
  | cons hb h => exact .cons (List.forall_mem_cons.2 ⟨hc, hb⟩) h

theorem laid_of_scanFrom (offset : Nat) (s : List Char) {ts : List Token} (h : scanFrom offset s = .ok ts) :
    Laid s ts := by
  fun_induction scanFrom offset s generalizing ts with
  | case1 offset => cases h; exact .nil (List.forall_mem_nil _)
  | case2 offset c s hc ih => exact (ih h).space hc
  | case3 => cases h
  | case4 =>
    rename_i offset c s hc kind n hp lexeme ih
    obtain ⟨rest, hr, h⟩ := bind_eq_ok.1 h
    cases h
    have := @Laid.cons [] _ ⟨kind, lexeme, ⟨offset, byteLength lexeme⟩⟩ _ (List.forall_mem_nil _) (ih hr)
    rwa [List.nil_append, List.cons_append, List.take_append_drop] at this

/-- The last tokens of a text lie at its end. -/
theorem Laid.suffix {s : List Char} {ts ts' : List Token} (h : Laid s ts) (hs : ts' <:+ ts) :
    ∃ s', s' <:+ s ∧ Laid s' ts' := by
  induction h with
  | nil h =>
    rw [List.suffix_nil.1 hs]
    exact ⟨_, List.suffix_refl _, .nil h⟩
  | @cons blanks s t ts hb h ih =>
    rcases List.suffix_cons_iff.1 hs with rfl | hs
    · exact ⟨_, List.suffix_refl _, .cons hb h⟩
    · obtain ⟨s', hs', h'⟩ := ih hs
      exact ⟨s', hs'.trans ((List.suffix_append _ _).trans (List.suffix_append _ _)), h'⟩

/-- A word at the end of a text does not go back over a character that it does not have. -/
theorem suffix_of_notMem (before : List Char) {word s : List Char} {c : Char} (hc : c ∉ word)
    (h : word <:+ before ++ c :: s) : word <:+ s := by
  induction before with
  | nil =>
    rcases List.suffix_cons_iff.1 h with rfl | h
    · exact absurd List.mem_cons_self hc
    · exact h
  | cons d before ih =>
    rcases List.suffix_cons_iff.1 h with rfl | h
    · exact absurd (List.mem_cons_of_mem _ (List.mem_append_right _ List.mem_cons_self)) hc
    · exact ih h

/-- A word without blanks at the end of a text that is one token lies within that token. -/
theorem suffix_of_laid {word s : List Char} {t : Token} (hne : word ≠ []) (hw : ∀ c ∈ word, isSpace c = false)
    (h : Laid s [t]) (hs : word <:+ s) : word <:+ t.lexeme := by
  have notMem {c : Char} (hc : isSpace c = true) : c ∉ word := fun hm => by
    rw [hw c hm] at hc
    cases hc
  cases h with
  | @cons before after _ _ hb h =>
    cases h with
    | nil ha =>
      have hnil : after = [] := by
        by_contra hafter
        have hlast : word.getLast hne = after.getLast hafter := by
          rw [hs.getLast hne, List.getLast_append_of_ne_nil _ (by simp [hafter]),
            List.getLast_append_of_ne_nil _ hafter]
        exact notMem (ha _ (List.getLast_mem hafter)) (hlast ▸ List.getLast_mem hne)
      rw [hnil, List.append_nil] at hs
      clear hnil
      induction before with
      | nil => exact hs
      | cons c before ih =>
        rw [List.forall_mem_cons] at hb
        exact ih hb.2 (suffix_of_notMem [] (notMem hb.1) hs)

/-- A word at the end of a text that does not have a certain sign lies behind the last token that is this sign. -/
theorem Laid.suffix_of_sign {word s : List Char} {t : Token} {ts rest : List Token} (h : Laid s ts)
    (hs : t :: rest <:+ ts) {c : Char} (ht : t.lexeme = [c]) (hc : c ∉ word) (hw : word <:+ s) :
    ∃ s', Laid s' rest ∧ word <:+ s' := by
  obtain ⟨s', ⟨before, rfl⟩, h'⟩ := h.suffix hs
  cases h' with
  | @cons blanks after _ _ hb h' =>
    rw [ht, ← List.append_assoc] at hw
    exact ⟨after, h', suffix_of_notMem _ hc hw⟩

/-- A token that is a sign is written as the sign. -/
theorem lexeme_of_sign {t : Token} {text : List Char} {offset : Nat} {ts : List Token}
    (h : scanFrom offset text = .ok ts) (ht : t ∈ ts) {d : Char} (hd : d ∈ t.kind.sign?) : t.lexeme = [d] := by
  obtain ⟨c, s, n, -, hp, hl⟩ := mem_scanFrom offset text h ht
  obtain ⟨rfl, rfl⟩ := pick_sign hp hd
  exact hl

theorem lexeme_of_this {t : Token} {text : List Char} {offset : Nat} {ts : List Token}
    (h : scanFrom offset text = .ok ts) (ht : t ∈ ts) (hk : t.kind = .this) : t.lexeme = "this".toList := by
  obtain ⟨c, s, n, -, hp, hl⟩ := mem_scanFrom offset text h ht
  rw [hk] at hp
  rw [hl, pick_this hp]

end AnnotationExpr.Token
