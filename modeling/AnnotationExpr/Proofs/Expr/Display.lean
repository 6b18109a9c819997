import AnnotationExpr.Proofs.Expr.Complete
import AnnotationExpr.Proofs.Expr.Restated
import AnnotationExpr.Proofs.Literal.Display
import AnnotationExpr.Proofs.Marker.Clean

/-!
Trees that are read back from their own text. The text of a tree says the words of the tree, its parentheses among
them, and tokens that say the same spell the same tree. Left out are literals that are written like another one or like
none, and integers in front of a point.
-/

namespace AnnotationExpr

open Text (isDigit)
open Token (Ends)

/-! Texts that say given words. -/

/-- Wherever the text stands, its tokens say the words, and no name among them is written by its index. -/
def Says (s : List Char) (ws : List Word) : Prop :=
  ∀ o, ∃ ts, Token.Scans o s ts ∧ ts.map Token.word? = ws.map some ∧ ∀ t ∈ ts, t.kind ≠ .paramRef

/-- How the signs of expressions are written. -/
def Token.Kind.spelling : Token.Kind → List Char
  | this => ['t', 'h', 'i', 's']
  | super => ['s', 'u', 'p', 'e', 'r']
  | «class» => ['c', 'l', 'a', 's', 's']
  | andAnd => ['&', '&']
  | orOr => ['|', '|']
  | eqEq => ['=', '=']
  | notEq => ['!', '=']
  | ltEq => ['<', '=']
  | gtEq => ['>', '=']
  | plus => ['+']
  | minus => ['-']
  | star => ['*']
  | slash => ['/']
  | percent => ['%']
  | bang => ['!']
  | lt => ['<']
  | gt => ['>']
  | dot => ['.']
  | comma => [',']
  | lparen => ['(']
  | rparen => [')']
  | lbracket => ['[']
  | rbracket => [']']
  | _ => []

theorem Token.Kind.exists_spelling {k : Token.Kind} (h : k.isSign = .true) :
    ∃ c w, k.spelling = c :: w ∧ Token.isSpace c = .false ∧ Token.pick c w = .ok (k, w.length) := by
  cases k
  case null | true | false | longLit | intLit | doubleLit | stringLit | charLit | ident | paramRef => cases h
  all_goals exact ⟨_, _, rfl, rfl, rfl⟩

theorem BinaryOp.toList_text (op : BinaryOp) : op.text.toList = op.kind.spelling := by
  cases op <;> rfl

theorem UnaryOp.toList_text (op : UnaryOp) : op.text.toList = op.kind.spelling := by
  cases op <;> rfl

/-- The name is one word and no keyword. -/
def Token.Named (n : String) : Prop := ∃ c w, n.toList = c :: w ∧ Token.pick c w = .ok (.ident, w.length)

def Word.Named : Word → Prop
  | name n => Token.Named n
  | _ => True

namespace Says

variable {s : List Char} {ws : List Word}

theorem nil : Says [] [] := fun _ => ⟨[], .nil, rfl, List.forall_mem_nil _⟩

theorem space (h : Says s ws) : Says (' ' :: s) ws := by
  intro o
  obtain ⟨ts, hts, hafter⟩ := h (o + ' '.utf8Size)
  exact ⟨ts, .space rfl hts, hafter⟩

theorem token {c : Char} {w : List Char} {k : Token.Kind} {x : Word} (hspace : Token.isSpace c = false)
    (hpick : Token.pick c w = .ok (k, w.length)) (hapart : Token.Apart k (c :: w) s)
    (hword : ∀ span, Token.word? ⟨k, c :: w, span⟩ = some x) (hk : k ≠ .paramRef) (h : Says s ws) :
    Says (c :: w ++ s) (x :: ws) := by
  intro o
  obtain ⟨ts, hts, hwords, hkinds⟩ := h (o + Token.byteLength (c :: w))
  refine ⟨_, .token hspace (Token.pick_append hpick hapart) hts, ?_, List.forall_mem_cons.2 ⟨hk, hkinds⟩⟩
  rw [List.map_cons, List.map_cons, hword, hwords]

theorem sign {k : Token.Kind} (hk : k.isSign = true) (hs : Token.Apart k k.spelling s) (h : Says s ws) :
    Says (k.spelling ++ s) (.sign k :: ws) := by
  obtain ⟨c, w, hspelling, hspace, hpick⟩ := Token.Kind.exists_spelling hk
  rw [hspelling] at hs ⊢
  have hparam : k ≠ .paramRef := by
    rintro rfl
    cases hk
  exact token hspace hpick hs (fun _ => Token.word?_of_isSign hk) hparam h

theorem name {n : String} (hn : Token.Named n) (hs : Ends s) (h : Says s ws) :
    Says (n.toList ++ s) (.name n :: ws) := by
  obtain ⟨c, w, hcw, hpick⟩ := hn
  have hspace := (Token.space_of_wordStart (Token.pick_ident hpick).1).1
  rw [hcw]
  refine token hspace hpick hs (fun span => ?_) nofun h
  rw [Token.word?_of_ident rfl, ← hcw, String.ofList_toList]

theorem member {n : String} (hn : Token.Named n) (hs : Ends s) (h : Says s ws) :
    Says ('.' :: (n.toList ++ s)) (.sign .dot :: .name n :: ws) := by
  refine sign (k := .dot) rfl ?_ (name hn hs h)
  obtain ⟨c, w, hcw, hpick⟩ := hn
  rw [hcw]
  rintro d ⟨⟩
  refine Bool.eq_false_iff.2 fun hd => ?_
  have hstart := (Token.pick_ident hpick).1
  rw [Token.not_isWordStart_of_digit hd] at hstart
  cases hstart

theorem literal {v : Literal} (hv : v.Plain) (hs : Ends s) (hpoint : v.isInt = true → '.' ∉ s.head?)
    (h : Says s ws) : Says (v.text.toList ++ s) (.literal v :: ws) := by
  obtain ⟨c, w, k, htext, hw⟩ := hv.written
  rw [htext]
  refine token hw.space hw.pick (hw.apart s hs hpoint) (fun span => Token.word?_eq_literal.2 (hw.value span)) ?_ h
  rintro rfl
  cases hw.value ⟨0, 0⟩

theorem brackets (n : Nat) (hs : Ends s) (h : Says s ws) :
    Says ((List.replicate n ['[', ']']).flatten ++ s)
        ((List.replicate n [.sign .lbracket, .sign .rbracket]).flatten ++ ws) ∧
      Ends ((List.replicate n ['[', ']']).flatten ++ s) := by
  induction n with
  | zero => exact ⟨h, hs⟩
  | succ n ih =>
    refine ⟨?_, Token.ends_cons rfl _⟩
    exact sign (k := .lbracket) rfl (fun _ _ => rfl) (sign (k := .rbracket) rfl (fun _ _ => rfl) ih.1)

theorem members {ns : List String} (hns : ∀ n ∈ ns, Token.Named n) (hs : Ends s) (h : Says s ws) :
    Says ((ns.flatMap fun n => '.' :: n.toList) ++ s) ((ns.flatMap fun n => [.sign .dot, .name n]) ++ ws) ∧
      Ends ((ns.flatMap fun n => '.' :: n.toList) ++ s) := by
  induction ns with
  | nil => exact ⟨h, hs⟩
  | cons n ns ih =>
    obtain ⟨hn, hns⟩ := List.forall_mem_cons.1 hns
    rw [List.flatMap_cons, List.flatMap_cons, List.append_assoc]
    exact ⟨member hn (ih hns).2 (ih hns).1, Token.ends_cons rfl _⟩

end Says

theorem toList_intercalate_point (root : String) (members : List String) :
    (".".intercalate (root :: members)).toList = root.toList ++ members.flatMap fun m => '.' :: m.toList := by
  induction members generalizing root with
  | nil => simp
  | cons m members ih =>
    rw [String.intercalate_cons_cons, String.toList_append, String.toList_append, ih, List.flatMap_cons]
    simp

theorem TypeName.toList_text (t : TypeName) :
    t.text.toList = t.root.toList ++ ((t.members.flatMap fun m => '.' :: m.toList) ++
      (List.replicate t.dimensions ['[', ']']).flatten) := by
  have hbrackets : (String.join (List.replicate t.dimensions "[]")).toList =
      (List.replicate t.dimensions ['[', ']']).flatten := by
    rw [String.toList_join, List.flatMap_def, List.map_replicate]
    rfl
  rw [text, segments, String.toList_append, toList_intercalate_point, hbrackets, List.append_assoc]

theorem Says.type {t : TypeName} {s : List Char} {ws : List Word} (hroot : Token.Named t.root)
    (hmembers : ∀ m ∈ t.members, Token.Named m) (hs : Ends s) (h : Says s ws) :
    Says (t.text.toList ++ (".class".toList ++ s)) (t.words ++ ws) := by
  have hclass : Says (".class".toList ++ s) ([.sign .dot, .sign .class] ++ ws) := by
    refine sign (k := .dot) rfl ?_ (sign (k := .class) rfl hs h)
    rintro d ⟨⟩
    rfl
  have hends : Ends (".class".toList ++ s) := Token.ends_cons rfl _
  obtain ⟨hbrackets, hends⟩ := hclass.brackets t.dimensions hends
  obtain ⟨hmembers, hends⟩ := hbrackets.members hmembers hends
  rw [TypeName.toList_text, TypeName.words]
  simpa only [List.append_assoc, List.cons_append] using hmembers.name hroot hends

namespace Expr

/-! Trees. -/

def isInt : Expr → Bool
  | literal _ v => v.isInt
  | _ => false

/-- The text of the node shows what it is, if those of its parts do. -/
def Plain : Expr → Prop
  | literal _ v => v.Plain
  | field _ e _ | memberCall _ e _ _ => e.isInt = false
  | _ => True

instance : DecidablePred Plain
  | literal _ v => inferInstanceAs (Decidable v.Plain)
  | field _ e _ => inferInstanceAs (Decidable (e.isInt = false))
  | memberCall _ e _ _ => inferInstanceAs (Decidable (e.isInt = false))
  | this _ | super _ | name .. | enclosed .. | element .. | call .. | classLiteral .. | unary .. | binary .. =>
    isTrue trivial

namespace Phrase

def text : Phrase → List Char
  | expr e => e.text.toList
  | list es => (", ".intercalate (texts es)).toList

/-- What comes after the text does not go on with its last word. A point comes only after what may have members and is
no integer. -/
def Stops : Phrase → List Char → Prop
  | expr e, s => Ends s ∧ ('.' ∈ s.head? → e.tightness = 8 ∧ e.isInt = false)
  | list _, s => Ends s ∧ '.' ∉ s.head?

theorem stops_cons {c : Char} (hc : Token.isWordRest c = false) (hpoint : c ≠ '.') (p : Phrase) (s : List Char) :
    p.Stops (c :: s) := by
  have hends := Token.ends_cons hc s
  have hhead : '.' ∉ (c :: s).head? := by
    rintro ⟨⟩
    exact hpoint rfl
  cases p with
  | expr e => exact ⟨hends, fun h => absurd h hhead⟩
  | list es => exact ⟨hends, hhead⟩

end Phrase

/-- The text does not start with the character that would go on with a `!` before it. -/
def Starts (s : List Char) : Prop := ∃ c ∈ s.head?, c ≠ '='

theorem Starts.append {s : List Char} (h : Starts s) (t : List Char) : Starts (s ++ t) := by
  obtain ⟨c, hc, hne⟩ := h
  exact ⟨c, List.mem_head?_append_of_mem_head? hc, hne⟩

theorem starts_name {n : String} (h : Token.Named n) : Starts n.toList := by
  obtain ⟨c, w, hcw, hpick⟩ := h
  rw [hcw]
  exact ⟨c, rfl, (Token.space_of_wordStart (Token.pick_ident hpick).1).2⟩

theorem starts_text : ∀ {e : Expr}, (∀ x ∈ e.words, x.Named) → (∀ n ∈ e.nodes, n.Plain) → Starts e.text.toList
  | .literal _ v, _, hplain => by
    obtain ⟨c, w, k, htext, hw⟩ := Literal.Plain.written (hplain _ List.mem_cons_self)
    rw [text, htext]
    exact ⟨c, rfl, hw.start⟩
  | .this _, _, _ => by
    rw [text]
    exact ⟨'t', rfl, by decide⟩
  | .super _, _, _ => by
    rw [text]
    exact ⟨'s', rfl, by decide⟩
  | .name _ n, hnames, _ => starts_name (hnames _ List.mem_cons_self)
  | .enclosed _ e, _, _ => by
    rw [text, String.append_assoc, String.toList_append]
    exact ⟨'(', rfl, by decide⟩
  | .field _ e n, hnames, hplain => by
    simp only [words, nodes, List.forall_mem_append, List.forall_mem_cons] at hnames hplain
    rw [text, String.append_assoc, String.toList_append]
    exact (starts_text hnames.1 hplain.2).append _
  | .element _ a i, hnames, hplain => by
    simp only [words, nodes, List.forall_mem_append, List.forall_mem_cons] at hnames hplain
    simp only [text, String.append_assoc, String.toList_append]
    exact (starts_text hnames.1 hplain.2.1).append _
  | .call _ n es, hnames, _ => by
    rw [text, String.toList_append]
    exact (starts_name (hnames _ List.mem_cons_self)).append _
  | .memberCall _ e n es, hnames, hplain => by
    simp only [words, nodes, List.forall_mem_append, List.forall_mem_cons] at hnames hplain
    simp only [text, String.append_assoc, String.toList_append]
    exact (starts_text hnames.1 hplain.2.1).append _
  | .classLiteral _ t, hnames, _ => by
    rw [text, String.toList_append, TypeName.toList_text, List.append_assoc]
    exact (starts_name (hnames _ List.mem_cons_self)).append _
  | .unary _ op e, _, _ => by
    rw [text, String.toList_append]
    cases op
    · exact ⟨'-', rfl, by decide⟩
    · exact ⟨'!', rfl, by decide⟩
  | .binary _ op a b, hnames, hplain => by
    simp only [words, nodes, List.forall_mem_append, List.forall_mem_cons] at hnames hplain
    simp only [text, String.append_assoc, String.toList_append]
    exact (starts_text hnames.1 hplain.2.1).append _

/-- The text of what is spelled says its words, and what comes after the text goes on with none of them. -/
theorem Spells.says_text {ts : List Token} {p : Phrase} (h : Spells ts p)
    (hnames : ∀ x ∈ p.words, x.Named) (hplain : ∀ n ∈ p.nodes, n.Plain) {s : List Char}
    {ws : List Word} (hs : p.Stops s) (hafter : Says s ws) : Says (p.text ++ s) (p.words ++ ws) := by
  have point {e : Expr} (he : e.tightness = 8) (hint : e.isInt = false) (s : List Char) :
      (Phrase.expr e).Stops ('.' :: s) :=
    ⟨Token.ends_cons rfl s, fun _ => ⟨he, hint⟩⟩
  induction h generalizing s ws with
  | literal h =>
    refine Says.literal (hplain _ List.mem_cons_self) hs.1 (fun hint hpoint => ?_) hafter
    exact Bool.false_ne_true ((hs.2 hpoint).2.symm.trans hint)
  | this h =>
    simp only [Phrase.text, Phrase.words, Expr.text, Expr.words]
    exact Says.sign (k := .this) rfl hs.1 hafter
  | super h =>
    simp only [Phrase.text, Phrase.words, Expr.text, Expr.words]
    exact Says.sign (k := .super) rfl hs.1 hafter
  | paramRef h => exact Says.name (hnames _ List.mem_cons_self) hs.1 hafter
  | name h => exact Says.name (hnames _ List.mem_cons_self) hs.1 hafter
  | enclosed ht h hu ih =>
    simp only [Phrase.words, Phrase.nodes, Expr.words, Expr.nodes, List.forall_mem_append, List.forall_mem_cons]
      at hnames hplain
    have hinner := ih hnames.2.1 hplain.2 (Phrase.stops_cons rfl (by decide) _ s)
      (.sign (k := .rparen) rfl (fun _ _ => rfl) hafter)
    have := Says.sign (k := .lparen) rfl (fun _ _ => rfl) hinner
    simpa [Phrase.text, Phrase.words, Expr.text, Expr.words, Token.Kind.spelling] using this
  | call ht ho h hu ih =>
    simp only [Phrase.words, Phrase.nodes, Expr.words, Expr.nodes, List.forall_mem_append, List.forall_mem_cons]
      at hnames hplain
    have harguments := ih hnames.2.2.1 hplain.2 (Phrase.stops_cons rfl (by decide) _ s)
      (.sign (k := .rparen) rfl (fun _ _ => rfl) hafter)
    have := Says.name hnames.1 (Token.ends_cons rfl _) (.sign (k := .lparen) rfl (fun _ _ => rfl) harguments)
    simpa [Phrase.text, Phrase.words, Expr.text, Expr.words, argumentsText, Token.Kind.spelling] using this
  | field h he ht hm ih =>
    simp only [Phrase.words, Phrase.nodes, Expr.words, Expr.nodes, List.forall_mem_append, List.forall_mem_cons]
      at hnames hplain
    have := ih hnames.1 hplain.2 (point he hplain.1 _) (Says.member hnames.2.2.1 hs.1 hafter)
    simpa [Phrase.text, Phrase.words, Expr.text, Expr.words] using this
  | memberCall h he ht hm ho ha hu ih iha =>
    simp only [Phrase.words, Phrase.nodes, Expr.words, Expr.nodes, List.forall_mem_append, List.forall_mem_cons]
      at hnames hplain
    have harguments := iha hnames.2.2.2.2.1 hplain.2.2 (Phrase.stops_cons rfl (by decide) _ s)
      (.sign (k := .rparen) rfl (fun _ _ => rfl) hafter)
    have hmember := Says.member hnames.2.2.1 (Token.ends_cons rfl _)
      (.sign (k := .lparen) rfl (fun _ _ => rfl) harguments)
    have := ih hnames.1 hplain.2.1 (point he hplain.1 _) hmember
    simpa [Phrase.text, Phrase.words, Expr.text, Expr.words, argumentsText, Token.Kind.spelling] using this
  | element h he ht hi hu ih ihi =>
    simp only [Phrase.words, Phrase.nodes, Expr.words, Expr.nodes, List.forall_mem_append, List.forall_mem_cons]
      at hnames hplain
    have hindex := ihi hnames.2.2.1 hplain.2.2 (Phrase.stops_cons rfl (by decide) _ s)
      (.sign (k := .rbracket) rfl (fun _ _ => rfl) hafter)
    have := ih hnames.1 hplain.2.1 (Phrase.stops_cons rfl (by decide) _ _)
      (.sign (k := .lbracket) rfl (fun _ _ => rfl) hindex)
    simpa [Phrase.text, Phrase.words, Expr.text, Expr.words, Token.Kind.spelling] using this
  | @classLiteral t u ts bs e root members n h hd hb ht hu ih =>
    simp only [Phrase.words, Expr.words, TypeName.words, List.forall_mem_append, List.forall_mem_cons] at hnames
    have hmembers : ∀ m ∈ members, Token.Named m := by
      intro m hm
      exact hnames.1.2 (.name m) (List.mem_flatMap.2 ⟨m, hm, by simp⟩)
    have := Says.type (t := ⟨root, members, n, e.span⟩) hnames.1.1 hmembers hs.1 hafter
    simpa [Phrase.text, Phrase.words, Expr.text, Expr.words, Token.Kind.spelling] using this
  | @unary t ts op e ht h he ih =>
    simp only [Phrase.words, Phrase.nodes, Expr.words, Expr.nodes, List.forall_mem_cons] at hnames hplain
    have hbelow : ¬ (Expr.unary (t.span.join e.span) op e).tightness = 8 := by simp [tightness]
    have hoperand := ih hnames.2 hplain.2 ⟨hs.1, fun hpoint => absurd (hs.2 hpoint).1 hbelow⟩ hafter
    have happart : Token.Apart op.kind op.kind.spelling (e.text.toList ++ s) := by
      obtain ⟨c, hc, hne⟩ := (starts_text hnames.2 hplain.2).append s
      intro d hd
      obtain rfl : c = d := Option.some.inj (hc.symm.trans hd)
      cases op
      · rfl
      · exact decide_eq_false hne
    have := Says.sign (by cases op <;> rfl) happart hoperand
    simpa [Phrase.text, Phrase.words, Expr.text, Expr.words, op.toList_text] using this
  | @binary t ts us op a b ha hle ht hb hlt iha ihb =>
    simp only [Phrase.words, Phrase.nodes, Expr.words, Expr.nodes, List.forall_mem_append, List.forall_mem_cons]
      at hnames hplain
    have hbelow : ¬ (Expr.binary (a.span.join b.span) op a b).tightness = 8 := by
      have := op.precedence_le
      simp only [tightness]
      omega
    have hright := ihb hnames.2.2 hplain.2.2 ⟨hs.1, fun hpoint => absurd (hs.2 hpoint).1 hbelow⟩ hafter
    have happart : Token.Apart op.kind op.kind.spelling (' ' :: (b.text.toList ++ s)) := by
      rintro d ⟨⟩
      cases op <;> rfl
    have hsign := Says.sign (by cases op <;> rfl) happart hright.space
    have := iha hnames.1 hplain.2.1 (Phrase.stops_cons rfl (by decide) _ _) hsign.space
    simpa [Phrase.text, Phrase.words, Expr.text, Expr.words, op.toList_text] using this
  | none => exact hafter
  | last h ih =>
    simp only [Phrase.words, Phrase.nodes, wordsAll, nodesAll, List.append_nil] at hnames hplain
    have := ih hnames hplain ⟨hs.1, fun hpoint => absurd hpoint hs.2⟩ hafter
    simpa [Phrase.text, Phrase.words, texts, wordsAll] using this
  | @next u ts us e es h hu hes hne ih ihs =>
    obtain ⟨e', es, rfl⟩ := List.exists_cons_of_ne_nil hne
    simp only [Phrase.words, wordsAll, List.forall_mem_append, List.forall_mem_cons] at hnames
    rw [Phrase.nodes, nodesAll, List.forall_mem_append] at hplain
    have hrest := ihs hnames.2.2 hplain.2 hs hafter
    have := ih hnames.1 hplain.1 (Phrase.stops_cons rfl (by decide) _ _)
      (.sign (k := .comma) rfl (fun _ _ => rfl) hrest.space)
    simpa [Phrase.text, Phrase.words, texts, wordsAll, String.intercalate_cons_cons, Token.Kind.spelling] using this

/-- A name that a token of a text says is one word. -/
theorem named_of_mem {text : String} {ts : List Token} {t : Token} {x : Word} (h : Token.scan text = .ok ts)
    (ht : t ∈ ts) (hx : t.word? = some x) : x.Named := by
  cases x with
  | literal v => trivial
  | sign k => trivial
  | name n =>
    obtain ⟨c, s, m, -, hp, hl⟩ := Token.mem_scanFrom 0 text.toList h ht
    rcases Token.word?_eq_name hx with ⟨hk, rfl⟩ | ⟨hk, rfl⟩
    · rw [hk] at hp
      refine ⟨c, s.take m, by rw [String.toList_ofList, hl], ?_⟩
      rw [List.length_take_of_le (Token.pick_le hp)]
      refine @Token.pick_of_append (s.take m) (s.drop m) c _ _ ?_ ?_ nofun
      · rw [List.take_append_drop, hp]
      · rw [List.length_take_of_le (Token.pick_le hp)]
    · rw [hk] at hp
      obtain ⟨rfl, hrun, -⟩ := Token.pick_paramRef hp
      have hdigits : ∀ d ∈ s.take m, isDigit 10 d = true := fun d hd => Token.mem_take_run (Nat.le_of_eq hrun) hd
      have hpick := Token.pick_stem hdigits Token.ends_nil
      rw [List.append_nil] at hpick
      refine ⟨_, _, ?_, hpick⟩
      rw [String.toList_ofList, hl, Marker.stem_eq]
      rfl

/-- Tokens that say the same, with each name written as it is. -/
theorem restates_of_words : ∀ {ts ts' : List Token}, ts'.map Token.word? = ts.map Token.word? →
    (∀ t ∈ ts', t.kind ≠ .paramRef) → List.Forall₂ Token.Restates ts ts'
  | [], [], _, _ => .nil
  | t :: ts, t' :: ts', h, hkinds => by
    obtain ⟨hword, hrest⟩ := List.cons.inj h
    obtain ⟨hkind, hkinds⟩ := List.forall_mem_cons.1 hkinds
    refine .cons ⟨hword, fun hk => ?_⟩ (restates_of_words hrest hkinds)
    rw [Token.word?_of_ident hk] at hword
    exact (Token.word?_eq_name hword).elim And.left fun hparam => absurd hparam.1 hkind

/-- The text of a tree that was read is read as the same tree. -/
theorem read_text {text : String} {e : Expr} (h : Expr.read text = .ok e) (hplain : ∀ n ∈ e.nodes, n.Plain) :
    ∃ e', Expr.read e.text = .ok e' ∧ e'.unplaced = e.unplaced := by
  obtain ⟨ts, hts, hspells⟩ := Parser.read_eq_ok_iff.1 h
  have hnames : ∀ x ∈ e.words, x.Named := by
    intro x hx
    have hmem : some x ∈ ts.map Token.word? := hspells.words ▸ List.mem_map_of_mem hx
    obtain ⟨t, ht, htx⟩ := List.mem_map.1 hmem
    exact named_of_mem hts ht htx
  have hstops : (Phrase.expr e).Stops [] := ⟨Token.ends_nil, nofun⟩
  obtain ⟨us, hus, hwords, hkinds⟩ := hspells.says_text hnames hplain hstops .nil 0
  rw [List.append_nil] at hwords hus
  obtain ⟨_, hp, hunplaced⟩ := hspells.restated (restates_of_words (hwords.trans hspells.words.symm) hkinds)
  obtain ⟨e', rfl, he⟩ := Phrase.exists_expr hunplaced
  exact ⟨e', Parser.read_eq_ok_iff.2 ⟨us, hus.scanFrom, hp⟩, he⟩

/-- Blanks, separators and escapes are written in one way, and parentheses stay. -/
theorem read_text_sum : ∃ e e', Expr.read "f(0x1_0,'\\47') +\t-(a- b).c [1 ]*int[] .class" = .ok e ∧
    (∀ n ∈ e.nodes, n.Plain) ∧ e.text = "f(16, '\\'') + -(a - b).c[1] * int[].class" ∧
    Expr.read "f(16, '\\'') + -(a - b).c[1] * int[].class" = .ok e' ∧ e'.unplaced = e.unplaced := by
  have hread : (Expr.read "f(0x1_0,'\\47') +\t-(a- b).c [1 ]*int[] .class").toOption.map
      (fun e => (e.text, e.nodes.all fun n => n.Plain)) =
        some ("f(16, '\\'') + -(a - b).c[1] * int[].class", true) := by decide +kernel
  obtain ⟨e, he, hboth⟩ := of_toOption_map hread
  obtain ⟨htext, hall⟩ := Prod.mk.inj hboth
  have hplain : ∀ n ∈ e.nodes, n.Plain := fun n hn => of_decide_eq_true (List.all_eq_true.1 hall n hn)
  obtain ⟨e', he', hunplaced⟩ := read_text he hplain
  rw [htext] at he'
  exact ⟨e, e', he, hplain, htext, he', hunplaced⟩

end Expr
end AnnotationExpr
