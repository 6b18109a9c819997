import AnnotationExpr.Ty.Reading
import Mathlib.Data.List.Basic
import Mathlib.Data.List.Forall2

/-!
A type is read from its own text exactly if it can be written: its names are names, those of primitive types and of type
parameters stand for nothing else, and no brackets are empty.
-/

namespace AnnotationExpr.Ty

open Text (alphabeticRanges numericRanges isBlank trim within)

/-- The type can be written, with these names as type variables. -/
inductive WellFormed (parameters : List String) : Ty → Prop where
  | primitive (p : Primitive) : WellFormed parameters (primitive p)
  | void : WellFormed parameters void
  | var {name : String} (hname : isQualifiedName name.toList) (hprimitive : Primitive.ofName? name = Option.none)
      (hvoid : name ≠ "void") (hmem : name ∈ parameters) : WellFormed parameters (var name)
  | plain {name : String} (hname : isQualifiedName name.toList) (hprimitive : Primitive.ofName? name = Option.none)
      (hvoid : name ≠ "void") (hmem : name ∉ parameters) : WellFormed parameters (declared name [])
  | applied {name : String} {arguments : List Ty} (hname : isQualifiedName name.toList) (hne : arguments ≠ [])
      (h : ∀ t ∈ arguments, WellFormed parameters t) : WellFormed parameters (declared name arguments)
  | array {component : Ty} (h : WellFormed parameters component) : WellFormed parameters (array component)

variable {parameters : List String} {written s name inner : List Char} {t : Ty} {depth : Nat}

/-! White space, commas and brackets stand in no name. -/

/-- The code points of white space, and of the signs that part the names of a type. -/
def gapRanges : List (Nat × Nat) :=
  [(9, 13), (0x20, 0x20), (0x2C, 0x2C), (0x3C, 0x3C), (0x3E, 0x3E), (0x5B, 0x5B), (0x5D, 0x5D), (0x85, 0x85),
    (0xA0, 0xA0), (0x1680, 0x1680), (0x2000, 0x200A), (0x2028, 0x2029), (0x202F, 0x202F), (0x205F, 0x205F),
    (0x3000, 0x3000)]

def isGap (c : Char) : Bool := within gapRanges c

theorem isGap_of_isBlank {c : Char} (h : isBlank c = true) : isGap c = true := by
  simp only [isBlank, isGap, within, gapRanges, List.any_cons, List.any_nil, Bool.or_eq_true, Bool.and_eq_true,
    decide_eq_true_eq, Bool.or_false] at *
  omega

theorem apart_gapRanges : ((alphabeticRanges ++ numericRanges).all fun r =>
    gapRanges.all fun g => Nat.blt r.2 g.1 || Nat.blt g.2 r.1) = true := by
  decide +kernel

theorem not_isGap_of_isAlphanumeric {c : Char} (h : Text.isAlphanumeric c = true) : isGap c = false := by
  have hin : ∃ r ∈ alphabeticRanges ++ numericRanges, r.1 ≤ c.toNat ∧ c.toNat ≤ r.2 := by
    simpa [Text.isAlphanumeric, Text.isAlphabetic, within, or_and_right, exists_or] using h
  obtain ⟨r, hr, hlow, hhigh⟩ := hin
  refine Bool.eq_false_iff.2 fun hgap => ?_
  obtain ⟨g, hg, hc⟩ := List.any_eq_true.1 hgap
  simp only [Bool.and_eq_true, decide_eq_true_eq] at hc
  have hapart := List.all_eq_true.1 (List.all_eq_true.1 apart_gapRanges r hr) g hg
  simp only [Bool.or_eq_true, Nat.blt_eq] at hapart
  omega

theorem not_isGap_of_isNameRest {c : Char} (h : isNameRest c = true) : isGap c = false := by
  simp only [isNameRest, Bool.or_eq_true, decide_eq_true_eq] at h
  obtain (h | rfl) | rfl := h
  · exact not_isGap_of_isAlphanumeric h
  · rfl
  · rfl

theorem isNameRest_of_isNameStart {c : Char} (h : isNameStart c = true) : isNameRest c = true := by
  simp only [isNameStart, isNameRest, Text.isAlphanumeric, Bool.or_eq_true] at *
  tauto

theorem isNameRest_of_isName {c : Char} (h : isName s = true) (hc : c ∈ s) : isNameRest c = true := by
  cases s with
  | nil => contradiction
  | cons d s =>
    obtain ⟨hd, hs⟩ := (Bool.and_eq_true _ _).mp h
    rcases List.mem_cons.1 hc with rfl | hc
    · exact isNameRest_of_isNameStart hd
    · exact List.all_eq_true.1 hs c hc

theorem mem_splitBy {p : Char → Bool} {c : Char} (hc : c ∈ s) : p c = true ∨ ∃ part ∈ Text.splitBy p s, c ∈ part := by
  induction s with
  | nil => contradiction
  | cons d s ih =>
    rw [Text.splitBy]
    rcases List.mem_cons.1 hc with rfl | hc
    · by_cases hp : p c = true
      · exact .inl hp
      · rw [if_neg hp]
        split <;> simp
    · rcases ih hc with hp | ⟨part, hpart, hmem⟩
      · exact .inl hp
      · refine .inr ?_
        split
        · exact ⟨part, List.mem_cons_of_mem _ hpart, hmem⟩
        · split
          next h => simp [h] at hpart
          next first parts h =>
            rw [h, List.mem_cons] at hpart
            obtain rfl | hpart := hpart
            · exact ⟨d :: part, List.mem_cons_self, List.mem_cons_of_mem _ hmem⟩
            · exact ⟨part, List.mem_cons_of_mem _ hpart, hmem⟩

theorem not_isGap_of_isQualifiedName (h : isQualifiedName s = true) : ∀ c ∈ s, isGap c = false := by
  intro c hc
  rcases mem_splitBy (p := (· = '.')) hc with hp | ⟨part, hpart, hmem⟩
  · rw [of_decide_eq_true hp]
    rfl
  · exact not_isGap_of_isNameRest (isNameRest_of_isName (List.all_eq_true.1 h part hpart) hmem)

theorem notMem_of_isQualifiedName {c : Char} (h : isQualifiedName s = true) (hc : isGap c = true) : c ∉ s := by
  intro hmem
  rw [not_isGap_of_isQualifiedName h c hmem] at hc
  contradiction

/-! Trimming. -/

theorem dropWhile_eq_self {p : Char → Bool} (h : ∀ c ∈ s.head?, p c = false) : s.dropWhile p = s := by
  cases s with
  | nil => rfl
  | cons c s => rw [List.dropWhile_cons_of_neg (by simp [h c rfl])]

theorem trim_eq_self (hfirst : ∀ c ∈ s.head?, isBlank c = false) (hlast : ∀ c ∈ s.getLast?, isBlank c = false) :
    trim s = s := by
  rw [trim, Text.trimLeft, dropWhile_eq_self hfirst, Text.trimRight, dropWhile_eq_self, List.reverse_reverse]
  rwa [List.head?_reverse]

theorem trim_space (s : List Char) : trim (' ' :: s) = trim s := rfl

/-! Texts that stand between two commas. -/

/-- The text is passed over as a whole where this many brackets are open. -/
def Closed (depth : Nat) (s : List Char) : Prop :=
  ∀ rest, splitArguments depth (s ++ rest) = (splitArguments depth rest).map (s.foldr toFirst)

theorem foldr_toFirst (s part : List Char) (parts : List (List Char)) :
    s.foldr toFirst (part :: parts) = (s ++ part) :: parts := by
  induction s with
  | nil => rfl
  | cons c s ih => rw [List.foldr_cons, ih, toFirst, List.cons_append]

theorem closed_nil : Closed depth [] := by
  intro rest
  simp

theorem Closed.append {s' : List Char} (h : Closed depth s) (h' : Closed depth s') : Closed depth (s ++ s') := by
  intro rest
  rw [List.append_assoc, h, h', Option.map_map]
  simp [Function.comp_def]

theorem closed_char {c : Char} (hc : c ∉ [',', '<', '>']) : Closed depth [c] := by
  intro rest
  simp only [List.mem_cons, List.not_mem_nil, or_false, not_or] at hc
  rw [List.singleton_append, splitArguments] <;> simp_all

theorem closed_of_forall (h : ∀ c ∈ s, c ∉ [',', '<', '>']) : Closed depth s := by
  induction s with
  | nil => exact closed_nil
  | cons c s ih =>
    rw [List.forall_mem_cons] at h
    exact (closed_char h.1).append (ih h.2)

theorem closed_comma : Closed (depth + 1) [','] := by
  intro rest
  simp [splitArguments]

theorem Closed.enclosed (h : Closed (depth + 1) s) : Closed depth ('<' :: (s ++ ['>'])) := by
  intro rest
  have hclose : splitArguments (depth + 1) ('>' :: rest) = (splitArguments depth rest).map (toFirst '>') := by
    simp [splitArguments]
  rw [List.cons_append, splitArguments, List.append_assoc, h, List.singleton_append, hclose]
  simp [Function.comp_def]

theorem closed_intercalate {texts : List (List Char)} (h : ∀ s ∈ texts, Closed (depth + 1) s) :
    Closed (depth + 1) (", ".toList.intercalate texts) := by
  have hspace : Closed (depth + 1) [' '] := closed_char (by decide)
  induction texts with
  | nil => exact closed_nil
  | cons s texts ih =>
    obtain ⟨hs, htexts⟩ := List.forall_mem_cons.1 h
    cases texts with
    | nil => simpa using hs
    | cons s' texts =>
      rw [List.intercalate_cons_cons]
      exact (hs.append (closed_comma.append hspace)).append (ih htexts)

/-- Texts with commas between them are parted at just these commas. -/
theorem splitArguments_intercalate {texts : List (List Char)} (h : ∀ x ∈ s :: texts, Closed 0 x) :
    splitArguments 0 (", ".toList.intercalate (s :: texts)) = some (s :: texts.map (' ' :: ·)) := by
  have hs : Closed 0 s := h s List.mem_cons_self
  induction texts generalizing s with
  | nil =>
    have hend := hs []
    rw [List.append_nil] at hend
    simp [hend, splitArguments, foldr_toFirst]
  | cons s' texts ih =>
    have htexts : ∀ x ∈ s' :: texts, Closed 0 x := fun x hx => h x (List.mem_cons_of_mem _ hx)
    have hrest := ih htexts (htexts s' List.mem_cons_self)
    have hspace : Closed 0 [' '] := closed_char (by decide)
    rw [List.intercalate_cons_cons, List.append_assoc, hs]
    change (splitArguments 0 (',' :: ([' '] ++ _))).map _ = _
    rw [splitArguments, if_pos rfl, hspace, hrest]
    simp [toFirst, foldr_toFirst]

/-! The texts of types. -/

/-- The text stands on its own between commas and brackets, with no white space around it. -/
structure Tidy (s : List Char) : Prop where
  closed : ∀ depth, Closed depth s
  first : ∀ c ∈ s.head?, isBlank c = false
  last : ∀ c ∈ s.getLast?, isBlank c = false

theorem Tidy.trim (h : Tidy s) : trim s = s := trim_eq_self h.first h.last

theorem Tidy.append {c d : Char} {r : List Char} (h : Tidy s) (hclosed : ∀ depth, Closed depth (c :: (r ++ [d])))
    (hc : isBlank c = false) (hd : isBlank d = false) : Tidy (s ++ c :: (r ++ [d])) := by
  refine ⟨fun depth => (h.closed depth).append (hclosed depth), fun e he => ?_, fun e he => ?_⟩
  · rw [List.head?_append, Option.mem_def, Option.or_eq_some_iff] at he
    rcases he with he | ⟨-, he⟩
    · exact h.first e he
    · rwa [← Option.some.inj he]
  · rw [← List.cons_append, ← List.append_assoc, List.getLast?_concat] at he
    rwa [← Option.some.inj he]

theorem tidy_of_isQualifiedName (h : isQualifiedName s = true) : Tidy s := by
  have hgap : ∀ c ∈ s, isGap c = false := not_isGap_of_isQualifiedName h
  have hblank : ∀ c ∈ s, isBlank c = false := fun c hc => Bool.eq_false_iff.2 fun hb => by
    simpa [hgap c hc] using isGap_of_isBlank hb
  have hsign : ∀ c ∈ s, c ∉ [',', '<', '>'] := fun c hc hmem => by
    have hc := hgap c hc
    simp only [List.mem_cons, List.not_mem_nil, or_false] at hmem
    obtain rfl | rfl | rfl := hmem <;> contradiction
  exact ⟨fun _ => closed_of_forall hsign, fun c hc => hblank c (List.mem_of_mem_head? hc),
    fun c hc => hblank c (List.mem_of_getLast? hc)⟩

theorem texts_eq_map (ts : List Ty) : texts ts = ts.map Ty.text := by
  induction ts with
  | nil => rfl
  | cons t ts ih => rw [texts, ih, List.map_cons]

theorem toList_text_applied {name : String} {arguments : List Ty} (hne : arguments ≠ []) :
    (declared name arguments).text.toList =
      name.toList ++ '<' :: (", ".toList.intercalate (arguments.map (·.text.toList)) ++ ['>']) := by
  have hempty : arguments.isEmpty = false := by simpa using hne
  simp [Ty.text, hempty, texts_eq_map, String.toList_intercalate, Function.comp_def]

theorem toList_text_array (component : Ty) : (array component).text.toList = component.text.toList ++ ['[', ']'] := by
  simp [Ty.text]

/-- The type is read from its text as from a plain name. -/
structure Named (parameters : List String) (t : Ty) : Prop where
  isQualifiedName : isQualifiedName t.text.toList = true
  ofName : ofName parameters t.text = t

theorem named_primitive (p : Primitive) : Named parameters (primitive p) := by
  cases p <;> exact ⟨by decide +kernel, rfl⟩

theorem named_void : Named parameters void := ⟨by decide +kernel, rfl⟩

theorem named_var {name : String} (hname : isQualifiedName name.toList)
    (hprimitive : Primitive.ofName? name = Option.none) (hvoid : name ≠ "void") (hmem : name ∈ parameters) :
    Named parameters (var name) :=
  ⟨hname, by simp [ofName, Ty.text, hprimitive, hvoid, hmem]⟩

theorem named_plain {name : String} (hname : isQualifiedName name.toList)
    (hprimitive : Primitive.ofName? name = Option.none) (hvoid : name ≠ "void") (hmem : name ∉ parameters) :
    Named parameters (declared name []) :=
  ⟨by simpa [Ty.text] using hname, by simp [ofName, Ty.text, hprimitive, hvoid, hmem]⟩

/-- A type that can be written is a plain name, a class with arguments or an array. -/
theorem WellFormed.induct {motive : ∀ t, WellFormed parameters t → Prop}
    (named : ∀ t h, Named parameters t → motive t h)
    (applied : ∀ name arguments (hname : isQualifiedName name.toList = true) (hne : arguments ≠ [])
      (h : ∀ t ∈ arguments, WellFormed parameters t), (∀ t ht, motive t (h t ht)) →
        motive (declared name arguments) (.applied hname hne h))
    (array : ∀ component h, motive component h → motive component.array (.array h)) (h : WellFormed parameters t) :
    motive t h := by
  induction h with
  | primitive p => exact named _ _ (named_primitive p)
  | void => exact named _ _ named_void
  | var hname hprimitive hvoid hmem => exact named _ _ (named_var hname hprimitive hvoid hmem)
  | plain hname hprimitive hvoid hmem => exact named _ _ (named_plain hname hprimitive hvoid hmem)
  | applied hname hne h ih => exact applied _ _ hname hne h ih
  | array h ih => exact array _ h ih

theorem wellFormed_ofName {name : String} (hname : isQualifiedName name.toList) :
    WellFormed parameters (ofName parameters name) := by
  unfold ofName
  split
  next p _ => exact .primitive p
  next hprimitive =>
    split
    next => exact .void
    next hvoid =>
      split
      next hmem => exact .var hname hprimitive hvoid (List.contains_iff_mem.1 hmem)
      next hmem => exact .plain hname hprimitive hvoid (fun h => hmem (List.contains_iff_mem.2 h))

theorem WellFormed.tidy (h : WellFormed parameters t) : Tidy t.text.toList := by
  induction h using WellFormed.induct with
  | named t _ ht => exact tidy_of_isQualifiedName ht.isQualifiedName
  | applied name arguments hname hne _ ih =>
    have hinner (depth : Nat) : Closed (depth + 1) (", ".toList.intercalate (arguments.map (·.text.toList))) :=
      closed_intercalate (List.forall_mem_map.2 fun t ht => (ih t ht).closed _)
    rw [toList_text_applied hne]
    exact (tidy_of_isQualifiedName hname).append (fun depth => (hinner depth).enclosed) rfl rfl
  | array component _ ih =>
    rw [toList_text_array]
    exact ih.append (r := []) (fun depth => closed_of_forall (by simp)) rfl rfl

/-! Reading. -/

theorem read?_eq (parameters : List String) (written : List Char) :
    read? parameters written =
      if "[]".toList.isSuffixOf (trim written) then
        (read? parameters (trim written).dropLast.dropLast).map array
      else if (trim written).contains '<' then
        (brackets? (trim written)).bind fun s =>
          if isQualifiedName (trim s.1) then
            (splitArguments 0 s.2).bind fun parts =>
              (readAll? parameters parts).map (declared (String.ofList (trim s.1)))
          else Option.none
      else if isQualifiedName (trim written) then some (ofName parameters (String.ofList (trim written)))
      else Option.none := by
  rw [read?]
  split
  · rfl
  · split
    · split
      next h => simp [h]
      next h =>
        simp only [h, Option.bind_some]
        split
        · split
          next hp => simp [hp]
          next hp => simp [hp]
        · rfl
    · rfl

theorem read?_array (h : trim written = s ++ ['[', ']']) :
    read? parameters written = (read? parameters s).map array := by
  have hsuffix : "[]".toList.isSuffixOf (trim written) = true := by
    rw [h]
    exact List.isSuffixOf_iff_suffix.2 (List.suffix_append s _)
  have hdrop : (trim written).dropLast.dropLast = s := by
    rw [h, List.append_cons, List.dropLast_concat, List.dropLast_concat]
  rw [read?_eq, if_pos hsuffix, hdrop]

theorem read?_applied (h : trim written = name ++ '<' :: (inner ++ ['>'])) (hname : '<' ∉ name) :
    read? parameters written =
      if isQualifiedName (trim name) then
        (splitArguments 0 inner).bind fun parts =>
          (readAll? parameters parts).map (declared (String.ofList (trim name)))
      else Option.none := by
  have hsuffix : ¬"[]".toList.isSuffixOf (trim written) = true := fun hs => by
    have hlast : (trim written).getLast? = some '>' := by
      rw [h, ← List.cons_append, ← List.append_assoc, List.getLast?_concat]
    obtain ⟨s, hs⟩ := List.isSuffixOf_iff_suffix.1 hs
    rw [← hs, List.getLast?_append] at hlast
    simp at hlast
  have hopen : (trim written).contains '<' = true := by simp [h]
  have hbrackets : brackets? (trim written) = some (name, inner) := by
    have hbefore : ∀ c ∈ name, decide (c ≠ '<') = true := fun c hc => decide_eq_true fun heq => hname (heq ▸ hc)
    rw [h, brackets?, List.dropWhile_append_of_pos hbefore, List.takeWhile_append_of_pos hbefore]
    simp
  rw [read?_eq, if_neg hsuffix, if_pos hopen, hbrackets, Option.bind_some]

theorem read?_name (h : isQualifiedName (trim written) = true) :
    read? parameters written = some (ofName parameters (String.ofList (trim written))) := by
  have hsuffix : ¬"[]".toList.isSuffixOf (trim written) = true := fun hs => by
    have hmem : ']' ∈ trim written := (List.isSuffixOf_iff_suffix.1 hs).subset (by decide)
    exact notMem_of_isQualifiedName h (by decide) hmem
  have hopen : ¬(trim written).contains '<' = true := fun hc =>
    notMem_of_isQualifiedName h (by decide) (List.contains_iff_mem.1 hc)
  rw [read?_eq, if_neg hsuffix, if_neg hopen, if_pos h]

theorem readAll?_eq_some {texts : List (List Char)} {ts : List Ty} :
    readAll? parameters texts = some ts ↔ List.Forall₂ (fun s t => read? parameters s = some t) texts ts := by
  induction texts generalizing ts with
  | nil => simp [readAll?, eq_comm]
  | cons s texts ih =>
    rw [readAll?, List.forall₂_cons_left_iff]
    simp only [Option.bind_eq_bind, Option.bind_eq_some_iff, Option.pure_def, Option.some.injEq, ih]
    constructor
    · rintro ⟨t, ht, ts, hts, rfl⟩
      exact ⟨t, ts, ht, hts, rfl⟩
    · rintro ⟨t, ts, ht, hts, rfl⟩
      exact ⟨t, ht, ts, hts, rfl⟩

theorem length_lt_size {parts : List (List Char)} (h : s ∈ parts) : s.length < size parts := by
  induction parts with
  | nil => contradiction
  | cons part parts ih =>
    rw [size]
    rcases List.mem_cons.1 h with rfl | h
    · omega
    · have := ih h
      omega

theorem exists_read?_of_mem {texts : List (List Char)} {ts : List Ty}
    (h : List.Forall₂ (fun s t => read? parameters s = some t) texts ts) (ht : t ∈ ts) :
    ∃ s ∈ texts, read? parameters s = some t := by
  induction h with
  | nil => contradiction
  | cons hs _ ih =>
    rcases List.mem_cons.1 ht with rfl | ht
    · exact ⟨_, List.mem_cons_self, hs⟩
    · obtain ⟨s, hmem, hs⟩ := ih ht
      exact ⟨s, List.mem_cons_of_mem _ hmem, hs⟩

/-- What is read is an array, a class with arguments or a plain name, and its parts are read from shorter texts. -/
theorem read?_cases (h : read? parameters written = some t) :
    (∃ s component, s.length < written.length ∧ read? parameters s = some component ∧ t = array component) ∨
      (∃ name parts arguments, isQualifiedName name = true ∧ parts ≠ [] ∧ (∀ s ∈ parts, s.length < written.length) ∧
        readAll? parameters parts = some arguments ∧ t = declared (String.ofList name) arguments) ∨
      ∃ name, isQualifiedName name = true ∧ t = ofName parameters (String.ofList name) := by
  have htrim : (trim written).length ≤ written.length := length_trim_le written
  rw [read?_eq] at h
  split at h
  next hsuffix =>
    obtain ⟨component, hcomponent, rfl⟩ := Option.map_eq_some_iff.1 h
    have hlength : 2 ≤ (trim written).length := (List.isSuffixOf_iff_suffix.1 hsuffix).length_le
    refine .inl ⟨_, component, ?_, hcomponent, rfl⟩
    rw [List.length_dropLast, List.length_dropLast]
    omega
  next =>
    split at h
    next =>
      obtain ⟨⟨name, inner⟩, hbrackets, h⟩ := Option.bind_eq_some_iff.1 h
      split at h
      next hname =>
        obtain ⟨parts, hparts, h⟩ := Option.bind_eq_some_iff.1 h
        obtain ⟨arguments, harguments, rfl⟩ := Option.map_eq_some_iff.1 h
        obtain ⟨hne, hsize⟩ := size_splitArguments hparts
        have hinner := length_brackets? hbrackets
        refine .inr (.inl ⟨trim name, parts, arguments, hname, hne, fun s hs => ?_, harguments, rfl⟩)
        have hpart : s.length < inner.length + 1 := hsize ▸ length_lt_size hs
        omega
      next => contradiction
    next =>
      split at h
      next hname => exact .inr (.inr ⟨_, hname, (Option.some.inj h).symm⟩)
      next => contradiction

/-- Whatever is read is a type that can be written. -/
theorem wellFormed_of_read? (h : read? parameters written = some t) : WellFormed parameters t := by
  induction hn : written.length using Nat.strongRecOn generalizing written t with
  | ind n ih =>
    subst hn
    obtain ⟨s, component, hs, hcomponent, rfl⟩ | ⟨name, parts, arguments, hname, hne, hshorter, hread, rfl⟩ |
      ⟨name, hname, rfl⟩ := read?_cases h
    · exact .array (ih _ hs hcomponent rfl)
    · have hread := readAll?_eq_some.1 hread
      refine .applied (by rwa [String.toList_ofList]) ?_ fun t ht => ?_
      · rintro rfl
        exact hne (List.forall₂_nil_right_iff.1 hread)
      · obtain ⟨s, hs, hst⟩ := exists_read?_of_mem hread ht
        exact ih _ (hshorter s hs) hst rfl
    · exact wellFormed_ofName (by rwa [String.toList_ofList])

theorem WellFormed.read? (h : WellFormed parameters t) (hs : trim s = t.text.toList) : read? parameters s = some t := by
  induction h using WellFormed.induct generalizing s with
  | named t _ ht =>
    have hname : isQualifiedName (trim s) = true := by rw [hs, ht.isQualifiedName]
    rw [read?_name hname, hs, String.ofList_toList, ht.ofName]
  | applied name arguments hname hne h ih =>
    rw [toList_text_applied hne] at hs
    have htrim : trim name.toList = name.toList := (tidy_of_isQualifiedName hname).trim
    have hopen : '<' ∉ name.toList := notMem_of_isQualifiedName hname (by decide)
    obtain ⟨first, others, rfl⟩ := List.exists_cons_of_ne_nil hne
    have hclosed : ∀ s ∈ (first :: others).map (·.text.toList), Closed 0 s :=
      List.forall_mem_map.2 fun t ht => (h t ht).tidy.closed 0
    have hread : readAll? parameters (first.text.toList :: (others.map (·.text.toList)).map (' ' :: ·)) =
        some (first :: others) := by
      rw [readAll?_eq_some, List.map_map, List.forall₂_cons, List.forall₂_map_left_iff, List.forall₂_same]
      refine ⟨ih _ List.mem_cons_self (h _ List.mem_cons_self).tidy.trim, fun t ht => ?_⟩
      have hmem := List.mem_cons_of_mem first ht
      exact ih t hmem ((trim_space _).trans (h t hmem).tidy.trim)
    rw [read?_applied hs hopen, htrim, if_pos hname, List.map_cons, splitArguments_intercalate hclosed,
      Option.bind_some, hread, Option.map_some, String.ofList_toList]
  | array component h ih =>
    rw [toList_text_array] at hs
    rw [read?_array hs, ih h.tidy.trim, Option.map_some]

/-- Whatever a text is read as can be written, and exactly the types that can be written are read from their own
texts. -/
theorem ofText?_text (parameters : List String) :
    (∀ text, ∀ t ∈ ofText? parameters text, WellFormed parameters t) ∧
      ∀ t, ofText? parameters t.text = some t ↔ WellFormed parameters t :=
  ⟨fun _ _ => wellFormed_of_read?, fun _ => ⟨wellFormed_of_read?, fun h => h.read? h.tidy.trim⟩⟩

/-- A class type with a type variable and a nested class type, with white space of its own. -/
theorem ofText?_text_map :
    ofText? ["T"] " java.util.Map< T ,java.util.List<java.lang.String>[] > " =
        some (declared "java.util.Map" [var "T", array (declared "java.util.List" [string])]) ∧
      WellFormed ["T"] (declared "java.util.Map" [var "T", array (declared "java.util.List" [string])]) := by
  have hread : ofText? ["T"] " java.util.Map< T ,java.util.List<java.lang.String>[] > " =
      some (declared "java.util.Map" [var "T", array (declared "java.util.List" [string])]) := by
    decide +kernel
  exact ⟨hread, (ofText?_text ["T"]).1 _ _ hread⟩

end AnnotationExpr.Ty
