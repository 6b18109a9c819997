import AnnotationExpr.Text.Blank
import AnnotationExpr.Text.Dotted
import AnnotationExpr.Text.Letter
import AnnotationExpr.Ty

/-!
Types as they are written: `int`, `java.lang.String`, `int[][]`, `java.util.Map<K, java.lang.String>`.
White space may stand around every part. A name in the list of parameters is a type variable, any other
name a class.
-/

namespace AnnotationExpr.Ty

def isNameStart (c : Char) : Bool := Text.isAlphabetic c || c = '_' || c = '$'

def isNameRest (c : Char) : Bool := Text.isAlphanumeric c || c = '_' || c = '$'

def isName : List Char → Bool
  | [] => false
  | c :: s => isNameStart c && s.all isNameRest

def isQualifiedName (s : List Char) : Bool := (Text.splitBy (· = '.') s).all isName

def toFirst (c : Char) : List (List Char) → List (List Char)
  | [] => [[c]]
  | part :: parts => (c :: part) :: parts

/-- The parts between the commas that stand in no brackets, `depth` brackets being open; nothing if the
brackets do not match. -/
def splitArguments (depth : Nat) : List Char → Option (List (List Char))
  | [] => if depth = 0 then some [[]] else Option.none
  | ',' :: s =>
    if depth = 0 then (splitArguments 0 s).map ([] :: ·)
    else (splitArguments depth s).map (toFirst ',')
  | '<' :: s => (splitArguments (depth + 1) s).map (toFirst '<')
  | '>' :: s => if depth = 0 then Option.none else (splitArguments (depth - 1) s).map (toFirst '>')
  | c :: s => (splitArguments depth s).map (toFirst c)

/-- Number of characters in the parts, with one more for each part. -/
def size : List (List Char) → Nat
  | [] => 0
  | part :: parts => part.length + 1 + size parts

theorem size_toFirst (c : Char) {parts : List (List Char)} (h : parts ≠ []) :
    size (toFirst c parts) = size parts + 1 := by
  cases parts with
  | nil => contradiction
  | cons part parts => simp [toFirst, size]; omega

theorem size_splitArguments {depth : Nat} {s : List Char} {parts : List (List Char)}
    (h : splitArguments depth s = some parts) : parts ≠ [] ∧ size parts = s.length + 1 := by
  fun_induction splitArguments depth s generalizing parts with
  | case1 => simp_all; subst h; simp [size]
  | case2 => simp_all
  | case6 => simp_all
  | case3 _ ih =>
    obtain ⟨q, hq, rfl⟩ := Option.map_eq_some_iff.1 h
    have := ih hq
    simp_all [size]; omega
  | case4 _ _ _ ih | case5 _ _ ih | case7 _ _ _ ih | case8 _ _ _ _ _ _ ih =>
    obtain ⟨q, hq, rfl⟩ := Option.map_eq_some_iff.1 h
    obtain ⟨hne, hsize⟩ := ih hq
    rw [size_toFirst _ hne, List.length_cons]
    exact ⟨by cases q <;> simp [toFirst], by omega⟩

theorem length_trim_le (s : List Char) : (Text.trim s).length ≤ s.length := by
  have h₁ := (List.dropWhile_sublist (l := s) Text.isBlank).length_le
  have h₂ := (List.dropWhile_sublist (l := (s.dropWhile Text.isBlank).reverse) Text.isBlank).length_le
  simp only [Text.trim, Text.trimRight, Text.trimLeft, List.length_reverse] at *
  omega

/-- The type of a plain name. -/
def ofName (parameters : List String) (name : String) : Ty :=
  match Primitive.ofName? name with
  | some p => primitive p
  | Option.none =>
    if name = "void" then void
    else if parameters.contains name then var name
    else declared name []

/-- The text before the first opening bracket, and the text after it up to a bracket that ends the whole. -/
def brackets? (s : List Char) : Option (List Char × List Char) :=
  match s.dropWhile (· ≠ '<') with
  | _ :: inner => if inner.getLast? = some '>' then some (s.takeWhile (· ≠ '<'), inner.dropLast) else Option.none
  | [] => Option.none

theorem length_brackets? {s name inner : List Char} (h : brackets? s = some (name, inner)) :
    inner.length + 1 < s.length := by
  have hs := (List.dropWhile_sublist (l := s) (· ≠ '<')).length_le
  unfold brackets? at h
  cases hd : s.dropWhile (· ≠ '<') with
  | nil => simp only [hd] at h; contradiction
  | cons c tail =>
    rw [hd, List.length_cons] at hs
    simp only [hd] at h
    split at h
    · rename_i hlast
      have hpos : 0 < tail.length := by cases tail <;> simp at hlast ⊢
      simp only [Option.some.injEq, Prod.mk.injEq] at h
      rw [← h.2, List.length_dropLast]; omega
    · simp at h

mutual

def read? (parameters : List String) (text : List Char) : Option Ty :=
  let s := Text.trim text
  if h : "[]".toList.isSuffixOf s then
    have : s.dropLast.dropLast.length < text.length := by
      have hs : s.length ≤ text.length := length_trim_le text
      have hp : 2 ≤ s.length := (List.isSuffixOf_iff_suffix.1 h).length_le
      rw [List.length_dropLast, List.length_dropLast]; omega
    (read? parameters s.dropLast.dropLast).map array
  else if s.contains '<' then
    match h : brackets? s with
    | Option.none => Option.none
    | some (name, inner) =>
      let name := Text.trim name
      if isQualifiedName name then
        match hp : splitArguments 0 inner with
        | Option.none => Option.none
        | some parts =>
          have : size parts < text.length := by
            have hs : s.length ≤ text.length := length_trim_le text
            have hb := length_brackets? h
            have hc := (size_splitArguments hp).2
            omega
          (readAll? parameters parts).map (declared (String.ofList name))
      else Option.none
  else if isQualifiedName s then some (ofName parameters (String.ofList s))
  else Option.none
termination_by text.length
decreasing_by all_goals exact this

def readAll? (parameters : List String) (texts : List (List Char)) : Option (List Ty) :=
  match texts with
  | [] => some []
  | text :: texts => do
    let t ← read? parameters text
    return t :: (← readAll? parameters texts)
termination_by size texts
decreasing_by all_goals simp only [size]; omega

end

/-- The type that a text denotes, the given names being type variables. -/
def ofText? (parameters : List String) (text : String) : Option Ty := read? parameters text.toList

end AnnotationExpr.Ty
