import AnnotationExpr.Program.Service
import AnnotationExpr.Proofs.Program.Built
import AnnotationExpr.Proofs.Text.Dotted

/-!
Packages, and classes by their names. A program has the packages of all its classes; a class that is found by any name
is the one that the program has under the qualified name of that class.
-/

namespace AnnotationExpr

/-- The packages after the first one each go on with the one before. -/
theorem getLastD_packages {root : String} (hroot : root ≠ "") :
    ∀ (names found : List String), found.getLastD "" = root →
      (names.foldl (fun found name => found ++ [Text.qualify (found.getLastD "") name]) found).getLastD "" =
        ".".intercalate (root :: names)
  | [], found, h => by simpa using h
  | name :: names, found, h => by
    have hstep : (found ++ [Text.qualify (found.getLastD "") name]).getLastD "" = root ++ "." ++ name := by
      rw [List.getLastD_concat, h, Text.qualify, if_neg (by simpa using hroot)]
    have hlong : root ++ "." ++ name ≠ "" := by simp [hroot]
    rw [List.foldl_cons, getLastD_packages hlong names _ hstep, String.intercalate_cons_append,
      String.intercalate_cons_cons]

theorem mem_packagesOf {package : String} (h : ∀ s ∈ Text.segments package, s ≠ "") :
    package ∈ packagesOf package := by
  obtain ⟨root, names, hsegments⟩ := List.exists_cons_of_ne_nil (Text.segments_ne_nil package)
  have hfilter : (Text.segments package).filter (!·.isEmpty) = root :: names := by
    rw [hsegments] at h ⊢
    exact List.filter_eq_self.2 fun s hs => by simpa using h s hs
  have hroot : root ≠ "" := h root (hsegments ▸ List.mem_cons_self)
  have hlast : (packagesOf package).getLastD "" = package := by
    rw [packagesOf, hfilter, List.foldl_cons, getLastD_packages hroot names _ rfl, ← hsegments,
      Text.intercalate_segments]
  have hne : package ≠ "" := by
    rintro rfl
    exact h "" (List.mem_singleton_self _) rfl
  have hmem : (packagesOf package).getLastD "" ∈ "" :: packagesOf package := List.getLastD_mem_cons
  rw [hlast] at hmem
  exact (List.mem_cons.1 hmem).resolve_left hne

namespace Program

variable {p : Program}

theorem Built.packages (h : p.Built) : ∀ e ∈ p.classes, packagesOf e.package ⊆ p.packages := by
  have hregister {p : Program} (h : ∀ e ∈ p.classes, packagesOf e.package ⊆ p.packages) (d : ClassDraft) :
      ∀ e ∈ (p.register d).classes, packagesOf e.package ⊆ (p.register d).packages := by
    intro e he
    rcases List.mem_cons.1 he with rfl | he
    · exact List.subset_append_right _ _
    · exact List.Subset.trans (h e he) (List.subset_append_left _ _)
  induction h with
  | initial =>
    refine List.foldlRecOn (motive := fun p : Program => ∀ e ∈ p.classes, packagesOf e.package ⊆ p.packages)
      builtins Program.declare (fun e he => (List.not_mem_nil he).elim) fun p hp o _ => ?_
    rw [declare_eq_build]
    exact hregister hp _
  | build _ package enclosing name parts ih => exact hregister ih _
  | skipIds _ _ ih => exact ih
  | addImport _ _ ih => exact ih
  | push _ _ _ _ ih => exact ih
  | declareVariable _ _ _ ih => exact ih

theorem package?_of_mem {name : String} (h : name ∈ p.packages) : p.package? name = some name := by
  unfold package?
  cases hf : p.packages.find? (· = name) with
  | none => simpa using List.find?_eq_none.1 hf name h
  | some found => simpa using List.find?_some hf

theorem classIn_lookupFrom (p : Program) (scope : Nat) (name package : String) :
    (p.lookupFrom scope).classIn name package = .ok ((p.classInPackage? package name).map ClassEntry.symbol) := rfl

theorem classNamed_lookupFrom (p : Program) (scope : Nat) (name : String) :
    (p.lookupFrom scope).classNamed name = .ok ((p.findClass? scope name).map ClassEntry.symbol) := rfl

/-- A class by a simple name, as the place sees it. -/
def classSeen? (p : Program) (scope : Nat) (name : String) : Option ClassEntry :=
  ((p.chain scope).findSome? (p.classIn? name)).or <|
    (p.class? (Text.qualify (p.packageAt scope) name)).or <|
    (p.importedClass? name).or <|
    (p.class? ("java.lang." ++ name)).or <|
    p.class? name

theorem findClass?_of_simple {name : String} (h : '.' ∉ name.toList) (scope : Nat) :
    p.findClass? scope name = p.classSeen? scope name :=
  if_neg (by simpa using h)

theorem class?_qualifiedName {name : String} {e : ClassEntry} (h : p.class? name = some e) :
    p.class? e.qualifiedName = some e := by
  rw [qualifiedName_of_class? h, h]

theorem class?_of_classIn? {name : String} {s : Scope} {e : ClassEntry} (h : p.classIn? name s = some e) :
    p.class? e.qualifiedName = some e := by
  unfold classIn? at h
  split at h
  · rcases Option.or_eq_some_iff.1 h with h | ⟨-, h⟩
    · obtain ⟨outer, -, h⟩ := Option.bind_eq_some_iff.1 h
      obtain ⟨t, -, h⟩ := List.exists_of_findSome?_eq_some h
      exact class?_qualifiedName h
    · exact class?_qualifiedName (Option.filter_eq_some_iff.1 h).1
  · cases h

theorem class?_of_findClass? {scope : Nat} {name : String} {e : ClassEntry} (h : p.findClass? scope name = some e) :
    p.class? e.qualifiedName = some e := by
  unfold findClass? at h
  split at h
  · exact class?_qualifiedName h
  · simp only [Option.or_eq_some_iff] at h
    rcases h with h | ⟨-, h | ⟨-, h | ⟨-, h | ⟨-, h⟩⟩⟩⟩
    · obtain ⟨s, -, h⟩ := List.exists_of_findSome?_eq_some h
      exact class?_of_classIn? h
    · exact class?_qualifiedName h
    · obtain ⟨n, -, h⟩ := List.exists_of_findSome?_eq_some h
      exact class?_qualifiedName h
    · exact class?_qualifiedName h
    · exact class?_qualifiedName h

end Program
end AnnotationExpr
