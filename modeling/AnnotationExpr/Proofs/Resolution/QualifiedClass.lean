import AnnotationExpr.Proofs.Expr.ClassLiteral
import AnnotationExpr.Proofs.Program.FieldAround
import AnnotationExpr.Proofs.Program.Packages
import AnnotationExpr.Proofs.Resolution.Rules

/-!
Class literals with the qualified name of a class. A class in a package is found through the packages alone, from every
place. A member class is a member of what the name of the class around it refers to: no package and no field may have
its name, and the place has to see the class under its simple name.
-/

namespace AnnotationExpr

/-- The names of which a dotted name is made. -/
structure Names (text root : String) (members : List String) : Prop where
  text : text = ".".intercalate (root :: members)
  root : Token.IsName root
  members : ∀ m ∈ members, Token.IsName m

theorem Names.concat {text root name : String} {members : List String} (h : Names text root members)
    (hn : Token.IsName name) : Names (text ++ "." ++ name) root (members ++ [name]) where
  text := by rw [intercalate_concat, h.text]
  root := h.root
  members := List.forall_mem_append.2 ⟨h.members, List.forall_mem_singleton.2 hn⟩

theorem names_of_segments {text : String} (h : ∀ s ∈ Text.segments text, Token.IsName s) :
    ∃ root members, Names text root members := by
  obtain ⟨root, members, hsegments⟩ := List.exists_cons_of_ne_nil (Text.segments_ne_nil text)
  rw [hsegments] at h
  obtain ⟨hroot, hmembers⟩ := List.forall_mem_cons.1 h
  exact ⟨root, members, by rw [← hsegments, Text.intercalate_segments], hroot, hmembers⟩

namespace Lookup

variable {l : Lookup} {c : Context}

theorem dotted_concat (root : String) (members : List String) (name : String) :
    l.dotted c root (members ++ [name]) =
      l.member c (".".intercalate (root :: members) ++ "." ++ name) (some (".".intercalate (root :: members))) name
        (l.dotted c root members) := by
  have htext : ∀ (ms : List String) (q : String × Except ResolveError Referent),
      (ms.foldl (fun q n => (q.1 ++ "." ++ n, l.member c (q.1 ++ "." ++ n) (some q.1) n q.2)) q).1 =
        ".".intercalate (q.1 :: ms) := by
    intro ms
    induction ms with
    | nil => intro q; simp
    | cons m ms ih =>
      intro q
      rw [List.foldl_cons, ih, String.intercalate_cons_append, String.intercalate_cons_cons]
  rw [dotted, List.foldl_concat, ← htext members (root, l.named c root)]
  rfl

/-- The class literal of a dotted name refers to what the name refers to. -/
theorem refer_classLiteral {text root : String} {members : List String} (h : Names text root members)
    (hne : members ≠ []) (localScope : Bool) :
    l.refer c localScope (text ++ ".class") = l.dotted (c.withLocalScope localScope) root members := by
  obtain ⟨rfl, hroot, hmembers⟩ := h
  have hmark : '#' ∉ (".".intercalate (root :: members) ++ ".class").toList := by
    rw [String.toList_append, toList_intercalate_point]
    simp only [List.mem_append, List.mem_flatMap, not_or, not_exists, not_and]
    refine ⟨⟨hroot.mark_notMem, fun m hm h => ?_⟩, by decide⟩
    rcases List.mem_cons.1 h with h | h
    · cases h
    · exact (hmembers m hm).mark_notMem h
  have hsuffix : "class".toList.isSuffixOf (".".intercalate (root :: members) ++ ".class").toList = true := by
    rw [List.isSuffixOf_iff_suffix, String.toList_append]
    exact ⟨(".".intercalate (root :: members)).toList ++ ['.'], by simp⟩
  obtain ⟨span, inner, hread⟩ := Expr.read_classLiteral hroot hmembers
  have hbase : l.resolve (c.withLocalScope localScope) (.classLiteral span ⟨root, members, 0, inner⟩) =
      l.dotted (c.withLocalScope localScope) root members := by
    have hmany : members.isEmpty = false := List.isEmpty_eq_false_iff.2 hne
    rw [resolve, classLiteral, classBase]
    simp only [hmany, Bool.false_eq_true, if_false, if_true]
    exact bind_pure _
  unfold refer
  rw [Marker.expand_of_notMem hmark, hread]
  simp only [hbase, hsuffix, Bool.not_true, Bool.and_false, Bool.false_eq_true, if_false]
  exact bind_pure _

theorem member_of_package {text outer name package : String} {k : ClassSymbol} {scope : Except ResolveError Referent}
    (hp : l.package outer = .ok (some package)) (hk : l.classIn name package = .ok (some k)) :
    l.member c text (some outer) name scope = .ok (.className k.selfType) :=
  bind_eq_ok.2 ⟨_, asked_eq_ok.2 hp, bind_eq_ok.2 ⟨_, asked_eq_ok.2 hk, rfl⟩⟩

theorem member_of_package_none {text outer name package : String} {scope : Except ResolveError Referent}
    (hp : l.package outer = .ok (some package)) (hk : l.classIn name package = .ok none) :
    l.member c text (some outer) name scope = .error (.invalid text (.notInPackage name outer)) := by
  rw [member, hp]
  change (asked text (l.classIn name package) >>= _) = _
  rw [hk]
  rfl

/-- A member is a class only where no field has the name. -/
theorem named_eq_className_iff {name : String} {type : Ty} (hm : c.inMember = true) :
    l.named c name = .ok (.className type) ↔
      l.findField name (c.receiverType?.getD .none) = .ok none ∧
        ∃ k, l.classNamed name = .ok (some k) ∧ k.selfType = type := by
  unfold named fieldOrClass
  simp only [hm, Bool.not_true, Bool.false_and, Bool.true_or, Bool.false_eq_true, if_true, if_false]
  rw [bind_eq_ok]
  constructor
  · rintro ⟨found, hf, h⟩
    cases found with
    | some q =>
      obtain ⟨base, hr, -⟩ := access_eq_ok.1 h
      cases hr
    | none =>
      obtain ⟨known, hk, h⟩ := bind_eq_ok.1 h
      cases known with
      | some k =>
        cases h
        exact ⟨hf, k, asked_eq_ok.1 hk, rfl⟩
      | none =>
        dsimp only at h
        split at h <;> cases h
  · rintro ⟨hf, k, hk, rfl⟩
    exact ⟨none, hf, bind_eq_ok.2 ⟨some k, asked_eq_ok.2 hk, rfl⟩⟩

end Lookup

/-- The qualified name is made of names: the segments of a package, which is not empty then, the classes around the
class, which the program knows, and the class itself. -/
inductive Program.Spelled (p : Program) : ClassEntry → Prop where
  | inPackage {e : ClassEntry} (ho : e.enclosing = none) (hp : ∀ s ∈ Text.segments e.package, Token.IsName s)
      (hn : Token.IsName e.name) : Spelled p e
  | member {e d : ClassEntry} {outer : String} (ho : e.enclosing = some outer) (hd : p.class? outer = some d)
      (h : Spelled p d) (hn : Token.IsName e.name) : Spelled p e

namespace Program

variable {p : Program} {e : ClassEntry}

theorem package_ne_empty (h : ∀ s ∈ Text.segments e.package, Token.IsName s) : e.package ≠ "" := by
  intro hempty
  rw [hempty] at h
  exact (h "" (List.mem_singleton_self _)).ne_empty rfl

theorem qualifiedName_inPackage (ho : e.enclosing = none) (h : ∀ s ∈ Text.segments e.package, Token.IsName s) :
    e.qualifiedName = e.package ++ "." ++ e.name := by
  have hne : e.package.isEmpty = false := by simpa using package_ne_empty h
  rw [ClassEntry.qualifiedName, ho]
  dsimp only
  rw [Text.qualify, hne]
  rfl

theorem qualifiedName_member {outer : String} (ho : e.enclosing = some outer) :
    e.qualifiedName = outer ++ "." ++ e.name := by
  rw [ClassEntry.qualifiedName, ho]

/-- Such a name has at least two segments. -/
theorem Spelled.names (h : p.Spelled e) : ∃ root members, members ≠ [] ∧ Names e.qualifiedName root members := by
  induction h with
  | @inPackage e ho hp hn =>
    obtain ⟨root, members, h⟩ := names_of_segments hp
    refine ⟨root, members ++ [e.name], by simp, ?_⟩
    rw [qualifiedName_inPackage ho hp]
    exact h.concat hn
  | @member e d outer ho hd _ hn ih =>
    obtain ⟨root, members, -, h⟩ := ih
    refine ⟨root, members ++ [e.name], by simp, ?_⟩
    rw [qualifiedName_member ho, ← qualifiedName_of_class? hd]
    exact h.concat hn

/-- The class literal of a longer name asks for the last of its names in what is before that. -/
theorem refer_concat {l : Lookup} {c : Context} {outer root name : String} {members : List String}
    (h : Names outer root members) (hn : Token.IsName name) (localScope : Bool) :
    l.refer c localScope (outer ++ "." ++ name ++ ".class") =
      l.member (c.withLocalScope localScope) (outer ++ "." ++ name) (some outer) name
        (l.dotted (c.withLocalScope localScope) root members) := by
  rw [Lookup.refer_classLiteral (h.concat hn) (by simp), Lookup.dotted_concat, ← h.text]

theorem refer_inPackage (hp : p.Built) (he : p.class? e.qualifiedName = some e) (ho : e.enclosing = none)
    (hs : ∀ s ∈ Text.segments e.package, Token.IsName s) (hn : Token.IsName e.name) (scope : Nat) (c : Context)
    (localScope : Bool) :
    (p.lookupFrom scope).refer c localScope (e.qualifiedName ++ ".class") = .ok (.className e.selfType) := by
  obtain ⟨root, members, hnames⟩ := names_of_segments hs
  have hpackage : p.package? e.package = some e.package :=
    package?_of_mem (hp.packages e (mem_of_class? he) (mem_packagesOf fun s h => (hs s h).ne_empty))
  have hclass : p.classInPackage? e.package e.name = some e := by
    rw [classInPackage?, ← qualifiedName_inPackage ho hs, he, Option.filter_some, ho]
    rfl
  have hclassIn : (p.lookupFrom scope).classIn e.name e.package = .ok (some e.symbol) := by
    rw [classIn_lookupFrom, hclass]
    rfl
  rw [qualifiedName_inPackage ho hs, refer_concat hnames hn]
  exact Lookup.member_of_package (congrArg Except.ok hpackage) hclassIn

theorem refer_member {d : ClassEntry} {outer : String} (he : p.class? e.qualifiedName = some e)
    (ho : e.enclosing = some outer) (hd : p.class? outer = some d) (hs : p.Spelled d) (hn : Token.IsName e.name)
    (scope : Nat) (c : Context) (localScope : Bool) :
    (p.lookupFrom scope).refer c localScope (e.qualifiedName ++ ".class") = .ok (.className e.selfType) ↔
      p.package? outer = none ∧ p.findClass? scope e.name = some e ∧
        ∃ r, (p.lookupFrom scope).refer c localScope (outer ++ ".class") = .ok r ∧
          (p.lookupFrom scope).findField e.name (r.type?.getD .none) = .ok none := by
  obtain ⟨root, members, hne, hnames⟩ := hs.names
  rw [qualifiedName_of_class? hd] at hnames
  rw [qualifiedName_member ho, refer_concat hnames hn, ← Lookup.refer_classLiteral hnames hne]
  cases hpackage : p.package? outer with
  | some package =>
    have hclass : p.classInPackage? package e.name = none := by
      obtain rfl : package = outer := by simpa using List.find?_some hpackage
      rw [classInPackage?, ← qualifiedName_member ho, he, Option.filter_some, ho]
      rfl
    have hclassIn : (p.lookupFrom scope).classIn e.name package = .ok none := by
      rw [classIn_lookupFrom, hclass]
      rfl
    rw [Lookup.member_of_package_none (congrArg Except.ok hpackage) hclassIn]
    constructor
    · intro h
      cases h
    · rintro ⟨h, -⟩
      cases h
  | none =>
    rw [Lookup.member_of_noPackage (congrArg Except.ok hpackage), Lookup.member, bind_eq_ok]
    constructor
    · rintro ⟨r, hr, h⟩
      obtain ⟨hfield, k, hk, htype⟩ := (Lookup.named_eq_className_iff rfl).1 h
      obtain ⟨e', he', rfl⟩ := Option.map_eq_some_iff.1 (Except.ok.inj hk)
      have hname : e'.qualifiedName = e.qualifiedName := (Ty.declared.inj htype).1
      have hsame := class?_of_findClass? he'
      rw [hname, he] at hsame
      cases hsame
      exact ⟨rfl, he', r, hr, hfield⟩
    · rintro ⟨-, hseen, r, hr, hfield⟩
      refine ⟨r, hr, (Lookup.named_eq_className_iff rfl).2 ⟨hfield, e.symbol, ?_, rfl⟩⟩
      rw [classNamed_lookupFrom, hseen]
      rfl

/-- The class literal of the qualified name of a class in a package refers to the class. For a member class it does so
just if no package has the name of the class around it, the place sees the class under its simple name, and what the
class literal of the class around it refers to has no field of that name. -/
theorem Built.refer_qualifiedName (hp : p.Built) (he : p.class? e.qualifiedName = some e) (hs : p.Spelled e)
    (scope : Nat) (c : Context) (localScope : Bool) :
    (e.enclosing = none →
      (p.lookupFrom scope).refer c localScope (e.qualifiedName ++ ".class") = .ok (.className e.selfType)) ∧
    (∀ outer, e.enclosing = some outer →
      ((p.lookupFrom scope).refer c localScope (e.qualifiedName ++ ".class") = .ok (.className e.selfType) ↔
        p.package? outer = none ∧ p.findClass? scope e.name = some e ∧
          ∃ r, (p.lookupFrom scope).refer c localScope (outer ++ ".class") = .ok r ∧
            (p.lookupFrom scope).findField e.name (r.type?.getD .none) = .ok none)) := by
  cases hs with
  | inPackage ho hs hn =>
    refine ⟨fun _ => refer_inPackage hp he ho hs hn scope c localScope, fun outer h => ?_⟩
    rw [ho] at h
    cases h
  | member ho hd hs hn =>
    refine ⟨fun h => ?_, fun outer h => ?_⟩
    · rw [ho] at h
      cases h
    · rw [ho] at h
      cases h
      exact refer_member he ho hd hs hn scope c localScope

/-- A class with a member class, and a place in its body. -/
def nest : Program :=
  (((initial.build "demo" none "Outer" []).build "" (some "demo.Outer") "Inner" []).pushClass rootScope "demo.Outer").1

def nestOuter : ClassEntry := ⟨"demo", none, "Outer", false, [], none, [], [], []⟩

def nestInner : ClassEntry := ⟨"demo", some "demo.Outer", "Inner", false, [], none, [], [], []⟩

theorem built_nest : nest.Built := ((Built.initial.build ..).build ..).push (by decide) ..

theorem spelled_nestOuter : nest.Spelled nestOuter := by
  refine .inPackage rfl (fun s hs => ?_) (Token.isName_of_toOption ⟨0, 5⟩ (by decide +kernel))
  rw [List.mem_singleton.1 (show s ∈ ["demo"] from hs)]
  exact Token.isName_of_toOption ⟨0, 4⟩ (by decide +kernel)

theorem class?_nestOuter : nest.class? "demo.Outer" = some nestOuter := by decide +kernel

theorem class?_nestInner : nest.class? "demo.Outer.Inner" = some nestInner := by decide +kernel

theorem spelled_nestInner : nest.Spelled nestInner :=
  .member rfl class?_nestOuter spelled_nestOuter (Token.isName_of_toOption ⟨0, 5⟩ (by decide +kernel))

/-- The outer class is found from outside, and the inner one from the body of the outer one. -/
theorem refer_qualifiedName_nest : nest.Built ∧ nest.class? nestOuter.qualifiedName = some nestOuter ∧
    nest.Spelled nestOuter ∧ nest.class? nestInner.qualifiedName = some nestInner ∧ nest.Spelled nestInner ∧
    (nest.lookupFrom 0).refer (.new none none) true "demo.Outer.class" = .ok (.className nestOuter.selfType) ∧
    (nest.lookupFrom 1).refer (.new none none) true "demo.Outer.Inner.class" = .ok (.className nestInner.selfType) := by
  have houter (scope : Nat) := (built_nest.refer_qualifiedName (e := nestOuter) class?_nestOuter spelled_nestOuter scope
    (.new none none) true).1 rfl
  have hinner := (built_nest.refer_qualifiedName (e := nestInner) class?_nestInner spelled_nestInner 1
    (.new none none) true).2 _ rfl
  have hseen : nest.findClass? 1 "Inner" = some nestInner :=
    (findClass?_of_simple (by decide) 1).trans (by decide +kernel)
  have hfield : (nest.lookupFrom 1).findField "Inner" nestOuter.selfType = .ok none :=
    (findField_selfType class?_nestOuter 1 "Inner").trans (congrArg Except.ok (by decide +kernel))
  exact ⟨built_nest, class?_nestOuter, spelled_nestOuter, class?_nestInner, spelled_nestInner, houter 0,
    hinner.2 ⟨by decide +kernel, hseen, _, houter 1, hfield⟩⟩

/-- From outside the inner class is not found. -/
theorem not_refer_qualifiedName : ¬ ∀ (p : Program) (e : ClassEntry) (scope : Nat) (c : Context) (localScope : Bool),
    p.Built → p.class? e.qualifiedName = some e → p.Spelled e →
    (p.lookupFrom scope).refer c localScope (e.qualifiedName ++ ".class") = .ok (.className e.selfType) := by
  intro hall
  have hrefer := hall nest nestInner 0 (.new none none) true built_nest class?_nestInner spelled_nestInner
  have hseen := ((refer_member class?_nestInner rfl class?_nestOuter spelled_nestOuter
    (Token.isName_of_toOption ⟨0, 5⟩ (by decide +kernel)) 0 (.new none none) true).1 hrefer).2.1
  have hunseen : nest.classSeen? 0 "Inner" = none := by decide +kernel
  rw [show nestInner.name = "Inner" from rfl, findClass?_of_simple (by decide), hunseen] at hseen
  cases hseen

end Program
end AnnotationExpr
