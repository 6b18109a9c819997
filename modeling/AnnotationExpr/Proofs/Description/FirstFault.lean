import AnnotationExpr.Proofs.Description.Outline
import AnnotationExpr.Proofs.Program.Numbers
import Mathlib.Data.List.Induction

/-!
Loading a description stops at its first fault. The classes are taken in their order, each with the built-in classes and
those before it known; in a class the first text that is no type comes before a class around it that is not known. A
description without a fault is loaded, and what the program then has under a name is what the last class of that name
says.
-/

namespace AnnotationExpr

/-- The names of the built-in classes and of these. -/
def ClassDescription.knownNames (cs : List ClassDescription) : List String :=
  Program.builtins.map ClassOutline.qualifiedName ++ cs.map (·.qualifiedName)

namespace ClassDescription

variable {known : List String} {c : ClassDescription} {cs : List ClassDescription} {e : ProgramError}

/-- Nothing is wrong with the class where these names are known. -/
structure Sound (known : List String) (c : ClassDescription) : Prop where
  types : ∀ text ∈ c.typeTexts, (Ty.ofText? c.typeParameters text).isSome = true
  enclosing : ∀ outer ∈ c.enclosing, outer ∈ known

/-- The error for a class that is not sound. -/
inductive Fault (known : List String) (c : ClassDescription) : ProgramError → Prop where
  | type {text : String} (h : c.unread? c.typeTexts = some text) : Fault known c (.invalidType text c.qualifiedName)
  | enclosing {outer : String} (htypes : ∀ text ∈ c.typeTexts, (Ty.ofText? c.typeParameters text).isSome = true)
      (houter : c.enclosing = some outer) (hunknown : outer ∉ known) :
      Fault known c (.unknownEnclosing c.qualifiedName outer)

/-- Each of the classes is sound after those before it. -/
def AllSound (cs : List ClassDescription) : Prop :=
  ∀ before c after, cs = before ++ c :: after → c.Sound (knownNames before)

/-- The error for the first class that is not sound after those before it. -/
def FirstFault (cs : List ClassDescription) (e : ProgramError) : Prop :=
  ∃ before c after, cs = before ++ c :: after ∧ AllSound before ∧ c.Fault (knownNames before) e

theorem unread?_eq_none : c.unread? c.typeTexts = none ↔
    ∀ text ∈ c.typeTexts, (Ty.ofText? c.typeParameters text).isSome = true := by
  simp [unread?, Option.isSome_iff_ne_none]

theorem sound_or_fault (known : List String) (c : ClassDescription) : c.Sound known ∨ ∃ e, c.Fault known e := by
  cases hunread : c.unread? c.typeTexts with
  | some text => exact .inr ⟨_, .type hunread⟩
  | none =>
    have htypes := unread?_eq_none.1 hunread
    by_cases houter : ∀ outer ∈ c.enclosing, outer ∈ known
    · exact .inl ⟨htypes, houter⟩
    · obtain ⟨outer, houter⟩ := not_forall.1 houter
      obtain ⟨hmem, hunknown⟩ := Classical.not_imp.1 houter
      exact .inr ⟨_, .enclosing htypes hmem hunknown⟩

theorem allSound_concat : AllSound (cs ++ [c]) ↔ AllSound cs ∧ c.Sound (knownNames cs) := by
  constructor
  · intro h
    refine ⟨fun before c' after hcs => h before c' (after ++ [c]) ?_, h cs c [] rfl⟩
    rw [hcs, List.append_assoc, List.cons_append]
  · rintro ⟨hcs, hc⟩ before c' after heq
    rcases List.eq_nil_or_concat after with rfl | ⟨after, last, rfl⟩
    · obtain ⟨rfl, rfl⟩ := List.append_singleton_inj.1 heq
      exact hc
    · rw [List.concat_eq_append, ← List.cons_append, ← List.append_assoc] at heq
      exact hcs before c' after (List.append_singleton_inj.1 heq).1

theorem allSound_or_firstFault (cs : List ClassDescription) : AllSound cs ∨ ∃ e, FirstFault cs e := by
  induction cs using List.reverseRecOn with
  | nil => exact .inl fun before c after h => absurd h (by simp)
  | append_singleton cs c ih =>
    rcases ih with hcs | ⟨e, before, c', after, rfl, hfault⟩
    · rcases c.sound_or_fault (knownNames cs) with hc | ⟨e, hc⟩
      · exact .inl (allSound_concat.2 ⟨hcs, hc⟩)
      · exact .inr ⟨e, cs, c, [], rfl, hcs, hc⟩
    · exact .inr ⟨e, before, c', after ++ [c], by simp, hfault⟩

end ClassDescription

namespace Program

open ClassDescription

variable {p : Program} {c : ClassDescription} {cs : List ClassDescription} {e : ProgramError}

/-- What a program has of the classes that were added to it. -/
structure Has (p : Program) (cs : List ClassDescription) : Prop where
  known : ∀ name, (p.class? name).isSome = true ↔ name ∈ knownNames cs
  last : ∀ {name c}, (cs.filter (·.qualifiedName = name)).getLast? = some c → ∃ e, p.class? name = some e ∧ c.Describes e
  enclosing : ∀ e ∈ p.classes, ∀ outer ∈ e.enclosing, (p.class? outer).isSome = true

theorem isSome_class?_declare (p : Program) (o : ClassOutline) (name : String) :
    ((p.declare o).class? name).isSome = true ↔ (p.class? name).isSome = true ∨ o.qualifiedName = name := by
  rw [class?_declare]
  split
  next h => simp [h]
  next h => simp [h]

theorem mem_knownNames_concat {name : String} :
    name ∈ knownNames (cs ++ [c]) ↔ name ∈ knownNames cs ∨ c.qualifiedName = name := by
  simp [knownNames, or_assoc, eq_comm]

theorem getLast?_filter_concat {name : String} :
    ((cs ++ [c]).filter (·.qualifiedName = name)).getLast? =
      if c.qualifiedName = name then some c else (cs.filter (·.qualifiedName = name)).getLast? := by
  rw [List.filter_append]
  by_cases h : c.qualifiedName = name <;> simp [h]

theorem Has.declare (h : p.Has cs) {o : ClassOutline} (ho : ∀ p : Program, c.Describes (p.entry o))
    (houter : ∀ outer ∈ c.enclosing, outer ∈ knownNames cs) : (p.declare o).Has (cs ++ [c]) := by
  have hname : o.qualifiedName = c.qualifiedName := (p.qualifiedName_entry o).symm.trans (ho p).qualifiedName
  refine ⟨fun name => ?_, fun {name c'} hlast => ?_, fun e he outer hmem => ?_⟩
  · rw [isSome_class?_declare, h.known, hname, mem_knownNames_concat]
  · rw [getLast?_filter_concat] at hlast
    rw [class?_declare, hname]
    split at hlast
    next heq =>
      cases hlast
      exact ⟨_, if_pos heq, ho p⟩
    next hne =>
      obtain ⟨e, he, hc'⟩ := h.last hlast
      exact ⟨e, (if_neg hne).trans he, hc'⟩
  · rw [isSome_class?_declare]
    rcases List.mem_cons.1 he with rfl | he
    · rw [(ho p).enclosing] at hmem
      exact .inl ((h.known outer).2 (houter outer hmem))
    · exact .inl (h.enclosing e he outer hmem)

theorem Has.addClass (h : p.Has cs) (hc : c.Sound (knownNames cs)) :
    ∃ q, p.addClass c = .ok q ∧ q.Has (cs ++ [c]) := by
  obtain ⟨o, ho, hentry⟩ := c.reads_outline.ok (unread?_eq_none.2 hc.types)
  exact ⟨p.declare o, addClass_eq_ok.2 ⟨o, ho, fun outer hmem => (h.known outer).2 (hc.enclosing outer hmem), rfl⟩,
    h.declare hentry hc.enclosing⟩

theorem Has.addClass_eq_error (h : p.Has cs) (hc : c.Fault (knownNames cs) e) : p.addClass c = .error e := by
  cases hc with
  | type hunread =>
    rw [Program.addClass, c.reads_outline.error _ hunread]
    rfl
  | @enclosing outer htypes houter hunknown =>
    obtain ⟨o, ho, -⟩ := c.reads_outline.ok (unread?_eq_none.2 htypes)
    have hnone : (p.class? outer).isNone = true :=
      Option.isNone_iff_eq_none.2 (Option.not_isSome_iff_eq_none.1 fun hsome => hunknown ((h.known outer).1 hsome))
    simp only [Program.addClass, ho, houter]
    exact if_pos hnone

theorem isSome_class?_foldl_declare (os : List ClassOutline) (p : Program) (name : String) :
    ((os.foldl declare p).class? name).isSome = true ↔
      (p.class? name).isSome = true ∨ name ∈ os.map ClassOutline.qualifiedName := by
  induction os generalizing p with
  | nil => simp
  | cons o os ih =>
    rw [List.foldl_cons, ih, isSome_class?_declare, List.map_cons, List.mem_cons, or_assoc, eq_comm (a := name)]

/-- The start of loading. -/
theorem has_initial (imports : List String) : Has { initial with imports } [] := by
  have htop : ∀ e ∈ initial.classes, e.enclosing = none := by decide +kernel
  refine ⟨fun name => ?_, nofun, fun e he outer hmem => ?_⟩
  · have hnone : empty.class? name = none := rfl
    change (initial.class? name).isSome = true ↔ _
    rw [initial, isSome_class?_foldl_declare, hnone, knownNames, List.map_nil, List.append_nil]
    simp
  · rw [htop e he] at hmem
    cases hmem

theorem Has.described (h : p.Has cs) (hc : c ∈ cs) :
    ∃ last e, (cs.filter (·.qualifiedName = c.qualifiedName)).getLast? = some last ∧
      p.class? c.qualifiedName = some e ∧ last.Describes e := by
  have hmem : c ∈ cs.filter (·.qualifiedName = c.qualifiedName) := List.mem_filter.2 ⟨hc, decide_eq_true rfl⟩
  obtain ⟨last, hlast⟩ := Option.isSome_iff_exists.1 (List.getLast?_isSome.2 (List.ne_nil_of_mem hmem))
  obtain ⟨e, he, hdescribes⟩ := h.last hlast
  exact ⟨last, e, hlast, he, hdescribes⟩

/-- A run over sound classes has them all. -/
theorem foldlM_of_allSound (hp : p.Has []) (hcs : AllSound cs) :
    ∃ q, cs.foldlM Program.addClass p = .ok q ∧ q.Has cs := by
  -- from the end, where the step meets a program that has all classes before
  induction cs using List.reverseRecOn with
  | nil => exact ⟨p, rfl, hp⟩
  | append_singleton cs c ih =>
    obtain ⟨hcs, hc⟩ := allSound_concat.1 hcs
    obtain ⟨q, hq, hhas⟩ := ih hcs
    obtain ⟨r, hr, hhas'⟩ := hhas.addClass hc
    refine ⟨r, ?_, hhas'⟩
    rw [List.foldlM_append, hq]
    change [c].foldlM Program.addClass q = _
    rw [List.foldlM_cons, hr]
    rfl

theorem foldlM_of_firstFault (hp : p.Has []) (he : FirstFault cs e) : cs.foldlM Program.addClass p = .error e := by
  obtain ⟨before, c, after, rfl, hbefore, hc⟩ := he
  obtain ⟨q, hq, hhas⟩ := foldlM_of_allSound hp hbefore
  rw [List.foldlM_append, hq]
  change (c :: after).foldlM Program.addClass q = _
  rw [List.foldlM_cons, hhas.addClass_eq_error hc]
  rfl

variable {d : Description}

theorem load_of_allSound (h : AllSound d.classes) : ∃ p, load d = .ok p ∧ p.Has d.classes :=
  foldlM_of_allSound (has_initial d.imports) h

theorem load_of_firstFault (h : FirstFault d.classes e) : load d = .error e :=
  foldlM_of_firstFault (has_initial d.imports) h

theorem allSound_of_load (h : load d = .ok p) : AllSound d.classes := by
  refine (allSound_or_firstFault d.classes).resolve_right fun ⟨e, he⟩ => ?_
  cases h.symm.trans (load_of_firstFault he)

theorem has_of_load (h : load d = .ok p) : p.Has d.classes := by
  obtain ⟨q, hq, hhas⟩ := load_of_allSound (allSound_of_load h)
  cases h.symm.trans hq
  exact hhas

theorem firstFault_of_load (h : load d = .error e) : FirstFault d.classes e := by
  rcases allSound_or_firstFault d.classes with hall | ⟨e', he'⟩
  · obtain ⟨p, hp, -⟩ := load_of_allSound hall
    cases hp.symm.trans h
  · cases (load_of_firstFault he').symm.trans h
    exact he'

/-- A description is loaded exactly if it has no fault, and else fails with its first fault. A program that was loaded
has under every name that is described what the last class of the name says, and knows the class around each of its
classes. -/
theorem load_firstFault (d : Description) :
    ((∃ p, load d = .ok p) ↔ AllSound d.classes) ∧
    (∀ e, load d = .error e ↔ FirstFault d.classes e) ∧
    ∀ p, load d = .ok p →
      (∀ c ∈ d.classes, ∃ last e, (d.classes.filter (·.qualifiedName = c.qualifiedName)).getLast? = some last ∧
        p.class? c.qualifiedName = some e ∧ last.Describes e) ∧
      ∀ e ∈ p.classes, ∀ outer ∈ e.enclosing, (p.class? outer).isSome = true := by
  refine ⟨⟨fun ⟨p, hp⟩ => allSound_of_load hp, fun h => ?_⟩, fun e => ⟨firstFault_of_load, load_of_firstFault⟩,
    fun p hp => ⟨fun c hc => (has_of_load hp).described hc, (has_of_load hp).enclosing⟩⟩
  obtain ⟨p, hp, -⟩ := load_of_allSound h
  exact ⟨p, hp⟩

/-! A shelf that is described twice, with a box between the two, and a box that is on no shelf. -/

def narrowShelf : ClassDescription :=
  ⟨"demo", "Shelf", none, false, [], none, [], [⟨"size", "int", false, false⟩], []⟩

def shelfBox : ClassDescription :=
  ⟨"", "Box", some "demo.Shelf", false, ["T"], some "demo.Shelf", [], [],
    [⟨"put", [("item", "T"), ("at", "int[]")], "void", false, false⟩]⟩

def wideShelf : ClassDescription :=
  ⟨"demo", "Shelf", none, true, [], none, ["demo.Shelf.Box<int[]>"], [⟨"width", "long", false, true⟩], []⟩

def looseBox : ClassDescription :=
  ⟨"", "Box", some "demo.Pile", false, [], none, [], [],
    [⟨"put", [("item", "T<"), ("at", "int[")], "void<", false, false⟩]⟩

/-- The second shelf is the one that is known. Of the faults of the loose box the first text that is no type is reported,
and without it the pile that is not known. -/
theorem load_firstFault_shelf : ∃ p e, load ⟨[], [narrowShelf, shelfBox, wideShelf]⟩ = .ok p ∧
    p.class? "demo.Shelf" = some e ∧ wideShelf.Describes e ∧ (p.class? "demo.Shelf.Box").isSome = true ∧
    load ⟨[], [narrowShelf, looseBox]⟩ = .error (.invalidType "T<" "demo.Pile.Box") ∧
    load ⟨[], [narrowShelf, { looseBox with methods := [] }]⟩ =
      .error (.unknownEnclosing "demo.Pile.Box" "demo.Pile") := by
  have hloads (d : Description) (h : (load d).toOption.map (fun _ => ()) = some ()) : ∃ p, load d = .ok p := by
    obtain ⟨p, hp, -⟩ := of_toOption_map h
    exact ⟨p, hp⟩
  obtain ⟨p, hp⟩ := hloads ⟨[], [narrowShelf, shelfBox, wideShelf]⟩ (by decide +kernel)
  have hfacts := ((load_firstFault _).2.2 p hp).1
  obtain ⟨last, e, hlast, he, hdescribes⟩ := hfacts narrowShelf (by simp)
  obtain ⟨_, box, -, hbox, -⟩ := hfacts shelfBox (by simp)
  have hwide : last = wideShelf := Option.some.inj (hlast.symm.trans (by decide +kernel))
  have hshelf : AllSound [narrowShelf] :=
    (load_firstFault ⟨[], [narrowShelf]⟩).1.1 (hloads _ (by decide +kernel))
  refine ⟨p, e, hp, he, hwide ▸ hdescribes, Option.isSome_iff_exists.2 ⟨box, hbox⟩,
    ((load_firstFault _).2.1 _).2 ⟨[narrowShelf], looseBox, [], rfl, hshelf, .type (by decide +kernel)⟩,
    ((load_firstFault _).2.1 _).2 ⟨[narrowShelf], { looseBox with methods := [] }, [], rfl, hshelf,
      .enclosing (by decide +kernel) rfl (by decide +kernel)⟩⟩

end Program
end AnnotationExpr
