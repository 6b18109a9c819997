import AnnotationExpr.Lookup

/-!
A lookup service that answers from lists: the first entry that fits is the answer. Each of the lookups can
be made to fail.
-/

namespace AnnotationExpr

/-- The lookups that may fail. -/
inductive Question where
  | bareName | field | classNamed | method | package | classIn
deriving DecidableEq, Repr

/-- Something that holds for the types that pass a test. -/
structure Entry (α : Type) where
  on : Ty → Bool
  item : α

structure Catalogue where
  failures : List (Question × LookupFailure)
  bareNames : List Named
  fields : List (Entry Field)
  methods : List (Entry Method)
  /-- Classes by the name they are looked up under. -/
  classes : List (String × ClassSymbol)
  /-- Classes by their package and the name they are looked up under. -/
  packageClasses : List ((String × String) × ClassSymbol)
  packages : List String
  methodParameters : Option (List String)
  enclosing : List (Entry Ty)
  supertypes : List (Entry (List Ty))
  interfaces : List String

namespace Catalogue

def answer {α : Type} (c : Catalogue) (q : Question) (found : Option α) : Answer α :=
  match c.failures.lookup q with
  | some f => .error f
  | none => .ok found

/-- The classes around a class. No entry is used twice, so the chain is finite. -/
def outerClasses (entries : List (Entry Ty)) (d : ClassType) : List ClassType :=
  match h : entries.find? (·.on d.toTy) with
  | none => []
  | some e =>
    match e.item.class? with
    | none => []
    | some outer =>
      have : (entries.eraseP (·.on d.toTy)).length < entries.length := by
        have hmem := List.mem_of_find?_eq_some h
        rw [List.length_eraseP_of_mem hmem (List.find?_some h)]
        have := List.length_pos_of_mem hmem
        omega
      outer :: outerClasses (entries.eraseP (·.on d.toTy)) outer
termination_by entries.length

def lookup (c : Catalogue) : Lookup where
  bareName name := c.answer .bareName (c.bareNames.find? (·.name = name))
  field name type := c.answer .field
    ((c.fields.find? fun e => e.item.name = name && e.on type).map Entry.item)
  classNamed name := c.answer .classNamed (c.classes.lookup name)
  method name type actuals := c.answer .method
    ((c.methods.find? fun e =>
      e.item.name = name && e.item.parameters.length = actuals.length && e.on type).map Entry.item)
  package name := c.answer .package (c.packages.find? (· = name))
  classIn name package := c.answer .classIn (c.packageClasses.lookup (package, name))
  supertypes type := ((c.supertypes.find? (·.on type)).map Entry.item).getD []
  isInterface d := c.interfaces.contains d.name
  enclosing := outerClasses c.enclosing
  methodParameters := c.methodParameters

end Catalogue
end AnnotationExpr
