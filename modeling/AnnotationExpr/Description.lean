import AnnotationExpr.Document
import AnnotationExpr.Text.Dotted

/-!
Descriptions of programs. A class may be described only after the class around it. A class, field, method
or parameter is an object, or the list of its members in their order. Members of a document that no
description has are passed over; a missing name or type, or a member of the wrong form, makes the whole
document no description.
-/

namespace AnnotationExpr

structure FieldDescription where
  name : String
  type : String
  isStatic : Bool
  isFinal : Bool
deriving DecidableEq, Repr

structure MethodDescription where
  name : String
  /-- Names and types. -/
  parameters : List (String × String)
  returns : String
  isStatic : Bool
  isVariadic : Bool
deriving DecidableEq, Repr

structure ClassDescription where
  /-- Package of a class that has no class around it. -/
  package : String
  name : String
  /-- Qualified name of the class around it. -/
  enclosing : Option String
  isInterface : Bool
  typeParameters : List String
  superclass : Option String
  interfaces : List String
  fields : List FieldDescription
  methods : List MethodDescription
deriving DecidableEq, Repr

structure Description where
  imports : List String
  classes : List ClassDescription
deriving DecidableEq, Repr

def ClassDescription.qualifiedName (c : ClassDescription) : String :=
  match c.enclosing with
  | some outer => outer ++ "." ++ c.name
  | none => Text.qualify c.package c.name

namespace Description

open Document

/-- An object as it is, and a list as the object that gives its items the names in turn. Of a short list the
last names are absent; items beyond the names are passed over. -/
def named? (names : List String) : Document → Option Document
  | .object members => some (.object members)
  | .list items => some (.object (names.zip items))
  | _ => none

def field? (d : Document) : Option FieldDescription := do
  let d ← named? ["name", "type", "static", "final"] d
  return {
    name := ← d.required "name" string?
    type := ← d.required "type" string?
    isStatic := ← d.withDefault "static" boolean? false
    isFinal := ← d.withDefault "final" boolean? false }

def parameter? (d : Document) : Option (String × String) := do
  let d ← named? ["name", "type"] d
  return (← d.required "name" string?, ← d.required "type" string?)

def method? (d : Document) : Option MethodDescription := do
  let d ← named? ["name", "params", "returns", "static", "varargs"] d
  return {
    name := ← d.required "name" string?
    parameters := ← d.withDefault "params" (listOf parameter?) []
    returns := ← d.withDefault "returns" string? "void"
    isStatic := ← d.withDefault "static" boolean? false
    isVariadic := ← d.withDefault "varargs" boolean? false }

def class? (d : Document) : Option ClassDescription := do
  let d ← named? ["package", "name", "enclosing", "interface", "type_params", "superclass", "interfaces", "fields",
    "methods"] d
  return {
    package := ← d.withDefault "package" string? ""
    name := ← d.required "name" string?
    enclosing := ← d.optional "enclosing" string?
    isInterface := ← d.withDefault "interface" boolean? false
    typeParameters := ← d.withDefault "type_params" (listOf string?) []
    superclass := ← d.optional "superclass" string?
    interfaces := ← d.withDefault "interfaces" (listOf string?) []
    fields := ← d.withDefault "fields" (listOf field?) []
    methods := ← d.withDefault "methods" (listOf method?) [] }

/-- The outermost document has to be an object. -/
def ofDocument? (d : Document) : Option Description :=
  if d.isObject then do
    return {
      imports := ← d.withDefault "imports" (listOf string?) []
      classes := ← d.withDefault "classes" (listOf class?) [] }
  else none

end Description
end AnnotationExpr
