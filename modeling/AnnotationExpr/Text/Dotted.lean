/-! Names made of segments with a dot between them. -/

namespace AnnotationExpr.Text

/-- The parts of a text between the characters that satisfy `p`; always at least one part. -/
def splitBy (p : Char → Bool) : List Char → List (List Char)
  | [] => [[]]
  | c :: s =>
    if p c then [] :: splitBy p s
    else match splitBy p s with
      | [] => [[c]]
      | part :: parts => (c :: part) :: parts

def segments (name : String) : List String :=
  (splitBy (· = '.') name.toList).map String.ofList

def lastSegment (name : String) : String := (segments name).getLastD name

/-- A name inside an outer one; no dot is written after an empty outer name. -/
def qualify (outer name : String) : String :=
  if outer.isEmpty then name else outer ++ "." ++ name

end AnnotationExpr.Text
