import AnnotationExpr.ResolveError

/-! What is wrong with the description of a program, or with the place in it that an expression is to stand at. -/

namespace AnnotationExpr

inductive ProgramError where
  | unreadable (path : String)
  | malformed (path : String)
  | invalidType (type className : String)
  | unknownEnclosing (className enclosing : String)
  | unknownClass (name : String)
  | unknownMethod (className method : String)
deriving DecidableEq, Repr

def ProgramError.message : ProgramError → String
  | unreadable path => "Failed to read file " ++ path
  | malformed path => "Invalid program description " ++ path
  | invalidType type className => "Invalid type '" ++ type ++ "' in class " ++ className
  | unknownEnclosing className enclosing =>
    "Class " ++ className ++ " is nested in " ++ enclosing ++ ", which is not declared before it"
  | unknownClass name => "Class " ++ name ++ " is not declared in the program"
  | unknownMethod className method => "Method " ++ method ++ " is not declared in class " ++ className

end AnnotationExpr
