/-! Places in a text, in bytes of its UTF-8 form. -/

namespace AnnotationExpr

structure Span where
  offset : Nat
  length : Nat
deriving DecidableEq, Repr

def Span.stop (s : Span) : Nat := s.offset + s.length

/-- From the start of the first to the end of the second. -/
def Span.join (first last : Span) : Span := ⟨first.offset, last.stop - first.offset⟩

end AnnotationExpr
