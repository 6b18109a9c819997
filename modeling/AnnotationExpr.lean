import AnnotationExpr.Catalogue
import AnnotationExpr.Main
import AnnotationExpr.Proofs.Description.FirstFault
import AnnotationExpr.Proofs.Expr.Derivation
import AnnotationExpr.Proofs.Expr.Display
import AnnotationExpr.Proofs.Expr.Places
import AnnotationExpr.Proofs.Literal.Denotation
import AnnotationExpr.Proofs.Literal.Escape
import AnnotationExpr.Proofs.Marker.Reading
import AnnotationExpr.Proofs.Marker.Recovery
import AnnotationExpr.Proofs.Program.Branches
import AnnotationExpr.Proofs.Program.ClassOrder
import AnnotationExpr.Proofs.Program.Generic
import AnnotationExpr.Proofs.Program.MethodOrder
import AnnotationExpr.Proofs.Program.Outwards
import AnnotationExpr.Proofs.Program.Subtyping
import AnnotationExpr.Proofs.Program.Walk
import AnnotationExpr.Proofs.Resolution.BareName
import AnnotationExpr.Proofs.Resolution.Bases
import AnnotationExpr.Proofs.Resolution.Boxing
import AnnotationExpr.Proofs.Resolution.Chain
import AnnotationExpr.Proofs.Resolution.ClassNames
import AnnotationExpr.Proofs.Resolution.Conversion
import AnnotationExpr.Proofs.Resolution.DeclaredField
import AnnotationExpr.Proofs.Resolution.Dependence
import AnnotationExpr.Proofs.Resolution.Failures
import AnnotationExpr.Proofs.Resolution.Locals
import AnnotationExpr.Proofs.Resolution.NameAndMark
import AnnotationExpr.Proofs.Resolution.Parameter
import AnnotationExpr.Proofs.Resolution.Parentheses
import AnnotationExpr.Proofs.Resolution.QualifiedClass
import AnnotationExpr.Proofs.Resolution.WellFormed
import AnnotationExpr.Proofs.Token.Patterns
import AnnotationExpr.Proofs.Token.Spacing
import AnnotationExpr.Proofs.Ty.Reading
