import JvmWeave.Text.Blank
import JvmWeave.Descriptor.Cursor
import JvmWeave.JavaType.SourceName
import JvmWeave.JavaType.Assignable
import JvmWeave.ClassPath.Library
import JvmWeave.Scope.Basic
import JvmWeave.Scope.TypeExpr
import JvmWeave.Scope.Resolve
import JvmWeave.Scope.Shorten
import JvmWeave.Decimal.Text
import JvmWeave.Annotation.Build
import JvmWeave.AccessFlags
import JvmWeave.Method.Declaration
import JvmWeave.Instruction.Encode
import JvmWeave.Fragment.Patch
import JvmWeave.Proofs.Assignable
import JvmWeave.Proofs.Machine
import JvmWeave.Proofs.MovePlan
import JvmWeave.Proofs.ParallelMove
import JvmWeave.Proofs.EditHistory
import JvmWeave.Proofs.Insertion
import JvmWeave.Proofs.Reachability
import JvmWeave.Proofs.Place
import JvmWeave.Proofs.ConvertedReturn
import JvmWeave.Proofs.KeptOutputs
import JvmWeave.Proofs.Pieces
import JvmWeave.Proofs.PlainName
import JvmWeave.Proofs.Registration
import JvmWeave.Proofs.QualifiedName
import JvmWeave.Proofs.Brackets
import JvmWeave.Proofs.ErasedType
import JvmWeave.Proofs.ResolvedType
import JvmWeave.Proofs.Reading
import JvmWeave.Proofs.Naming
import JvmWeave.Proofs.Reread
import JvmWeave.Proofs.ReadBack
import JvmWeave.Proofs.NestedScope
import JvmWeave.Proofs.ClassSignature
import JvmWeave.Proofs.ValidType
import JvmWeave.Proofs.TopLevel
import JvmWeave.Proofs.MethodReading
import JvmWeave.Proofs.MethodForms
import JvmWeave.Proofs.BuiltType
import JvmWeave.Proofs.TypeTree
import JvmWeave.Proofs.RuleOrder
import JvmWeave.Proofs.ImportRoutes
import JvmWeave.Proofs.AnnotationShape
import JvmWeave.Proofs.AnnotationMembers
import JvmWeave.Proofs.CodeReading
import JvmWeave.Proofs.Exits
import JvmWeave.Proofs.AddedCode
import JvmWeave.Proofs.InnermostArguments
import JvmWeave.Proofs.KnownConstant
import JvmWeave.Proofs.AssignableOrder
import JvmWeave.Proofs.WrittenArguments
import JvmWeave.Proofs.TokenList
import JvmWeave.Proofs.ResolutionDepth
import JvmWeave.Proofs.BoundChain
import JvmWeave.Proofs.EditWalk
import JvmWeave.Proofs.ConvertedTree
import JvmWeave.Proofs.FailedName
import JvmWeave.Proofs.EmptySegment
import JvmWeave.Proofs.GuessedPackage
import JvmWeave.Proofs.FullName
import JvmWeave.Proofs.SlotOverlap
