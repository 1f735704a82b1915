import TreeLowering.Assoc
import TreeLowering.Backend
import TreeLowering.Decimal.Shortest
import TreeLowering.Diagnostic.Basic
import TreeLowering.Diagnostic.Queue
import TreeLowering.Lowering.Boxing
import TreeLowering.Lowering.Callable
import TreeLowering.Lowering.ClassType
import TreeLowering.Lowering.Condition
import TreeLowering.Lowering.Config
import TreeLowering.Lowering.Context
import TreeLowering.Lowering.Erasure
import TreeLowering.Lowering.Expression
import TreeLowering.Lowering.InternedScope
import TreeLowering.Lowering.Loop
import TreeLowering.Lowering.Method
import TreeLowering.Lowering.Naming
import TreeLowering.Lowering.Problem
import TreeLowering.Lowering.Refinement
import TreeLowering.Lowering.Scope
import TreeLowering.Lowering.Sequence
import TreeLowering.Lowering.State
import TreeLowering.Lowering.Statement
import TreeLowering.Lowering.Support
import TreeLowering.Lowering.TypeArgument
import TreeLowering.Lowering.TypeExpr
import TreeLowering.Lowering.TypeLowering
import TreeLowering.Lowering.TypeParameter
import TreeLowering.Lowering.TypeTest
import TreeLowering.Lowering.Widening
import TreeLowering.Model.Basic
import TreeLowering.Model.Declaration
import TreeLowering.Model.Display
import TreeLowering.Model.Language
import TreeLowering.Model.Member
import TreeLowering.Model.Pooled
import TreeLowering.Model.Shape
import TreeLowering.Model.Supertype
import TreeLowering.Proofs.ArgumentWidening
import TreeLowering.Proofs.Behaviour.Agreement
import TreeLowering.Proofs.Behaviour.BoundTest
import TreeLowering.Proofs.Behaviour.Capture
import TreeLowering.Proofs.Behaviour.Code
import TreeLowering.Proofs.Behaviour.Condition
import TreeLowering.Proofs.Behaviour.Conversion
import TreeLowering.Proofs.Behaviour.Currying
import TreeLowering.Proofs.Behaviour.Expression
import TreeLowering.Proofs.Behaviour.Forwarding
import TreeLowering.Proofs.Behaviour.Frame
import TreeLowering.Proofs.Behaviour.FunctionValue
import TreeLowering.Proofs.Behaviour.Loop
import TreeLowering.Proofs.Behaviour.Preservation
import TreeLowering.Proofs.Behaviour.Reading
import TreeLowering.Proofs.Behaviour.Regular
import TreeLowering.Proofs.Behaviour.Run
import TreeLowering.Proofs.Behaviour.Simulation
import TreeLowering.Proofs.Behaviour.Statement
import TreeLowering.Proofs.Behaviour.Tree
import TreeLowering.Proofs.Behaviour.TypeTest
import TreeLowering.Proofs.BooleanCase
import TreeLowering.Proofs.CallableHeader
import TreeLowering.Proofs.ClauseForm
import TreeLowering.Proofs.CodeNode
import TreeLowering.Proofs.Composition
import TreeLowering.Proofs.ControlFlow
import TreeLowering.Proofs.CurriedLayers
import TreeLowering.Proofs.DeclarationName
import TreeLowering.Proofs.DisplayedType
import TreeLowering.Proofs.ElementClass
import TreeLowering.Proofs.Equality
import TreeLowering.Proofs.ErasureTotality
import TreeLowering.Proofs.ExactArgument
import TreeLowering.Proofs.Execution
import TreeLowering.Proofs.FormConversion
import TreeLowering.Proofs.Instantiation
import TreeLowering.Proofs.InternerRun
import TreeLowering.Proofs.Isolation
import TreeLowering.Proofs.LanguageModule
import TreeLowering.Proofs.Live
import TreeLowering.Proofs.MalformedTree
import TreeLowering.Proofs.MethodHeader
import TreeLowering.Proofs.NumberForm
import TreeLowering.Proofs.OperatorSpine
import TreeLowering.Proofs.OperatorText
import TreeLowering.Proofs.OptionalType
import TreeLowering.Proofs.ParameterScope
import TreeLowering.Proofs.Placeholder
import TreeLowering.Proofs.PoolQuery
import TreeLowering.Proofs.PoolReading
import TreeLowering.Proofs.PoolRun
import TreeLowering.Proofs.PoolTable
import TreeLowering.Proofs.ProblemPosition
import TreeLowering.Proofs.ProperType
import TreeLowering.Proofs.QueueRun
import TreeLowering.Proofs.RawChain
import TreeLowering.Proofs.RawForm
import TreeLowering.Proofs.RawSpelling
import TreeLowering.Proofs.RefinedMember
import TreeLowering.Proofs.RefinementSafety
import TreeLowering.Proofs.ReifiableTest
import TreeLowering.Proofs.Reporting
import TreeLowering.Proofs.Restoration
import TreeLowering.Proofs.SameBounds
import TreeLowering.Proofs.ScopeRun
import TreeLowering.Proofs.SegmentPlan
import TreeLowering.Proofs.Shared.Backend
import TreeLowering.Proofs.Shared.Boxing
import TreeLowering.Proofs.Shared.Callable
import TreeLowering.Proofs.Shared.Code
import TreeLowering.Proofs.Shared.Condition
import TreeLowering.Proofs.Shared.Expression
import TreeLowering.Proofs.Shared.Isolation
import TreeLowering.Proofs.Shared.Method
import TreeLowering.Proofs.Shared.Model
import TreeLowering.Proofs.Shared.Query
import TreeLowering.Proofs.Shared.Refinement
import TreeLowering.Proofs.Shared.State
import TreeLowering.Proofs.Shared.Statement
import TreeLowering.Proofs.Shared.Store
import TreeLowering.Proofs.Shared.Tables
import TreeLowering.Proofs.Shared.Telling
import TreeLowering.Proofs.Shared.Tree
import TreeLowering.Proofs.Shared.TypeExpr
import TreeLowering.Proofs.Simplification
import TreeLowering.Proofs.SoleMember
import TreeLowering.Proofs.SubstitutionAction
import TreeLowering.Proofs.SupertypeSearch
import TreeLowering.Proofs.SyntheticName
import TreeLowering.Proofs.TestedClass
import TreeLowering.Proofs.TypeForm
import TreeLowering.Proofs.TypeGrammar
import TreeLowering.Proofs.TypePart
import TreeLowering.Proofs.TypeTermination
import TreeLowering.Proofs.TypeVariable
import TreeLowering.Proofs.UnionInstance
import TreeLowering.Proofs.ValueArrival
import TreeLowering.Proofs.VariableRead
import TreeLowering.Proofs.WrittenSegment
import TreeLowering.Proofs.WrittenWord
import TreeLowering.Proofs.Yield
import TreeLowering.Shared.Backend
import TreeLowering.Shared.Expression
import TreeLowering.Shared.Model
import TreeLowering.Shared.Query
import TreeLowering.Shared.Refinement
import TreeLowering.Shared.State
import TreeLowering.Shared.Statement
import TreeLowering.Shared.Store
import TreeLowering.Shared.Tables
import TreeLowering.Shared.Target
import TreeLowering.Shared.Tree
import TreeLowering.Shared.TypeExpr
import TreeLowering.Source.Interner
import TreeLowering.Source.Span
import TreeLowering.Target.Fragment
import TreeLowering.Target.Reach
import TreeLowering.Target.Render
import TreeLowering.Target.Ty
import TreeLowering.Text.Blank
import TreeLowering.Text.Quoted
import TreeLowering.Text.Shown
import TreeLowering.Text.Upper
import TreeLowering.Tree.Basic
import TreeLowering.Types.Basic
import TreeLowering.Types.Pool
import TreeLowering.Types.Substitution
