import DreamWorld.Command.Config
import DreamWorld.Command.Run
import DreamWorld.Document.Printer
import DreamWorld.Document.Reader
import DreamWorld.Document.Record
import DreamWorld.FileSystem
import DreamWorld.Json.Basic
import DreamWorld.Json.Printer
import DreamWorld.Json.Raw
import DreamWorld.Json.Token
import DreamWorld.Keyed
import DreamWorld.Main
import DreamWorld.Number.Decimal
import DreamWorld.Number.Integer
import DreamWorld.Number.Single
import DreamWorld.Path
import DreamWorld.Proofs.Document.Preorder
import DreamWorld.Proofs.Document.Violation
import DreamWorld.Proofs.Keyed
import DreamWorld.Proofs.Tree.Acceptance
import DreamWorld.Proofs.Tree.Declare
import DreamWorld.Proofs.Tree.Inheritance
import DreamWorld.Proofs.Tree.LoadRecord
import DreamWorld.Proofs.Tree.Loaded
import DreamWorld.Proofs.Tree.Members
import DreamWorld.Proofs.Tree.Represents
import DreamWorld.Proofs.Tree.Resolution
import DreamWorld.Proofs.World.ListKeys
import DreamWorld.Proofs.World.LoadAction
import DreamWorld.Report
import DreamWorld.Syntax.Constant
import DreamWorld.Syntax.Expr
import DreamWorld.Syntax.Node
import DreamWorld.Syntax.Operator
import DreamWorld.Syntax.Statement
import DreamWorld.Syntax.Walk
import DreamWorld.Tree.Basic
import DreamWorld.Tree.Load
import DreamWorld.Tree.Objects
import DreamWorld.Tree.Relations
import DreamWorld.ValueKinds
import DreamWorld.World
import DreamWorld.World.Arguments
import DreamWorld.World.Constant
import DreamWorld.World.Definition
import DreamWorld.World.Error
import DreamWorld.World.Hook
import DreamWorld.World.ListStore
import DreamWorld.World.Loader
import DreamWorld.World.Location
import DreamWorld.World.Object
import DreamWorld.World.Operator
import DreamWorld.World.Operator.Apply
import DreamWorld.World.Store
import DreamWorld.World.Value
import DreamWorld.Proofs.Syntax.Folding
import DreamWorld.Proofs.Syntax.Traversal
import DreamWorld.Proofs.Path
import DreamWorld.Proofs.Tree.PathCoherence
import DreamWorld.Proofs.Document.Lineage
import DreamWorld.Proofs.Tree.Lineage
import DreamWorld.Proofs.Tree.ClassNumbers
import DreamWorld.Proofs.Tree.LoaderMemory
import DreamWorld.Proofs.Tree.SharedVariables
import DreamWorld.Proofs.Tree.SuperChains
import DreamWorld.Proofs.Tree.Descendants
import DreamWorld.Proofs.Tree.Hooks
import DreamWorld.Proofs.Tree.Subtypes
import DreamWorld.Proofs.World.Creation
import DreamWorld.Proofs.Tree.ListClasses
import DreamWorld.Proofs.World.Defaults
import DreamWorld.Proofs.Tree.Variables
import DreamWorld.Proofs.Document.Rearranged
import DreamWorld.Proofs.Report
import DreamWorld.Proofs.Tree.Twins
import DreamWorld.Proofs.Tree.SiblingOrder
import DreamWorld.Proofs.Json.Literal
import DreamWorld.Proofs.Json.Quote
import DreamWorld.Proofs.Json.Compact
import DreamWorld.Proofs.Json.Reading
import DreamWorld.Proofs.Json.Rereading
import DreamWorld.Proofs.Document.RoundTrip
import DreamWorld.Proofs.Tree.SubtypeOrder
import DreamWorld.Proofs.Tree.StaleNumbers
import DreamWorld.Proofs.World.Kinds
import DreamWorld.Proofs.Tree.ListObjects
import DreamWorld.Proofs.World.Reading
import DreamWorld.Proofs.World.Assignment
import DreamWorld.Proofs.World.Interference
import DreamWorld.Proofs.World.IndexedAccess
import DreamWorld.Proofs.World.ListContents
import DreamWorld.Proofs.World.ListOperators
import DreamWorld.Proofs.Tree.ListCopies
import DreamWorld.Proofs.Syntax.Layout
import DreamWorld.Proofs.Syntax.SourceOrder
import DreamWorld.Proofs.World.KeyOrder
import DreamWorld.Proofs.World.ObjectVariables
import DreamWorld.Proofs.World.VariableWrites
import DreamWorld.Proofs.World.Changes
import DreamWorld.Proofs.Tree.StepChanges
import DreamWorld.Proofs.Tree.PreviousValues
import DreamWorld.Proofs.Tree.Worklist
import DreamWorld.Proofs.Tree.Subtrees
import DreamWorld.Proofs.Syntax.Context
import DreamWorld.Proofs.Syntax.PartialFolding
import DreamWorld.Proofs.Number.Integer
import DreamWorld.Proofs.Number.Single
import DreamWorld.Proofs.Syntax.ExactArithmetic
import DreamWorld.Proofs.Syntax.Comparison
import DreamWorld.Proofs.Path.Slicing
import DreamWorld.Proofs.Path.RoundTrip
import DreamWorld.Proofs.Path.Joining
import DreamWorld.Proofs.Syntax.Declaration
import DreamWorld.Proofs.Number.Bits
import DreamWorld.Proofs.Syntax.DeclaredNames
import DreamWorld.Proofs.World.Scalars
import DreamWorld.Proofs.Json.Spelling
import DreamWorld.Proofs.World.Constant
import DreamWorld.Proofs.World.FileComponents
import DreamWorld.Proofs.World.ResourceHandles
import DreamWorld.Proofs.Command.Directory
import DreamWorld.Proofs.Command.Arguments
import DreamWorld.Proofs.Report.Line
import DreamWorld.Proofs.Tree.Listing
