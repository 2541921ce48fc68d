import EntityRules.Cache
import EntityRules.CommandLine.Command
import EntityRules.CommandLine.Display
import EntityRules.CommandLine.Grammar
import EntityRules.CommandLine.Run
import EntityRules.Condition
import EntityRules.Decode
import EntityRules.Digraph
import EntityRules.Document
import EntityRules.Document.Failure
import EntityRules.Document.FileName
import EntityRules.Document.Loading
import EntityRules.Encode
import EntityRules.Encode.Fault
import EntityRules.Engine
import EntityRules.Engine.Processing
import EntityRules.Entity
import EntityRules.Entity.Catalog
import EntityRules.Evaluation
import EntityRules.Evaluation.BuiltIn
import EntityRules.Evaluation.Category
import EntityRules.Evaluation.Parameters
import EntityRules.Evaluation.Tree
import EntityRules.Evaluator
import EntityRules.Graph
import EntityRules.Graph.Analysis
import EntityRules.Graph.Findings
import EntityRules.Graph.NodeName
import EntityRules.Graph.Search
import EntityRules.Json
import EntityRules.Json.Canonical
import EntityRules.Json.Characters
import EntityRules.Json.Dialect
import EntityRules.Json.Layers
import EntityRules.Json.Reader
import EntityRules.Json.Written
import EntityRules.Layers
import EntityRules.Main
import EntityRules.Moment
import EntityRules.Moment.Iso
import EntityRules.Moment.Text
import EntityRules.Number.Binary64
import EntityRules.Number.Bound
import EntityRules.Number.Extent
import EntityRules.Number.Format
import EntityRules.Number.Reading
import EntityRules.Number.Scalar
import EntityRules.Number.Shortest
import EntityRules.Query.Filter
import EntityRules.Query.Fingerprint
import EntityRules.Query.Order
import EntityRules.Query.Order.Merge
import EntityRules.Query.Pipeline
import EntityRules.Query.Result
import EntityRules.Query.Score
import EntityRules.Random
import EntityRules.Relationship
import EntityRules.RuleDocument
import EntityRules.Settings
import EntityRules.Settings.Configuration
import EntityRules.Settings.Options
import EntityRules.Settings.Report
import EntityRules.State
import EntityRules.State.Context
import EntityRules.Text.Blank
import EntityRules.Text.Case
import EntityRules.Text.Digit
import EntityRules.Text.Half
import EntityRules.Text.Markup
import EntityRules.Text.Printable
import EntityRules.Text.Quoted
import EntityRules.Text.Sha256
import EntityRules.Trouble
import EntityRules.Value
import EntityRules.Value.Compare
import EntityRules.Value.Path
import EntityRules.Value.Text
import EntityRules.Vocabulary
import EntityRules.Weights
import EntityRules.Proofs.Graph.Index
import EntityRules.Proofs.Graph.Run
import EntityRules.Proofs.Graph.Coherence
import EntityRules.Proofs.Evaluation.Composition
import EntityRules.Proofs.Number.Order
import EntityRules.Proofs.Query.Ranking
import EntityRules.Proofs.Entity.Catalog
import EntityRules.Proofs.Evaluation.Steady
import EntityRules.Proofs.Query.Meaning
import EntityRules.Proofs.Query.Correctness
import EntityRules.Proofs.Cache
import EntityRules.Proofs.Engine.Remembered
import EntityRules.Proofs.Condition
import EntityRules.Proofs.Evaluation.Silent
import EntityRules.Proofs.Engine.Silent
import EntityRules.Proofs.Graph.Reworked
import EntityRules.Proofs.Graph.Alike
import EntityRules.Proofs.Graph.Remembered
import EntityRules.Proofs.Graph.Snapshot
import EntityRules.Proofs.Moment.Text
import EntityRules.Proofs.Reread.Field
import EntityRules.Proofs.Reread.Part
import EntityRules.Proofs.Reread.Condition
import EntityRules.Proofs.Reread.Holding
import EntityRules.Proofs.Reread.Model
import EntityRules.Proofs.Graph.EdgeMap
import EntityRules.Proofs.Number.Units
import EntityRules.Proofs.Number.Sum
import EntityRules.Proofs.Cache.Run
import EntityRules.Proofs.Evaluation.Called
import EntityRules.Proofs.Json.Faithful
import EntityRules.Proofs.Query.Bounds
import EntityRules.Proofs.Engine.Registered
import EntityRules.Proofs.Engine.Recommended
import EntityRules.Proofs.Engine.Tally
import EntityRules.Proofs.Engine.RawEntry
import EntityRules.Proofs.Engine.Gates
import EntityRules.Proofs.Number.Share
import EntityRules.Proofs.Engine.Alone
import EntityRules.Proofs.Engine.Workers
import EntityRules.Proofs.Number.Zero
import EntityRules.Proofs.Value.Arranged
import EntityRules.Proofs.Evaluation.Arranged
import EntityRules.Proofs.Condition.Arranged
import EntityRules.Proofs.Evaluation.Texts
import EntityRules.Proofs.Query.Alike
import EntityRules.Proofs.Engine.Fingerprint
import EntityRules.Proofs.Graph.Status
import EntityRules.Proofs.Decode.Outright
import EntityRules.Proofs.Engine.Failed
import EntityRules.Proofs.Query.Sorting
import EntityRules.Proofs.Query.Marked
import EntityRules.Proofs.Engine.Marked
import EntityRules.Proofs.State.Context
import EntityRules.Proofs.State.Written
import EntityRules.Proofs.Document.Graph
import EntityRules.Proofs.Document.Loading
import EntityRules.Proofs.CommandLine.Endings
import EntityRules.Proofs.CommandLine.Graph
import EntityRules.Proofs.Graph.Components
import EntityRules.Proofs.Graph.Cycles
import EntityRules.Proofs.Graph.Paths
import EntityRules.Proofs.Graph.Subgraph
import EntityRules.Proofs.Digraph.Preorder
import EntityRules.Proofs.Graph.Chain
import EntityRules.Proofs.Graph.Trails
import EntityRules.Proofs.Graph.Indirect
import EntityRules.Proofs.Json.Reordered
import EntityRules.Proofs.Condition.Replaced
import EntityRules.Proofs.Evaluation.Malformed
import EntityRules.Proofs.Evaluation.Equivalent
import EntityRules.Proofs.Value.Consistent
import EntityRules.Proofs.Value.Dumped
import EntityRules.Proofs.Query.Score
import EntityRules.Proofs.Graph.Validation
import EntityRules.Proofs.Graph.Measures
import EntityRules.Proofs.Number.Mean
import EntityRules.Proofs.Graph.Strengths
import EntityRules.Proofs.Number.Difference
import EntityRules.Proofs.Settings.Ranges
import EntityRules.Proofs.Graph.Unshared
