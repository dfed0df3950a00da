import DocGraph.Calendar
import DocGraph.Codec.Basic
import DocGraph.Codec.Input
import DocGraph.Codec.Query
import DocGraph.Codec.Schema
import DocGraph.Codec.Script
import DocGraph.Codec.Settings
import DocGraph.Document
import DocGraph.Engine
import DocGraph.Error
import DocGraph.Filter.Basic
import DocGraph.Filter.Condition
import DocGraph.Filter.Like
import DocGraph.Input.Basic
import DocGraph.Input.Literal
import DocGraph.Json.Basic
import DocGraph.Json.Order
import DocGraph.Json.Reader
import DocGraph.Mutation.Basic
import DocGraph.Mutation.Constraint
import DocGraph.Mutation.Context
import DocGraph.Mutation.Create
import DocGraph.Mutation.Edge
import DocGraph.Mutation.Export
import DocGraph.Mutation.Model
import DocGraph.Number.Basic
import DocGraph.Number.Double
import DocGraph.Number.Reader
import DocGraph.Number.Shortest
import DocGraph.Proofs.Answers
import DocGraph.Proofs.Emission
import DocGraph.Proofs.Lifecycle
import DocGraph.Proofs.Locks
import DocGraph.Proofs.Mutation
import DocGraph.Proofs.Names
import DocGraph.Proofs.Outcome
import DocGraph.Proofs.Parts
import DocGraph.Proofs.Request
import DocGraph.Proofs.Run
import DocGraph.Proofs.Scope
import DocGraph.Proofs.Store
import DocGraph.Proofs.Synthesis
import DocGraph.Proofs.Types
import DocGraph.Proofs.Walks
import DocGraph.Proofs.WellScoped
import DocGraph.Query.Basic
import DocGraph.Query.Build
import DocGraph.Query.Text
import DocGraph.Record
import DocGraph.Request
import DocGraph.Scalar
import DocGraph.Schema.Basic
import DocGraph.Schema.Directive
import DocGraph.Schema.Graph
import DocGraph.Script.Basic
import DocGraph.Script.Text
import DocGraph.Sdl.Definition
import DocGraph.Sdl.Grammar
import DocGraph.Sdl.Merge
import DocGraph.Sdl.Reader
import DocGraph.Sdl.Text
import DocGraph.Selection
import DocGraph.Session
import DocGraph.Settings
import DocGraph.Store.Basic
import DocGraph.Store.Check
import DocGraph.Store.Database
import DocGraph.Store.Read
import DocGraph.Store.Run
import DocGraph.Store.Scope
import DocGraph.Text.Affix
import DocGraph.Text.Blank
import DocGraph.Text.Casing
import DocGraph.Text.Quoted
import DocGraph.Text.Visible
import DocGraph.Proofs.Keys
import DocGraph.Proofs.Moves
import DocGraph.Proofs.Session
import DocGraph.Proofs.Existence
import DocGraph.Proofs.Memo
import DocGraph.Proofs.Issued
import DocGraph.Proofs.Stage
import DocGraph.Proofs.Directives
import DocGraph.Proofs.Checks
import DocGraph.Proofs.Edges
import DocGraph.Proofs.Targets
import DocGraph.Proofs.Required
import DocGraph.Proofs.Atomicity
import DocGraph.Proofs.Outbound
import DocGraph.Proofs.Identity
import DocGraph.Proofs.Interleaving
import DocGraph.Proofs.Paging
import DocGraph.Proofs.Effects
import DocGraph.Proofs.Creation
import DocGraph.Proofs.Uses
import DocGraph.Proofs.Exports
import DocGraph.Proofs.Lookup
import DocGraph.Proofs.Removal
import DocGraph.Proofs.Nesting
import DocGraph.Proofs.Addressing
import DocGraph.Proofs.Shape
import DocGraph.Proofs.Filters
import DocGraph.Proofs.Placeholders
import DocGraph.Proofs.Readability
import DocGraph.Proofs.Endpoints
import DocGraph.Proofs.Engines
import DocGraph.Proofs.Traversals
import DocGraph.Proofs.ListEnds
import DocGraph.Proofs.Naming
import DocGraph.Proofs.Collections
import DocGraph.Proofs.Updates
import DocGraph.Proofs.Patterns
import DocGraph.Proofs.Preorder
import DocGraph.Proofs.Verdicts
import DocGraph.Proofs.Idempotence
import DocGraph.Proofs.EdgeNames
import DocGraph.Proofs.Vetting
import DocGraph.Proofs.Quotations
import DocGraph.Proofs.ImportKeys
import DocGraph.Proofs.Redefinition
import DocGraph.Proofs.Conversion
import DocGraph.Proofs.Extensions
import DocGraph.Proofs.History
import DocGraph.Proofs.Numerals
import DocGraph.Proofs.JsonText
