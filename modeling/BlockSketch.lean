import BlockSketch.Api.Host
import BlockSketch.Api.Path
import BlockSketch.Api.Route
import BlockSketch.Api.Server
import BlockSketch.Block.Catalog
import BlockSketch.Block.Field
import BlockSketch.Block.Registry
import BlockSketch.Block.Type
import BlockSketch.Canvas.Basic
import BlockSketch.Canvas.Edit
import BlockSketch.Canvas.Operation
import BlockSketch.Canvas.Placement
import BlockSketch.Component.Gate
import BlockSketch.Component.Kind
import BlockSketch.Component.Selection
import BlockSketch.Debounce
import BlockSketch.Document.Basic
import BlockSketch.Document.Malformed
import BlockSketch.Document.Reader
import BlockSketch.Error
import BlockSketch.Event
import BlockSketch.FileTree
import BlockSketch.Json.Encoding
import BlockSketch.Json.Reader
import BlockSketch.Json.Writer
import BlockSketch.Number.Basic
import BlockSketch.Number.Binary64
import BlockSketch.Number.Extended
import BlockSketch.Number.Numeral
import BlockSketch.Number.Shortest
import BlockSketch.Number.Style
import BlockSketch.Palette
import BlockSketch.Project.Column
import BlockSketch.Project.Store
import BlockSketch.Proofs.Ancestry
import BlockSketch.Proofs.Api.Errors
import BlockSketch.Proofs.Api.Loading
import BlockSketch.Proofs.Api.States
import BlockSketch.Proofs.Block
import BlockSketch.Proofs.Block.NumberFields
import BlockSketch.Proofs.Canvas.Compiling
import BlockSketch.Proofs.Canvas.Deletions
import BlockSketch.Proofs.Canvas.EntryPoint
import BlockSketch.Proofs.Canvas.Gating
import BlockSketch.Proofs.Canvas.Moving
import BlockSketch.Proofs.Canvas.Outcomes
import BlockSketch.Proofs.Canvas.Protection
import BlockSketch.Proofs.Canvas.Refusal
import BlockSketch.Proofs.Canvas.Regeneration
import BlockSketch.Proofs.Canvas.Reloading
import BlockSketch.Proofs.Canvas.Runs
import BlockSketch.Proofs.Canvas.Undoing
import BlockSketch.Proofs.Canvas.Variables
import BlockSketch.Proofs.Catalog
import BlockSketch.Proofs.Checking
import BlockSketch.Proofs.Component
import BlockSketch.Proofs.Debounce
import BlockSketch.Proofs.Document.Acceptance
import BlockSketch.Proofs.Document.Build
import BlockSketch.Proofs.Document.Entry
import BlockSketch.Proofs.Document.Links
import BlockSketch.Proofs.Document.Reach
import BlockSketch.Proofs.Document.RoundTrip
import BlockSketch.Proofs.Document.Saving
import BlockSketch.Proofs.Document.Text
import BlockSketch.Proofs.Expression.Grammar
import BlockSketch.Proofs.Expression.Lexing
import BlockSketch.Proofs.Expression.Numerals
import BlockSketch.Proofs.Expression.Parsing
import BlockSketch.Proofs.FirstOccurrences
import BlockSketch.Proofs.Json
import BlockSketch.Proofs.Json.Numerals
import BlockSketch.Proofs.Json.RoundTrip
import BlockSketch.Proofs.Json.Strings
import BlockSketch.Proofs.Number.Integers
import BlockSketch.Proofs.Number.Rounding
import BlockSketch.Proofs.Number.Shortest
import BlockSketch.Proofs.Palette
import BlockSketch.Proofs.Program.Indentation
import BlockSketch.Proofs.Program.Tokens
import BlockSketch.Proofs.Project.Ledger
import BlockSketch.Proofs.Project.Tables
import BlockSketch.Proofs.Session
import BlockSketch.Proofs.Sketch.Asking
import BlockSketch.Proofs.Sketch.Compiled
import BlockSketch.Proofs.Sketch.Contract
import BlockSketch.Proofs.Sketch.Demands
import BlockSketch.Proofs.Sketch.Emit
import BlockSketch.Proofs.Sketch.Escaping
import BlockSketch.Proofs.Sketch.Failures
import BlockSketch.Proofs.Sketch.FirstUse
import BlockSketch.Proofs.Sketch.ForestWalk
import BlockSketch.Proofs.Sketch.FreshNames
import BlockSketch.Proofs.Sketch.Hygiene
import BlockSketch.Proofs.Sketch.Independence
import BlockSketch.Proofs.Sketch.Literals
import BlockSketch.Proofs.Sketch.NameSeries
import BlockSketch.Proofs.Sketch.Names
import BlockSketch.Proofs.Sketch.Nesting
import BlockSketch.Proofs.Sketch.OperatorTree
import BlockSketch.Proofs.Sketch.Pieces
import BlockSketch.Proofs.Sketch.Programs
import BlockSketch.Proofs.Sketch.Reports
import BlockSketch.Proofs.Sketch.Walk
import BlockSketch.Proofs.Sketch.Warnings
import BlockSketch.Proofs.Sketch.Writing
import BlockSketch.Proofs.Text.Lines
import BlockSketch.Proofs.Value
import BlockSketch.Proofs.Workspace.Closing
import BlockSketch.Proofs.Workspace.Deleting
import BlockSketch.Proofs.Workspace.Editing
import BlockSketch.Proofs.Workspace.Faults
import BlockSketch.Proofs.Workspace.Forest
import BlockSketch.Proofs.Workspace.Invariant
import BlockSketch.Proofs.Workspace.Keeping
import BlockSketch.Proofs.Workspace.Keyed
import BlockSketch.Proofs.Workspace.Listing
import BlockSketch.Proofs.Workspace.Placing
import BlockSketch.Proofs.Workspace.Rewiring
import BlockSketch.Proofs.Workspace.Slots
import BlockSketch.Session
import BlockSketch.Settings
import BlockSketch.Sketch.Arduino
import BlockSketch.Sketch.Definition
import BlockSketch.Sketch.Diagnostic
import BlockSketch.Sketch.Emit
import BlockSketch.Sketch.Generator
import BlockSketch.Sketch.Identifier
import BlockSketch.Sketch.Literal
import BlockSketch.Sketch.Order
import BlockSketch.Sketch.Script
import BlockSketch.Supply
import BlockSketch.Text.Basic
import BlockSketch.Text.CaseTables
import BlockSketch.Text.Line
import BlockSketch.Text.Lowercase
import BlockSketch.Text.Printable
import BlockSketch.Text.Quoted
import BlockSketch.Text.Utf8
import BlockSketch.Text.Wide
import BlockSketch.Value.Assoc
import BlockSketch.Value.Basic
import BlockSketch.Value.Display
import BlockSketch.Value.Order
import BlockSketch.Value.Table
import BlockSketch.Workspace.Basic
import BlockSketch.Workspace.Check
import BlockSketch.Workspace.Outline
import BlockSketch.Workspace.Traversal
