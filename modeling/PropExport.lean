import PropExport.Archive.Basic
import PropExport.Archive.Compile
import PropExport.Attribute
import PropExport.CommandLine.Arguments
import PropExport.CommandLine.Run
import PropExport.Declarations
import PropExport.Diagnostic
import PropExport.Draft
import PropExport.Event
import PropExport.Expr.Basic
import PropExport.Expr.Builtin
import PropExport.Expr.Display
import PropExport.Expr.Json
import PropExport.Failure
import PropExport.Files.Path
import PropExport.Files.Tree
import PropExport.Formula.Basic
import PropExport.Formula.OfExpr
import PropExport.Json.Basic
import PropExport.Json.Decode
import PropExport.Json.Printer
import PropExport.Json.Reader
import PropExport.Ledger.Basic
import PropExport.Ledger.Entry
import PropExport.Main
import PropExport.Numeral
import PropExport.Options.Basic
import PropExport.Options.File
import PropExport.Proofs.Archive.Closure
import PropExport.Proofs.Archive.Compile
import PropExport.Proofs.Archive.Lookup
import PropExport.Proofs.Archive.Replay
import PropExport.Proofs.Expr.Spine
import PropExport.Proofs.Files.Names
import PropExport.Proofs.Files.Tree
import PropExport.Proofs.Formula.Grammar
import PropExport.Proofs.Formula.Meaning
import PropExport.Proofs.Formula.OfExpr
import PropExport.Proofs.Formula.Reading
import PropExport.Proofs.Imports.Graph
import PropExport.Proofs.Imports.Walk
import PropExport.Proofs.Json.RoundTrip
import PropExport.Proofs.Ledger.Wire
import PropExport.Proofs.Results
import PropExport.Proofs.Session.Provenance
import PropExport.Proofs.Session.Record
import PropExport.Session
import PropExport.SymbolTable
import PropExport.Text.Extending
import PropExport.Text.Layout
import PropExport.Text.Quoted
import PropExport.Text.Unprintable
import PropExport.Toml.Table
import PropExport.Toml.Text
import PropExport.Unit.Source
import PropExport.Proofs.Archive.Coherence
import PropExport.Proofs.Archive.History
import PropExport.Proofs.Numeral
import PropExport.Proofs.Session.Cleaning
import PropExport.Proofs.Expr.Wire
import PropExport.Proofs.Unit.Wire
import PropExport.Proofs.Archive.Layers
import PropExport.Proofs.Archive.LastStored
import PropExport.Proofs.Archive.Requests
import PropExport.Proofs.Files.Directories
import PropExport.Proofs.Archive.Independence
import PropExport.Proofs.Formula.Rules
import PropExport.Proofs.Formula.Flattening
import PropExport.Proofs.Session.Accounting
import PropExport.Proofs.Archive.Dumps
import PropExport.Proofs.Expr.Metadata
import PropExport.Proofs.Formula.Bindings
import PropExport.Proofs.Formula.Metadata
import PropExport.Proofs.Formula.Image
import PropExport.Proofs.Session.Outcomes
import PropExport.Proofs.Declarations.Binders
import PropExport.Proofs.Declarations.Metadata
import PropExport.Proofs.Imports.FirstFailure
import PropExport.Proofs.Archive.FirstFailure
import PropExport.Proofs.Ledger.Reordering
import PropExport.Proofs.Text.Lines
import PropExport.Proofs.Session.Lines
