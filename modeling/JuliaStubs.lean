import JuliaStubs.Text.Blank
import JuliaStubs.Text.Lines
import JuliaStubs.Text.Replace
import JuliaStubs.Text.Shown
import JuliaStubs.Text.Quoted
import JuliaStubs.Naming
import JuliaStubs.DocText
import JuliaStubs.Decimal.Shortest
import JuliaStubs.Decimal.Style
import JuliaStubs.Dump.Basic
import JuliaStubs.Dump.Docs
import JuliaStubs.Json.Reader
import JuliaStubs.Dump.Schema
import JuliaStubs.Catalog.Registry
import JuliaStubs.LoadOrder.Basic
import JuliaStubs.Source.Literal
import JuliaStubs.Report.Event
import JuliaStubs.Package.Settings
import JuliaStubs.Catalog.OfDump
import JuliaStubs.Catalog.Traversal
import JuliaStubs.Source.ClassFile
import JuliaStubs.Source.InternedNames
import JuliaStubs.Source.Globals
import JuliaStubs.Files.Tree
import JuliaStubs.Package.Generator
import JuliaStubs.CommandLine.Run
import JuliaStubs.Main
import JuliaStubs.Proofs.LoadOrder.Relocation
import JuliaStubs.Proofs.LoadOrder.Components
import JuliaStubs.Proofs.LoadOrder.CycleBreaking
import JuliaStubs.Proofs.Catalog.Registration
import JuliaStubs.Proofs.LoadOrder.Dependencies
import JuliaStubs.Proofs.LoadOrder.Order
import JuliaStubs.Proofs.LoadOrder.Arrangements
import JuliaStubs.Proofs.Report.Logged
import JuliaStubs.Proofs.Report.Outcomes
import JuliaStubs.Proofs.Catalog.Ascent
import JuliaStubs.Proofs.Catalog.Traversal
import JuliaStubs.Proofs.Catalog.Population
import JuliaStubs.Proofs.Source.Branches
import JuliaStubs.Proofs.Package.Files
import JuliaStubs.Proofs.Source.Stub
import JuliaStubs.Proofs.Package.Rendering
import JuliaStubs.Proofs.Package.Declared
import JuliaStubs.Proofs.Package.Loading
import JuliaStubs.Proofs.Catalog.Losses
import JuliaStubs.Proofs.Dump.Lookups
import JuliaStubs.Proofs.Dump.Agreement
import JuliaStubs.Proofs.Catalog.Methods
import JuliaStubs.Proofs.Catalog.Signature
import JuliaStubs.Proofs.Dump.MethodPlace
import JuliaStubs.Proofs.Catalog.Agreement
import JuliaStubs.Proofs.Package.Rearrangement
import JuliaStubs.Proofs.Catalog.Removal
import JuliaStubs.Proofs.Source.Accessors
import JuliaStubs.Proofs.Source.Reclassed
import JuliaStubs.Proofs.Package.Removal
import JuliaStubs.Proofs.Source.Resolution
import JuliaStubs.Proofs.Package.Stubs
import JuliaStubs.Proofs.Catalog.Session
import JuliaStubs.Proofs.Catalog.Worklist
import JuliaStubs.Proofs.Catalog.Reports
import JuliaStubs.Proofs.Catalog.Tree
import JuliaStubs.Proofs.Catalog.Generations
import JuliaStubs.Proofs.Catalog.Placement
import JuliaStubs.Proofs.Source.Reading
import JuliaStubs.Proofs.Source.RoundTrip
import JuliaStubs.Proofs.Source.Widening
import JuliaStubs.Proofs.Source.InternedNames
import JuliaStubs.Proofs.Package.EditorApi
import JuliaStubs.Proofs.Catalog.Defaults
import JuliaStubs.Proofs.Package.Dispatch
import JuliaStubs.Proofs.Package.Concealment
import JuliaStubs.Proofs.Catalog.Undocumented
import JuliaStubs.Proofs.Catalog.Reclassed
import JuliaStubs.Proofs.Source.Undocumented
import JuliaStubs.Proofs.Package.Documentation
import JuliaStubs.Proofs.LoadOrder.Termination
import JuliaStubs.Proofs.Package.Destinations
import JuliaStubs.Proofs.Package.Inheritance
import JuliaStubs.Proofs.Package.Interning
import JuliaStubs.Proofs.Catalog.EnumPartition
import JuliaStubs.Proofs.Source.EnumBlock
import JuliaStubs.Proofs.Text.RawLiteral
import JuliaStubs.Proofs.Catalog.Documented
import JuliaStubs.Proofs.Package.Docstrings
import JuliaStubs.Proofs.Source.Hygiene
import JuliaStubs.Proofs.Package.Hygiene
import JuliaStubs.Proofs.Catalog.Constants
import JuliaStubs.Proofs.Catalog.GlobalEnums
import JuliaStubs.Proofs.Package.OptionalParameters
import JuliaStubs.Proofs.Catalog.Descent
import JuliaStubs.Proofs.Text.Dedent
import JuliaStubs.Proofs.Text.Cleaning
import JuliaStubs.Proofs.Files.Components
import JuliaStubs.Proofs.Package.Manifest
