import ClassBrowser.Archive
import ClassBrowser.Assoc
import ClassBrowser.Bisect
import ClassBrowser.CommandLine.Arguments
import ClassBrowser.CommandLine.Commands
import ClassBrowser.CommandLine.Parse
import ClassBrowser.CommandLine.Report
import ClassBrowser.CommandLine.Word
import ClassBrowser.Decimal.Binary64
import ClassBrowser.Decimal.Shortest
import ClassBrowser.Engine.Act
import ClassBrowser.Engine.Basic
import ClassBrowser.Engine.Command
import ClassBrowser.Engine.Decompiler
import ClassBrowser.Engine.Error
import ClassBrowser.Engine.Output
import ClassBrowser.Export.EntryPath
import ClassBrowser.Export.Writer
import ClassBrowser.Files.Basic
import ClassBrowser.Files.Edit
import ClassBrowser.Files.Interpreter
import ClassBrowser.Given
import ClassBrowser.Json.Parser
import ClassBrowser.Json.Value
import ClassBrowser.Log
import ClassBrowser.Main
import ClassBrowser.Package.Basic
import ClassBrowser.Package.Build
import ClassBrowser.Path
import ClassBrowser.Proofs.Assoc
import ClassBrowser.Proofs.CommandLine.Decompile
import ClassBrowser.Proofs.CommandLine.Loading
import ClassBrowser.Proofs.CommandLine.Precedence
import ClassBrowser.Proofs.CommandLine.Quiet
import ClassBrowser.Proofs.CommandLine.RoundTrip
import ClassBrowser.Proofs.CommandLine.ShowClass
import ClassBrowser.Proofs.CommandLine.ShowColours
import ClassBrowser.Proofs.CommandLine.Tasks
import ClassBrowser.Proofs.Engine.Calls
import ClassBrowser.Proofs.Engine.ErrorLines
import ClassBrowser.Proofs.Engine.Failures
import ClassBrowser.Proofs.Engine.Footprint
import ClassBrowser.Proofs.Engine.Launch
import ClassBrowser.Proofs.Engine.Lives
import ClassBrowser.Proofs.Engine.Locations
import ClassBrowser.Proofs.Engine.Reports
import ClassBrowser.Proofs.Engine.Surroundings
import ClassBrowser.Proofs.Export.ArchiveTarget
import ClassBrowser.Proofs.Export.Calls
import ClassBrowser.Proofs.Export.Confinement
import ClassBrowser.Proofs.Export.DirectoryTarget
import ClassBrowser.Proofs.Export.EntryNames
import ClassBrowser.Proofs.Export.EntryPaths
import ClassBrowser.Proofs.Export.EntryPlaces
import ClassBrowser.Proofs.Export.Retries
import ClassBrowser.Proofs.Export.Rewriting
import ClassBrowser.Proofs.Export.Targets
import ClassBrowser.Proofs.Export.Writing
import ClassBrowser.Proofs.Files.Directories
import ClassBrowser.Proofs.Files.Entries
import ClassBrowser.Proofs.Files.Places
import ClassBrowser.Proofs.Files.Ways
import ClassBrowser.Proofs.Log
import ClassBrowser.Proofs.Package.Canonical
import ClassBrowser.Proofs.Package.Contents
import ClassBrowser.Proofs.Package.Edits
import ClassBrowser.Proofs.Package.Find
import ClassBrowser.Proofs.Package.Hierarchy
import ClassBrowser.Proofs.Package.Located
import ClassBrowser.Proofs.Package.Nodes
import ClassBrowser.Proofs.Package.Outline
import ClassBrowser.Proofs.Package.Prefixes
import ClassBrowser.Proofs.Package.Segments
import ClassBrowser.Proofs.Session.Consistency
import ClassBrowser.Proofs.Session.Engines
import ClassBrowser.Proofs.Session.Lifetime
import ClassBrowser.Proofs.Session.Requests
import ClassBrowser.Proofs.Session.Shown
import ClassBrowser.Proofs.Settings.Options
import ClassBrowser.Proofs.Source.Classification
import ClassBrowser.Proofs.Source.Composition
import ClassBrowser.Proofs.Source.Keywords
import ClassBrowser.Proofs.Source.Tokenisation
import ClassBrowser.Proofs.Source.WordRuns
import ClassBrowser.Proofs.Store
import ClassBrowser.Proofs.Task.CompletedExports
import ClassBrowser.Proofs.Task.Completion
import ClassBrowser.Proofs.Task.ConfinedExports
import ClassBrowser.Proofs.Task.Counting
import ClassBrowser.Proofs.Task.DecompileEnds
import ClassBrowser.Proofs.Task.DecompileResults
import ClassBrowser.Proofs.Task.Decompiling
import ClassBrowser.Proofs.Task.Delivery
import ClassBrowser.Proofs.Task.EngineRuns
import ClassBrowser.Proofs.Task.ExportEnds
import ClassBrowser.Proofs.Task.ExportRun
import ClassBrowser.Proofs.Task.Exporting
import ClassBrowser.Proofs.Task.FailedExports
import ClassBrowser.Proofs.Task.FailedRuns
import ClassBrowser.Proofs.Task.Moves
import ClassBrowser.Proofs.Task.Outcomes
import ClassBrowser.Proofs.Task.Partway
import ClassBrowser.Proofs.Task.Receiving
import ClassBrowser.Proofs.Task.Repetition
import ClassBrowser.Proofs.Task.Snapshot
import ClassBrowser.Proofs.Task.Steps
import ClassBrowser.Proofs.Task.Survival
import ClassBrowser.Proofs.Text.Glyphs
import ClassBrowser.Proofs.Text.Lines
import ClassBrowser.Proofs.Text.Pieces
import ClassBrowser.Proofs.Window.Browsing
import ClassBrowser.Proofs.Window.Busy
import ClassBrowser.Proofs.Window.Course
import ClassBrowser.Proofs.Window.Events
import ClassBrowser.Proofs.Window.Tree
import ClassBrowser.QualifiedName
import ClassBrowser.Session
import ClassBrowser.Settings
import ClassBrowser.Source.Ansi
import ClassBrowser.Source.Highlight
import ClassBrowser.Source.Keyword
import ClassBrowser.Source.Region
import ClassBrowser.Store
import ClassBrowser.Task.Basic
import ClassBrowser.Task.Pipeline
import ClassBrowser.Task.Run
import ClassBrowser.Text.Blank
import ClassBrowser.Text.Digit
import ClassBrowser.Text.Glyph
import ClassBrowser.Text.Lines
import ClassBrowser.Text.Loose
import ClassBrowser.Text.Printable
import ClassBrowser.Text.Quoted
import ClassBrowser.Text.Split
import ClassBrowser.Text.Utf8
import ClassBrowser.Text.Word
import ClassBrowser.Window.Basic
import ClassBrowser.Window.Events
import ClassBrowser.World
