import ScriptFeed.Argument
import ScriptFeed.Article
import ScriptFeed.Breakpoint
import ScriptFeed.CommandLine
import ScriptFeed.Comment
import ScriptFeed.Comment.Block
import ScriptFeed.Comment.Line
import ScriptFeed.Comment.Notes
import ScriptFeed.Event
import ScriptFeed.Failure
import ScriptFeed.Files
import ScriptFeed.Files.Fault
import ScriptFeed.Inclusion
import ScriptFeed.Inclusion.Marker
import ScriptFeed.Keyword
import ScriptFeed.Layout
import ScriptFeed.LineReader
import ScriptFeed.LocalFunction
import ScriptFeed.LocalFunction.Expansion
import ScriptFeed.Main
import ScriptFeed.Package.Chain
import ScriptFeed.Package.Header
import ScriptFeed.Package.Installation
import ScriptFeed.Package.Markers
import ScriptFeed.Package.Record
import ScriptFeed.Path
import ScriptFeed.Path.Resolve
import ScriptFeed.Processor.Artifact
import ScriptFeed.Processor.Feed
import ScriptFeed.Processor.Install
import ScriptFeed.Processor.Lifecycle
import ScriptFeed.Processor.State
import ScriptFeed.Program
import ScriptFeed.Settings
import ScriptFeed.Text
import ScriptFeed.Text.Lowercase
import ScriptFeed.Text.Quoted
import ScriptFeed.Text.Search
import ScriptFeed.Text.Word
import ScriptFeed.Text.WordClass
import ScriptFeed.Utf8
import ScriptFeed.Version
import ScriptFeed.Proofs.Actions
import ScriptFeed.Proofs.Moves
import ScriptFeed.Proofs.Closing
import ScriptFeed.Proofs.Sections
import ScriptFeed.Proofs.Lines
import ScriptFeed.Proofs.Turns
import ScriptFeed.Proofs.Coherence
import ScriptFeed.Proofs.Feeds
import ScriptFeed.Proofs.Calls
import ScriptFeed.Proofs.Brackets
import ScriptFeed.Proofs.Footers
import ScriptFeed.Proofs.Chains
import ScriptFeed.Proofs.Progress
import ScriptFeed.Proofs.Failures
import ScriptFeed.Proofs.Serial
import ScriptFeed.Proofs.Steady
import ScriptFeed.Proofs.Draining
import ScriptFeed.Proofs.Installations
import ScriptFeed.Proofs.Echoes
import ScriptFeed.Proofs.Simulation
import ScriptFeed.Proofs.Lockstep
import ScriptFeed.Proofs.Breakable
import ScriptFeed.Proofs.Observation
import ScriptFeed.Proofs.Parallel
import ScriptFeed.Proofs.Gates
import ScriptFeed.Proofs.Beside
import ScriptFeed.Proofs.Serving
import ScriptFeed.Proofs.Boundaries
import ScriptFeed.Proofs.Naming
import ScriptFeed.Proofs.Counters
import ScriptFeed.Proofs.TurnsAbreast
import ScriptFeed.Proofs.Kindred
import ScriptFeed.Proofs.Reopening
import ScriptFeed.Proofs.Physical
import ScriptFeed.Proofs.Drained
import ScriptFeed.Proofs.Skipping
import ScriptFeed.Proofs.Passing
import ScriptFeed.Proofs.Inlining
import ScriptFeed.Proofs.Scanning
import ScriptFeed.Proofs.Pipelines
import ScriptFeed.Proofs.Changes
import ScriptFeed.Proofs.Untouched
import ScriptFeed.Proofs.FullLogging
import ScriptFeed.Proofs.Queueing
import ScriptFeed.Proofs.Segments
import ScriptFeed.Proofs.Refusals
import ScriptFeed.Proofs.Requirements
import ScriptFeed.Proofs.Provenance
import ScriptFeed.Proofs.ArgumentLists
import ScriptFeed.Proofs.Expansions
import ScriptFeed.Proofs.Cutting
import ScriptFeed.Proofs.Binding
import ScriptFeed.Proofs.Definitions
import ScriptFeed.Proofs.Headers
import ScriptFeed.Proofs.ClosedComments
import ScriptFeed.Proofs.Scopes
import ScriptFeed.Proofs.LinesAhead
import ScriptFeed.Proofs.Remarks
import ScriptFeed.Proofs.CommentRows
import ScriptFeed.Proofs.HeaderEnds
import ScriptFeed.Proofs.PlacedScans
import ScriptFeed.Proofs.LineComments
import ScriptFeed.Proofs.SpreadComments
import ScriptFeed.Proofs.Questions
import ScriptFeed.Proofs.AutomaticAnswers
import ScriptFeed.Proofs.SettingValues
import ScriptFeed.Proofs.FaultyLines
import ScriptFeed.Proofs.MarkedLines
import ScriptFeed.Proofs.MarkerNames
import ScriptFeed.Proofs.FileNames
import ScriptFeed.Proofs.LayoutCommands
import ScriptFeed.Proofs.Encoding
import ScriptFeed.Proofs.LayoutBodies
import ScriptFeed.Proofs.Articles
import ScriptFeed.Proofs.Continuations
import ScriptFeed.Proofs.VersionNumbers
import ScriptFeed.Proofs.Renaming
import ScriptFeed.Proofs.Offsets
import ScriptFeed.Proofs.ByteScans
import ScriptFeed.Proofs.ByteExpansions
import ScriptFeed.Proofs.Erasure
