import LgLang.Analysis
import LgLang.Analysis.Encoding
import LgLang.Analysis.Reference
import LgLang.Analysis.Symbol
import LgLang.Check
import LgLang.Check.Format
import LgLang.CommandLine
import LgLang.Config
import LgLang.Config.Reader
import LgLang.Diagnostic
import LgLang.Disk
import LgLang.Disk.Cache
import LgLang.Disk.Tree
import LgLang.Editor.Completion
import LgLang.Editor.Cursor
import LgLang.Editor.Hover
import LgLang.Editor.Location
import LgLang.Editor.Navigation
import LgLang.Editor.Notice
import LgLang.Editor.Signature
import LgLang.Expression
import LgLang.Expression.Arguments
import LgLang.Expression.Encoding
import LgLang.Expression.Lexeme
import LgLang.Expression.Scan
import LgLang.Function
import LgLang.Function.Builtin
import LgLang.Import
import LgLang.Import.Walk
import LgLang.Json
import LgLang.Json.Printer
import LgLang.Json.Reader
import LgLang.Main
import LgLang.Server
import LgLang.Server.Capabilities
import LgLang.Server.Frame
import LgLang.Server.Message
import LgLang.Server.Notification
import LgLang.Server.Params
import LgLang.Server.Request
import LgLang.Session
import LgLang.Span
import LgLang.Syntax
import LgLang.Syntax.Bullet
import LgLang.Syntax.BulletBody
import LgLang.Syntax.Encoding
import LgLang.Syntax.Keyword
import LgLang.Syntax.LineKind
import LgLang.Syntax.Name
import LgLang.Syntax.Parser
import LgLang.Syntax.Scan
import LgLang.Syntax.StructuredBody
import LgLang.Text.Blank
import LgLang.Text.Line
import LgLang.Text.Lowercase
import LgLang.Text.Position
import LgLang.Text.Utf8
import LgLang.Uri
import LgLang.Url
import LgLang.Url.FilePath
import LgLang.Url.Host
import LgLang.Url.Percent
import LgLang.Url.Reader
import LgLang.Workbench
import LgLang.Workspace
import LgLang.Workspace.Answer
import LgLang.Workspace.Dependencies
import LgLang.Workspace.Documents
import LgLang.Workspace.Encoding
import LgLang.Workspace.Jobs
import LgLang.Workspace.Publisher
import LgLang.Workspace.Snapshots
import LgLang.Yaml
import LgLang.Proofs.Sorting
import LgLang.Proofs.Diagnostic.Merge
import LgLang.Proofs.Diagnostic.Alike
import LgLang.Proofs.Diagnostic.Order
import LgLang.Proofs.Text.Bytes
import LgLang.Proofs.Text.Position
import LgLang.Proofs.Text.Place
import LgLang.Proofs.Url.FilePath
import LgLang.Proofs.Syntax.Findings
import LgLang.Proofs.Syntax.Templates
import LgLang.Proofs.Syntax.Tokens
import LgLang.Proofs.Syntax.Groups
import LgLang.Proofs.Syntax.Bodies
import LgLang.Proofs.Syntax.Structures
import LgLang.Proofs.Syntax.Located
import LgLang.Proofs.Syntax.Touching
import LgLang.Proofs.Syntax.Apart
import LgLang.Proofs.Syntax.Shift
import LgLang.Proofs.Syntax.Locality
import LgLang.Proofs.Syntax.Nesting
import LgLang.Proofs.Syntax.Scanning
import LgLang.Proofs.Syntax.Brackets
import LgLang.Proofs.Syntax.LineEnds
import LgLang.Proofs.Syntax.Passages
import LgLang.Proofs.Syntax.Spellings
import LgLang.Proofs.Syntax.Bullets
import LgLang.Proofs.Syntax.Properties
import LgLang.Proofs.Syntax.Headings
import LgLang.Proofs.Syntax.Reports
import LgLang.Proofs.Syntax.Conservation
import LgLang.Proofs.Syntax.Documentation
import LgLang.Proofs.Expression.Calls
import LgLang.Proofs.Import.Moves
import LgLang.Proofs.Import.Reach
import LgLang.Proofs.Import.Aliases
import LgLang.Proofs.Import.Observation
import LgLang.Proofs.Import.Cycles
import LgLang.Proofs.Import.Alike
import LgLang.Proofs.Analysis.Symbols
import LgLang.Proofs.Analysis.Index
import LgLang.Proofs.Analysis.Files
import LgLang.Proofs.Analysis.Duplicates
import LgLang.Proofs.Analysis.Aliases
import LgLang.Proofs.Analysis.References
import LgLang.Proofs.Analysis.Observation
import LgLang.Proofs.Analysis.Names
import LgLang.Proofs.Editor.Navigation
import LgLang.Proofs.Disk.Cache
import LgLang.Proofs.Disk.History
import LgLang.Proofs.Check.Notices
import LgLang.Proofs.Workspace.Dependencies
import LgLang.Proofs.Workspace.Jobs
import LgLang.Proofs.Workspace.Following
import LgLang.Proofs.Workspace.Edits
import LgLang.Proofs.Workspace.Affected
import LgLang.Proofs.Workspace.Batches
import LgLang.Proofs.Workbench.Scheduling
import LgLang.Proofs.Workbench.Following
import LgLang.Proofs.Workbench.Steps
import LgLang.Proofs.Workbench.Queue
import LgLang.Proofs.Workbench.Working
import LgLang.Proofs.Server.Events
import LgLang.Proofs.Server.Publishing
import LgLang.Proofs.Server.LockStep
import LgLang.Proofs.Server.Reopening
import LgLang.Proofs.Server.Scene
import LgLang.Proofs.Server.Soundness
import LgLang.Proofs.Server.Notices
import LgLang.Proofs.Server.Steps
import LgLang.Proofs.Server.Freshness
import LgLang.Proofs.Server.Changes
import LgLang.Proofs.Server.Quiescence
import LgLang.Proofs.Server.Refusals
import LgLang.Proofs.Server.Answers
import LgLang.Proofs.Server.Cancellation
import LgLang.Proofs.Expression.Mistakes
import LgLang.Proofs.Import.Places
import LgLang.Proofs.Analysis.Places
import LgLang.Proofs.Syntax.Arrangement
import LgLang.Proofs.Expression.Balance
import LgLang.Proofs.Expression.Progress
import LgLang.Proofs.Syntax.Contents
import LgLang.Proofs.Expression.ArgumentLists
import LgLang.Proofs.Editor.OpenCall
import LgLang.Proofs.Editor.Context
import LgLang.Proofs.Editor.Completion
import LgLang.Proofs.Editor.Hover
import LgLang.Proofs.Expression.ArgumentCount
import LgLang.Proofs.Text.Correspondence
import LgLang.Proofs.Import.Cancellation
import LgLang.Proofs.Analysis.Cancellation
import LgLang.Proofs.Analysis.Shadowing
import LgLang.Proofs.Syntax.Touching
