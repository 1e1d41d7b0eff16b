import FileSelect.Cli.Arguments
import FileSelect.Cli.Command
import FileSelect.Cli.Json
import FileSelect.Cli.Run
import FileSelect.Disk.Basic
import FileSelect.Disk.Change
import FileSelect.Disk.Fault
import FileSelect.Disk.Listing
import FileSelect.Disk.Resolve
import FileSelect.Disk.Zip
import FileSelect.Environment
import FileSelect.Failure
import FileSelect.Glob.Clean
import FileSelect.Glob.Directory
import FileSelect.Glob.Name
import FileSelect.Glob.Pattern
import FileSelect.Glob.PatternSet
import FileSelect.Glob.Token
import FileSelect.Glob.Wildcard
import FileSelect.Main
import FileSelect.Path.Basic
import FileSelect.Proofs.Text.Cutting
import FileSelect.Regex.Basic
import FileSelect.Regex.Bracket
import FileSelect.Regex.CharClass
import FileSelect.Regex.Escape
import FileSelect.Regex.Reader
import FileSelect.Regex.Weight
import FileSelect.Scan.Query
import FileSelect.Scan.Select
import FileSelect.Selection.Archive
import FileSelect.Selection.Basic
import FileSelect.Selection.Delete
import FileSelect.Selection.Expression
import FileSelect.Selection.Gather
import FileSelect.Selection.Member
import FileSelect.Selection.Transfer
import FileSelect.Settings
import FileSelect.SettingsFile
import FileSelect.Text.Basic
import FileSelect.Text.Segments
import FileSelect.Toml.Document
import FileSelect.Toml.Quoted
import FileSelect.Toml.Scalar
import FileSelect.Toml.Value
import FileSelect.Unicode.Category
import FileSelect.Unicode.Folding
import FileSelect.Unicode.Property
import FileSelect.Unicode.Runs
import FileSelect.Unicode.Script
import FileSelect.Version
import FileSelect.Proofs.Text.Segments
import FileSelect.Proofs.Glob.Wildcard
import FileSelect.Proofs.Glob.Token
import FileSelect.Proofs.Glob.Directory
import FileSelect.Proofs.Glob.CleanSegments
import FileSelect.Proofs.Glob.NormalForm
import FileSelect.Proofs.Glob.Language
import FileSelect.Proofs.Glob.Pruning
import FileSelect.Proofs.Glob.Refusal
import FileSelect.Proofs.Scan.Listing
import FileSelect.Proofs.Scan.Select
import FileSelect.Proofs.Selection.Places
import FileSelect.Proofs.Selection.Operation
import FileSelect.Proofs.Selection.Runs
import FileSelect.Proofs.Disk.Table
import FileSelect.Proofs.Disk.Below
import FileSelect.Proofs.Disk.Listing
import FileSelect.Proofs.Selection.Glob
import FileSelect.Proofs.Selection.Filter
import FileSelect.Proofs.Disk.Making
import FileSelect.Proofs.Disk.Writing
import FileSelect.Proofs.Disk.Grafting
import FileSelect.Proofs.Selection.Copy
import FileSelect.Proofs.Disk.Sparing
import FileSelect.Proofs.Selection.Sources
import FileSelect.Proofs.Disk.Lacking
import FileSelect.Proofs.Disk.Removing
import FileSelect.Proofs.Text.Sorting
import FileSelect.Proofs.Selection.Delete
import FileSelect.Proofs.Disk.Ways
import FileSelect.Proofs.Disk.Renaming
import FileSelect.Proofs.Disk.Shifting
import FileSelect.Proofs.Selection.Clearing
import FileSelect.Proofs.Selection.Move
import FileSelect.Proofs.Selection.Linked
import FileSelect.Proofs.Scan.Algebra
import FileSelect.Proofs.Scan.Exclusion
import FileSelect.Proofs.Selection.Collision
import FileSelect.Proofs.Disk.Settling
import FileSelect.Proofs.Selection.Settled
import FileSelect.Proofs.Toml.Quoted
import FileSelect.Proofs.Toml.Document
import FileSelect.Proofs.Settings.RoundTrip
import FileSelect.Proofs.Text.ByteOrder
import FileSelect.Proofs.Selection.Archive
import FileSelect.Proofs.Disk.Confining
import FileSelect.Proofs.Selection.Inward
import FileSelect.Proofs.Selection.Confined
import FileSelect.Proofs.Disk.Walking
import FileSelect.Proofs.Regex.Alternatives
import FileSelect.Proofs.Regex.Counts
import FileSelect.Proofs.Regex.Reach
import FileSelect.Proofs.Regex.Whole
import FileSelect.Proofs.Selection.Expression
import FileSelect.Proofs.Cli.DryRun
import FileSelect.Proofs.Glob.OnePass
import FileSelect.Proofs.Glob.Layout
import FileSelect.Proofs.Glob.Written
import FileSelect.Proofs.Glob.Merging
import FileSelect.Proofs.Glob.Coverage
import FileSelect.Proofs.Scan.Covered
import FileSelect.Proofs.Scan.Order
import FileSelect.Proofs.Selection.FirstFound
import FileSelect.Proofs.Path.Components
import FileSelect.Proofs.Cli.Spelling
import FileSelect.Proofs.Selection.Flatten
import FileSelect.Proofs.Selection.Leftovers
import FileSelect.Proofs.Scan.Reached
import FileSelect.Proofs.Selection.Outcome
