import Whittle.Text.Blank
import Whittle.Text.Lines
import Whittle.Text.Numeral
import Whittle.Text.Replace
import Whittle.Decimal.Binary64
import Whittle.Decimal.Reading
import Whittle.Decimal.Shortest
import Whittle.Disk.Operations
import Whittle.Language
import Whittle.World
import Whittle.Criterion
import Whittle.Slice.Lines
import Whittle.Slice.Shift
import Whittle.Stage
import Whittle.Workspace.Basic
import Whittle.Settings.Check
import Whittle.Tool.Command
import Whittle.Grammar.Scan
import Whittle.Grammar.Phrase
import Whittle.Grammar.Entry
import Whittle.Insertion.Guard
import Whittle.Pipeline.Reduction
import Whittle.Pipeline.Slicing
import Whittle.Pipeline.Run
import Whittle.Settings.ToolsFile
import Whittle.CommandLine.Run
import Whittle.Shell.Glob
import Whittle.Shell.Reader
import Whittle.Shell.Format
import Whittle.Shell.Process
import Whittle.Shell.Regex
import Whittle.Shell.Filters
import Whittle.Shell.FileTools
import Whittle.Shell.AwkProgram
import Whittle.Shell.Awk
import Whittle.Shell.Arithmetic
import Whittle.Shell.Expansion
import Whittle.Shell.Run
import Whittle.Shell.Launch
import Whittle.Main
import Whittle.Proofs.Insertion.Planting
import Whittle.Proofs.Criterion
import Whittle.Proofs.Insertion.Guarding
import Whittle.Proofs.Disk.Places
import Whittle.Proofs.Disk.Walk
import Whittle.Proofs.Disk.Frame
import Whittle.Proofs.Action
import Whittle.Proofs.Workspace.Keeps
import Whittle.Proofs.Workspace.Trail
import Whittle.Proofs.Pipeline.Footprint
import Whittle.Proofs.Pipeline.Steps
import Whittle.Proofs.Workspace.Products
import Whittle.Proofs.Pipeline.Adoption
import Whittle.Proofs.Disk.Canonical
import Whittle.Proofs.Workspace.Acquire
import Whittle.Proofs.Pipeline.Start
import Whittle.Proofs.Workspace.Sweep
import Whittle.Proofs.Workspace.Account
import Whittle.Proofs.Pipeline.Products
import Whittle.Proofs.Pipeline.Endings
import Whittle.Proofs.Pipeline.Soundness
import Whittle.Proofs.Pipeline.Provenance
import Whittle.Proofs.Disk.Removal
import Whittle.Proofs.Disk.Direct
import Whittle.Proofs.Workspace.Release
import Whittle.Proofs.Disk.Route
import Whittle.Proofs.Disk.Ways
import Whittle.Proofs.Disk.Parent
import Whittle.Proofs.Disk.Naming
import Whittle.Proofs.Disk.Tree
import Whittle.Proofs.Disk.Directories
import Whittle.Proofs.Disk.Copy
import Whittle.Proofs.Disk.Nested
import Whittle.Proofs.Settings.Settling
import Whittle.Proofs.Settings.Validation
import Whittle.Proofs.Settings.Programs
import Whittle.Proofs.Pipeline.Saving
import Whittle.Proofs.Pipeline.Conclusion
import Whittle.Proofs.Pipeline.Input
import Whittle.Proofs.Pipeline.Result
import Whittle.Proofs.Pipeline.Restoring
import Whittle.Proofs.Workspace.Contest
import Whittle.Proofs.Workspace.Tenancy
import Whittle.Proofs.Workspace.Holding
import Whittle.Proofs.Pipeline.Handover
import Whittle.Proofs.Workspace.Custody
import Whittle.Proofs.Workspace.Refusal
import Whittle.Proofs.Workspace.Cleanup
import Whittle.Proofs.Workspace.Remains
import Whittle.Proofs.Pipeline.Records
import Whittle.Proofs.Pipeline.Gate
import Whittle.Proofs.Grammar.Entry
import Whittle.Proofs.Grammar.Search
import Whittle.Proofs.Disk.Alike
import Whittle.Proofs.Disk.Twofold
import Whittle.Proofs.Pipeline.Abreast
import Whittle.Proofs.Pipeline.Concord
import Whittle.Proofs.Pipeline.Stale
import Whittle.Proofs.Pipeline.Containers
import Whittle.Proofs.Pipeline.Feeding
import Whittle.Proofs.Pipeline.Sequence
import Whittle.Proofs.Disk.Confined
import Whittle.Proofs.Pipeline.Reach
import Whittle.Proofs.Pipeline.Survival
import Whittle.Proofs.Insertion.Decoding
import Whittle.Proofs.Pipeline.Reducing
import Whittle.Proofs.Pipeline.Cutting
import Whittle.Proofs.Workspace.Session
import Whittle.Proofs.Criterion.Spelling
import Whittle.Proofs.Slice.Union
import Whittle.Proofs.Recipe.Commands
import Whittle.Proofs.Slice.Shifting
import Whittle.Proofs.Grammar.Parameters
import Whittle.Proofs.Insertion.Between
