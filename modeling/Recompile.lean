import Recompile.Buffer
import Recompile.Build.Backup
import Recompile.Build.ClassFiles
import Recompile.Build.Full
import Recompile.Build.Incremental
import Recompile.Build.Inventory
import Recompile.Build.Ledger
import Recompile.Build.Report
import Recompile.Build.Report.Printer
import Recompile.Build.Run
import Recompile.Build.Services
import Recompile.Bytes
import Recompile.ClassFile.Decoder
import Recompile.ClassFile.Fault
import Recompile.ClassFile.Layout
import Recompile.ClassFile.Pool
import Recompile.ClassFile.Surface
import Recompile.ClassName
import Recompile.Command.Arguments
import Recompile.Command.Options
import Recompile.Command.Program
import Recompile.Command.Settings
import Recompile.Compilation
import Recompile.Compilation.Attribution
import Recompile.Compilation.Invocation
import Recompile.Compilation.Log
import Recompile.Decimal.Shortest
import Recompile.Digest
import Recompile.Failure
import Recompile.JavaType
import Recompile.JavaType.Descriptor
import Recompile.Json
import Recompile.Machine.Host
import Recompile.Machine.Memory
import Recompile.Machine.Remote
import Recompile.Machine.Tree
import Recompile.Machine.Tree.Operations
import Recompile.Main
import Recompile.Modifiers
import Recompile.Ownership
import Recompile.Path
import Recompile.Proofs.Answers
import Recompile.Proofs.Build.Agreement
import Recompile.Proofs.Build.Atomicity
import Recompile.Proofs.Build.Backup
import Recompile.Proofs.Build.Blame
import Recompile.Proofs.Build.ClassFiles
import Recompile.Proofs.Build.Commit
import Recompile.Proofs.Build.Completion
import Recompile.Proofs.Build.Contract
import Recompile.Proofs.Build.Course
import Recompile.Proofs.Build.Coverage
import Recompile.Proofs.Build.Deletion
import Recompile.Proofs.Build.Dependants
import Recompile.Proofs.Build.Desk
import Recompile.Proofs.Build.FirstLook
import Recompile.Proofs.Build.History
import Recompile.Proofs.Build.Inventory
import Recompile.Proofs.Build.Ledger
import Recompile.Proofs.Build.Maintaining
import Recompile.Proofs.Build.Mode
import Recompile.Proofs.Build.Restoration
import Recompile.Proofs.Build.Retention
import Recompile.Proofs.Build.Review
import Recompile.Proofs.Build.Rounds
import Recompile.Proofs.Build.Serving
import Recompile.Proofs.Build.Shelf
import Recompile.Proofs.Build.Stages
import Recompile.Proofs.Build.Stores
import Recompile.Proofs.Build.Strays
import Recompile.Proofs.Build.Sweep
import Recompile.Proofs.Build.Undoing
import Recompile.Proofs.Bytes
import Recompile.Proofs.ClassFile.Content
import Recompile.Proofs.ClassFile.Entries
import Recompile.Proofs.ClassFile.Naming
import Recompile.Proofs.ClassFile.Reading
import Recompile.Proofs.ClassFiles
import Recompile.Proofs.ClassName
import Recompile.Proofs.Compilation
import Recompile.Proofs.Compilation.Invocation
import Recompile.Proofs.Compilation.Log
import Recompile.Proofs.JavaType.Descriptor
import Recompile.Proofs.Looking
import Recompile.Proofs.Maintaining
import Recompile.Proofs.Ownership
import Recompile.Proofs.Ownership.Histories
import Recompile.Proofs.Ownership.Sequences
import Recompile.Proofs.Path
import Recompile.Proofs.Sources.Differences
import Recompile.Proofs.Sources.Histories
import Recompile.Proofs.Sources.Observing
import Recompile.Proofs.Sources.Sorting
import Recompile.Proofs.Sources.Stretches
import Recompile.Proofs.Step
import Recompile.Proofs.Surface.Collecting
import Recompile.Proofs.Surface.Compatibility
import Recompile.Proofs.Surface.Constants
import Recompile.Proofs.Surface.Lookup
import Recompile.Proofs.Surface.Privacy
import Recompile.Proofs.Surface.References
import Recompile.Proofs.Surface.Succession
import Recompile.Proofs.Surface.Usage
import Recompile.Proofs.Text.Pieces
import Recompile.Sources.Changes
import Recompile.Sources.Find
import Recompile.Sources.Survey
import Recompile.State.Allocation
import Recompile.State.Cell
import Recompile.State.Cursor
import Recompile.State.File
import Recompile.State.Head
import Recompile.State.Insertion
import Recompile.State.KeyOrder
import Recompile.State.Page
import Recompile.State.Record
import Recompile.State.Removal
import Recompile.State.Row
import Recompile.State.Scan
import Recompile.State.Session
import Recompile.State.Table
import Recompile.State.Transaction
import Recompile.State.Unused
import Recompile.Surface
import Recompile.Surface.Compatibility
import Recompile.Surface.Snapshot
import Recompile.Surface.Usage
import Recompile.Text.Blank
import Recompile.Text.ModifiedUtf8
import Recompile.Text.Pieces
import Recompile.Text.Utf8
import Recompile.Proofs.Ownership.Reloading
import Recompile.Proofs.Text.ModifiedUtf8
import Recompile.Proofs.ClassFile.Faults
import Recompile.Proofs.ClassFile.Texts
import Recompile.Proofs.State.Saving
import Recompile.Proofs.ClassFile.Endings
import Recompile.Proofs.Surface.Ancestors
import Recompile.Proofs.Entries
import Recompile.Proofs.Surface.Users
import Recompile.Proofs.Compilation.Attribution
import Recompile.Proofs.Surface.Rearranging
import Recompile.Proofs.Compilation.Messages
import Recompile.Proofs.Build.Safekeeping
import Recompile.Proofs.Build.Calls
import Recompile.Proofs.Build.Reporting
import Recompile.Proofs.ClassFile.Filling
import Recompile.Proofs.ClassName.Internal
import Recompile.Proofs.Sources.Keys
