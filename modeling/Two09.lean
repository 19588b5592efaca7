import Two09.Nar.RoundTrip
import Two09.Nar.Confine
import Two09.Gen.Crash
import Two09.Gc.Safety
import Two09.Gc.FailSafe
import Two09.Gc.Complete
import Two09.Gc.Race
import Two09.Snapshot.Retention
import Two09.Install.Concurrent
import Two09.Apply.Reconcile
import Two09.Apply.Command
import Two09.Install.References
import Two09.Farm.Links
import Two09.Farm.Commands
import Two09.Gen.Manifest
import Two09.Nix.Serialize
import Two09.Gen.Readers
import Two09.Debag.Filter
import Two09.Aur.Search
import Two09.Aur.Plan
import Two09.Debag.Elf
import Two09.Debag.Bounds
import Two09.Nix.Lexer
import Two09.Nix.Parser
import Two09.Nix.Precedence
import Two09.Nix.Heap
import Two09.Nix.Eval
import Two09.Nix.Literals
import Two09.Trakker.Phase
import Two09.Trakker.Enforce
import Two09.Transfer.Bundle
import Two09.Install.Incremental
import Two09.Alpm.SigLevel
import Two09.Alpm.Verify
import Two09.Exec.Lines
import Two09.Apply.Build
import Two09.Transfer.Dangling
import Two09.Share.Fetch
import Two09.Install.Atomic
import Two09.Share.Substitute
import Two09.Apply.Record
import Two09.Aur.Order
import Two09.Share.RoundTrip
import Two09.Share.Fingerprint
import Two09.Farm.Frame
import Two09.Store.Optimise
import Two09.Store.Loss
import Two09.Store.Merge
import Two09.Store.Accounting
import Two09.Nix.Imports
import Two09.Nar.Room
import Two09.Share.Unpack
import Two09.Share.Legible
import Two09.Share.Reproduce
import Two09.Store.Closure
import Two09.Snapshot.Table
import Two09.Snapshot.Timers
import Two09.Store.Manifest
import Two09.Share.Index
import Two09.Nix.FromJson
import Two09.Nix.JsonBounds
import Two09.Nix.JsonRoundTrip
import Two09.Nar.Canonical
import Two09.Snapshot.Diff
import Two09.Share.Take
import Two09.Snapshot.Restore
import Two09.Gen.Difference
import Two09.Transfer.Lockfile
import Two09.Nix.Clone
import Two09.Nix.Arithmetic
import Two09.Nix.Interpolation
import Two09.Nix.OrDefault
import Two09.Aur.PkgInfo
import Two09.Aur.Build
import Two09.Nix.MapFilter
import Two09.Debag.Seek
import Two09.Debag.CallLength
import Two09.Debag.Detect
import Two09.Transfer.Index
import Two09.Debag.Address
import Two09.Share.Names
import Two09.Debag.DynamicDb
import Two09.Debag.Watchpoints
import Two09.Debag.Breakpoints
import Two09.Lib.Tally
import Two09.Debag.Hits
import Two09.Debag.Slabs
import Two09.Nix.Replace
import Two09.Share.Keyfile
import Two09.Nix.Reordered
import Two09.Trakker.Redirect
import Two09.Alpm.Cache
import Two09.Lib.JsonText
import Two09.Trakker.Report
import Two09.Debag.Script
import Two09.Lib.Quoting
import Two09.Debag.Scriptlets
import Two09.Debag.InstallScript
import Two09.Alpm.Package
import Two09.Lib.Probing
import Two09.Lib.Simulation
import Two09.Alpm.PkgHash
import Two09.Alpm.Version
import Two09.Alpm.Deps
import Two09.Alpm.CheckDeps
import Two09.Lib.Absorb
import Two09.Alpm.Remove
import Two09.Alpm.Commit
import Two09.Alpm.Resolve
import Two09.Alpm.SyncPrepare
import Two09.Alpm.Transaction
