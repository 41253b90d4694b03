import LintConfig.CommandLine
import LintConfig.CommandLine.Reach
import LintConfig.Engine
import LintConfig.Main
import LintConfig.Proofs.Base.Ignoring
import LintConfig.Proofs.Base.KeyOrder
import LintConfig.Proofs.Cache.Accounting
import LintConfig.Proofs.Cache.Eviction
import LintConfig.Proofs.Cache.Failure
import LintConfig.Proofs.Decode.NullFree
import LintConfig.Proofs.Document.Normal
import LintConfig.Proofs.Engine.Affecting
import LintConfig.Proofs.Engine.Events
import LintConfig.Proofs.Engine.Fatal
import LintConfig.Proofs.Engine.Idempotence
import LintConfig.Proofs.Engine.NormalPaths
import LintConfig.Proofs.Engine.Noticing
import LintConfig.Proofs.Engine.Reloading
import LintConfig.Proofs.Engine.Reporting
import LintConfig.Proofs.Engine.Requests
import LintConfig.Proofs.Engine.Slots
import LintConfig.Proofs.Engine.Spelling
import LintConfig.Proofs.Engine.Validation
import LintConfig.Proofs.Engine.Veto
import LintConfig.Proofs.Glob.Basename
import LintConfig.Proofs.Glob.Lenient
import LintConfig.Proofs.Library.Deletion
import LintConfig.Proofs.Notation.Comments
import LintConfig.Proofs.Plugin.Registered
import LintConfig.Proofs.RoundTrip
import LintConfig.Proofs.Setting.Merging
import LintConfig.Proofs.Store.Cycles
import LintConfig.Proofs.Store.Dropping
import LintConfig.Proofs.Store.Flattening
import LintConfig.Proofs.Store.Loader
import LintConfig.Schema
