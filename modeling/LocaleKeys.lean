import LocaleKeys.Analysis.Completion
import LocaleKeys.Analysis.Resolution
import LocaleKeys.Command.Check
import LocaleKeys.Command.Help
import LocaleKeys.Command.Init
import LocaleKeys.Command.Keys
import LocaleKeys.Command.Watch
import LocaleKeys.Config.Discovery
import LocaleKeys.Config.Writer
import LocaleKeys.Json.Writer
import LocaleKeys.LocaleFiles
import LocaleKeys.Main
import LocaleKeys.Messages.Flatten
import LocaleKeys.Proofs.Analysis.Completing
import LocaleKeys.Proofs.Analysis.Shadowing
import LocaleKeys.Proofs.Command.Agreement
import LocaleKeys.Proofs.Dictionary.History
import LocaleKeys.Proofs.Dictionary.Runs
import LocaleKeys.Proofs.Messages.Leaves
import LocaleKeys.Proofs.Session.Announcing
import LocaleKeys.Proofs.Session.Newest
import LocaleKeys.Proofs.Session.Settling
import LocaleKeys.Session.Documents
import LocaleKeys.Proofs.Glob.Steps
import LocaleKeys.Proofs.Config.Accepted
import LocaleKeys.Proofs.Command.Analysing
import LocaleKeys.Proofs.Command.Directories
import LocaleKeys.Proofs.Command.Opening
import LocaleKeys.Proofs.Command.Verdicts
import LocaleKeys.Proofs.Session.Failing
import LocaleKeys.Proofs.Config.Discovering
import LocaleKeys.Proofs.Config.Rereading
import LocaleKeys.Proofs.Config.Templates
import LocaleKeys.Proofs.Dictionary.Overtaking
import LocaleKeys.Proofs.Watch.Resting
import LocaleKeys.Proofs.Session.Closing
import LocaleKeys.Proofs.Json.Rereading
import LocaleKeys.Proofs.Analysis.SourceOrder
import LocaleKeys.Proofs.Script.Cursors
import LocaleKeys.Proofs.Script.Grammar.Classes
import LocaleKeys.Proofs.Script.Grammar.Expressions
import LocaleKeys.Proofs.Script.Grammar.Modules
import LocaleKeys.Proofs.Script.Parsing
import LocaleKeys.Proofs.Analysis.Comparing
import LocaleKeys.Proofs.Analysis.Unwrapping
import LocaleKeys.Proofs.Command.Pointing
import LocaleKeys.Proofs.Dictionary.Commuting
import LocaleKeys.Proofs.Command.Listing
import LocaleKeys.Proofs.Config.Precedence
import LocaleKeys.Proofs.Session.Cycling
import LocaleKeys.Proofs.Watch.Replaying
import LocaleKeys.Proofs.Command.Coherence
import LocaleKeys.Proofs.Outline.WellFormed
import LocaleKeys.Proofs.Analysis.Hovering
import LocaleKeys.Proofs.Outline.Beginnings
