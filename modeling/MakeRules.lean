import MakeRules.Json.Held
import MakeRules.Machine
import MakeRules.Main
import MakeRules.Proofs.Step.Markers
import MakeRules.Proofs.Step.Reading
import MakeRules.Proofs.Step.Reader
import MakeRules.Proofs.Step.Positions
import MakeRules.Proofs.Log.Dispatch
import MakeRules.Proofs.Log.Record
import MakeRules.Proofs.Log.Cursor
import MakeRules.Proofs.Log.Run
import MakeRules.Proofs.Translation.Run
import MakeRules.Proofs.Translation.Entries
import MakeRules.Proofs.Translation.Records
import MakeRules.Proofs.Translation.Rules
import MakeRules.Proofs.Escape.Decoding
import MakeRules.Proofs.Log.DirectoryChange
import MakeRules.Proofs.Translation.CompileLog
import MakeRules.Proofs.Log.Append
import MakeRules.Proofs.Rule.OfStep
import MakeRules.Proofs.Translation.Append
import MakeRules.Proofs.Translation.Recipes
import MakeRules.Proofs.Translation.Faults
import MakeRules.Proofs.Makefile.Invocation
import MakeRules.Proofs.Run.Machine
import MakeRules.Proofs.Run.Freshness
import MakeRules.Proofs.Makefile.Comments
import MakeRules.Proofs.Json.Strings
import MakeRules.Proofs.Json.RoundTrip
import MakeRules.Proofs.Ledger
import MakeRules.Proofs.Run.History
import MakeRules.Proofs.CommandLine.Command
import MakeRules.Proofs.CommandLine.Effects
import MakeRules.Proofs.Translation.Targets
import MakeRules.Proofs.Escape.ShellWords
import MakeRules.Proofs.CommandLine.Agreement
import MakeRules.Proofs.Translation.RecipeWords
import MakeRules.Proofs.Run.Writes
import MakeRules.Proofs.CommandLine.Goal
import MakeRules.Proofs.Words.Spelling
import MakeRules.Proofs.Step.Texts
import MakeRules.Proofs.Makefile.Lines
import MakeRules.Proofs.Makefile.Blocks
import MakeRules.Proofs.Translation.Lines
import MakeRules.Proofs.Makefile.Dependencies
import MakeRules.Proofs.Translation.Dependencies
import MakeRules.Proofs.Words.Places
import MakeRules.Proofs.Rule.Paths
import MakeRules.Proofs.Escape.Rereading
import MakeRules.Proofs.Makefile.Prerequisites
import MakeRules.Proofs.Translation.Repetition
import MakeRules.Proofs.OutputFileMap
import MakeRules.Proofs.Rule.OfMap
import MakeRules.Proofs.LinkFileList
import MakeRules.Proofs.Translation.CompileCall
import MakeRules.Proofs.Translation.Diagnostics
import MakeRules.Proofs.Translation.Messages
import MakeRules.Proofs.Translation.Layout
import MakeRules.Proofs.Rule.Calls
import MakeRules.Proofs.Text.Spaced
import MakeRules.Proofs.Step.DriverCall
import MakeRules.Proofs.Log.Operand
import MakeRules.Proofs.Step.Kinds
import MakeRules.Proofs.Log.Calls
