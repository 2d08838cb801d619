import TriggerLogic.Text.Basic
import TriggerLogic.Text.Width
import TriggerLogic.Text.Word
import TriggerLogic.Logic.SumOfProducts
import TriggerLogic.Logic.Comparison
import TriggerLogic.Logic.Listing
import TriggerLogic.Source.Fault
import TriggerLogic.Source.Declaration
import TriggerLogic.Source.Statement
import TriggerLogic.Source.DesignUnit
import TriggerLogic.Source.Layout
import TriggerLogic.Condition.Clause
import TriggerLogic.Condition.Basic
import TriggerLogic.Decision.Table
import TriggerLogic.Decision.Printout
import TriggerLogic.Decision.Evaluator
import TriggerLogic.Digest.Blake3
import TriggerLogic.Report.Layout
import TriggerLogic.Fault
import TriggerLogic.Files.Path
import TriggerLogic.Files.Access
import TriggerLogic.Files.Tree
import TriggerLogic.Settings
import TriggerLogic.Artifact.Compiled
import TriggerLogic.Artifact.Plan
import TriggerLogic.Command.Options
import TriggerLogic.Command.Session
import TriggerLogic.Command.Run
import TriggerLogic.Main
import TriggerLogic.Proofs.Dealing
import TriggerLogic.Proofs.ClauseMeaning
import TriggerLogic.Proofs.InputBits
import TriggerLogic.Proofs.DecisionBits
import TriggerLogic.Proofs.ListingRoundTrip
import TriggerLogic.Proofs.EvaluatorProgram
import TriggerLogic.Proofs.EvaluatorRuns
import TriggerLogic.Proofs.TextCuts
import TriggerLogic.Proofs.ClauseText
import TriggerLogic.Proofs.PieceReading
import TriggerLogic.Proofs.ConditionText
import TriggerLogic.Proofs.ConditionMeaning
import TriggerLogic.Proofs.StatementPlaces
import TriggerLogic.Proofs.BodyText
import TriggerLogic.Proofs.DeclarationText
import TriggerLogic.Proofs.SourceRoundTrip
import TriggerLogic.Proofs.KeptStatements
import TriggerLogic.Proofs.FaultSpans
import TriggerLogic.Proofs.SqueezedText
import TriggerLogic.Proofs.PlainTable
import TriggerLogic.Proofs.SourceComments
import TriggerLogic.Proofs.AssignmentOrder
import TriggerLogic.Proofs.TermCounts
import TriggerLogic.Proofs.TreeGrowth
import TriggerLogic.Proofs.ArtifactFiles
import TriggerLogic.Proofs.CommandEffects
import TriggerLogic.Proofs.SourceParts
import TriggerLogic.Proofs.SlotWalk
import TriggerLogic.Proofs.PathPlaces
import TriggerLogic.Proofs.ForcedRequest
import TriggerLogic.Proofs.Recompilation
import TriggerLogic.Proofs.DealtLists
import TriggerLogic.Proofs.ClauseGrammar
import TriggerLogic.Proofs.ConditionRoundTrip
import TriggerLogic.Proofs.DeclaredBits
import TriggerLogic.Proofs.ShownConditions
import TriggerLogic.Proofs.ClausePlaces
import TriggerLogic.Proofs.ListingReading
import TriggerLogic.Proofs.InputLabels
import TriggerLogic.Proofs.VersionNames
import TriggerLogic.Proofs.ArtifactNames
import TriggerLogic.Proofs.EvaluatorText
import TriggerLogic.Proofs.ReportedLines
import TriggerLogic.Proofs.SettingsLines
import TriggerLogic.Proofs.MarkerLabels
import TriggerLogic.Proofs.SettingsSearch
import TriggerLogic.Proofs.StatementWalk
import TriggerLogic.Proofs.KeywordSearch
import TriggerLogic.Proofs.RangeWidths
