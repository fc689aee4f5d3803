import TweakEngine.Act
import TweakEngine.Assoc
import TweakEngine.Board
import TweakEngine.Catalog.Fields
import TweakEngine.Catalog.Library
import TweakEngine.Catalog.Reader
import TweakEngine.Catalog.Writer
import TweakEngine.CommandLine.Commands
import TweakEngine.CommandLine.Console
import TweakEngine.CommandLine.Grammar
import TweakEngine.CommandLine.Invocation
import TweakEngine.CommandLine.Reading
import TweakEngine.Config
import TweakEngine.Datum
import TweakEngine.Datum.Items
import TweakEngine.Datum.Number
import TweakEngine.Decimal.Binary
import TweakEngine.Decimal.Fixed
import TweakEngine.Decimal.Numeral
import TweakEngine.Decimal.Shortest
import TweakEngine.Detection.Description
import TweakEngine.Detection.Detector
import TweakEngine.Detection.Match
import TweakEngine.Detection.Outcome
import TweakEngine.Detection.Rule
import TweakEngine.Detection.Status
import TweakEngine.Detection.WellKnown
import TweakEngine.Disk.Description
import TweakEngine.Disk.Json
import TweakEngine.Disk.Path
import TweakEngine.Disk.Tree
import TweakEngine.Encoding.Base64
import TweakEngine.Encoding.Utf8
import TweakEngine.Execution.Apply
import TweakEngine.Execution.Batch
import TweakEngine.Execution.Engine
import TweakEngine.Execution.Memory
import TweakEngine.Execution.Operations
import TweakEngine.Execution.Session
import TweakEngine.Execution.Steps
import TweakEngine.Failure
import TweakEngine.Journal
import TweakEngine.Json.Fault
import TweakEngine.Json.Reader
import TweakEngine.Json.Writer
import TweakEngine.Label
import TweakEngine.Label.Read
import TweakEngine.Main
import TweakEngine.Moment
import TweakEngine.Operation
import TweakEngine.Proofs.MachineSteps
import TweakEngine.Proofs.MachineView
import TweakEngine.Proofs.Originals
import TweakEngine.Proofs.Requests
import TweakEngine.Proofs.StepRuns
import TweakEngine.Proofs.Tables
import TweakEngine.Registry.Coerce
import TweakEngine.Registry.Hive
import TweakEngine.Registry.Value
import TweakEngine.Report.Forms
import TweakEngine.Report.Json
import TweakEngine.Report.Reader
import TweakEngine.Report.Style
import TweakEngine.Report.Text
import TweakEngine.Service
import TweakEngine.ServiceState
import TweakEngine.Snapshot.Store
import TweakEngine.System.Access
import TweakEngine.System.Calls
import TweakEngine.System.Description
import TweakEngine.System.DryRun
import TweakEngine.System.Host
import TweakEngine.System.Machine
import TweakEngine.System.Process
import TweakEngine.System.RegistryTree
import TweakEngine.System.RestorePoint
import TweakEngine.System.Shell
import TweakEngine.System.Windows
import TweakEngine.Text.Blank
import TweakEngine.Text.ClassTable
import TweakEngine.Text.Fold
import TweakEngine.Text.FoldTable
import TweakEngine.Text.Quoted
import TweakEngine.Tweak
import TweakEngine.Proofs.OtherSteps
import TweakEngine.Proofs.RegistryKept
import TweakEngine.Proofs.ServicesKept
import TweakEngine.Proofs.TweakRuns
import TweakEngine.Proofs.RestoreRuns
import TweakEngine.Proofs.TweakCalls
import TweakEngine.Proofs.Restoration
import TweakEngine.Proofs.JsonTexts
import TweakEngine.Proofs.JsonValues
import TweakEngine.Proofs.Files
import TweakEngine.Proofs.Base64Read
import TweakEngine.Proofs.CaptureForms
import TweakEngine.Proofs.SnapshotFiles
import TweakEngine.Proofs.TidyRuns
import TweakEngine.Proofs.Restarts
import TweakEngine.Proofs.SnapshotHistories
import TweakEngine.Proofs.BatchCourse
import TweakEngine.Proofs.Shelves
import TweakEngine.Proofs.PendingRuns
import TweakEngine.Proofs.PendingChanges
import TweakEngine.Proofs.FailedOperations
import TweakEngine.Proofs.HiddenTweaks
import TweakEngine.Proofs.Privileges
import TweakEngine.Proofs.UnreadableValues
import TweakEngine.Proofs.DetectedPayloads
import TweakEngine.Proofs.Overwriting
import TweakEngine.Proofs.Spots
import TweakEngine.Proofs.OperationWrites
import TweakEngine.Proofs.OverwritingSteps
import TweakEngine.Proofs.RepeatedApply
import TweakEngine.Proofs.DefinitionFields
import TweakEngine.Proofs.Definitions
import TweakEngine.Proofs.SkippedTweaks
import TweakEngine.Proofs.DefinitionFaults
import TweakEngine.Proofs.BrokenFiles
import TweakEngine.Proofs.Abreast
import TweakEngine.Proofs.DryRuns
import TweakEngine.Proofs.JointNotes
import TweakEngine.Proofs.BatchRuns
import TweakEngine.Proofs.BatchRestoration
import TweakEngine.Proofs.StatusAge
import TweakEngine.Proofs.SharedBoard
import TweakEngine.Proofs.ConfigRoundTrip
import TweakEngine.Proofs.WritableCaptures
import TweakEngine.Proofs.SaidFailures
import TweakEngine.Proofs.DamagedSnapshots
import TweakEngine.Proofs.FileRestoration
import TweakEngine.Proofs.ClaimedRestores
import TweakEngine.Proofs.StoreAgreement
import TweakEngine.Proofs.RefusedWrites
import TweakEngine.Proofs.RetriedReverts
import TweakEngine.Proofs.LeftKeys
import TweakEngine.Proofs.BatchProtocol
import TweakEngine.Proofs.ShownResults
import TweakEngine.Proofs.OperationAccounts
import TweakEngine.Proofs.WovenActions
import TweakEngine.Proofs.UntouchedHive
import TweakEngine.Proofs.ConfinedRequests
import TweakEngine.Proofs.HivesApart
import TweakEngine.Proofs.RuleRuns
import TweakEngine.Proofs.InvertedRules
import TweakEngine.Proofs.MalformedRules
import TweakEngine.Proofs.DoubleOrder
import TweakEngine.Proofs.SteadyAnswers
import TweakEngine.Proofs.RuleOrder
import TweakEngine.Proofs.ChecklistVerdicts
import TweakEngine.Proofs.FirstDefinitions
import TweakEngine.Proofs.SharedTags
import TweakEngine.Proofs.SpelledIntegers
import TweakEngine.Proofs.CoercedValues
import TweakEngine.Proofs.PartialLoads
import TweakEngine.Proofs.Recommendations
import TweakEngine.Proofs.RestorePointCalls
import TweakEngine.Proofs.RegistryTrees
import TweakEngine.Proofs.SubtreeDeletion
import TweakEngine.Proofs.ShellLiterals
import TweakEngine.Proofs.RespelledDefinitions
import TweakEngine.Proofs.SingleSteps
import TweakEngine.Proofs.StoredValues
import TweakEngine.Proofs.TextBytes
import TweakEngine.Proofs.CapturedTexts
import TweakEngine.Proofs.StepAccounts
