import SynOSStudio.TextLines.Characters
import SynOSStudio.InterruptiblePrograms.Programs
import SynOSStudio.InterruptiblePrograms.Invariants
import SynOSStudio.InterruptiblePrograms.Success
import SynOSStudio.InterruptiblePrograms.Guards
import SynOSStudio.InterruptiblePrograms.Interleaving
import SynOSStudio.InterruptiblePrograms.Directories
import SynOSStudio.JsonText.Values
import SynOSStudio.JsonText.Parsing
import SynOSStudio.JsonText.Records
import SynOSStudio.RecoveryEngine.Identifiers
import SynOSStudio.RecoveryEngine.Deployment
import SynOSStudio.RecoveryEngine.Disk
import SynOSStudio.RecoveryEngine.Transaction
import SynOSStudio.RecoveryEngine.PackageTransaction
import SynOSStudio.RecoveryEngine.RootCleanup
import SynOSStudio.RecoveryEngine.Lineage
import SynOSStudio.RecoveryEngine.Host
import SynOSStudio.RecoveryEngine.Recovery
import SynOSStudio.RecoveryEngine.Confirmation
import SynOSStudio.RecoveryEngine.RootLayout
import SynOSStudio.RecoveryEngine.Faultless
import SynOSStudio.RecoveryEngine.RollbackSafety.Steps
import SynOSStudio.RecoveryEngine.RollbackSafety.Initramfs
import SynOSStudio.RecoveryEngine.RollbackSafety.Userspace
import SynOSStudio.RecoveryEngine.RollbackSafety.Boots
import SynOSStudio.RecoveryEngine.RollbackSafety.Records
import SynOSStudio.RecoveryEngine.AutomaticFallback
import SynOSStudio.RecoveryEngine.Reconciliation
import SynOSStudio.RecoveryEngine.Operations
import SynOSStudio.RecoveryEngine.SnapshotScope
import SynOSStudio.RecoveryEngine.SnapshotDeletion
import SynOSStudio.RecoveryEngine.SnapshotPresence
import SynOSStudio.RecoveryEngine.PackageSettlement
import SynOSStudio.RecoveryEngine.Rollback
import SynOSStudio.RecoveryEngine.PackageHook
import SynOSStudio.RecoveryEngine.ConcurrentCalls
import SynOSStudio.RecoveryEngine.ScheduledRestore
import SynOSStudio.RecoveryEngine.PendingReferences
import SynOSStudio.RecoveryEngine.BootIntegration
import SynOSStudio.RecoveryEngine.ArmedArtifacts
import SynOSStudio.RecoveryEngine.LineageFile
import SynOSStudio.RecoveryEngine.LineageLimits
import SynOSStudio.BuildTools.JobQueue
import SynOSStudio.BuildTools.JobLedger
import SynOSStudio.BuildTools.ParallelRuns
import SynOSStudio.BuildTools.PackageCache
import SynOSStudio.BuildTools.RecipeFingerprint
import SynOSStudio.BuildTools.Bundles
import SynOSStudio.BuildTools.BundleApplication
import SynOSStudio.BuildTools.BundleSignatures
import SynOSStudio.BuildTools.SharedFolder
import SynOSStudio.BuildTools.MatrixFiles
import SynOSStudio.BuildTools.StatusRuns
import SynOSStudio.SecurityKeys.Helper
import SynOSStudio.SecurityKeys.Agreement
import SynOSStudio.SecurityKeys.Enrollments
import SynOSStudio.Installer.GraphBoundary
import SynOSStudio.Installer.Plan
import SynOSStudio.Installer.PlanBoundary
import SynOSStudio.ByteStreams.Lines
import SynOSStudio.BashGuess.Protocol
import SynOSStudio.BashGuess.ProtocolReader
import SynOSStudio.SecurityKeys.SudoPolicy
import SynOSStudio.SecurityKeys.Lockout
import SynOSStudio.BashGuess.Shell
import SynOSStudio.BashGuess.World
import SynOSStudio.BashGuess.Learning
import SynOSStudio.BashGuess.Snapshots
import SynOSStudio.BashGuess.Freshness
import SynOSStudio.IntervalLists.Extents
import SynOSStudio.Installer.StorageInventory
import SynOSStudio.Installer.ManualLayout
import SynOSStudio.Installer.ManualGeometry
import SynOSStudio.KeyedLists.Dictionaries
import SynOSStudio.Installer.Planning
import SynOSStudio.Installer.ManualGraph
import SynOSStudio.Installer.GuidedGraph
import SynOSStudio.Installer.WriteSets
import SynOSStudio.Installer.Preservation
import SynOSStudio.Installer.DeclaredDisk
import SynOSStudio.Installer.CapturedPlans
import SynOSStudio.Installer.VerifiedResults
import SynOSStudio.WorkLedgers.Ledgers
import SynOSStudio.WorkLedgers.Previews
import SynOSStudio.Dictation.Service
import SynOSStudio.Dictation.PhraseLedger
import SynOSStudio.Dictation.PreviewFreshness
import SynOSStudio.Dictation.Coherence
import SynOSStudio.Dictation.CoherentSteps
import SynOSStudio.Dictation.Accounting
import SynOSStudio.Dictation.WorkerFrames
import SynOSStudio.Dictation.ResidentEngine
import SynOSStudio.Dictation.Pairing
import SynOSStudio.Dictation.PairedCalls
import SynOSStudio.Installer.SwapPolicy
import SynOSStudio.TextLines.Lines
import SynOSStudio.Installer.TargetSwap
import SynOSStudio.Installer.NtfsResize
import SynOSStudio.KeyedLists.StableOrder
import SynOSStudio.SnapshotsManager.Retention
import SynOSStudio.SnapshotsManager.RetentionRules
import SynOSStudio.KeyedLists.Correspondence
import SynOSStudio.RecoveryEngine.LineageForest
import SynOSStudio.RecoveryEngine.LineageHistory
import SynOSStudio.RecoveryEngine.SecureBoot
import SynOSStudio.RecoveryEngine.SecureBootTrust
import SynOSStudio.Installer.PartedOutput
import SynOSStudio.Installer.PartedTables
import SynOSStudio.Installer.TableReadings
import SynOSStudio.Installer.ProbedGeometry
import SynOSStudio.TextPasses.Passes
import SynOSStudio.BuildTools.Branding
import SynOSStudio.BuildTools.OnePass
import SynOSStudio.KeyedLists.TrailingRuns
import SynOSStudio.BuildTools.StatusSince
import SynOSStudio.ByteStreams.Utf8
import SynOSStudio.BuildTools.BundleTrees
import SynOSStudio.BuildTools.ResumedPlans
import SynOSStudio.WildcardPatterns.Matching
import SynOSStudio.SecurityKeys.SshConfig
import SynOSStudio.SecurityKeys.SshIncludes
import SynOSStudio.SecurityKeys.SshRoundTrip
import SynOSStudio.SwapControl.Helper
import SynOSStudio.SwapControl.Resize
import SynOSStudio.LinkedTrees.Walks
import SynOSStudio.BuildTools.EntryCleanup
import SynOSStudio.BashGuess.ScanTurns
import SynOSStudio.BashGuess.LineBytes
import SynOSStudio.BashGuess.WrittenLines
import SynOSStudio.BashGuess.LineReading
import SynOSStudio.BashGuess.WordErrors
import SynOSStudio.BashGuess.ReadAsWritten
import SynOSStudio.KeyedLists.FirstOccurrences
import SynOSStudio.NestedMappings.Values
import SynOSStudio.NestedMappings.Merging
import SynOSStudio.BuildTools.ProfileChains
import SynOSStudio.BuildTools.PackageLists
import SynOSStudio.BuildTools.LiveRegions
import SynOSStudio.BuildTools.SourcedRegions
import SynOSStudio.RecoveryEngine.MountLayout
import SynOSStudio.RecoveryEngine.MountTables
import SynOSStudio.Dictation.BackendTuning
import SynOSStudio.Dictation.TunedBackends
import SynOSStudio.SnapshotsManager.AptHistory
import SynOSStudio.SnapshotsManager.PrintedHistory
import SynOSStudio.SnapshotsManager.RecoveredHistory
import SynOSStudio.Dictation.AudioCapture
import SynOSStudio.Dictation.SpeechStretches
import SynOSStudio.Dictation.CapturedPhrases
import SynOSStudio.Ufwall.AppSwitch
import SynOSStudio.BashGuess.Trimming
import SynOSStudio.Ufwall.SwitchTruth
import SynOSStudio.LockOrders.Holders
import SynOSStudio.BuildTools.KeyedLocks
import SynOSStudio.BuildTools.LockDiscipline
import SynOSStudio.ShellWords.Quoting
import SynOSStudio.BuildTools.ShellLiterals
import SynOSStudio.BuildTools.ControlFields
import SynOSStudio.BuildTools.ControlParagraphs
import SynOSStudio.BuildTools.FinishedParagraphs
import SynOSStudio.BuildTools.FieldsOfBases
import SynOSStudio.CompensatedRuns.Runs
import SynOSStudio.Installer.StepRunner
import SynOSStudio.CompensatedRuns.Actions
import SynOSStudio.Installer.RunReports
import SynOSStudio.Installer.TargetEnvironment
import SynOSStudio.Installer.UndoneRuns
import SynOSStudio.Installer.TargetTables
import SynOSStudio.Installer.MountedRuns
import SynOSStudio.Installer.EnteredRuns
import SynOSStudio.Installer.ClosedRuns
import SynOSStudio.Installer.Executor
import SynOSStudio.Installer.InstalledRuns
import SynOSStudio.PartitionTables.Tables
import SynOSStudio.Installer.StorageCommands
import SynOSStudio.Installer.CreatedPartitions
import SynOSStudio.Installer.ManualChoices
import SynOSStudio.Installer.EditedTables
