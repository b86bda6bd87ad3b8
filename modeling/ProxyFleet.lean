import ProxyFleet.RealDownload
import ProxyFleet.InconclusiveEvents
import ProxyFleet.TestableNodes
import ProxyFleet.SpacedTimeouts
import ProxyFleet.InvalidQuarantine
import ProxyFleet.RevalidationVisibility
import ProxyFleet.RetiredRevival
import ProxyFleet.QueueStarvation
import ProxyFleet.LogReplay
import ProxyFleet.UpgradedIdentities
import ProxyFleet.CompletionOrder
import ProxyFleet.DecisionDirection
import ProxyFleet.EvidenceMonotonicity
import ProxyFleet.FeedbackAccounting
import ProxyFleet.FleetDatabase
import ProxyFleet.IncidentHysteresis
import ProxyFleet.RuntimeCap
import ProxyFleet.RuntimePorts
import ProxyFleet.PublisherRecovery
import ProxyFleet.LetterCases
import ProxyFleet.StaticValidation
import ProxyFleet.BatchIsolation
import ProxyFleet.ProbeBudgets
import ProxyFleet.DownloadVerdicts
import ProxyFleet.IncidentEvidence
import ProxyFleet.RelayCadence
import ProxyFleet.DormantLadder
import ProxyFleet.VipMaintenance
import ProxyFleet.PortReservations
import ProxyFleet.NodePages
import ProxyFleet.TimestampTexts
import ProxyFleet.MergedHistory
import ProxyFleet.BatchRouting
import ProxyFleet.PublicationPromise
import ProxyFleet.ManualNodes
import ProxyFleet.ManualImports
import ProxyFleet.MetadataLookups
import ProxyFleet.IncidentShield
import ProxyFleet.RefreshGate
import ProxyFleet.MigrationLeaders
import ProxyFleet.CircuitReplay
import ProxyFleet.ServiceLifetimes
import ProxyFleet.RuntimeRestoration
import ProxyFleet.AdaptiveConcurrency
import ProxyFleet.FeedHistory
import ProxyFleet.ConfigLoading
import ProxyFleet.LogRetention
import ProxyFleet.DiagnosticLogs
import ProxyFleet.FleetFigures
import ProxyFleet.MigrationBackups
