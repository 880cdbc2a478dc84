import Eltanin.AcceptedAnswers
import Eltanin.AgentModel
import Eltanin.AgentdGrants
import Eltanin.AncestryWalk
import Eltanin.AuditAcknowledgement
import Eltanin.AuditConcurrency
import Eltanin.AuditEventModel
import Eltanin.AuditGaps
import Eltanin.AuditInterleaving
import Eltanin.AuditMirror
import Eltanin.AuditModel
import Eltanin.AuditOrder
import Eltanin.AuditRecordJson
import Eltanin.AuditRecordModel
import Eltanin.AuditScan
import Eltanin.AuthorizationCapacity
import Eltanin.AuthorizationConsistency
import Eltanin.AuthorizationGrant
import Eltanin.AuthorizationModel
import Eltanin.AuthorizationOutcomes
import Eltanin.AuthorizationRefusal
import Eltanin.AuthorizationRelease
import Eltanin.AuthorizationTeardown
import Eltanin.BackendComposition
import Eltanin.BoundedWalk
import Eltanin.ByteStream
import Eltanin.CallHistory
import Eltanin.CallOutcomes
import Eltanin.CallTransitions
import Eltanin.ClientModel
import Eltanin.ConnectionContract
import Eltanin.ConnectionModel
import Eltanin.ConnectionSlots
import Eltanin.DaemonComposition
import Eltanin.DaemonExchange
import Eltanin.DaemonModel
import Eltanin.DenyOverrides
import Eltanin.DerivedReaders
import Eltanin.DescribedMessages
import Eltanin.DocumentShapes
import Eltanin.DomainJson
import Eltanin.EventLog
import Eltanin.ExplainCommand
import Eltanin.FailureModel
import Eltanin.FaultScan
import Eltanin.FramingExactness
import Eltanin.FramingModel
import Eltanin.HostTimeline
import Eltanin.IdentityModel
import Eltanin.InterleavedSessions
import Eltanin.JsonDocument
import Eltanin.KeyedStore
import Eltanin.LabelledRun
import Eltanin.LapseTermination
import Eltanin.LaunchCommand
import Eltanin.LaunchContract
import Eltanin.LaunchModel
import Eltanin.LaunchObligations
import Eltanin.LaunchTrace
import Eltanin.LeaseDeadline
import Eltanin.LeaseEvidence
import Eltanin.LeaseHolding
import Eltanin.LeaseIssuance
import Eltanin.LeaseLedger
import Eltanin.LeaseLifecycle
import Eltanin.LeaseModel
import Eltanin.LeaseStateModel
import Eltanin.LedgerRefinement
import Eltanin.LinuxProcess
import Eltanin.ListenerModel
import Eltanin.ListenerOwnership
import Eltanin.MacosProcess
import Eltanin.NumberedAttempts
import Eltanin.PartialExecution
import Eltanin.PeerConsistencyVerdict
import Eltanin.PeerModel
import Eltanin.PolicyAcceptance
import Eltanin.PolicyDecisionSemantics
import Eltanin.PolicyEvidenceMonotonicity
import Eltanin.PolicyEvidenceScope
import Eltanin.PolicyExplanation
import Eltanin.PolicyModel
import Eltanin.PolicyValidation
import Eltanin.ProcessNames
import Eltanin.ProfileModel
import Eltanin.ProtocolModel
import Eltanin.ProvenCapability
import Eltanin.RankedExecution
import Eltanin.ReleaseWarning
import Eltanin.RenewalPace
import Eltanin.ReplyAgreement
import Eltanin.ResourceModel
import Eltanin.RestartSafety
import Eltanin.RunArguments
import Eltanin.SeededBackend
import Eltanin.ShutdownDrain
import Eltanin.SignalForwarding
import Eltanin.SuperviseModel
import Eltanin.TeardownAccounting
import Eltanin.TeardownRecords
import Eltanin.TerminationModel
import Eltanin.TextFields
import Eltanin.TextLines
import Eltanin.UnixPath
import Eltanin.WireJson
import Eltanin.WireRoundTrip
import Eltanin.WireSchema
