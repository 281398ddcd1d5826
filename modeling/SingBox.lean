import SingBox.AdaptiveOrder
import SingBox.AttemptConnections
import SingBox.BreakerRecovery
import SingBox.CooldownWindows
import SingBox.DnsCacheFlushes
import SingBox.DnsChecks
import SingBox.EbpfQuarantine
import SingBox.EngineConfirmation
import SingBox.EngineDeferral
import SingBox.FailureBursts
import SingBox.FakeIP
import SingBox.HintIsolation
import SingBox.IdentityPersistence
import SingBox.LeaseReservations
import SingBox.PathSpellings
import SingBox.PermitAgreement
import SingBox.PolicyParity
import SingBox.ProbeCustody
import SingBox.ProbeFindings
import SingBox.ProbePeriods
import SingBox.ProfileEvidence
import SingBox.ProviderRefresh
import SingBox.PublicationCommit
import SingBox.PublicationOutcomes
import SingBox.RegistryLifetimes
import SingBox.RemoteFetch
import SingBox.RuleSetRanges
import SingBox.SchedulerOwnership
import SingBox.SelectionBounds
import SingBox.SmartConnections
import SingBox.SourceRuns
import SingBox.StaticBanks
import SingBox.TlsServerName
import SingBox.UIDPolicy
import SingBox.XdpFabric
