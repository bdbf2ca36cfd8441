import RunpodJobrunner.AdmissionFailure
import RunpodJobrunner.BudgetAuthority
import RunpodJobrunner.EffectiveResource
import RunpodJobrunner.JournalCommits
import RunpodJobrunner.LifecycleOrder
import RunpodJobrunner.OutcomeAgreement
import RunpodJobrunner.WorkDelivery
import RunpodJobrunner.PosixPath
import RunpodJobrunner.TransferManifest
import RunpodJobrunner.CanonicalJson
import RunpodJobrunner.CanonicalReadBack
import RunpodJobrunner.CanonicalExact
import RunpodJobrunner.Discovery
import RunpodJobrunner.DiscoveryAgreement
import RunpodJobrunner.InputExactness
import RunpodJobrunner.RunPodHTTP
import RunpodJobrunner.RunPodProvider
import RunpodJobrunner.ProviderHistory
import RunpodJobrunner.ExecutorWorld
import RunpodJobrunner.UnitNames
import RunpodJobrunner.GlobSplitting
import RunpodJobrunner.ProviderDeadline
import RunpodJobrunner.RunRequest
import RunpodJobrunner.IdentityChecks
import RunpodJobrunner.JsonLoaded
import RunpodJobrunner.Base64
import RunpodJobrunner.IncrementalAck
import RunpodJobrunner.JsonAlike
import RunpodJobrunner.AckBinding
import RunpodJobrunner.JsonGrammar
import RunpodJobrunner.JsonCompletions
import RunpodJobrunner.TornFragments
import RunpodJobrunner.RunnerWorld
import RunpodJobrunner.RemoteRunner
import RunpodJobrunner.RunnerProcess
import RunpodJobrunner.StatusProjection
import RunpodJobrunner.ShownStatus
import RunpodJobrunner.RunnerRules
import RunpodJobrunner.RunnerConduct
import RunpodJobrunner.RunnerRuns
import RunpodJobrunner.RunnerStarts
import RunpodJobrunner.AccountedTime
import RunpodJobrunner.PublishedStatus
import RunpodJobrunner.PhasedRun
