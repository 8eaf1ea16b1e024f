import Pmwcas.Agreement
import Pmwcas.WellFormed
import Pmwcas.Atomicity
import Pmwcas.Durability
import Pmwcas.Failure
import Pmwcas.Reopening
import Pmwcas.CrashAtomicity
import Pmwcas.DurableDescriptors
import Pmwcas.Restarting
import Pmwcas.FasasRestarting
import Pmwcas.FasasCompletion
import Pmwcas.EpochManager
import Pmwcas.GarbageSafety
import Pmwcas.DescriptorConservation
import Pmwcas.RecoverMutexNew
import Pmwcas.OptmizedFasasStatus
import Pmwcas.OptmizedFasasCrash
import Pmwcas.FasasDurable
import Pmwcas.MSQueueByOrgCasRecovery
import Pmwcas.MSQueueByPMWCasFifo
import Pmwcas.RecoverCASDetectable
import Pmwcas.MwCASDListChain
import Pmwcas.MSQueueByLogEntries
import Pmwcas.DListSanityCheck
import Pmwcas.RecoveryOrder
import Pmwcas.RecyclePolicies
import Pmwcas.OptmizedFasasTags
import Pmwcas.FetchStoreStoreAgreement
import Pmwcas.TlsAllocatorSound
import Pmwcas.EpochTable
import Pmwcas.EntryOrder
import Pmwcas.PoolVariables
import Pmwcas.ThreadRegistry
import Pmwcas.MSQueueTPMWCasSequential
import Pmwcas.MSQueueTestTeardown
import Pmwcas.OptmizedRestarting
