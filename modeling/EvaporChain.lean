import EvaporChain.Consensus.AppliedBlocks
import EvaporChain.Consensus.CertificateRoundTrip
import EvaporChain.Consensus.DaRoundTrip
import EvaporChain.Consensus.EpochProof
import EvaporChain.Consensus.Equivocation
import EvaporChain.Consensus.FinalityRuns
import EvaporChain.Consensus.Sampling
import EvaporChain.Consensus.Unauthenticated
import EvaporChain.Crypto.EnergyVerkleProofs
import EvaporChain.Execution.ConservationAudit
import EvaporChain.Execution.Deferral
import EvaporChain.Execution.Lifecycle
import EvaporChain.Execution.Replay
import EvaporChain.Execution.SignedBodies
import EvaporChain.Execution.Staking
import EvaporChain.Execution.StmPaths
import EvaporChain.Execution.SupplyCap
import EvaporChain.Execution.Upgrades
import EvaporChain.Execution.VestingLock
import EvaporChain.Execution.VoteWeight
import EvaporChain.Script.Consistency
import EvaporChain.Script.Events
import EvaporChain.Script.MapKeys
import EvaporChain.State.CustomCurves
import EvaporChain.State.Exactness
import EvaporChain.State.Refreshing
import EvaporChain.State.StateRoot
import EvaporChain.State.Waning
