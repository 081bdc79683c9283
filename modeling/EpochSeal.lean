import EpochSeal.Coordinator
import EpochSeal.Proofs.Acceptance
import EpochSeal.Proofs.BitmapSet
import EpochSeal.Proofs.CallForm
import EpochSeal.Proofs.CatchUp
import EpochSeal.Proofs.Envelope
import EpochSeal.Proofs.EpochAgreement
import EpochSeal.Proofs.HeaderForm
import EpochSeal.Proofs.HonestProposal
import EpochSeal.Proofs.LedgerAdvance
import EpochSeal.Proofs.LedgerCalls
import EpochSeal.Proofs.Outcome
import EpochSeal.Proofs.OwnTransactions
import EpochSeal.Proofs.Preparation
import EpochSeal.Proofs.QuorumOverlap
import EpochSeal.Proofs.Ranking
import EpochSeal.Proofs.RecordForm
import EpochSeal.Proofs.SealCount
import EpochSeal.Proofs.SetChange
import EpochSeal.Proofs.StakeChange
import EpochSeal.Proofs.StakeHistory
import EpochSeal.Proofs.StakeRecord
import EpochSeal.Proofs.StateRules
import EpochSeal.Proofs.TransactionForm
import EpochSeal.Proofs.WireForm
import EpochSeal.Proofs.WordText
import EpochSeal.Round.Proposal
import EpochSeal.Round.Sealing
import EpochSeal.Round.Validation
import EpochSeal.Simulation.Builder
import EpochSeal.Simulation.Session
import EpochSeal.Proofs.EpochSequence
import EpochSeal.Proofs.SealedDigest
import EpochSeal.Proofs.BodyBinding
import EpochSeal.Proofs.RoundCalls
import EpochSeal.Proofs.CallReading
import EpochSeal.Proofs.SealHandover
import EpochSeal.Proofs.PowerAnnouncement
import EpochSeal.Proofs.DeltaBasis
import EpochSeal.Proofs.FormRecovery
import EpochSeal.Proofs.Respelling
import EpochSeal.Proofs.DigestCoverage
import EpochSeal.Proofs.SetIdentity
import EpochSeal.Proofs.ProposalMatch
import EpochSeal.Proofs.ConsistentChange
import EpochSeal.Proofs.AnnouncedPowers
import EpochSeal.Proofs.EpochUptime
import EpochSeal.Proofs.RepeatedCommitments
import EpochSeal.Proofs.DeclaredDigests
import EpochSeal.Proofs.SealMultiplicity
import EpochSeal.Proofs.FailedCalls
import EpochSeal.Proofs.KeptRecords
import EpochSeal.Proofs.RememberedSet
import EpochSeal.Proofs.EqualBitmaps
