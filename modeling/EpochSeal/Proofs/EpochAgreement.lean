import EpochSeal.Proofs.HeaderForm
import EpochSeal.Proofs.OwnTransactions
import EpochSeal.Proofs.Preparation
import EpochSeal.Proofs.SealCount
import EpochSeal.Simulation.Builder

/-! When two nodes agree on the calls that end an epoch. The calls say how often every member sealed
a block of the epoch, and each node counts the seals that it stored itself; these are no part of what
the digest of a header covers. -/
namespace EpochSeal
open Outcome

namespace Header

/-- Two headers differ in nothing but the block's own seal. -/
structure SameUpToSeal (a b : Header) : Prop where
  fields : { a with extraData := [] } = { b with extraData := [] }
  extension : ∃ e e', Extension.decode a.extraData = .ok e ∧ Extension.decode b.extraData = .ok e' ∧
    { e with committedSeal := none } = { e' with committedSeal := none }

theorem SameUpToSeal.number_eq {a b : Header} (h : a.SameUpToSeal b) : a.number = b.number := by
  have hnumber := congrArg Header.number h.fields
  exact hnumber

/-- One block has one digest with whatever seal of its own a node stores it. -/
theorem sameUpToSeal_withDigest (h : Header) {e e' : Extension}
    (hsame : { e with committedSeal := none } = { e' with committedSeal := none })
    (hlen : e.encode.length < 2 ^ 64) (hlen' : e'.encode.length < 2 ^ 64) :
    { h with extraData := e.encode }.withDigest.SameUpToSeal
      { h with extraData := e'.encode }.withDigest := by
  have hstrip : Extension.stripSeal e.encode = Extension.stripSeal e'.encode := by
    rw [Extension.stripSeal_encode e hlen, Extension.stripSeal_encode e' hlen', hsame]
  have hdigest : { h with extraData := e.encode }.computeDigest =
      { h with extraData := e'.encode }.computeDigest := by
    simp only [computeDigest, digestInput, hstrip, encodeFront]
  refine ⟨?_, e, e', Extension.decode_encode e hlen, Extension.decode_encode e' hlen', hsame⟩
  simp only [withDigest, hdigest]

/-- The block's own seal, if there is one, selects a quorum of a set. -/
def SealedBy (h : Header) (active : ValidatorSet) : Prop :=
  ∀ e committed, Extension.decode h.extraData = .ok e → e.committedSeal = some committed →
    ∃ signers, active.select committed.signers = .ok signers ∧ active.hasQuorum signers.addresses

theorem SealedBy.sealersOf_exists {h : Header} {active : ValidatorSet} {e : Extension}
    (hsealed : h.SealedBy active) (hextension : Extension.decode h.extraData = .ok e) :
    ∃ sealers, Uptime.sealersOf active h = .ok sealers := by
  simp only [Uptime.sealersOf, bind_ok_iff, mapError_ok_iff]
  cases hcommitted : e.committedSeal with
  | none =>
      refine ⟨[], e, hextension, ?_⟩
      rw [hcommitted]
      rfl
  | some committed =>
      obtain ⟨signers, hselect, _⟩ := hsealed e committed hextension hcommitted
      refine ⟨signers.addresses, e, hextension, ?_⟩
      simp only [hcommitted, bind_ok_iff, mapError_ok_iff]
      exact ⟨signers, hselect, rfl⟩

end Header

namespace Ledger

variable {chain chain' : Chain} (hkeys : blsKeyFor chain' = blsKeyFor chain)

include hkeys

theorem sortMembers_congr (previous : ValidatorSet) (members : List Validator) :
    sortMembers chain' previous members = sortMembers chain previous members := by
  induction members with
  | nil => rfl
  | cons v rest ih => rw [sortMembers, sortMembers, ih, hkeys]

theorem computeDelta_congr (l : Ledger) (store : Store) (epoch : UInt64) (previous : ValidatorSet) :
    l.computeDelta chain' store epoch previous = l.computeDelta chain store epoch previous := by
  simp only [computeDelta, sortMembers_congr hkeys]

end Ledger

namespace RoundInputs

/-- How often the seals that a node stored in the epoch select each member of the active set. -/
def sealCounts (r : RoundInputs) (chain : Chain) : List Uptime :=
  Uptime.withCounts r.validators (Uptime.timesSealed chain r.config.epochSize r.parent r.validators)

/-- What a node does at the end of an epoch: it counts the seals that it stored itself, reads what the
reward wallet lacks and announces no powers. -/
structure CountsSeals (r : RoundInputs) (chain : Chain) : Prop where
  ends : r.endsEpoch = true
  commit : r.epochCommit = some
    { id := r.epoch
      range := r.epochRange
      epochSize := r.config.epochSize
      uptime := r.sealCounts chain }
  rewards : r.rewards = some
    { epochId := r.epoch
      uptime := r.sealCounts chain
      epochSize := r.config.epochSize }
  fund : RewardWallet.shortfall chain r.config.rewardWalletTarget r.parent = .ok r.fundAmount
  sync : r.powerSync = none

theorem countsSeals_of_endingEpoch {r r' : RoundInputs} {l : Ledger} {chain : Chain} {store : Store}
    (h : r.endingEpoch l chain store = .ok r') (hends : r'.endsEpoch = true)
    (hsync : r.powerSync = none) : r'.CountsSeals chain := by
  obtain ⟨uptime, fundAmount, delta, huptime, hfund, _, rfl⟩ := endingEpoch_ok_iff.1 h
  have hcounts := Uptime.ofEpoch_ok huptime
  exact ⟨hends, by rw [hcounts]; rfl, by rw [hcounts]; rfl, hfund, hsync⟩

theorem CountsSeals.callTransactions_exists {r : RoundInputs} {chain : Chain}
    (h : r.CountsSeals chain) (hsize : r.validators.size < 2 ^ 64) :
    ∃ calls, r.callTransactions = .ok calls ∧ Readable calls := by
  have huptime : (r.sealCounts chain).length ≤ r.validators.size :=
    Uptime.length_withCounts_le r.validators _
  obtain ⟨commit, hcommit, hcommitUptime⟩ : ∃ call, r.commitEpochTransaction =
      .ok (Transaction.ofCall r.height (.commitEpoch call) 0) ∧ call.uptime = r.sealCounts chain :=
    ⟨_, by rw [commitEpochTransaction, h.commit], rfl⟩
  obtain ⟨rewards, hrewards, hrewardsUptime⟩ : ∃ call, r.rewardsTransaction =
      .ok (Transaction.ofCall r.height (.distributeRewards call) 0) ∧ call.uptime = r.sealCounts chain :=
    ⟨_, by rw [rewardsTransaction, h.rewards], rfl⟩
  have hcommitLength : commit.encode.length < 2 ^ 256 := by
    rw [commit.length_encode, hcommitUptime]
    omega
  have hrewardsLength : rewards.encode.length < 2 ^ 256 := by
    rw [rewards.length_encode, hrewardsUptime]
    omega
  have hfundLength : (StateCall.encode .fundRewardWallet).length < 2 ^ 256 := by decide
  have hincentiveLength : (StateCall.encode .distributeDaoIncentive).length < 2 ^ 256 := by decide
  rw [callTransactions, if_pos h.ends]
  refine ⟨_, bind_ok_iff.2 ⟨_, hcommit, bind_ok_iff.2 ⟨_, hrewards, rfl⟩⟩, ?_⟩
  have hfunds : Readable (if r.fundRequired then [r.fundTransaction] else []) := by
    split
    · exact List.forall_mem_singleton.2 hfundLength
    · exact fun _ h => absurd h List.not_mem_nil
  refine List.forall_mem_append.2 ⟨List.forall_mem_cons.2 ⟨hcommitLength, hfunds⟩, ?_⟩
  exact List.forall_mem_cons.2 ⟨hrewardsLength, List.forall_mem_singleton.2 hincentiveLength⟩

variable {r r' : RoundInputs} {chain chain' : Chain}

/-- The seals that two nodes stored select every member of the round's set equally often. -/
def SealedAlike (r r' : RoundInputs) (chain chain' : Chain) : Prop :=
  ∀ a ∈ r.validators.addresses,
    Uptime.timesSealed chain' r'.config.epochSize r'.parent r'.validators a =
      Uptime.timesSealed chain r.config.epochSize r.parent r.validators a

/-- Two rounds agree in everything that the calls at the end of an epoch say beside the counts. -/
structure SameEnding (r r' : RoundInputs) : Prop where
  config : r'.config = r.config
  height : r'.height = r.height
  validators : r'.validators = r.validators
  epoch : r'.epoch = r.epoch
  fundAmount : r'.fundAmount = r.fundAmount

theorem sealCounts_eq_iff (h : SameEnding r r') :
    r'.sealCounts chain' = r.sealCounts chain ↔ SealedAlike r r' chain chain' := by
  rw [sealCounts, sealCounts, h.validators, Uptime.withCounts_eq_iff, SealedAlike, h.validators]

/-- The calls that end an epoch carry the same on two nodes exactly if the counts are the same. -/
theorem endingCalls_eq_iff (h : SameEnding r r') (hcounts : r.CountsSeals chain)
    (hcounts' : r'.CountsSeals chain') :
    (r'.epochCommit = r.epochCommit ∧ r'.rewards = r.rewards) ↔ SealedAlike r r' chain chain' := by
  have hrange : r'.epochRange = r.epochRange := by
    rw [epochRange, epochRange, h.height, h.config]
  rw [← sealCounts_eq_iff h, hcounts.commit, hcounts'.commit, hcounts.rewards, hcounts'.rewards,
    h.epoch, hrange, h.config]
  simp

theorem callTransactions_eq (h : SameEnding r r') (hends : r.endsEpoch = true)
    (hends' : r'.endsEpoch = true) (hcommit : r'.epochCommit = r.epochCommit)
    (hrewards : r'.rewards = r.rewards) : r'.callTransactions = r.callTransactions := by
  simp only [callTransactions, hends, hends', if_true, commitEpochTransaction, rewardsTransaction,
    fundTransaction, incentiveTransaction, fundRequired, h.height, hcommit, hrewards, h.fundAmount]
  rfl

/-- A node lets the calls through that another one makes from the same counts. -/
theorem checkTransactions_endingCalls (h : SameEnding r r') (hcounts : r.CountsSeals chain)
    (hcounts' : r'.CountsSeals chain') (halike : SealedAlike r r' chain chain')
    (hapart : r'.config.BridgeApart) (hsize : r.validators.size < 2 ^ 64) :
    ∃ calls, r.callTransactions = .ok calls ∧ ∀ rest, (∀ t ∈ rest, r'.Passive chain' t) →
      r'.checkTransactions chain' (calls ++ rest) = .ok () := by
  obtain ⟨calls, hcalls, hreadable⟩ := hcounts.callTransactions_exists hsize
  -- equal counts make equal calls, so the node compares the calls with its own
  obtain ⟨hcommit, hrewards⟩ := (endingCalls_eq_iff h hcounts hcounts').2 halike
  have hown := callTransactions_eq h hcounts.ends hcounts'.ends hcommit hrewards
  refine ⟨calls, hcalls, fun rest hrest => ?_⟩
  exact checkTransactions_callTransactions (hown.trans hcalls) hapart hreadable
    (fun _ => hcounts'.sync) hrest

end RoundInputs

/-- A node that is to prepare the round on top of a parent. -/
structure Node where
  coordinator : Coordinator
  chain : Chain
  store : Store
  parent : Header

namespace Node

variable {β γ : Type} {n n' : Node} {builder : Option β} {builder' : Option γ}
  {context context' : RoundContext}

def round (n : Node) (builder : Option β) (context : RoundContext) :
    Except CoordinatorError (Round β) :=
  ((Coordinator.createRound n.chain n.store n.parent builder context).run n.coordinator).1

def Counts (n : Node) (number : UInt64) : Prop :=
  Uptime.Counts n.coordinator.config.epochSize n.parent number

def header (n : Node) (number : UInt64) : Except UptimeError Header :=
  Uptime.headerAt n.chain n.parent number

/-- The seals that the node stored in the epoch select quorums of the active set. -/
def Sealed (n : Node) : Prop :=
  ∀ active number header, n.chain.validatorsAt n.parent.number = .ok active → n.Counts number →
    n.header number = .ok header → header.SealedBy active

/-- Two nodes agree on everything but the seals that they stored: the configuration, the stakes, the
history of sets, what the contracts say and the blocks of the epoch. -/
structure AgreesWith (n n' : Node) : Prop where
  config : n'.coordinator.config = n.coordinator.config
  ledger : n'.coordinator.ledger = n.coordinator.ledger
  store : n'.store = n.store
  history : n'.chain.validatorsAt = n.chain.validatorsAt
  remembers : n.coordinator.Remembers n.chain
  remembers' : n'.coordinator.Remembers n'.chain
  keys : Ledger.blsKeyFor n'.chain = Ledger.blsKeyFor n.chain
  balance : n'.chain.balance n'.parent Contract.rewardWallet =
    n.chain.balance n.parent Contract.rewardWallet
  parent : n.parent.SameUpToSeal n'.parent
  headers : ∀ number, n.Counts number →
    ∃ h h', n.header number = .ok h ∧ n'.header number = .ok h' ∧ h.SameUpToSeal h'
  quorums : n.Sealed
  quorums' : n'.Sealed

theorem round_ok_iff {round : Round β} (hremembers : n.coordinator.Remembers n.chain) :
    n.round builder context = .ok round ↔
      ∃ epoch parentDelta active inputs,
        Coordinator.readParent n.coordinator.config n.parent = .ok (epoch, parentDelta) ∧
        n.chain.validatorsAt n.parent.number = .ok active ∧
        Coordinator.completeInputs n.coordinator.ledger n.chain n.store parentDelta
          (RoundInputs.plain n.coordinator.config n.parent active epoch context) = .ok inputs ∧
        round = Round.ofInputs inputs builder := by
  constructor
  · intro h
    obtain ⟨epoch, parentDelta, active, inputs, hread, hactive, hcomplete, rfl⟩ :=
      Coordinator.createRound_ok_iff.1 (Prod.ext h rfl)
    obtain ⟨hhistory, _⟩ := (Coordinator.activeSet_ok_iff hremembers).1 hactive
    exact ⟨epoch, parentDelta, active, inputs, hread, hhistory, hcomplete, rfl⟩
  · rintro ⟨epoch, parentDelta, active, inputs, hread, hhistory, hcomplete, rfl⟩
    have hactive := (Coordinator.activeSet_ok_iff hremembers).2 ⟨hhistory, rfl⟩
    exact congrArg Prod.fst (Coordinator.createRound_ok_iff.2
      ⟨epoch, parentDelta, active, inputs, hread, hactive, hcomplete, rfl⟩)

theorem round_inputs {round : Round β} (hremembers : n.coordinator.Remembers n.chain)
    (h : n.round builder context = .ok round) :
    round.inputs.config = n.coordinator.config ∧ round.inputs.parent = n.parent ∧
      n.chain.validatorsAt n.parent.number = .ok round.inputs.validators := by
  obtain ⟨epoch, parentDelta, active, inputs, _, hactive, hcomplete, rfl⟩ :=
    (round_ok_iff hremembers).1 h
  have hextends := Coordinator.completeInputs_extends hcomplete
  have hvalidators : inputs.validators = active := hextends.validators
  refine ⟨hextends.config, hextends.parent, ?_⟩
  rw [hactive, ← hvalidators]
  rfl

theorem readParent_eq {config : Config} {parent parent' : Header} (h : parent.SameUpToSeal parent') :
    Coordinator.readParent config parent' = Coordinator.readParent config parent := by
  obtain ⟨⟨parentSeal, committed, delta, checkpoint⟩, ⟨_, _, _, _⟩, he, he', hsame⟩ := h.extension
  simp only [Extension.mk.injEq] at hsame
  obtain ⟨rfl, _, rfl, rfl⟩ := hsame
  simp only [Coordinator.readParent, he, he', h.number_eq]
  rfl

theorem AgreesWith.counts_iff (h : n.AgreesWith n') {number : UInt64} :
    n'.Counts number ↔ n.Counts number := by
  simp only [Counts, Uptime.Counts, Uptime.firstHeight, h.config, h.parent.number_eq]

theorem AgreesWith.validatorsAt_eq (h : n.AgreesWith n') :
    n'.chain.validatorsAt n'.parent.number = n.chain.validatorsAt n.parent.number := by
  rw [h.history, h.parent.number_eq]

/-- The other node can count the seals, too. -/
theorem AgreesWith.ofEpoch_exists (h : n.AgreesWith n') {active : ValidatorSet}
    (hactive : n.chain.validatorsAt n.parent.number = .ok active) :
    ∃ uptime, Uptime.ofEpoch n'.chain n'.coordinator.config.epochSize n'.parent active =
      .ok uptime := by
  refine Uptime.ofEpoch_exists fun number hnumber => ?_
  obtain ⟨header, header', _, hheader', hsame⟩ := h.headers number (h.counts_iff.1 hnumber)
  obtain ⟨_, extension, _, hextension, _⟩ := hsame.extension
  have hactive' := h.validatorsAt_eq.trans hactive
  have hsealed := h.quorums' active number header' hactive' hnumber hheader'
  obtain ⟨sealers, hsealers⟩ := hsealed.sealersOf_exists hextension
  exact ⟨header', sealers, hheader', hsealers⟩

theorem AgreesWith.endingEpoch_exists (h : n.AgreesWith n') (context' : RoundContext)
    {active : ValidatorSet} {epoch : UInt64} {inputs : RoundInputs}
    (hactive : n.chain.validatorsAt n.parent.number = .ok active)
    (hending : (RoundInputs.plain n.coordinator.config n.parent active epoch context).endingEpoch
      n.coordinator.ledger n.chain n.store = .ok inputs) :
    ∃ inputs', (RoundInputs.plain n'.coordinator.config n'.parent active epoch context').endingEpoch
      n'.coordinator.ledger n'.chain n'.store = .ok inputs' ∧ inputs.SameEnding inputs' := by
  obtain ⟨_, fundAmount, delta, _, hfund, hdelta, rfl⟩ := RoundInputs.endingEpoch_ok_iff.1 hending
  obtain ⟨uptime', huptime'⟩ := h.ofEpoch_exists hactive
  have hfund' : RewardWallet.shortfall n'.chain n'.coordinator.config.rewardWalletTarget n'.parent =
      .ok fundAmount := by
    rw [RewardWallet.shortfall, h.balance, h.config]
    exact hfund
  have hdelta' : n'.coordinator.ledger.computeDelta n'.chain n'.store epoch active = .ok delta := by
    rw [h.ledger, h.store, Ledger.computeDelta_congr h.keys]
    exact hdelta
  refine ⟨_, RoundInputs.endingEpoch_ok_iff.2
    ⟨uptime', fundAmount, delta, huptime', hfund', hdelta', rfl⟩, h.config, ?_, rfl, rfl, rfl⟩
  exact congrArg (· + 1) h.parent.number_eq.symm

/-- If one of two nodes can prepare the round that ends an epoch, then so can the other, and each
counts the seals that it stored itself. -/
theorem AgreesWith.round_exists (h : n.AgreesWith n') (builder' : Option γ) (context' : RoundContext)
    {round : Round β} (hround : n.round builder context = .ok round)
    (hends : round.inputs.endsEpoch = true) :
    ∃ round', n'.round builder' context' = .ok round' ∧ round.inputs.SameEnding round'.inputs ∧
      round.inputs.CountsSeals n.chain ∧ round'.inputs.CountsSeals n'.chain ∧
      round'.inputs.config = n.coordinator.config := by
  obtain ⟨epoch, parentDelta, active, inputs, hread, hactive, hcomplete, rfl⟩ :=
    (round_ok_iff h.remembers).1 hround
  have hending := (Coordinator.completeInputs_ending_iff hends).1 hcomplete
  obtain ⟨inputs', hending', hsame⟩ := h.endingEpoch_exists context' hactive hending
  have hends' : inputs'.endsEpoch = true := by
    rw [← hends, RoundInputs.endsEpoch, RoundInputs.endsEpoch, hsame.config, hsame.height]
  have hread' : Coordinator.readParent n'.coordinator.config n'.parent = .ok (epoch, parentDelta) := by
    rw [h.config, readParent_eq h.parent]
    exact hread
  have hactive' := h.validatorsAt_eq.trans hactive
  have hcomplete' : Coordinator.completeInputs n'.coordinator.ledger n'.chain n'.store parentDelta
      (RoundInputs.plain n'.coordinator.config n'.parent active epoch context') = .ok inputs' :=
    (Coordinator.completeInputs_ending_iff hends').2 hending'
  have hconfig : inputs'.config = n.coordinator.config :=
    hsame.config.trans (Coordinator.completeInputs_extends hcomplete).config
  exact ⟨Round.ofInputs inputs' builder', (round_ok_iff h.remembers').2
    ⟨epoch, parentDelta, active, inputs', hread', hactive', hcomplete', rfl⟩, hsame,
    RoundInputs.countsSeals_of_endingEpoch hending hends rfl,
    RoundInputs.countsSeals_of_endingEpoch hending' hends' rfl, hconfig⟩

/-- Two nodes that agree on all but the seals that they stored carry the same calls at the end of an
epoch exactly if the seals of the epoch select every member equally often. If so, and if the bridge's
receiver is none of the contracts that are called, each lets the calls of the other through. No set in
memory has 2 ^ 64 members. -/
theorem endingCalls_agree (h : n.AgreesWith n') (builder' : Option γ) (context' : RoundContext)
    {round : Round β} (hround : n.round builder context = .ok round)
    (hends : round.inputs.endsEpoch = true) :
    ∃ round', n'.round builder' context' = .ok round' ∧
      ((round'.inputs.epochCommit = round.inputs.epochCommit ∧
          round'.inputs.rewards = round.inputs.rewards) ↔
        RoundInputs.SealedAlike round.inputs round'.inputs n.chain n'.chain) ∧
      (RoundInputs.SealedAlike round.inputs round'.inputs n.chain n'.chain →
        n.coordinator.config.BridgeApart → round.inputs.validators.size < 2 ^ 64 →
        ∃ calls, round.inputs.callTransactions = .ok calls ∧
          ∀ rest, (∀ t ∈ rest, round'.inputs.Passive n'.chain t) →
            round'.inputs.checkTransactions n'.chain (calls ++ rest) = .ok ()) := by
  obtain ⟨round', hround', hsame, hcounts, hcounts', hconfig⟩ :=
    h.round_exists builder' context' hround hends
  refine ⟨round', hround', RoundInputs.endingCalls_eq_iff hsame hcounts hcounts', ?_⟩
  intro halike hapart hsize
  rw [← hconfig] at hapart
  exact RoundInputs.checkTransactions_endingCalls hsame hcounts hcounts' halike hapart hsize

/-- Four validators of equal power, so that any three of them are a quorum. -/
def fourSet : ValidatorSet :=
  ⟨([1, 2, 3, 4] : List UInt64).map fun a => Validator.ofStake (Address.ofLow a) none 1⟩

/-- All but the last of the four validators. -/
def lowSigners : Bitmap := ⟨[0b0111]⟩

/-- All but the first of the four validators. -/
def highSigners : Bitmap := ⟨[0b1110]⟩

/-- The extension of a block of the first epoch with a seal of its own. -/
def sealedExtension (signers : Bitmap) : Extension :=
  ⟨none, some ⟨[], signers⟩, none, some ⟨0, 1, Digest.zero, Digest.zero, Digest.zero⟩⟩

def sealedHeader (number : UInt64) (signers : Bitmap) : Header :=
  { { Simulation.emptyHeader with number } with
    extraData := (sealedExtension signers).encode }.withDigest

/-- A node before the last of the three blocks of an epoch. -/
def ofSeals (first second : Bitmap) : Node :=
  let config := { Config.default with epochSize := 3 }
  let world := (Simulation.World.ofGenesis Simulation.emptyHeader fourSet).store
    (sealedHeader 1 first) []
  { coordinator := ⟨config, Ledger.ofConfig config, none⟩
    chain := (world.store (sealedHeader 2 second) []).chain
    store := Store.put (Ledger.genesisSnapshot fourSet)
    parent := sealedHeader 2 second }

/-- A seal that the four validators can make. -/
def Quorate (signers : Bitmap) : Prop :=
  signers.bytes.length = 1 ∧
    ∃ selected, fourSet.select signers = .ok selected ∧ fourSet.hasQuorum selected.addresses

theorem quorate_lowSigners : Quorate lowSigners := ⟨rfl, _, rfl, by decide⟩

theorem quorate_highSigners : Quorate highSigners := ⟨rfl, _, rfl, by decide⟩

theorem Quorate.length_encode {signers : Bitmap} (h : Quorate signers) :
    (sealedExtension signers).encode.length < 2 ^ 64 := by
  obtain ⟨hlength, _⟩ := h
  simp [Extension.length_encode, Extension.vanityLength, sealedExtension, hlength]

theorem decode_sealedHeader (number : UInt64) {signers : Bitmap} (h : Quorate signers) :
    Extension.decode (sealedHeader number signers).extraData = .ok (sealedExtension signers) :=
  Extension.decode_encode _ h.length_encode

theorem sealedBy_sealedHeader (number : UInt64) {signers : Bitmap} (h : Quorate signers) :
    (sealedHeader number signers).SealedBy fourSet := by
  intro e committed he hcommitted
  cases (decode_sealedHeader number h).symm.trans he
  cases hcommitted
  exact h.2

theorem sameUpToSeal_sealedHeader (number : UInt64) {signers signers' : Bitmap}
    (h : Quorate signers) (h' : Quorate signers') :
    (sealedHeader number signers).SameUpToSeal (sealedHeader number signers') :=
  Header.sameUpToSeal_withDigest { Simulation.emptyHeader with number } rfl h.length_encode
    h'.length_encode

variable {first second first' second' : Bitmap}

theorem firstHeight_sealedHeader (signers : Bitmap) :
    Uptime.firstHeight 3 (sealedHeader 2 signers) = 1 := by
  change max 1 (epochStart 3 3) = 1
  decide

theorem counts_ofSeals_iff {number : UInt64} :
    (ofSeals first second).Counts number ↔ number = 1 ∨ number = 2 := by
  change Uptime.firstHeight 3 (sealedHeader 2 second) ≤ number ∧ number ≤ 2 ↔ _
  rw [firstHeight_sealedHeader, UInt64.le_iff_toNat_le, UInt64.le_iff_toNat_le, ← UInt64.toNat_inj,
    ← UInt64.toNat_inj]
  change 1 ≤ number.toNat ∧ number.toNat ≤ 2 ↔ number.toNat = 1 ∨ number.toNat = 2
  omega

theorem sealed_ofSeals (hfirst : Quorate first) (hsecond : Quorate second) :
    (ofSeals first second).Sealed := by
  intro active number header hactive hnumber hheader
  cases hactive
  rcases counts_ofSeals_iff.1 hnumber with rfl | rfl
  · cases hheader
    exact sealedBy_sealedHeader 1 hfirst
  · cases hheader
    exact sealedBy_sealedHeader 2 hsecond

theorem agreesWith_ofSeals (hfirst : Quorate first) (hsecond : Quorate second)
    (hfirst' : Quorate first') (hsecond' : Quorate second') :
    (ofSeals first second).AgreesWith (ofSeals first' second') where
  config := rfl
  ledger := rfl
  store := rfl
  history := rfl
  remembers := by
    intro number active hcached
    cases hcached
  remembers' := by
    intro number active hcached
    cases hcached
  keys := rfl
  balance := rfl
  parent := sameUpToSeal_sealedHeader 2 hsecond hsecond'
  headers := by
    intro number hnumber
    rcases counts_ofSeals_iff.1 hnumber with rfl | rfl
    · exact ⟨_, _, rfl, rfl, sameUpToSeal_sealedHeader 1 hfirst hfirst'⟩
    · exact ⟨_, _, rfl, rfl, sameUpToSeal_sealedHeader 2 hsecond hsecond'⟩
  quorums := sealed_ofSeals hfirst hsecond
  quorums' := sealed_ofSeals hfirst' hsecond'

theorem readParent_sealedHeader (hsecond : Quorate second) :
    Coordinator.readParent (ofSeals first second).coordinator.config (sealedHeader 2 second) =
      .ok (1, none) := by
  have hextension := decode_sealedHeader 2 hsecond
  have hepoch : (ofSeals first second).coordinator.config.epochAt 1 (2 + 1) = 1 := rfl
  refine bind_ok_iff.2 ⟨sealedExtension second, mapError_ok_iff.2 hextension, ?_⟩
  change Except.ok ((ofSeals first second).coordinator.config.epochAt 1 (2 + 1), none) = _
  rw [hepoch]

/-- The stakes are those of the genesis set, so nothing is to change. -/
theorem computeDelta_ofSeals : (ofSeals first second).coordinator.ledger.computeDelta
    (ofSeals first second).chain (ofSeals first second).store 1 fourSet = .ok ⟨[], [], ⟨[]⟩⟩ := by
  have hsnapshot : Ledger.snapshot? (ofSeals first second).store =
      .ok (some (Ledger.genesisSnapshot fourSet)) := rfl
  have hsize : (ofSeals first second).coordinator.ledger.maxSetSize = 100 := rfl
  have hstrongest : (Ledger.genesisSnapshot fourSet).stakes.strongest 100 = fourSet := by
    decide
  have hmembers : Ledger.sortMembers (ofSeals first second).chain fourSet fourSet.members =
      .ok ([], []) := rfl
  have hremoved : Ledger.removedBits fourSet.members fourSet.addresses = ⟨[]⟩ := by
    decide
  refine bind_ok_iff.2 ⟨_, hsnapshot, ?_⟩
  dsimp only
  rw [hsize, hstrongest, hmembers, hremoved]
  rfl

theorem round_ofSeals (hfirst : Quorate first) (hsecond : Quorate second) (builder : Option β)
    (context : RoundContext) :
    ∃ round, (ofSeals first second).round builder context = .ok round ∧
      round.inputs.endsEpoch = true := by
  have hself := agreesWith_ofSeals hfirst hsecond hfirst hsecond
  have hactive : (ofSeals first second).chain.validatorsAt 2 = .ok fourSet := rfl
  obtain ⟨uptime, huptime⟩ := hself.ofEpoch_exists hactive
  obtain ⟨fundAmount, hfund⟩ : ∃ fundAmount, RewardWallet.shortfall (ofSeals first second).chain
      (ofSeals first second).coordinator.config.rewardWalletTarget (ofSeals first second).parent =
        .ok fundAmount := ⟨_, rfl⟩
  obtain ⟨inputs, hending⟩ : ∃ inputs, (RoundInputs.plain (ofSeals first second).coordinator.config
      (ofSeals first second).parent fourSet 1 context).endingEpoch
        (ofSeals first second).coordinator.ledger (ofSeals first second).chain
        (ofSeals first second).store = .ok inputs :=
    ⟨_, RoundInputs.endingEpoch_ok_iff.2
      ⟨uptime, fundAmount, _, huptime, hfund, computeDelta_ofSeals, rfl⟩⟩
  have hends : inputs.endsEpoch = true := by
    have hlast : { Config.default with epochSize := 3 }.endsEpoch 3 = true := rfl
    obtain ⟨_, _, _, _, _, _, rfl⟩ := RoundInputs.endingEpoch_ok_iff.1 hending
    exact hlast
  exact ⟨Round.ofInputs inputs builder, (round_ok_iff hself.remembers).2
    ⟨1, none, fourSet, inputs, readParent_sealedHeader hsecond, rfl,
      (Coordinator.completeInputs_ending_iff hends).2 hending, rfl⟩, hends⟩

def chosen (signers : Bitmap) (a : Address) : Nat :=
  signers.indices.countP fun i => fourSet.members[i]?.any fun v => v.address = a

theorem selections_sealedHeader (number : UInt64) {signers : Bitmap} (h : Quorate signers)
    (a : Address) : Uptime.selections fourSet (sealedHeader number signers) a = chosen signers a := by
  simp only [Uptime.selections, decode_sealedHeader number h]
  rfl

theorem timesSealed_ofSeals (hfirst : Quorate first) (hsecond : Quorate second) (a : Address) :
    Uptime.timesSealed (ofSeals first second).chain 3 (ofSeals first second).parent fourSet a =
      UInt64.ofNat (chosen first a + chosen second a) := by
  have hstart : Uptime.firstHeight 3 (ofSeals first second).parent = 1 :=
    firstHeight_sealedHeader second
  have hcount : (ofSeals first second).parent.number.toNat + 1 - (1 : UInt64).toNat = 2 := rfl
  have hfirstHeader : Uptime.headerAt (ofSeals first second).chain (ofSeals first second).parent 1 =
    .ok (sealedHeader 1 first) := rfl
  have hsecondHeader : Uptime.headerAt (ofSeals first second).chain (ofSeals first second).parent
    (1 + 1) = .ok (sealedHeader 2 second) := rfl
  simp only [Uptime.timesSealed, hstart, hcount, Uptime.selectionsFrom, hfirstHeader, hsecondHeader,
    selections_sealedHeader 1 hfirst, selections_sealedHeader 2 hsecond, Nat.add_zero]

theorem sealedAlike_ofSeals_iff {round round' : Round β} (hfirst : Quorate first)
    (hsecond : Quorate second) (hfirst' : Quorate first') (hsecond' : Quorate second')
    (hround : (ofSeals first second).round builder context = .ok round)
    (hround' : (ofSeals first' second').round builder context = .ok round') :
    RoundInputs.SealedAlike round.inputs round'.inputs (ofSeals first second).chain
        (ofSeals first' second').chain ↔
      ∀ a ∈ fourSet.addresses, UInt64.ofNat (chosen first' a + chosen second' a) =
        UInt64.ofNat (chosen first a + chosen second a) := by
  have hagree := agreesWith_ofSeals hfirst hsecond hfirst' hsecond'
  obtain ⟨hconfig, hparent, hactive⟩ := round_inputs hagree.remembers hround
  obtain ⟨hconfig', hparent', hactive'⟩ := round_inputs hagree.remembers' hround'
  have hset : round.inputs.validators = fourSet := (Except.ok.inj hactive).symm
  have hset' : round'.inputs.validators = fourSet := (Except.ok.inj hactive').symm
  rw [RoundInputs.SealedAlike, hconfig, hparent, hset, hconfig', hparent', hset']
  simp only [← timesSealed_ofSeals hfirst hsecond, ← timesSealed_ofSeals hfirst' hsecond']
  rfl

/-- Two nodes that store the same two seals under different blocks carry the same calls. -/
theorem endingCalls_agree_swapped :
    ∃ round round' : Round Simulation.Builder,
      (ofSeals lowSigners highSigners).round none ⟨Digest.zero, none⟩ = .ok round ∧
      (ofSeals highSigners lowSigners).round none ⟨Digest.zero, none⟩ = .ok round' ∧
      round'.inputs.epochCommit = round.inputs.epochCommit ∧
      round'.inputs.rewards = round.inputs.rewards ∧
      ∃ calls, round.inputs.callTransactions = .ok calls ∧
        round'.inputs.checkTransactions (ofSeals highSigners lowSigners).chain calls = .ok () := by
  have hagree := agreesWith_ofSeals quorate_lowSigners quorate_highSigners quorate_highSigners
    quorate_lowSigners
  obtain ⟨round, hround, hends⟩ := round_ofSeals quorate_lowSigners quorate_highSigners
    (none : Option Simulation.Builder) ⟨Digest.zero, none⟩
  have hset : round.inputs.validators = fourSet :=
    (Except.ok.inj (round_inputs hagree.remembers hround).2.2).symm
  have hapart : (ofSeals lowSigners highSigners).coordinator.config.BridgeApart := by
    intro receiver hreceiver
    cases hreceiver
  have hsize : round.inputs.validators.size < 2 ^ 64 := by
    rw [hset]
    decide
  obtain ⟨round', hround', hsame, haccept⟩ := endingCalls_agree hagree
    (none : Option Simulation.Builder) ⟨Digest.zero, none⟩ hround hends
  have halike := (sealedAlike_ofSeals_iff quorate_lowSigners quorate_highSigners
    quorate_highSigners quorate_lowSigners hround hround').2 (by decide)
  obtain ⟨calls, hcalls, hcheck⟩ := haccept halike hapart hsize
  have hown := hcheck [] (by simp)
  rw [List.append_nil] at hown
  exact ⟨round, round', hround, hround', (hsame.2 halike).1, (hsame.2 halike).2, calls, hcalls, hown⟩

/-- Two nodes that store different seals of one block carry different calls, although they agree on
everything else. -/
theorem not_endingCalls_agree :
    (ofSeals lowSigners lowSigners).AgreesWith (ofSeals lowSigners highSigners) ∧
    ∃ round round' : Round Simulation.Builder,
      (ofSeals lowSigners lowSigners).round none ⟨Digest.zero, none⟩ = .ok round ∧
      (ofSeals lowSigners highSigners).round none ⟨Digest.zero, none⟩ = .ok round' ∧
      round.inputs.endsEpoch = true ∧
      ¬ (round'.inputs.epochCommit = round.inputs.epochCommit ∧
        round'.inputs.rewards = round.inputs.rewards) := by
  have hagree := agreesWith_ofSeals quorate_lowSigners quorate_lowSigners quorate_lowSigners
    quorate_highSigners
  obtain ⟨round, hround, hends⟩ := round_ofSeals quorate_lowSigners quorate_lowSigners
    (none : Option Simulation.Builder) ⟨Digest.zero, none⟩
  obtain ⟨round', hround', hsame, hcounts, hcounts', _⟩ :=
    hagree.round_exists (none : Option Simulation.Builder) ⟨Digest.zero, none⟩ hround hends
  refine ⟨hagree, round, round', hround, hround', hends, fun hcalls => ?_⟩
  have halike := (RoundInputs.endingCalls_eq_iff hsame hcounts hcounts').1 hcalls
  have hcounts := (sealedAlike_ofSeals_iff quorate_lowSigners quorate_lowSigners
    quorate_lowSigners quorate_highSigners hround hround').1 halike
  exact absurd hcounts (by decide)

end Node

end EpochSeal
