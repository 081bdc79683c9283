import EpochSeal.Proofs.OwnTransactions
import EpochSeal.Proofs.Preparation
import EpochSeal.Proofs.RecordForm
import EpochSeal.Round.Proposal
import EpochSeal.Round.Validation
import EpochSeal.Simulation.Builder

/-! A node accepts what another node proposes that does what it is told: the rules that a block is
validated by ask for nothing but what building puts into it. -/
namespace EpochSeal
open Outcome

namespace Simulation.Builder

theorem run_attempt {β α : Type} [BlockBuilder β] (context : String)
    (step : β → Except String α × β) {b b' : β} {a : α} (h : step b = (.ok a, b')) :
    (Building.attempt context step).run b = (.ok a, b') := by
  rw [Building.attempt, ExceptT.run_mk, h]

theorem run_writes (transactions : List Transaction) (b : Builder) (hfaults : b.faults = []) :
    (transactions.forM fun t =>
      Building.attempt "failed to apply state transaction" (BlockBuilder.write t)).run b =
        (.ok (), { b with transactions := b.transactions ++ transactions }) := by
  induction transactions generalizing b with
  | nil =>
      rw [List.append_nil]
      rfl
  | cons t rest ih =>
      have hwrite : BlockBuilder.write t b = (.ok (), { b with transactions := b.transactions ++ [t] }) := by
        simp [BlockBuilder.write, Fault.guard, hfaults]
      have hrest := ih { b with transactions := b.transactions ++ [t] } hfaults
      rw [List.append_assoc, List.singleton_append] at hrest
      exact (run_bind_ok (run_attempt _ _ hwrite)).trans hrest

/-- The header that a plain builder makes for a block, with its digest. -/
def header (parent : Header) (transactions : List Transaction) (extraData : Bytes) : Header :=
  Header.withDigest
    { (plain parent []).draft transactions with extraData, mixDigest := Header.consensusMix }

theorem mapExtension_id {h : Header} {e : Extension} (hextra : h.extraData = e.encode)
    (hlen : e.encode.length < 2 ^ 64) : mapExtension id h = h := by
  unfold mapExtension
  rw [hextra, Extension.decode_encode e hlen]
  simp [← hextra]

theorem finish_plain (parent : Header) (transactions : List Transaction) (e : Extension)
    (hlen : e.encode.length < 2 ^ 64) :
    finish { plain parent [] with transactions }
      (fun h => { h with extraData := e.encode, mixDigest := Header.consensusMix }) =
        ⟨⟨header parent transactions e.encode, transactions⟩, []⟩ := by
  have hmap := mapExtension_id (h := { (plain parent []).draft transactions with
    extraData := e.encode, mixDigest := Header.consensusMix }) rfl hlen
  exact congrArg (fun h : Header => (⟨⟨h.withDigest, transactions⟩, []⟩ : ExecutedBlock)) hmap

/-- A plain builder puts the state transactions first and what is pending behind them. -/
theorem run_assemble (parent : Header) (pending transactions : List Transaction) (e : Extension)
    (hlen : e.encode.length < 2 ^ 64) :
    ∃ b, (Building.assemble transactions e.encode).run (plain parent pending) =
      (.ok ⟨⟨header parent (transactions ++ pending) e.encode, transactions ++ pending⟩, []⟩, b) := by
  refine ⟨{ plain parent [] with transactions := transactions ++ pending }, ?_⟩
  have hreset : (Building.attempt "failed to reset block builder" BlockBuilder.reset).run
      (plain parent pending) = (.ok (), plain parent pending) := rfl
  have hwrites := run_writes transactions (plain parent pending) rfl
  have hbuild : BlockBuilder.build
      (fun h => { h with extraData := e.encode, mixDigest := Header.consensusMix })
      { plain parent [] with transactions := transactions ++ pending } =
        (.ok ⟨⟨header parent (transactions ++ pending) e.encode, transactions ++ pending⟩, []⟩,
          { plain parent [] with transactions := transactions ++ pending }) := by
    rw [← finish_plain parent (transactions ++ pending) e hlen]
    rfl
  exact (run_bind_ok hreset).trans <| (run_bind_ok hwrites).trans <| run_attempt _ _ hbuild

end Simulation.Builder

theorem Header.checkAgainst_ok_iff {h parent : Header} {drift now : UInt64} :
    h.checkAgainst parent drift now = .ok () ↔
      Extension.vanityLength ≤ h.extraData.length ∧ h.parentDigest = parent.digest ∧
      h.number = parent.number + 1 ∧ h.timestamp ≤ saturatingAdd now drift ∧
      h.nonce = FixedBytes.zero 8 ∧ h.gasUsed ≤ h.gasLimit ∧ parent.timestamp ≤ h.timestamp ∧
      h.mixDigest = consensusMix ∧ h.difficulty ≠ 0 ∧ h.digest = h.computeDigest := by
  simp only [checkAgainst, ite_error_ok_iff, and_true, Nat.not_lt, UInt64.not_lt, ne_eq, not_not]

theorem Simulation.Builder.checkAgainst_header {parent : Header} {drift now : UInt64}
    (transactions : List Transaction) (e : Extension)
    (hclock : parent.timestamp.toNat + 1 ≤ (saturatingAdd now drift).toNat) :
    (header parent transactions e.encode).checkAgainst parent drift now = .ok () := by
  have hlimit := (saturatingAdd now drift).toNat_lt
  have htime := toNat_succ (Nat.lt_of_le_of_lt hclock hlimit)
  have hlong : Extension.vanityLength ≤ e.encode.length := by
    rw [Extension.length_encode]
    omega
  have hreached : parent.timestamp + 1 ≤ saturatingAdd now drift := by
    rw [UInt64.le_iff_toNat_le, htime]
    exact hclock
  have hlater : parent.timestamp ≤ parent.timestamp + 1 := by
    rw [UInt64.le_iff_toNat_le, htime]
    omega
  have hgas : 0 ≤ parent.gasLimit := by
    rw [UInt64.le_iff_toNat_le]
    exact Nat.zero_le _
  have hdifficulty : (1 : UInt64) ≠ 0 := by decide
  exact Header.checkAgainst_ok_iff.2
    ⟨hlong, rfl, rfl, hreached, rfl, hgas, hlater, rfl, hdifficulty, rfl⟩

namespace RoundInputs

/-- The extension of a proposal, in the given round of its height. -/
def proposed (r : RoundInputs) (round : UInt64) (parentExtension : Extension)
    (delta : Option SetDelta) (next : ValidatorSet) : Extension :=
  { parentSeal := parentExtension.committedSeal
    committedSeal := none
    delta
    checkpoint := some
      { round
        epoch := r.epoch
        currentSet := r.validators.digest
        nextSet := next.digest
        eventRoot := r.eventRoot } }

/-- What is put into a proposal comes from the parent's extension and the inputs. -/
theorem proposalParts_ok_iff {r : RoundInputs} {round : UInt64} {transactions : List Transaction}
    {extraData : Bytes} : r.proposalParts round = .ok (transactions, extraData) ↔
      ∃ parentExtension delta next, Extension.decode r.parent.extraData = .ok parentExtension ∧
        r.stateTransactions = .ok transactions ∧ r.nextSet = .ok (delta, next) ∧
        extraData = (r.proposed round parentExtension delta next).encode := by
  simp only [proposalParts, extension, bind_ok_iff, mapError_ok_iff, pure_ok_iff]
  constructor
  · rintro ⟨parentExtension, hparent, _, htransactions, _, ⟨⟨delta, next⟩, hnext, rfl⟩, h⟩
    cases h
    exact ⟨parentExtension, delta, next, hparent, htransactions, hnext, rfl⟩
  · rintro ⟨parentExtension, delta, next, hparent, htransactions, hnext, rfl⟩
    exact ⟨parentExtension, hparent, transactions, htransactions, _, ⟨(delta, next), hnext, rfl⟩, rfl⟩

/-- The change that a proposal announces is the one that the validation looks for. -/
theorem checkDelta_nextSet {r : RoundInputs} {delta : Option SetDelta} {next : ValidatorSet}
    (h : r.nextSet = .ok (delta, next)) : r.checkDelta delta = .ok next := by
  unfold nextSet at h
  unfold checkDelta
  split at h
  · next hends =>
      rw [hends]
      split at h
      · cases h
      · next change hchange =>
          split at h
          · next applied happlied =>
              cases h
              have hsame : change.same change = true := by simp [SetDelta.same, Bitmap.sameBits]
              simp only [hchange, hsame, if_true, happlied]
              rfl
          · cases h
  · next hends =>
      cases h
      simp [hends]

/-- The set of the round, its parent, the commitment at hand and the clock are as they have to be
for a proposal to hold. -/
structure Favorable (r : RoundInputs) (chain : Chain) (now : UInt64) : Prop where
  /-- The parent announces the set of the round. -/
  announced : ∀ extension checkpoint, Extension.decode r.parent.extraData = .ok extension →
    extension.checkpoint = some checkpoint → checkpoint.nextSet = r.validators.digest
  /-- Above height one, the parent carries a seal over its checkpoint of the set before it. -/
  parentSealed : 1 < r.height → ∀ extension checkpoint,
    Extension.decode r.parent.extraData = .ok extension → extension.checkpoint = some checkpoint →
    ∃ sealers committed, chain.validatorsAt (r.parent.number - 1) = .ok sealers ∧
      extension.committedSeal = some committed ∧
      committed.verify (checkpoint.digest r.config.chainId r.parent.number r.parent.digest) sealers
        checkpointDomain = .ok ()
  /-- A commitment continues the committed range and verifies, if the bridge takes part. -/
  commitment : ∀ receiver commitment, r.config.bridgeReceiver? = some receiver →
    r.commitment = some commitment →
    ∃ state, chain.systemState r.parent = .ok state ∧
      state.nextCommittedIndex = .ok commitment.message.startId ∧
      Seal.verify ⟨commitment.signature, commitment.signers⟩ commitment.message.digest r.validators
        bridgeDomain = .ok ()
  bridgeApart : r.config.BridgeApart
  clock : r.parent.timestamp.toNat + 1 ≤ (saturatingAdd now r.config.blockTimeDrift).toNat

theorem passive_commitmentTransaction {r : RoundInputs} {chain : Chain} {now : UInt64}
    (h : r.Favorable chain now) {t : Transaction} (ht : r.commitmentTransaction? = some t)
    (hreadable : t.input.length < 2 ^ 256) : r.Passive chain t := by
  simp only [commitmentTransaction?, Option.bind_eq_bind, Option.bind_eq_some_iff, Option.pure_def,
    Option.some.injEq] at ht
  obtain ⟨receiver, hreceiver, commitment, hcommitment, rfl⟩ := ht
  obtain ⟨state, hstate, hnext, hverify⟩ := h.commitment receiver commitment hreceiver hcommitment
  refine fun _ => ⟨?_, ?_⟩
  · simp [isCommitment, hreceiver, Transaction.ofSystem, Transaction.withDigest]
  · have hdecode : SignedCommitment.decode (Transaction.ofSystem r.height receiver commitment.encode
        0).input = .ok commitment := commitment.decode_encode hreadable
    simp only [checkCommitment, bind_ok_iff, mapError_ok_iff]
    exact ⟨commitment, hdecode, state, hstate, commitment.message.startId, hnext, by simp [hverify]⟩

theorem checkTransactions_stateTransactions {r : RoundInputs} {chain : Chain} {now : UInt64}
    {transactions pending : List Transaction} (h : r.Favorable chain now)
    (htransactions : r.stateTransactions = .ok transactions) (hreadable : Readable transactions)
    (hsync : r.endsEpoch → r.powerSync = none) (hlegacy : ∀ t ∈ pending, t.kind = .legacy) :
    r.checkTransactions chain (transactions ++ pending) = .ok () := by
  simp only [stateTransactions, bind_ok_iff, pure_ok_iff] at htransactions
  obtain ⟨calls, hcalls, rfl⟩ := htransactions
  simp only [Readable, List.forall_mem_append] at hreadable
  rw [List.append_assoc]
  refine checkTransactions_callTransactions hcalls h.bridgeApart hreadable.1 hsync fun t ht => ?_
  rcases List.mem_append.1 ht with ht | ht
  · exact passive_commitmentTransaction h (Option.mem_toList.1 ht) (hreadable.2 t ht)
  · intro hstate
    simp [Transaction.isState, hlegacy t ht] at hstate

theorem checkParentSeal_proposed {r : RoundInputs} {chain : Chain} {now : UInt64}
    (h : r.Favorable chain now) (round : UInt64) {parentExtension : Extension} {checkpoint : Checkpoint}
    (hparent : Extension.decode r.parent.extraData = .ok parentExtension)
    (hcheckpoint : parentExtension.checkpoint = some checkpoint) (delta : Option SetDelta)
    (next : ValidatorSet) :
    r.checkParentSeal chain r.height (r.proposed round parentExtension delta next) parentExtension =
      .ok () := by
  unfold checkParentSeal
  split
  · next hheight =>
      obtain ⟨sealers, committed, hsealers, hcommitted, hverify⟩ :=
        h.parentSealed hheight parentExtension checkpoint hparent hcheckpoint
      have hlow : ¬ r.height ≤ 1 := UInt64.not_le.2 hheight
      simp only [bind_ok_iff, mapError_ok_iff]
      refine ⟨sealers, hsealers, ?_⟩
      simp [Extension.validateParentSeal, hlow, proposed, hcommitted, hcheckpoint, hverify]
  · rfl

theorem validate_checkpoint_proposed {r : RoundInputs} {chain : Chain} {now : UInt64}
    (h : r.Favorable chain now) (round : UInt64) {parentExtension : Extension} {checkpoint : Checkpoint}
    (hparent : Extension.decode r.parent.extraData = .ok parentExtension)
    (hcheckpoint : parentExtension.checkpoint = some checkpoint)
    (hepoch : r.epoch = r.config.epochAt checkpoint.epoch r.height) (next : ValidatorSet) :
    Checkpoint.validate ⟨round, r.epoch, r.validators.digest, next.digest, r.eventRoot⟩ checkpoint
      r.validators next r.eventRoot r.startsEpoch = .ok () := by
  have hannounced := h.announced parentExtension checkpoint hparent hcheckpoint
  have hafter : r.epoch = Checkpoint.epochAfter checkpoint.epoch r.startsEpoch := hepoch
  simp [Checkpoint.validate, hannounced, hafter]

theorem checkBlock_plain {r : RoundInputs} {chain : Chain} {now : UInt64}
    (h : r.Favorable chain now) (round : UInt64) {parentExtension : Extension} {checkpoint : Checkpoint}
    (hparent : Extension.decode r.parent.extraData = .ok parentExtension)
    (hcheckpoint : parentExtension.checkpoint = some checkpoint)
    (hepoch : r.epoch = r.config.epochAt checkpoint.epoch r.height) {delta : Option SetDelta}
    {next : ValidatorSet} (hnext : r.nextSet = .ok (delta, next)) {transactions : List Transaction}
    (htransactions : r.checkTransactions chain transactions = .ok ())
    (hlen : (r.proposed round parentExtension delta next).encode.length < 2 ^ 64) :
    r.checkBlock chain now ⟨Simulation.Builder.header r.parent transactions
      (r.proposed round parentExtension delta next).encode, transactions⟩ = .ok () := by
  have hheader := Simulation.Builder.checkAgainst_header transactions
    (r.proposed round parentExtension delta next) h.clock
  have hdecode := Extension.decode_encode _ hlen
  have hseal := checkParentSeal_proposed h round hparent hcheckpoint delta next
  have hvalid := validate_checkpoint_proposed h round hparent hcheckpoint hepoch next
  simp only [checkBlock, bind_ok_iff, mapError_ok_iff, exists_unit]
  refine ⟨hheader, _, hdecode, _, hparent, ?_⟩
  rw [hcheckpoint]
  exact bind_ok_iff.2 ⟨(), hseal, bind_ok_iff.2 ⟨(), htransactions, bind_ok_iff.2
    ⟨next, checkDelta_nextSet hnext, mapError_ok_iff.2 hvalid⟩⟩⟩

/-- A plain block of the round is read back, passes every check and is executed. -/
theorem accept_plain {r : RoundInputs} {chain : Chain} {now : UInt64} (h : r.Favorable chain now)
    (round : UInt64) {parentExtension : Extension} {checkpoint : Checkpoint}
    (hparent : Extension.decode r.parent.extraData = .ok parentExtension)
    (hcheckpoint : parentExtension.checkpoint = some checkpoint)
    (hepoch : r.epoch = r.config.epochAt checkpoint.epoch r.height)
    (hsync : r.endsEpoch → r.powerSync = none) {delta : Option SetDelta} {next : ValidatorSet}
    (hnext : r.nextSet = .ok (delta, next)) {transactions pending : List Transaction}
    (htransactions : r.stateTransactions = .ok transactions)
    (hlegacy : ∀ t ∈ pending, t.kind = .legacy)
    (hshort : (r.proposed round parentExtension delta next).encode.length < 2 ^ 64) {block : Block}
    (hblock : block = ⟨Simulation.Builder.header r.parent (transactions ++ pending)
      (r.proposed round parentExtension delta next).encode, transactions ++ pending⟩)
    (hbytes : block.encode.length < 2 ^ 64) {receipts : List Receipt}
    (hexecute : chain.execute r.parent block = .ok ⟨block, receipts⟩) :
    r.accept chain now block.encode = .ok ⟨block, receipts⟩ := by
  -- the block bounds the inputs of the calls in it, so that these can be read back as well
  have hreadable : Readable transactions := by
    intro t ht
    have hmem : t ∈ block.transactions := by
      rw [hblock]
      exact List.mem_append_left pending ht
    have hle := Block.length_input_le hmem
    omega
  have haccepted := checkTransactions_stateTransactions h htransactions hreadable hsync hlegacy
  have hcheck : r.checkBlock chain now block = .ok () := by
    rw [hblock]
    exact checkBlock_plain h round hparent hcheckpoint hepoch hnext haccepted hshort
  simp only [accept, bind_ok_iff, mapError_ok_iff, exists_unit]
  exact ⟨block, Block.decode_encode block hbytes, hcheck, hexecute⟩

end RoundInputs

namespace Round
open Simulation

theorem buildProposal_of_parts {β : Type} [BlockBuilder β] {r : Round β} {b b' : β} {round : UInt64}
    {transactions : List Transaction} {extraData : Bytes} {block : ExecutedBlock}
    (hphase : r.phase = .waiting) (hbuilder : r.builder = some b)
    (hparts : r.inputs.proposalParts round = .ok (transactions, extraData))
    (hrun : (Building.assemble transactions extraData).run b = (.ok block, b')) :
    r.buildProposal round = (.ok block.block.encode,
      { r with builder := some b', target := some block, phase := .proposed }) := by
  have hcheck : r.checkPhase "build proposal" [.waiting] = .ok () := by
    simp [checkPhase, hphase]
  simp [buildProposal, hcheck, hparts, hbuilder, bind, Except.bind, pure, Except.pure, hrun]

theorem buildProposal_parts_error {β : Type} [BlockBuilder β] {r : Round β} {round : UInt64}
    {e : RoundError} (hparts : r.inputs.proposalParts round = .error e) :
    ∃ e', r.buildProposal round = (.error e', r) := by
  cases hcheck : r.checkPhase "build proposal" [.waiting] with
  | error e' => exact ⟨e', by simp [buildProposal, hcheck, bind, Except.bind]⟩
  | ok _ => exact ⟨e, by simp [buildProposal, hcheck, hparts, bind, Except.bind]⟩

theorem buildProposal_plain {inputs : RoundInputs} {parent : Header} {pending : List Transaction}
    {round : UInt64} {bytes : Bytes} {built : Round Builder}
    (hbuild : (ofInputs inputs (some (Builder.plain parent pending))).buildProposal round =
      (.ok bytes, built))
    (hsize : ∀ transactions extraData, inputs.proposalParts round = .ok (transactions, extraData) →
      extraData.length < 2 ^ 64) :
    ∃ parentExtension delta next transactions block,
      Extension.decode inputs.parent.extraData = .ok parentExtension ∧
      inputs.nextSet = .ok (delta, next) ∧ inputs.stateTransactions = .ok transactions ∧
      (inputs.proposed round parentExtension delta next).encode.length < 2 ^ 64 ∧
      block = ⟨Builder.header parent (transactions ++ pending)
        (inputs.proposed round parentExtension delta next).encode, transactions ++ pending⟩ ∧
      bytes = block.encode ∧ built.target = some ⟨block, []⟩ ∧ built.phase = .proposed ∧
      built.inputs = inputs := by
  cases hparts : inputs.proposalParts round with
  | error e =>
      obtain ⟨e', herror⟩ :=
        buildProposal_parts_error (r := ofInputs inputs (some (Builder.plain parent pending))) hparts
      rw [herror] at hbuild
      cases hbuild
  | ok parts =>
      obtain ⟨transactions, extraData⟩ := parts
      have hshort := hsize transactions extraData hparts
      obtain ⟨parentExtension, delta, next, hparent, htransactions, hnext, rfl⟩ :=
        RoundInputs.proposalParts_ok_iff.1 hparts
      obtain ⟨b, hrun⟩ := Builder.run_assemble parent pending transactions _ hshort
      rw [buildProposal_of_parts rfl rfl hparts hrun, Prod.mk.injEq, Except.ok.injEq] at hbuild
      obtain ⟨hbytes, hbuilt⟩ := hbuild
      refine ⟨parentExtension, delta, next, transactions, _, hparent, hnext, htransactions, hshort, rfl,
        hbytes.symm, ?_⟩
      rw [← hbuilt]
      exact ⟨rfl, rfl, rfl⟩

/-- A plain builder builds the block of the parts that it is given. -/
theorem buildProposal_plain_ok {inputs : RoundInputs} {transactions : List Transaction}
    {round : UInt64} {e : Extension} (parent : Header) (pending : List Transaction)
    (hparts : inputs.proposalParts round = .ok (transactions, e.encode))
    (hlen : e.encode.length < 2 ^ 64) :
    (∃ built, (ofInputs inputs (some (Builder.plain parent pending))).buildProposal round =
      (.ok (Block.encode ⟨Builder.header parent (transactions ++ pending) e.encode,
        transactions ++ pending⟩), built)) ∧
    ∀ transactions' extraData, inputs.proposalParts round = .ok (transactions', extraData) →
      extraData.length < 2 ^ 64 := by
  obtain ⟨b, hrun⟩ := Builder.run_assemble parent pending transactions e hlen
  have hbuild := buildProposal_of_parts
    (r := ofInputs inputs (some (Builder.plain parent pending))) rfl rfl hparts hrun
  refine ⟨⟨_, hbuild⟩, ?_⟩
  intro transactions' extraData h
  rw [hparts, Except.ok.injEq, Prod.mk.injEq] at h
  rw [← h.2]
  exact hlen

variable {β : Type} {chain : Chain} {store : Store} {parent : Header} {context : RoundContext}
  {pending : List Transaction} {now round : UInt64} {c c₁ c' c₁' : Coordinator}

/-- Two coordinators that see one chain and one store prepare the same inputs. -/
theorem inputs_eq {γ : Type} {builder : Option γ} {builder' : Option β} {proposer : Round γ}
    {validator : Round β}
    (hproposer : (Coordinator.createRound chain store parent builder context).run c = (.ok proposer, c₁))
    (hvalidator : (Coordinator.createRound chain store parent builder' context).run c' =
      (.ok validator, c₁'))
    (hconfig : c'.config = c.config) (hledger : c'.ledger = c.ledger)
    (hremembers : c.Remembers chain) (hremembers' : c'.Remembers chain) :
    validator.inputs = proposer.inputs := by
  obtain ⟨epoch, parentDelta, active, inputs, hread, hactive, hinputs, rfl⟩ :=
    Coordinator.createRound_ok_iff.1 hproposer
  obtain ⟨epoch', parentDelta', active', inputs', hread', hactive', hinputs', rfl⟩ :=
    Coordinator.createRound_ok_iff.1 hvalidator
  rw [hconfig, hread] at hread'
  cases hread'
  obtain ⟨hhistory, _⟩ := (Coordinator.activeSet_ok_iff hremembers).1 hactive
  obtain ⟨hhistory', _⟩ := (Coordinator.activeSet_ok_iff hremembers').1 hactive'
  rw [hhistory] at hhistory'
  cases hhistory'
  rw [hconfig, hledger, hinputs] at hinputs'
  exact (Except.ok.inj hinputs').symm

theorem proposalDigest_of_target {γ : Type} {r : Round γ} {target : ExecutedBlock} {e : Extension}
    {checkpoint : Checkpoint} (htarget : r.target = some target)
    (hextension : Extension.decode target.block.header.extraData = .ok e)
    (hcheckpoint : e.checkpoint = some checkpoint) :
    r.proposalDigest = .ok (checkpoint.digest r.inputs.config.chainId target.block.header.number
      target.block.header.digest) := by
  simp only [proposalDigest, htarget, bind_ok_iff, mapError_ok_iff]
  refine ⟨e, hextension, ?_⟩
  rw [hcheckpoint]
  rfl

/-- Whatever round of its height an honest node builds a block for, another node validates it, takes
the same block for its target and will sign the same digest. Nothing in memory has a length that 64
bits cannot say. -/
theorem validate_buildProposal {proposer built : Round Builder} {validator : Round β} {bytes : Bytes}
    (hproposer : (Coordinator.createRound chain store parent (some (Builder.plain parent pending))
      context).run c = (.ok proposer, c₁))
    (hvalidator : (Coordinator.createRound chain store parent none context).run c' =
      (.ok validator, c₁'))
    (hconfig : c'.config = c.config) (hledger : c'.ledger = c.ledger)
    (hremembers : c.Remembers chain) (hremembers' : c'.Remembers chain)
    (hlegacy : ∀ t ∈ pending, t.kind = .legacy)
    (hfavorable : proposer.inputs.Favorable chain now)
    (hexecute : ∀ block, ∃ receipts, chain.execute parent block = .ok ⟨block, receipts⟩)
    (hsize : ∀ transactions extraData,
      proposer.inputs.proposalParts round = .ok (transactions, extraData) → extraData.length < 2 ^ 64)
    (hbuild : proposer.buildProposal round = (.ok bytes, built)) (hbytes : bytes.length < 2 ^ 64) :
    ∃ validated block receipts digest, validator.validate chain now bytes = .ok validated ∧
      validated.phase = .validated ∧ built.phase = .proposed ∧
      validated.target = some ⟨block, receipts⟩ ∧ built.target = some ⟨block, []⟩ ∧
      validated.proposalDigest = .ok digest ∧ built.proposalDigest = .ok digest := by
  have hinputs := inputs_eq hproposer hvalidator hconfig hledger hremembers hremembers'
  obtain ⟨epoch, parentDelta, active, inputs, hread, _, hcomplete, rfl⟩ :=
    Coordinator.createRound_ok_iff.1 hproposer
  obtain ⟨_, _, _, inputs', _, _, _, rfl⟩ := Coordinator.createRound_ok_iff.1 hvalidator
  change inputs' = inputs at hinputs
  rw [hinputs]
  change inputs.Favorable chain now at hfavorable
  have hextends := Coordinator.completeInputs_extends hcomplete
  have hparent : inputs.parent = parent := hextends.parent
  obtain ⟨parentExtension, delta, next, transactions, block, hextension, hnext, htransactions, hshort,
    hblock, hencode, htarget, hphase, hbuilt⟩ := buildProposal_plain hbuild hsize
  obtain ⟨extension, checkpoint, hextension', hcheckpoint, _, hepoch⟩ := Coordinator.readParent_ok hread
  rw [← hparent, hextension] at hextension'
  cases hextension'
  have hepoch' : inputs.epoch = inputs.config.epochAt checkpoint.epoch inputs.height := by
    rw [hextends.epoch, hextends.config, RoundInputs.height, hparent]
    exact hepoch
  rw [hencode] at hbytes ⊢
  rw [← hparent] at hblock hexecute
  obtain ⟨receipts, hreceipts⟩ := hexecute block
  have haccept := RoundInputs.accept_plain hfavorable round hextension hcheckpoint hepoch'
    (Coordinator.completeInputs_powerSync hcomplete rfl) hnext htransactions hlegacy hshort hblock
    hbytes hreceipts
  have hdecode : Extension.decode block.header.extraData =
      .ok (inputs.proposed round parentExtension delta next) := by
    rw [hblock]
    exact Extension.decode_encode _ hshort
  refine ⟨{ ofInputs inputs none with target := some ⟨block, receipts⟩, phase := .validated }, block,
    receipts, _, ?_, rfl, hphase, rfl, htarget, proposalDigest_of_target rfl hdecode rfl, ?_⟩
  · simp only [validate, bind_ok_iff, exists_unit, pure_ok_iff]
    exact ⟨rfl, _, haccept, rfl⟩
  · rw [proposalDigest_of_target htarget hdecode rfl, hbuilt]
    rfl

/-- The set of one validator, which has no key. -/
def loneSet : ValidatorSet := ⟨[Validator.ofStake Address.zero none 1]⟩

/-- What a user sends to nobody. -/
def idleTransaction : Transaction :=
  { nonce := 0
    sender := Address.zero
    recipient := none
    value := 0
    gas := 0
    gasPrice := 0
    input := []
    kind := .legacy
    digest := Digest.zero }

theorem legacy_idleTransaction : ∀ t ∈ [idleTransaction], t.kind = .legacy := by
  intro t ht
  cases List.mem_singleton.1 ht
  rfl

/-- A chain with its genesis block only. -/
def firstChain : Chain := (World.ofGenesis (genesisHeader loneSet) loneSet).chain

theorem execute_firstChain (parent : Header) (block : Block) :
    ∃ receipts, firstChain.execute parent block = .ok ⟨block, receipts⟩ :=
  ⟨_, rfl⟩

theorem decode_genesisHeader {validators : ValidatorSet} :
    Extension.decode (genesisHeader validators).extraData = .ok (genesisExtension validators) := by
  have hlength : (genesisExtension validators).encode.length = 274 :=
    Extension.length_encode_checkpoint _
  exact Extension.decode_encode _ (by omega)

theorem readParent_genesisHeader {config : Config} {epoch : UInt64} (hepoch : config.epochAt 0 1 = epoch) :
    Coordinator.readParent config (genesisHeader loneSet) = .ok (epoch, none) := by
  simp only [Coordinator.readParent, decode_genesisHeader]
  exact congrArg (fun epoch => Except.ok (epoch, none)) hepoch

/-- Nobody has sealed the genesis block, so a first block without a bridge only waits for the clock. -/
theorem favorable_onGenesis {r : RoundInputs} {chain : Chain}
    (hparent : r.parent = genesisHeader r.validators) (hbridge : r.config.bridge = none)
    (hdrift : r.config.blockTimeDrift = 10) : r.Favorable chain 1700000000 where
  announced := by
    intro extension checkpoint hextension hcheckpoint
    rw [hparent] at hextension
    cases decode_genesisHeader.symm.trans hextension
    cases hcheckpoint
    rfl
  parentSealed := by
    intro hheight
    rw [RoundInputs.height, hparent] at hheight
    change (1 : UInt64) < 1 at hheight
    exact absurd hheight (by decide)
  commitment := by
    intro receiver commitment hreceiver
    rw [Config.bridgeReceiver?, hbridge] at hreceiver
    cases hreceiver
  bridgeApart := by
    intro receiver hreceiver
    rw [Config.bridgeReceiver?, hbridge] at hreceiver
    cases hreceiver
  clock := by
    rw [hparent, hdrift]
    change 1700000000 + 1 ≤ (saturatingAdd 1700000000 10).toNat
    decide

section inner

def firstNode : Coordinator := ⟨Config.default, Ledger.ofConfig Config.default, none⟩

def firstInputs : RoundInputs :=
  RoundInputs.plain Config.default (genesisHeader loneSet) loneSet 1 ⟨Digest.zero, none⟩

def firstExtension : Extension := firstInputs.proposed 0 (genesisExtension loneSet) none loneSet

/-- The first block, as a plain builder makes it. -/
def firstBlock : Block :=
  ⟨Builder.header (genesisHeader loneSet) [idleTransaction] firstExtension.encode, [idleTransaction]⟩

theorem endsEpoch_firstInputs : firstInputs.endsEpoch = false := by decide

theorem createRound_first (builder : Option Builder) :
    (Coordinator.createRound firstChain Store.empty (genesisHeader loneSet) builder
      ⟨Digest.zero, none⟩).run firstNode =
        (.ok (ofInputs firstInputs builder), { firstNode with cached := some (0, loneSet) }) := by
  have hstarts : (firstInputs.startsEpoch && decide (1 < firstInputs.height)) = false := by decide
  have hcomplete : Coordinator.completeInputs firstNode.ledger firstChain Store.empty none
      firstInputs = .ok firstInputs := by
    rw [Coordinator.completeInputs, endsEpoch_firstInputs, hstarts]
    rfl
  exact Coordinator.createRound_ok_iff.2
    ⟨1, none, loneSet, firstInputs, readParent_genesisHeader (by decide), rfl, hcomplete, rfl⟩

theorem favorable_firstInputs : firstInputs.Favorable firstChain 1700000000 :=
  favorable_onGenesis rfl rfl rfl

theorem nextSet_firstInputs : firstInputs.nextSet = .ok (none, loneSet) := by
  rw [RoundInputs.nextSet, endsEpoch_firstInputs]
  rfl

theorem proposalParts_firstInputs :
    firstInputs.proposalParts 0 = .ok ([], firstExtension.encode) :=
  RoundInputs.proposalParts_ok_iff.2
    ⟨_, none, loneSet, decode_genesisHeader, rfl, nextSet_firstInputs, rfl⟩

theorem length_firstExtension : firstExtension.encode.length = 274 :=
  Extension.length_encode_checkpoint _

theorem length_firstBlock_lt : firstBlock.encode.length < 2 ^ 64 := by
  have hextra : firstBlock.header.extraData.length = 274 := length_firstExtension
  have hidle : (Wire.encode firstBlock.transactions).length < 1000 := by decide +kernel
  rw [Block.length_encode, Header.length_encode, hextra]
  omega

end inner

section closing

def nodeOfSize (epochSize : UInt64) : Coordinator :=
  ⟨{ Config.default with epochSize }, Ledger.ofConfig Config.default, none⟩

/-- The only validator has doubled its power. -/
def doubled : SetDelta := ⟨[], [Validator.ofStake Address.zero none 2], .empty⟩

def doubledSet : ValidatorSet := ⟨[Validator.ofStake Address.zero none 2]⟩

def closingCommit : EpochCommit := ⟨1, ⟨1, 1, Digest.zero⟩, 1, []⟩

/-- What a node prepares for the first block if epochs have one block and its ledger knows of the power. -/
def closingInputs : RoundInputs :=
  { RoundInputs.plain (nodeOfSize 1).config (genesisHeader loneSet) loneSet 1 ⟨Digest.zero, none⟩ with
    epochCommit := some closingCommit
    rewards := some ⟨1, [], 1⟩
    fundAmount := twoThirdsOfMax
    delta := some doubled }

def closingCalls : List Transaction :=
  [Transaction.ofCall 1 (.commitEpoch closingCommit) 0, closingInputs.fundTransaction,
   Transaction.ofCall 1 (.distributeRewards ⟨1, [], 1⟩) 0, closingInputs.incentiveTransaction]

def closingExtension : Extension :=
  closingInputs.proposed 0 (genesisExtension loneSet) (some doubled) doubledSet

/-- The first block if it ends an epoch, as a plain builder makes it. -/
def closingBlock : Block :=
  ⟨Builder.header (genesisHeader loneSet) (closingCalls ++ [idleTransaction]) closingExtension.encode,
    closingCalls ++ [idleTransaction]⟩

theorem endsEpoch_closingInputs : closingInputs.endsEpoch = true := by decide

theorem createRound_closing (builder : Option Builder) :
    (Coordinator.createRound firstChain (Store.put (Ledger.genesisSnapshot doubledSet))
      (genesisHeader loneSet) builder ⟨Digest.zero, none⟩).run (nodeOfSize 1) =
        (.ok (ofInputs closingInputs builder), { nodeOfSize 1 with cached := some (0, loneSet) }) := by
  have hdelta : (nodeOfSize 1).ledger.computeDelta firstChain
      (Store.put (Ledger.genesisSnapshot doubledSet)) 1 loneSet = .ok doubled :=
    toOption_eq_some_iff.1 (by decide)
  refine Coordinator.createRound_ok_iff.2 ⟨1, none, loneSet, closingInputs,
    readParent_genesisHeader (by decide), rfl,
    (Coordinator.completeInputs_ending_iff endsEpoch_closingInputs).2 ?_, rfl⟩
  exact RoundInputs.endingEpoch_ok_iff.2 ⟨[], twoThirdsOfMax, doubled, rfl, rfl, hdelta, rfl⟩

theorem favorable_closingInputs : closingInputs.Favorable firstChain 1700000000 :=
  favorable_onGenesis rfl rfl rfl

theorem nextSet_closingInputs : closingInputs.nextSet = .ok (some doubled, doubledSet) := by
  have happlied : loneSet.apply doubled = .ok doubledSet := toOption_eq_some_iff.1 (by decide)
  have hdelta : closingInputs.delta = some doubled := rfl
  have hvalidators : closingInputs.validators = loneSet := rfl
  simp only [RoundInputs.nextSet, endsEpoch_closingInputs, hdelta, hvalidators, happlied, if_true]

theorem stateTransactions_closingInputs : closingInputs.stateTransactions = .ok closingCalls := by
  rfl

theorem proposalParts_closingInputs :
    closingInputs.proposalParts 0 = .ok (closingCalls, closingExtension.encode) :=
  RoundInputs.proposalParts_ok_iff.2 ⟨_, some doubled, doubledSet, decode_genesisHeader,
    stateTransactions_closingInputs, nextSet_closingInputs, rfl⟩

theorem length_closingExtension : closingExtension.encode.length < 1000 := by
  simp [Extension.length_encode, Extension.vanityLength, closingExtension, RoundInputs.proposed,
    genesisExtension, Extension.none, doubled, Validator.ofStake, Bitmap.empty]

theorem length_closingBlock_lt : closingBlock.encode.length < 2 ^ 64 := by
  have hextra : closingBlock.header.extraData.length < 1000 := length_closingExtension
  have hcalls : (Wire.encode closingBlock.transactions).length < 10000 := by decide +kernel
  rw [Block.length_encode, Header.length_encode]
  omega

end closing

/-- The first block of a chain is accepted by a node that did not build it, within an epoch and at the
end of one that changes the set. -/
theorem validate_firstBlock :
    (∃ built validated block receipts digest,
      (ofInputs firstInputs (some (Builder.plain (genesisHeader loneSet) [idleTransaction]))).buildProposal
        0 = (.ok firstBlock.encode, built) ∧
      (ofInputs firstInputs none : Round Builder).validate firstChain 1700000000 firstBlock.encode =
        .ok validated ∧
      validated.target = some ⟨block, receipts⟩ ∧ built.target = some ⟨block, []⟩ ∧
      validated.proposalDigest = .ok digest ∧ built.proposalDigest = .ok digest) ∧
    ∃ built validated block receipts digest,
      (ofInputs closingInputs (some (Builder.plain (genesisHeader loneSet)
        [idleTransaction]))).buildProposal 0 = (.ok closingBlock.encode, built) ∧
      (ofInputs closingInputs none : Round Builder).validate firstChain 1700000000
        closingBlock.encode = .ok validated ∧
      validated.target = some ⟨block, receipts⟩ ∧ built.target = some ⟨block, []⟩ ∧
      validated.proposalDigest = .ok digest ∧ built.proposalDigest = .ok digest := by
  constructor
  · obtain ⟨⟨built, hbuild⟩, hsize⟩ := buildProposal_plain_ok (genesisHeader loneSet)
      [idleTransaction] proposalParts_firstInputs (by rw [length_firstExtension]; omega)
    obtain ⟨validated, block, receipts, digest, hvalidate, -, -, htarget, hbuilt, hdigest, hdigest'⟩ :=
      validate_buildProposal (createRound_first _) (createRound_first none) rfl rfl
        (Coordinator.remembers_of_fresh _ rfl) (Coordinator.remembers_of_fresh _ rfl)
        legacy_idleTransaction favorable_firstInputs (execute_firstChain _) hsize hbuild
        length_firstBlock_lt
    exact ⟨built, validated, block, receipts, digest, hbuild, hvalidate, htarget, hbuilt, hdigest,
      hdigest'⟩
  · obtain ⟨⟨built, hbuild⟩, hsize⟩ := buildProposal_plain_ok (genesisHeader loneSet)
      [idleTransaction] proposalParts_closingInputs (by have hlt := length_closingExtension; omega)
    obtain ⟨validated, block, receipts, digest, hvalidate, -, -, htarget, hbuilt, hdigest, hdigest'⟩ :=
      validate_buildProposal (createRound_closing _) (createRound_closing none) rfl rfl
        (Coordinator.remembers_of_fresh _ rfl) (Coordinator.remembers_of_fresh _ rfl)
        legacy_idleTransaction favorable_closingInputs (execute_firstChain _) hsize hbuild
        length_closingBlock_lt
    exact ⟨built, validated, block, receipts, digest, hbuild, hvalidate, htarget, hbuilt, hdigest,
      hdigest'⟩

end Round

end EpochSeal
