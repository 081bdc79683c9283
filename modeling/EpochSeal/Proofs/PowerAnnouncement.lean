import EpochSeal.Proofs.EpochSequence

/-! Whether the powers that an epoch has changed are announced in the block after it. A block that ends
an epoch has no place for them, so it depends on the size of epochs. -/
namespace EpochSeal
open Outcome

/-- Two blocks in a row end an epoch only if every block does. -/
theorem Config.endsEpoch_succ_iff {c : Config} {parent : UInt64} (hparent : parent.toNat + 1 < 2 ^ 64)
    (hended : c.endsEpoch parent = true) : c.endsEpoch (parent + 1) = true ↔ c.epochSize = 1 := by
  rw [endsEpoch_iff] at hended
  rw [endsEpoch_iff, toNat_succ hparent, Nat.dvd_add_right hended, Nat.dvd_one, ← UInt64.toNat_inj]
  rfl

theorem PowerSync.ofDelta_ok {delta : SetDelta} {previous : ValidatorSet} {found : Option PowerSync}
    (hchange : delta.isEmpty = false) (h : ofDelta delta previous = .ok found) :
    ∃ sync, found = some sync := by
  rw [ofDelta, hchange] at h
  simp only [Bool.false_eq_true, if_false, bind_ok_iff, pure_ok_iff] at h
  obtain ⟨_, _, rfl⟩ := h
  exact ⟨_, rfl⟩

/-- Transactions that make calls of different kinds differ in their inputs. -/
theorem Transaction.selector_eq_of_ofCall_eq {height height' : UInt64} {call call' : StateCall}
    {value value' : Word} (h : ofCall height call value = ofCall height' call' value') :
    call.kind.selector = call'.kind.selector := by
  have hinput : call.encode = call'.encode := congrArg Transaction.input h
  rw [← call.take_encode, ← call'.take_encode, hinput]

namespace RoundInputs

variable {r r' : RoundInputs}

theorem powerSync_of_startingEpoch {chain : Chain} {delta : SetDelta} (hchange : delta.isEmpty = false)
    (h : r.startingEpoch chain (some delta) = .ok r') :
    ∃ previous sync, chain.validatorsAt (r.parent.number - 1) = .ok previous ∧
      PowerSync.ofDelta delta previous = .ok (some sync) ∧ r' = { r with powerSync := some sync } := by
  simp only [startingEpoch, bind_ok_iff, mapError_ok_iff, pure_ok_iff] at h
  obtain ⟨previous, hprevious, found, hfound, rfl⟩ := h
  obtain ⟨sync, rfl⟩ := PowerSync.ofDelta_ok hchange hfound
  exact ⟨previous, sync, hprevious, hfound, rfl⟩

theorem stateTransactions_starting {transactions : List Transaction} {sync : PowerSync}
    (h : r.stateTransactions = .ok transactions) (hends : r.endsEpoch = false)
    (hstarts : r.startsEpoch = true) (hsync : r.powerSync = some sync) :
    ∃ rest, transactions = Transaction.ofCall r.height (.syncPowers sync) 0 :: rest := by
  simp only [stateTransactions, callTransactions, hends, hstarts, syncTransaction?, hsync, bind_ok_iff,
    pure_ok_iff, if_true, Bool.false_eq_true, if_false, Except.ok.injEq] at h
  obtain ⟨_, rfl, rfl⟩ := h
  exact ⟨_, rfl⟩

theorem stateTransactions_ending {transactions : List Transaction}
    (h : r.stateTransactions = .ok transactions) (hends : r.endsEpoch = true) :
    ∃ call rest, transactions = Transaction.ofCall r.height (.commitEpoch call) 0 :: rest := by
  simp only [stateTransactions, callTransactions, hends, bind_ok_iff, pure_ok_iff, if_true] at h
  obtain ⟨_, ⟨commit, hcommit, _, _, rfl⟩, rfl⟩ := h
  obtain ⟨call, rfl⟩ := commitEpochTransaction_ok hcommit
  exact ⟨call, _, rfl⟩

end RoundInputs

/-- A block that starts an epoch without ending one is prepared with the announcement. -/
theorem Coordinator.powerSync_of_completeInputs {l : Ledger} {chain : Chain} {store : Store}
    {delta : SetDelta} {plain r : RoundInputs}
    (h : completeInputs l chain store (some delta) plain = .ok r) (hends : plain.endsEpoch = false)
    (hstarts : plain.startsEpoch = true) (hlate : 1 < plain.height) (hchange : delta.isEmpty = false) :
    ∃ previous sync, chain.validatorsAt (plain.parent.number - 1) = .ok previous ∧
      PowerSync.ofDelta delta previous = .ok (some sync) ∧ r = { plain with powerSync := some sync } := by
  simp only [completeInputs, hends, hstarts, hlate, Bool.false_eq_true, if_false, decide_true,
    Bool.and_self, if_true] at h
  exact RoundInputs.powerSync_of_startingEpoch hchange h

/-- A block starts with the powers that a change of the set has made of those that sealed its
parent. -/
def Block.Announces (b : Block) (chain : Chain) (parent : Header) (delta : SetDelta) : Prop :=
  ∃ previous sync, chain.validatorsAt (parent.number - 1) = .ok previous ∧
    PowerSync.ofDelta delta previous = .ok (some sync) ∧
    b.transactions[0]? = some (Transaction.ofCall (parent.number + 1) (.syncPowers sync) 0)

theorem Block.not_announces {b : Block} {chain : Chain} {parent : Header} {delta : SetDelta}
    {call : EpochCommit} (h : b.transactions[0]? =
      some (Transaction.ofCall (parent.number + 1) (.commitEpoch call) 0)) :
    ¬ b.Announces chain parent delta := by
  rintro ⟨previous, sync, -, -, hsync⟩
  rw [h, Option.some.injEq] at hsync
  have hselectors : StateCallKind.commitEpoch.selector ≠ StateCallKind.syncPowers.selector := by decide
  exact hselectors (Transaction.selector_eq_of_ofCall_eq hsync)

namespace Round
open Simulation

/-- The powers that an epoch has changed are the first thing in the next block exactly if epochs have
more than one block. With one block each, that block ends an epoch itself and commits it instead.
Nobody has sealed the first block, so that no change is announced behind it. -/
theorem announces_iff {chain : Chain} {store : Store} {parent : Header} {pending : List Transaction}
    {context : RoundContext} {c c' : Coordinator} {r built : Round Builder} {e : Extension}
    {delta : SetDelta} {round : UInt64} {bytes : Bytes} (hparent : 1 ≤ parent.number)
    (hnext : parent.number.toNat + 1 < 2 ^ 64) (hended : c.config.endsEpoch parent.number = true)
    (hextension : Extension.decode parent.extraData = .ok e) (hdelta : e.delta = some delta)
    (hchange : delta.isEmpty = false)
    (hcreate : (Coordinator.createRound chain store parent (some (Builder.plain parent pending))
      context).run c = (.ok r, c'))
    (hbuild : r.buildProposal round = (.ok bytes, built))
    (hsize : ∀ transactions extraData, r.inputs.proposalParts round = .ok (transactions, extraData) →
      extraData.length < 2 ^ 64) :
    ∃ target, built.target = some target ∧ bytes = target.block.encode ∧
      (target.block.Announces chain parent delta ↔ c.config.epochSize ≠ 1) := by
  obtain ⟨epoch, parentDelta, active, inputs, hread, -, hcomplete, rfl⟩ :=
    Coordinator.createRound_ok_iff.1 hcreate
  obtain ⟨extension, checkpoint, hdecode, -, rfl, -⟩ := Coordinator.readParent_ok hread
  cases hextension.symm.trans hdecode
  rw [hdelta] at hcomplete
  have hextends := Coordinator.completeInputs_extends hcomplete
  have hheight : inputs.height = parent.number + 1 := congrArg (·.number + 1) hextends.parent
  obtain ⟨_, _, _, transactions, block, -, -, htransactions, -, rfl, rfl, htarget, -⟩ :=
    buildProposal_plain hbuild hsize
  refine ⟨_, htarget, rfl, ?_⟩
  have hends : inputs.endsEpoch = c.config.endsEpoch (parent.number + 1) := by
    rw [RoundInputs.endsEpoch, hheight, hextends.config]
    rfl
  have hstarting : c.config.startsEpoch (parent.number + 1) = true :=
    (c.config.startsEpoch_succ_iff hnext).2 ((c.config.endsEpoch_iff _).1 hended)
  have hstarts : inputs.startsEpoch = true := by
    rw [RoundInputs.startsEpoch, hheight, hextends.config]
    exact hstarting
  by_cases hsingle : c.config.epochSize = 1
  · have hending := hends.trans ((c.config.endsEpoch_succ_iff hnext hended).2 hsingle)
    obtain ⟨call, rest, rfl⟩ := RoundInputs.stateTransactions_ending htransactions hending
    rw [hheight]
    exact iff_of_false (Block.not_announces rfl) (not_not_intro hsingle)
  · have hinner : c.config.endsEpoch (parent.number + 1) = false := by
      refine Bool.eq_false_iff.2 ?_
      intro hend
      exact hsingle ((c.config.endsEpoch_succ_iff hnext hended).1 hend)
    have hlate : 1 < parent.number + 1 := by
      rw [UInt64.lt_iff_toNat_lt, toNat_succ hnext]
      exact Nat.lt_succ_of_le (UInt64.le_iff_toNat_le.1 hparent)
    obtain ⟨previous, sync, hprevious, hsync, hinputs⟩ :=
      Coordinator.powerSync_of_completeInputs hcomplete hinner hstarting hlate hchange
    have hpowers : inputs.powerSync = some sync := by rw [hinputs]
    obtain ⟨rest, rfl⟩ := RoundInputs.stateTransactions_starting htransactions (hends.trans hinner) hstarts
      hpowers
    rw [hheight]
    exact iff_of_true ⟨previous, sync, hprevious, hsync, rfl⟩ hsingle

section changed

def doublingExtension : Extension := { genesisExtension loneSet with delta := some doubled }

/-- A second block that announces the doubled power. -/
def doublingHeader : Header :=
  { genesisHeader loneSet with number := 2, extraData := doublingExtension.encode }

theorem length_doublingExtension : doublingExtension.encode.length < 2 ^ 64 := by
  simp [Extension.length_encode, Extension.vanityLength, doublingExtension, genesisExtension,
    Extension.none, doubled, Validator.ofStake, Bitmap.empty]

theorem decode_doublingHeader : Extension.decode doublingHeader.extraData = .ok doublingExtension :=
  Extension.decode_encode _ length_doublingExtension

/-- What a node prepares behind that block for epochs of two blocks. -/
def announcingInputs : RoundInputs :=
  { RoundInputs.plain (nodeOfSize 2).config doublingHeader loneSet 1 ⟨Digest.zero, none⟩ with
    powerSync := some ⟨[⟨Address.zero, 2⟩]⟩ }

/-- The same for epochs of one block, with a ledger that finds nothing to change. -/
def committingInputs : RoundInputs :=
  { RoundInputs.plain (nodeOfSize 1).config doublingHeader loneSet 1 ⟨Digest.zero, none⟩ with
    epochCommit := some ⟨1, ⟨3, 3, Digest.zero⟩, 1, []⟩
    rewards := some ⟨1, [], 1⟩
    fundAmount := twoThirdsOfMax
    delta := some .none }

theorem readParent_doublingHeader {epochSize : UInt64}
    (hepoch : (nodeOfSize epochSize).config.epochAt 0 3 = 1) :
    Coordinator.readParent (nodeOfSize epochSize).config doublingHeader = .ok (1, some doubled) := by
  simp only [Coordinator.readParent, decode_doublingHeader]
  exact congrArg (fun epoch => Except.ok (epoch, some doubled)) hepoch

theorem createRound_announcing (builder : Option Builder) :
    (Coordinator.createRound firstChain Store.empty doublingHeader builder ⟨Digest.zero, none⟩).run
      (nodeOfSize 2) =
        (.ok (ofInputs announcingInputs builder), { nodeOfSize 2 with cached := some (2, loneSet) }) :=
  Coordinator.createRound_ok_iff.2
    ⟨1, _, loneSet, _, readParent_doublingHeader (by decide), rfl, rfl, rfl⟩

theorem createRound_committing (builder : Option Builder) :
    (Coordinator.createRound firstChain (Store.put (Ledger.genesisSnapshot loneSet)) doublingHeader
      builder ⟨Digest.zero, none⟩).run (nodeOfSize 1) =
        (.ok (ofInputs committingInputs builder), { nodeOfSize 1 with cached := some (2, loneSet) }) := by
  have hends : committingInputs.endsEpoch = true := by decide
  have hdelta : (nodeOfSize 1).ledger.computeDelta firstChain
      (Store.put (Ledger.genesisSnapshot loneSet)) 1 loneSet = .ok .none :=
    toOption_eq_some_iff.1 (by decide)
  refine Coordinator.createRound_ok_iff.2 ⟨1, _, loneSet, committingInputs,
    readParent_doublingHeader (by decide), rfl, (Coordinator.completeInputs_ending_iff hends).2 ?_, rfl⟩
  exact RoundInputs.endingEpoch_ok_iff.2 ⟨[], twoThirdsOfMax, .none, rfl, rfl, hdelta, rfl⟩

/-- The plain builder makes a block behind that one if the round can say what the block announces. -/
theorem buildProposal_doubling {inputs : RoundInputs} {transactions : List Transaction}
    {change : Option SetDelta} (hparent : inputs.parent = doublingHeader)
    (htransactions : inputs.stateTransactions = .ok transactions)
    (hnext : inputs.nextSet = .ok (change, loneSet))
    (hshort : (Wire.encode change).length < 2 ^ 32) :
    (∃ bytes built, (ofInputs inputs (some (Builder.plain doublingHeader []))).buildProposal 0 =
      (.ok bytes, built)) ∧
    ∀ transactions extraData, inputs.proposalParts 0 = .ok (transactions, extraData) →
      extraData.length < 2 ^ 64 := by
  have hdecode : Extension.decode inputs.parent.extraData = .ok doublingExtension := by
    rw [hparent]
    exact decode_doublingHeader
  have hparts : inputs.proposalParts 0 =
      .ok (transactions, (inputs.proposed 0 doublingExtension change loneSet).encode) :=
    RoundInputs.proposalParts_ok_iff.2 ⟨_, change, loneSet, hdecode, htransactions, hnext, rfl⟩
  have hlength : (inputs.proposed 0 doublingExtension change loneSet).encode.length < 2 ^ 64 := by
    have hnone : doublingExtension.committedSeal = none := rfl
    rw [Extension.length_encode]
    simp only [RoundInputs.proposed, hnone, Wire.length_encode_none, Wire.length_encode_some,
      Checkpoint.length_encode, Extension.vanityLength]
    omega
  obtain ⟨hbuild, hsize⟩ := buildProposal_plain_ok doublingHeader [] hparts hlength
  exact ⟨⟨_, hbuild⟩, hsize⟩

theorem announces_iff_doubled :
    (∃ bytes built target, (ofInputs announcingInputs (some (Builder.plain doublingHeader
      []))).buildProposal 0 = (.ok bytes, built) ∧ built.target = some target ∧
      target.block.Announces firstChain doublingHeader doubled) ∧
    ∃ bytes built target, (ofInputs committingInputs (some (Builder.plain doublingHeader
      []))).buildProposal 0 = (.ok bytes, built) ∧ built.target = some target ∧
      ¬ target.block.Announces firstChain doublingHeader doubled := by
  have hannouncing : announcingInputs.nextSet = .ok (none, loneSet) := by
    have hends : announcingInputs.endsEpoch = false := by decide
    rw [RoundInputs.nextSet, hends]
    rfl
  have hcommitting : committingInputs.nextSet = .ok (some .none, loneSet) := by
    have hends : committingInputs.endsEpoch = true := by decide
    rw [RoundInputs.nextSet, hends]
    rfl
  constructor
  · obtain ⟨⟨bytes, built, hbuild⟩, hsize⟩ :=
      buildProposal_doubling rfl rfl hannouncing (by decide)
    obtain ⟨target, htarget, -, hiff⟩ := announces_iff (by decide) (by decide) (by decide)
      decode_doublingHeader rfl rfl (createRound_announcing _) hbuild hsize
    exact ⟨bytes, built, target, hbuild, htarget, hiff.2 (by decide)⟩
  · obtain ⟨⟨bytes, built, hbuild⟩, hsize⟩ :=
      buildProposal_doubling rfl rfl hcommitting (by decide)
    obtain ⟨target, htarget, -, hiff⟩ := announces_iff (by decide) (by decide) (by decide)
      decode_doublingHeader rfl rfl (createRound_committing _) hbuild hsize
    exact ⟨bytes, built, target, hbuild, htarget, fun h => hiff.1 h rfl⟩

end changed

end Round

end EpochSeal
