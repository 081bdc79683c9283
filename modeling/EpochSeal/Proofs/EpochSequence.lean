import EpochSeal.Proofs.Acceptance
import EpochSeal.Proofs.HonestProposal

/-! Along a chain of accepted blocks, heights fall into epochs of one size without a gap. The set that
seals a block is the one that its parent announced, and it changes at the end of an epoch only. -/
namespace EpochSeal
open Outcome

namespace Config

/-- The epoch of a height, counted from one. The first block comes before all epochs. -/
def epochOf (c : Config) (height : Nat) : Nat :=
  if height = 0 then 0 else (height - 1) / c.epochSize.toNat + 1

theorem epochSize_pos {c : Config} (hvalid : c.validate = .ok ()) : 0 < c.epochSize.toNat := by
  simp only [validate, ite_error_ok_iff] at hvalid
  have hne := hvalid.1
  rw [← UInt64.toNat_inj, UInt64.toNat_zero] at hne
  omega

theorem endsEpoch_iff (c : Config) (height : UInt64) :
    c.endsEpoch height = true ↔ c.epochSize.toNat ∣ height.toNat := by
  rw [endsEpoch, decide_eq_true_eq, ← UInt64.toNat_inj, UInt64.toNat_mod, UInt64.toNat_zero,
    Nat.dvd_iff_mod_eq_zero]

theorem startsEpoch_succ_iff (c : Config) {parent : UInt64} (hparent : parent.toNat + 1 < 2 ^ 64) :
    c.startsEpoch (parent + 1) = true ↔ c.epochSize.toNat ∣ parent.toNat := by
  have hpos : (0 : UInt64) < parent + 1 := by
    rw [UInt64.lt_iff_toNat_lt, UInt64.toNat_zero, toNat_succ hparent]
    exact Nat.succ_pos _
  have hsub : parent + 1 - 1 = parent := by simp
  rw [← endsEpoch_iff, startsEpoch, endsEpoch, hsub]
  simp [hpos]

theorem epochOf_succ (c : Config) (height : Nat) :
    c.epochOf (height + 1) = c.epochOf height + if c.epochSize.toNat ∣ height then 1 else 0 := by
  cases height with
  | zero => simp [epochOf]
  | succ height =>
      simp only [epochOf, Nat.add_one_ne_zero, if_false, Nat.add_sub_cancel, Nat.succ_div]
      omega

theorem epochOf_le (c : Config) (height : Nat) : c.epochOf height ≤ height := by
  unfold epochOf
  split
  · omega
  · have hle := Nat.div_le_self (height - 1) c.epochSize.toNat
    omega

theorem toNat_epochAt (c : Config) {epoch parent : UInt64} (hparent : parent.toNat + 1 < 2 ^ 64)
    (hepoch : epoch.toNat = c.epochOf parent.toNat) :
    (c.epochAt epoch (parent + 1)).toNat = c.epochOf (parent.toNat + 1) := by
  have hle := c.epochOf_le parent.toNat
  rw [c.epochOf_succ, ← hepoch, epochAt, Checkpoint.epochAfter]
  simp only [c.startsEpoch_succ_iff hparent]
  split
  · exact toNat_succ (by omega)
  · rfl

/-- The heights of epoch `k` are those from `(k - 1) * size + 1` to `k * size`. -/
theorem epochOf_eq_iff {c : Config} (hsize : 0 < c.epochSize.toNat) {k n : Nat} (hk : 0 < k) :
    c.epochOf n = k ↔ (k - 1) * c.epochSize.toNat + 1 ≤ n ∧ n ≤ k * c.epochSize.toNat := by
  obtain ⟨k, rfl⟩ := Nat.exists_eq_succ_of_ne_zero (Nat.pos_iff_ne_zero.1 hk)
  cases n with
  | zero => simp [epochOf]
  | succ n =>
      simp only [epochOf, Nat.add_one_ne_zero, if_false, Nat.add_sub_cancel, Nat.succ_eq_add_one,
        Nat.add_right_cancel_iff, Nat.div_eq_iff hsize, Nat.add_mul, Nat.one_mul]
      omega

end Config

/-- A block that some round accepted on top of its parent, and that the same or another round then
committed under seals. Executing a block does not change it. -/
def Header.Continues (config : Config) (parent child : Header) : Prop :=
  ∃ (β γ : Type) (r validated : Round β) (closing closed : Round γ) (chain chain' : Chain)
    (now : UInt64) (proposal proposal' : Bytes) (seals : List CommittedSeal) (b : ExecutedBlock),
    r.inputs.config = config ∧ r.inputs.parent = parent ∧
    (∀ block executed, chain.execute parent block = .ok executed → executed.block = block) ∧
    r.validate chain now proposal = .ok validated ∧
    closing.target.map (·.block) = validated.target.map (·.block) ∧
    closing.insert chain' proposal' seals = .ok (b, closed) ∧ b.block.header = child

/-- What the extension of a block and its checkpoint say, given the checkpoint of its parent. -/
structure Extension.Succeeds (config : Config) (height : UInt64) (parent : Checkpoint) (e : Extension)
    (c : Checkpoint) : Prop where
  epoch : c.epoch = config.epochAt parent.epoch height
  currentSet : c.currentSet = parent.nextSet
  delta : e.delta.isSome ↔ config.endsEpoch height
  nextSet : ¬ config.endsEpoch height → c.nextSet = c.currentSet

theorem RoundInputs.succeeds_of_checkBlock {r : RoundInputs} {chain : Chain} {now : UInt64} {block : Block}
    (h : r.checkBlock chain now block = .ok ()) : block.header.number = r.height ∧
      ∃ e c e' c', block.header.Carries e c ∧ r.parent.Carries e' c' ∧
        e.Succeeds r.config r.height c' c := by
  obtain ⟨hheader, e, c, e', c', next, hcarries, hparent, _, _, hdelta, hvalid⟩ := checkBlock_ok_iff.1 h
  obtain ⟨_, _, hnumber, _⟩ := Header.checkAgainst_ok_iff.1 hheader
  obtain ⟨hcurrent, hnext, hcontinues, hepoch, _⟩ := Checkpoint.validate_ok_iff.1 hvalid
  refine ⟨hnumber, e, c, e', c', hcarries, hparent, hepoch, hcontinues.symm, ?_, fun hends => ?_⟩
  · rw [checkDelta_ok_iff] at hdelta
    change _ ↔ r.endsEpoch = true
    split at hdelta
    · next hends =>
        obtain ⟨delta, _, hsome, _⟩ := hdelta
        simp [hsome, hends]
    · next hends => simp [hdelta.1, hends]
  · change ¬ r.endsEpoch = true at hends
    rw [checkDelta_ok_iff, if_neg hends] at hdelta
    rw [hnext, hcurrent, hdelta.2]

theorem Header.Continues.succeeds {config : Config} {parent child : Header}
    (h : Continues config parent child) (hshort : child.extraData.length < 2 ^ 64) :
    child.number = parent.number + 1 ∧ ∃ e c e' c', child.Carries e c ∧ parent.Carries e' c' ∧
      e.Succeeds config (parent.number + 1) c' c := by
  obtain ⟨β, γ, r, validated, closing, closed, chain, chain', now, proposal, proposal', seals, b, rfl, rfl,
    hexecute, hvalidate, htarget, hinsert, rfl⟩ := h
  obtain ⟨_, target, haccept, rfl⟩ := Round.validate_ok_iff.1 hvalidate
  obtain ⟨block, _, hcheck, hrun⟩ := RoundInputs.accept_ok_iff.1 haccept
  obtain ⟨_, hsealed, _⟩ := Round.insert_ok_iff.1 hinsert
  obtain ⟨_, committing, committed, _, hcommitting, _, _, hseal⟩ := Round.sealedTarget_ok_iff.1 hsealed
  -- the block that is committed is the one that was checked
  have hblock : committing.block = block := by
    rw [hcommitting] at htarget
    exact (Option.some.inj htarget).trans (hexecute block target hrun)
  obtain ⟨hnumber, e, c, e', c', hcarries, hparent, hsucceeds⟩ :=
    RoundInputs.succeeds_of_checkBlock hcheck
  rw [← hblock] at hnumber hcarries
  have hcarried := Round.carries_withSeal hseal hcarries hshort
  obtain ⟨_, _, rfl⟩ := Round.withSeal_ok_iff.1 hseal
  exact ⟨hnumber, _, c, e', c', hcarried, hparent, hsucceeds.epoch, hsucceeds.currentSet, hsucceeds.delta,
    hsucceeds.nextSet⟩

/-- A chain of blocks from a first block on, before which there was no epoch. Heights and sizes are
numbers of 64 bits. -/
structure AcceptedChain (config : Config) (top : Nat) (header : Nat → Header) : Prop where
  valid : config.validate = .ok ()
  top_lt : top < 2 ^ 64
  short : ∀ h ≤ top, (header h).extraData.length < 2 ^ 64
  genesis : (header 0).number = 0 ∧ ∃ e c, (header 0).Carries e c ∧ c.epoch = 0
  continues : ∀ h < top, Header.Continues config (header h) (header (h + 1))

namespace AcceptedChain

variable {config : Config} {top : Nat} {header : Nat → Header}

theorem epoch_eq (hchain : AcceptedChain config top header) {h : Nat} (hh : h ≤ top) :
    (header h).number.toNat = h ∧ ∃ e c, (header h).Carries e c ∧ c.epoch.toNat = config.epochOf h := by
  induction h with
  | zero =>
      obtain ⟨hnumber, e, c, hcarries, hepoch⟩ := hchain.genesis
      rw [hnumber]
      exact ⟨rfl, e, c, hcarries, by rw [hepoch]; rfl⟩
  | succ h ih =>
      obtain ⟨hparent, e', c', hcarries', hepoch'⟩ := ih (by omega)
      obtain ⟨hnumber, e, c, e'', c'', hcarries, hcarries'', hsucceeds⟩ :=
        (hchain.continues h hh).succeeds (hchain.short (h + 1) hh)
      obtain ⟨rfl, rfl⟩ := hcarries'.unique hcarries''
      have htop := hchain.top_lt
      have hheight : (header h).number.toNat + 1 < 2 ^ 64 := by omega
      refine ⟨?_, e, c, hcarries, ?_⟩
      · rw [hnumber, toNat_succ hheight, hparent]
      · rw [hsucceeds.epoch, config.toNat_epochAt hheight (by rw [hparent]; exact hepoch'), hparent]

theorem epoch_createRound (hchain : AcceptedChain config top header) {h : Nat} (hh : h ≤ top)
    (hheight : h + 1 < 2 ^ 64) {β : Type} {chain : Chain} {store : Store} {builder : Option β}
    {context : RoundContext} {c c' : Coordinator} {round : Round β} (hconfig : c.config = config)
    (hcreate : (Coordinator.createRound chain store (header h) builder context).run c = (.ok round, c')) :
    round.inputs.epoch.toNat = config.epochOf (h + 1) ∧
      (config.epochSize.toNat ∣ h + 1 → ∃ commit, round.inputs.epochCommit = some commit ∧
        commit.id = round.inputs.epoch ∧ commit.range.finish.toNat = h + 1 ∧
        (h + 2 < 2 ^ 64 → commit.range.start.toNat = h + 2 - config.epochSize.toNat)) := by
  obtain ⟨hnumber, e, checkpoint, hcarries, hepoch⟩ := hchain.epoch_eq hh
  obtain ⟨epoch, delta, active, inputs, hread, _, hcomplete, rfl⟩ :=
    Coordinator.createRound_ok_iff.1 hcreate
  obtain ⟨e', checkpoint', hextension, hcheckpoint, _, hread⟩ := Coordinator.readParent_ok hread
  obtain ⟨_, rfl⟩ := hcarries.unique ⟨hextension, hcheckpoint⟩
  have hextends := Coordinator.completeInputs_extends hcomplete
  have hsize := config.epochSize_pos hchain.valid
  have hheight : ((header h).number + 1).toNat = h + 1 := by
    rw [toNat_succ (by omega), hnumber]
  change inputs.epoch.toNat = _ ∧ (_ → ∃ commit, inputs.epochCommit = some commit ∧
    commit.id = inputs.epoch ∧ commit.range.finish.toNat = _ ∧ (_ → commit.range.start.toNat = _))
  refine ⟨?_, fun hends => ?_⟩
  · rw [hextends.epoch]
    change epoch.toNat = _
    rw [hread, hconfig, config.toNat_epochAt (by omega) (by rw [hnumber]; exact hepoch), hnumber]
  · have hending : inputs.endsEpoch = true := by
      rw [RoundInputs.endsEpoch, Config.endsEpoch_iff, hextends.config, RoundInputs.height, hextends.parent]
      change c.config.epochSize.toNat ∣ ((header h).number + 1).toNat
      rwa [hconfig, hheight]
    obtain ⟨_, _, _, _, _, _, rfl⟩ :=
      RoundInputs.endingEpoch_ok_iff.1 ((Coordinator.completeInputs_ending_iff hending).1 hcomplete)
    refine ⟨_, rfl, rfl, hheight, fun hnext => ?_⟩
    change (epochStart c.config.epochSize ((header h).number + 1)).toNat = _
    rw [toNat_epochStart _ (by rwa [hheight]), hheight, hconfig]

/-- Along a chain of accepted blocks, block `h` is in epoch `(h - 1) / size + 1`, it is sealed by the set
that its parent announced, and it changes the set exactly if it ends its epoch. A round for height `h`,
whether there is such a block already or not, is prepared for the same epoch. At the end of epoch `k` it
commits the blocks from `(k - 1) * size + 1` to `k * size`, which are those of the epoch; the start is
counted back from the height after the last one, so there has to be one. -/
theorem epochs_tile (hchain : AcceptedChain config top header) :
    (∀ h, 1 ≤ h → h ≤ top → ∃ e c e' c', (header h).Carries e c ∧ (header (h - 1)).Carries e' c' ∧
      c.epoch.toNat = (h - 1) / config.epochSize.toNat + 1 ∧ c.currentSet = c'.nextSet ∧
      (e.delta.isSome ↔ config.epochSize.toNat ∣ h) ∧
      (¬ config.epochSize.toNat ∣ h → c.currentSet = c.nextSet)) ∧
    ∀ h, 1 ≤ h → h ≤ top + 1 → h < 2 ^ 64 → ∀ (β : Type) (chain : Chain) (store : Store)
      (builder : Option β) (context : RoundContext) (c c' : Coordinator) (round : Round β),
      c.config = config →
      (Coordinator.createRound chain store (header (h - 1)) builder context).run c = (.ok round, c') →
      round.inputs.epoch.toNat = (h - 1) / config.epochSize.toNat + 1 ∧
      ∀ k, h = k * config.epochSize.toNat → ∃ commit, round.inputs.epochCommit = some commit ∧
        commit.id.toNat = k ∧ commit.range.finish.toNat = k * config.epochSize.toNat ∧
        (h + 1 < 2 ^ 64 → commit.range.start.toNat = (k - 1) * config.epochSize.toNat + 1 ∧
          ∀ n, (commit.range.start.toNat ≤ n ∧ n ≤ commit.range.finish.toNat) ↔
            1 ≤ n ∧ (n - 1) / config.epochSize.toNat + 1 = k) := by
  have hsize := config.epochSize_pos hchain.valid
  have hformula {h : Nat} (hlow : 1 ≤ h) : config.epochOf h = (h - 1) / config.epochSize.toNat + 1 :=
    if_neg (by omega)
  constructor
  · intro h hlow hhigh
    obtain ⟨h, rfl⟩ := Nat.exists_eq_add_of_le' hlow
    obtain ⟨_, e, c, hcarries, hepoch⟩ := hchain.epoch_eq hhigh
    obtain ⟨hnumber, _⟩ := hchain.epoch_eq (Nat.le_of_lt hhigh)
    obtain ⟨_, e₁, c₁, e', c', hcarries₁, hparent, hsucceeds⟩ :=
      (hchain.continues h hhigh).succeeds (hchain.short (h + 1) hhigh)
    obtain ⟨rfl, rfl⟩ := hcarries.unique hcarries₁
    have htop := hchain.top_lt
    have hheight : ((header h).number + 1).toNat = h + 1 := by
      rw [toNat_succ (by omega), hnumber]
    have hends := config.endsEpoch_iff ((header h).number + 1)
    rw [hheight] at hends
    refine ⟨e, c, e', c', hcarries, hparent, hepoch.trans (hformula hlow), hsucceeds.currentSet,
      hsucceeds.delta.trans hends, fun hinner => ?_⟩
    exact (hsucceeds.nextSet fun hend => hinner (hends.1 hend)).symm
  · intro h hlow hhigh hlt β chain store builder context c c' round hconfig hcreate
    obtain ⟨h, rfl⟩ := Nat.exists_eq_add_of_le' hlow
    obtain ⟨hepoch, hcommit⟩ := hchain.epoch_createRound (by omega) hlt hconfig hcreate
    refine ⟨hepoch.trans (hformula hlow), fun k hk => ?_⟩
    obtain ⟨commit, hsome, hid, hfinish, hstart⟩ := hcommit ⟨k, by rw [hk, Nat.mul_comm]⟩
    obtain ⟨k, rfl⟩ : ∃ j, k = j + 1 := by
      cases k with
      | zero => omega
      | succ j => exact ⟨j, rfl⟩
    have htile (n : Nat) := Config.epochOf_eq_iff (n := n) hsize (Nat.succ_pos k)
    rw [Nat.add_mul, Nat.one_mul] at hk
    simp only [Nat.succ_eq_add_one, Nat.add_sub_cancel, Nat.add_mul, Nat.one_mul] at htile ⊢
    have hlast : commit.range.finish.toNat = k * config.epochSize.toNat + config.epochSize.toNat := by
      omega
    refine ⟨commit, hsome, ?_, hlast, fun hnext => ?_⟩
    · rw [hid, hepoch, htile]
      omega
    · have hfirst : commit.range.start.toNat = k * config.epochSize.toNat + 1 := by
        have hcounted := hstart hnext
        omega
      refine ⟨hfirst, fun n => ?_⟩
      rw [hfirst, hlast, ← htile]
      constructor
      · intro hn
        have hpos : 1 ≤ n := by
          by_contra hzero
          rw [Nat.lt_one_iff.1 (Nat.not_le.1 hzero)] at hn
          cases hn
        exact ⟨hpos, (hformula hpos).symm.trans hn⟩
      · rintro ⟨hpos, hn⟩
        exact (hformula hpos).trans hn

section first
open Round Simulation

/-- The seal of the validator without a key: a signature at infinity. -/
def blankSeal : CommittedSeal := ⟨Address.zero, 0xc0 :: List.replicate 95 0⟩

/-- The extension of a block that the validator has sealed. -/
def blankSealed (e : Extension) : Extension :=
  { e with committedSeal := some ⟨blankSeal.signature, ⟨[1]⟩⟩ }

def firstCommitted : Extension := blankSealed firstExtension

/-- A block once it is committed under the validator's seal. -/
def underBlankSeal (block : Block) (e : Extension) : Block :=
  { block with header := { block.header with extraData := (blankSealed e).encode } }

/-- A chain of the genesis block and one more. -/
def afterGenesis (first : Header) (h : Nat) : Header :=
  if h = 0 then genesisHeader loneSet else first

theorem length_signature_blankSeal : blankSeal.signature.length = 96 := by
  rfl

theorem length_firstCommitted : firstCommitted.encode.length < 2 ^ 64 := by
  simp [Extension.length_encode, Extension.vanityLength, firstCommitted, blankSealed, firstExtension,
    RoundInputs.proposed, genesisExtension, Extension.none, length_signature_blankSeal]

theorem accept_firstBlock :
    firstInputs.accept firstChain 1700000000 firstBlock.encode = .ok ⟨firstBlock, []⟩ := by
  have hshort : firstExtension.encode.length < 2 ^ 64 := by
    rw [length_firstExtension]
    omega
  exact RoundInputs.accept_plain favorable_firstInputs 0 decode_genesisHeader rfl rfl (fun _ => rfl)
    nextSet_firstInputs rfl legacy_idleTransaction hshort rfl length_firstBlock_lt rfl

theorem execute_firstChain_ok {parent : Header} {block : Block} {executed : ExecutedBlock}
    (h : firstChain.execute parent block = .ok executed) : executed.block = block := by
  cases h
  rfl

theorem aggregateSeals_blankSeal :
    aggregateSeals loneSet [blankSeal] = .ok ⟨blankSeal.signature, ⟨[1]⟩⟩ :=
  toOption_eq_some_iff.1 (by decide +kernel)

/-- A first block that a round has accepted is committed under the validator's seal, and makes a chain. -/
theorem acceptedChain_of_accept {r : RoundInputs} {block : Block} {e : Extension}
    (hvalid : r.config.validate = .ok ()) (hparent : r.parent = genesisHeader loneSet)
    (hvalidators : r.validators = loneSet)
    (haccept : r.accept firstChain 1700000000 block.encode = .ok ⟨block, []⟩)
    (hbytes : block.encode.length < 2 ^ 64)
    (hextension : Extension.decode block.header.extraData = .ok e)
    (hshort : (blankSealed e).encode.length < 2 ^ 64) :
    AcceptedChain r.config 1 (afterGenesis (underBlankSeal block e).header) where
  valid := hvalid
  top_lt := by decide
  short h _ := by
    unfold afterGenesis
    split
    · have hlength : (genesisHeader loneSet).extraData.length = 274 := Extension.length_encode_checkpoint _
      omega
    · exact hshort
  genesis := ⟨rfl, _, _, ⟨decode_genesisHeader, rfl⟩, rfl⟩
  continues h hh := by
    rw [Nat.lt_one_iff.1 hh]
    have hvalidate := (validate_ok_iff (r := (ofInputs r none : Round Builder))).2 ⟨rfl, _, haccept, rfl⟩
    have haggregate : aggregateSeals r.validators [blankSeal] = .ok ⟨blankSeal.signature, ⟨[1]⟩⟩ := by
      rw [hvalidators]
      exact aggregateSeals_blankSeal
    have hseal : withSeal ⟨block, []⟩ ⟨blankSeal.signature, ⟨[1]⟩⟩ =
        .ok ⟨underBlankSeal block e, []⟩ := withSeal_ok_iff.2 ⟨e, hextension, rfl⟩
    refine ⟨Builder, Builder, _, _, _, _, firstChain, firstChain, 1700000000, _, block.encode,
      [blankSeal], ⟨underBlankSeal block e, []⟩, rfl, hparent, fun _ _ => execute_firstChain_ok, hvalidate, rfl,
      insert_ok_iff.2 ⟨.inr rfl, ?_, rfl, rfl⟩, rfl⟩
    exact sealedTarget_ok_iff.2 ⟨block, _, _, Block.decode_encode _ hbytes, rfl, rfl, haggregate, hseal⟩

/-- The first block once it is committed, if epochs have ten blocks. -/
def sealedFirstHeader : Header := (underBlankSeal firstBlock firstExtension).header

theorem acceptedChain_first : AcceptedChain Config.default 1 (afterGenesis sealedFirstHeader) := by
  have hextension : Extension.decode firstBlock.header.extraData = .ok firstExtension :=
    Extension.decode_encode _ (by rw [length_firstExtension]; omega)
  exact acceptedChain_of_accept (r := firstInputs) rfl rfl rfl accept_firstBlock length_firstBlock_lt
    hextension length_firstCommitted

def closingCommitted : Extension := blankSealed closingExtension

/-- The first block once it is committed, if epochs have one block. -/
def closingHeader : Header := (underBlankSeal closingBlock closingExtension).header

theorem length_closingCommitted : closingCommitted.encode.length < 2 ^ 64 := by
  simp [Extension.length_encode, Extension.vanityLength, closingCommitted, blankSealed, closingExtension,
    RoundInputs.proposed, genesisExtension, Extension.none, doubled, Validator.ofStake, Bitmap.empty,
    length_signature_blankSeal]

theorem decode_closingHeader : Extension.decode closingHeader.extraData = .ok closingCommitted :=
  Extension.decode_encode _ length_closingCommitted

theorem acceptedChain_closing : AcceptedChain (nodeOfSize 1).config 1 (afterGenesis closingHeader) := by
  have hlength := length_closingExtension
  have hshort : closingExtension.encode.length < 2 ^ 64 := by omega
  have haccept : closingInputs.accept firstChain 1700000000 closingBlock.encode =
      .ok ⟨closingBlock, []⟩ :=
    RoundInputs.accept_plain favorable_closingInputs 0 decode_genesisHeader rfl rfl (fun _ => rfl)
      nextSet_closingInputs stateTransactions_closingInputs legacy_idleTransaction hshort rfl
      length_closingBlock_lt rfl
  exact acceptedChain_of_accept (r := closingInputs) rfl rfl rfl haccept length_closingBlock_lt
    (Extension.decode_encode _ hshort) length_closingCommitted

/-- The same chain behind that block, from which on the power is doubled. -/
def closedChain : Chain :=
  { firstChain with validatorsAt := fun number => .ok (if number = 0 then loneSet else doubledSet) }

theorem createRound_second : ∃ round c',
    (Coordinator.createRound closedChain (Store.put (Ledger.genesisSnapshot doubledSet)) closingHeader
      (none : Option Builder) ⟨Digest.zero, none⟩).run (nodeOfSize 1) = (.ok round, c') := by
  have hread : Coordinator.readParent (nodeOfSize 1).config closingHeader = .ok (2, some doubled) := by
    simp only [Coordinator.readParent, decode_closingHeader]
    rfl
  have hdelta : (nodeOfSize 1).ledger.computeDelta closedChain
      (Store.put (Ledger.genesisSnapshot doubledSet)) 2 doubledSet = .ok .none :=
    toOption_eq_some_iff.1 (by decide)
  refine ⟨_, _, Coordinator.createRound_ok_iff.2 ⟨2, some doubled, doubledSet, _, hread, rfl,
    (Coordinator.completeInputs_ending_iff ?_).2 (RoundInputs.endingEpoch_ok_iff.2
      ⟨[], twoThirdsOfMax, .none, rfl, rfl, hdelta, rfl⟩), rfl⟩⟩
  decide

/-- In epochs of ten blocks the first block neither ends its epoch nor changes the set. In epochs of one
block it does, and the rounds for it and for the next block commit one block each. -/
theorem epochs_tile_first :
    (∃ e c e' c', sealedFirstHeader.Carries e c ∧ (genesisHeader loneSet).Carries e' c' ∧ c.epoch.toNat = 1 ∧
      c.currentSet = c'.nextSet ∧ e.delta = none ∧ c.currentSet = c.nextSet) ∧
    (∃ e c e' c', closingHeader.Carries e c ∧ (genesisHeader loneSet).Carries e' c' ∧ c.epoch.toNat = 1 ∧
      c.currentSet = c'.nextSet ∧ e.delta.isSome) ∧
    (∃ (round : Round Builder) (c' : Coordinator) (commit : EpochCommit),
      (Coordinator.createRound firstChain (Store.put (Ledger.genesisSnapshot doubledSet))
        (genesisHeader loneSet) none ⟨Digest.zero, none⟩).run (nodeOfSize 1) = (.ok round, c') ∧
      round.inputs.epochCommit = some commit ∧ commit.id.toNat = 1 ∧ commit.range.start.toNat = 1 ∧
      commit.range.finish.toNat = 1) ∧
    ∃ (round : Round Builder) (c' : Coordinator) (commit : EpochCommit),
      (Coordinator.createRound closedChain (Store.put (Ledger.genesisSnapshot doubledSet))
        closingHeader none ⟨Digest.zero, none⟩).run (nodeOfSize 1) = (.ok round, c') ∧
      round.inputs.epochCommit = some commit ∧ commit.id.toNat = 2 ∧ commit.range.start.toNat = 2 ∧
      commit.range.finish.toNat = 2 := by
  obtain ⟨hblocks, hrounds⟩ := epochs_tile acceptedChain_closing
  refine ⟨?_, ?_, ?_, ?_⟩
  · obtain ⟨e, c, e', c', hcarries, hparent, hepoch, hcurrent, hdelta, hnext⟩ :=
      (epochs_tile acceptedChain_first).1 1 (Nat.le_refl 1) (Nat.le_refl 1)
    have hinner : ¬ Config.default.epochSize.toNat ∣ 1 := by decide
    refine ⟨e, c, e', c', hcarries, hparent, hepoch, hcurrent, ?_, hnext hinner⟩
    exact Option.not_isSome_iff_eq_none.1 fun hsome => hinner (hdelta.1 hsome)
  · obtain ⟨e, c, e', c', hcarries, hparent, hepoch, hcurrent, hdelta, -⟩ :=
      hblocks 1 (Nat.le_refl 1) (Nat.le_refl 1)
    exact ⟨e, c, e', c', hcarries, hparent, hepoch, hcurrent, hdelta.2 (by decide)⟩
  · have hcreate := createRound_closing none
    obtain ⟨-, hcommits⟩ :=
      hrounds 1 (by omega) (by omega) (by omega) _ _ _ _ _ _ _ _ rfl hcreate
    obtain ⟨commit, hsome, hid, hfinish, hstart⟩ := hcommits 1 rfl
    exact ⟨_, _, commit, hcreate, hsome, hid, (hstart (by omega)).1, hfinish⟩
  · obtain ⟨round, c', hcreate⟩ := createRound_second
    obtain ⟨-, hcommits⟩ :=
      hrounds 2 (by omega) (by omega) (by omega) _ _ _ _ _ _ _ _ rfl hcreate
    obtain ⟨commit, hsome, hid, hfinish, hstart⟩ := hcommits 2 rfl
    exact ⟨round, c', commit, hcreate, hsome, hid, (hstart (by omega)).1, hfinish⟩

end first

end AcceptedChain

end EpochSeal
