import EpochSeal.Proofs.Outcome
import EpochSeal.Proofs.RecordForm
import EpochSeal.Round.Sealing
import EpochSeal.Round.Validation

/-! What a block has passed that a round has accepted, and what committing it changes: nothing but the
block's own seal. -/
namespace EpochSeal
open Outcome

/-- A header carries an extension with a checkpoint. -/
def Header.Carries (h : Header) (e : Extension) (c : Checkpoint) : Prop :=
  Extension.decode h.extraData = .ok e ∧ e.checkpoint = some c

theorem Header.Carries.unique {h : Header} {e e' : Extension} {c c' : Checkpoint}
    (hcarries : h.Carries e c) (hcarries' : h.Carries e' c') : e = e' ∧ c = c' := by
  obtain ⟨hextension, hcheckpoint⟩ := hcarries
  obtain ⟨hextension', hcheckpoint'⟩ := hcarries'
  rw [hextension] at hextension'
  cases hextension'
  rw [hcheckpoint] at hcheckpoint'
  cases hcheckpoint'
  exact ⟨rfl, rfl⟩

theorem Checkpoint.validate_ok_iff {c parent : Checkpoint} {current next : ValidatorSet}
    {eventRoot : Digest} {startsEpoch : Bool} :
    c.validate parent current next eventRoot startsEpoch = .ok () ↔
      c.currentSet = current.digest ∧ c.nextSet = next.digest ∧ parent.nextSet = c.currentSet ∧
        c.epoch = epochAfter parent.epoch startsEpoch ∧ c.eventRoot = eventRoot := by
  simp only [validate, ite_error_ok_iff, ne_eq, Decidable.not_not, and_true]

namespace RoundInputs

variable {r : RoundInputs} {chain : Chain} {now : UInt64}

/-- A block announces the change that this node computed, or none if it does not end an epoch. -/
theorem checkDelta_ok_iff {announced : Option SetDelta} {next : ValidatorSet} :
    r.checkDelta announced = .ok next ↔
      if r.endsEpoch then ∃ delta expected, announced = some delta ∧ r.delta = some expected ∧
        delta.same expected ∧ r.validators.apply delta = .ok next
      else announced = none ∧ next = r.validators := by
  unfold checkDelta
  cases r.endsEpoch with
  | false => cases announced <;> simp [eq_comm]
  | true =>
      cases announced with
      | none => simp
      | some delta =>
          cases r.delta with
          | none => simp
          | some expected =>
              by_cases hsame : delta.same expected <;> simp [hsame]

theorem checkBlock_ok_iff {block : Block} :
    r.checkBlock chain now block = .ok () ↔
      block.header.checkAgainst r.parent r.config.blockTimeDrift now = .ok () ∧
      ∃ extension checkpoint parentExtension parentCheckpoint next,
        block.header.Carries extension checkpoint ∧ r.parent.Carries parentExtension parentCheckpoint ∧
        r.checkParentSeal chain block.header.number extension parentExtension = .ok () ∧
        r.checkTransactions chain block.transactions = .ok () ∧
        r.checkDelta extension.delta = .ok next ∧
        checkpoint.validate parentCheckpoint r.validators next r.eventRoot r.startsEpoch = .ok () := by
  simp only [checkBlock, bind_ok_iff, mapError_ok_iff, exists_unit]
  refine and_congr_right fun _ => ?_
  constructor
  · rintro ⟨extension, hextension, parentExtension, hparent, h⟩
    split at h
    · next checkpoint hcheckpoint =>
        split at h
        · next parentCheckpoint hparentCheckpoint =>
            simp only [bind_ok_iff, mapError_ok_iff, exists_unit] at h
            obtain ⟨hseal, htransactions, next, hnext, hvalid⟩ := h
            exact ⟨extension, checkpoint, parentExtension, parentCheckpoint, next,
              ⟨hextension, hcheckpoint⟩, ⟨hparent, hparentCheckpoint⟩, hseal, htransactions, hnext, hvalid⟩
        · simp at h
    · simp at h
  · rintro ⟨extension, checkpoint, parentExtension, parentCheckpoint, next, ⟨hextension, hcheckpoint⟩,
      ⟨hparent, hparentCheckpoint⟩, hseal, htransactions, hnext, hvalid⟩
    refine ⟨extension, hextension, parentExtension, hparent, ?_⟩
    rw [hcheckpoint, hparentCheckpoint]
    simp only [bind_ok_iff, mapError_ok_iff, exists_unit]
    exact ⟨hseal, htransactions, next, hnext, hvalid⟩

theorem accept_ok_iff {proposal : Bytes} {target : ExecutedBlock} :
    r.accept chain now proposal = .ok target ↔ ∃ block, Block.decode proposal = .ok block ∧
      r.checkBlock chain now block = .ok () ∧ chain.execute r.parent block = .ok target := by
  simp only [accept, bind_ok_iff, mapError_ok_iff, exists_unit]

end RoundInputs

namespace Round

variable {β : Type} {r r' : Round β} {chain : Chain} {now : UInt64} {proposal : Bytes}

theorem checkPhase_ok_iff {operation : String} {allowed : List Phase} :
    r.checkPhase operation allowed = .ok () ↔ r.phase ∈ allowed := by
  unfold checkPhase
  split <;> simp_all

theorem validate_ok_iff : r.validate chain now proposal = .ok r' ↔
    r.phase = .waiting ∧ ∃ target, r.inputs.accept chain now proposal = .ok target ∧
      r' = { r with target := some target, phase := .validated } := by
  simp only [validate, bind_ok_iff, exists_unit, checkPhase_ok_iff, List.mem_singleton, pure_ok_iff,
    @eq_comm _ r']

theorem withSeal_ok_iff {b sealedBlock : ExecutedBlock} {committed : Seal} :
    withSeal b committed = .ok sealedBlock ↔
      ∃ extension, Extension.decode b.block.header.extraData = .ok extension ∧
        sealedBlock = { b with block := { b.block with header := { b.block.header with
          extraData := { extension with committedSeal := some committed }.encode } } } := by
  simp only [withSeal, bind_ok_iff, mapError_ok_iff, pure_ok_iff, @eq_comm _ sealedBlock]

theorem sealedTarget_ok_iff {seals : List CommittedSeal} {sealedBlock : ExecutedBlock} :
    r.sealedTarget proposal seals = .ok sealedBlock ↔
      ∃ proposed target committed, Block.decode proposal = .ok proposed ∧ r.target = some target ∧
        target.block.header.digest = proposed.header.digest ∧
        aggregateSeals r.inputs.validators seals = .ok committed ∧
        withSeal target committed = .ok sealedBlock := by
  simp only [sealedTarget, bind_ok_iff, mapError_ok_iff]
  constructor
  · rintro ⟨proposed, hproposed, h⟩
    split at h
    · next target htarget =>
        split at h
        · simp at h
        · next hdigest =>
            simp only [bind_ok_iff] at h
            obtain ⟨committed, hcommitted, hsealed⟩ := h
            exact ⟨proposed, target, committed, hproposed, htarget, Decidable.not_not.1 hdigest, hcommitted, hsealed⟩
    · simp at h
  · rintro ⟨proposed, target, committed, hproposed, htarget, hdigest, hcommitted, hsealed⟩
    refine ⟨proposed, hproposed, ?_⟩
    rw [htarget]
    simp only [hdigest, ne_eq, not_true, if_false, bind_ok_iff]
    exact ⟨committed, hcommitted, hsealed⟩

theorem insert_ok_iff {seals : List CommittedSeal} {sealedBlock : ExecutedBlock} :
    r.insert chain proposal seals = .ok (sealedBlock, r') ↔
      (r.phase = .proposed ∨ r.phase = .validated) ∧ r.sealedTarget proposal seals = .ok sealedBlock ∧
        chain.commit sealedBlock = .ok () ∧ r' = { r with phase := .committed } := by
  simp only [insert, bind_ok_iff, exists_unit, checkPhase_ok_iff, mapError_ok_iff, pure_ok_iff,
    Prod.mk.injEq, List.mem_cons, List.not_mem_nil, or_false]
  constructor
  · rintro ⟨hphase, found, hsealed, hcommit, rfl, rfl⟩
    exact ⟨hphase, hsealed, hcommit, rfl⟩
  · rintro ⟨hphase, hsealed, hcommit, rfl⟩
    exact ⟨hphase, sealedBlock, hsealed, hcommit, rfl, rfl⟩

/-- Committing a block changes its own seal and nothing else that it carries. -/
theorem carries_withSeal {b sealedBlock : ExecutedBlock} {committed : Seal} {e : Extension}
    {c : Checkpoint} (hsealed : withSeal b committed = .ok sealedBlock)
    (hcarries : b.block.header.Carries e c) (hshort : sealedBlock.block.header.extraData.length < 2 ^ 64) :
    sealedBlock.block.header.Carries { e with committedSeal := some committed } c := by
  obtain ⟨extension, hextension, rfl⟩ := withSeal_ok_iff.1 hsealed
  rw [hcarries.1] at hextension
  cases hextension
  exact ⟨Extension.decode_encode _ hshort, hcarries.2⟩

end Round

end EpochSeal
