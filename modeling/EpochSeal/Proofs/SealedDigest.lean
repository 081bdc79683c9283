import EpochSeal.Proofs.EpochSequence
import EpochSeal.Proofs.HeaderForm

/-! Whether a block keeps its digest when it is committed. The digest that a round accepted is kept as
it was declared, but the extension is written anew around the seals. -/
namespace EpochSeal
open Outcome

theorem Extension.decode_behind {vanity : Bytes} (e : Extension) (hvanity : vanity.length = vanityLength)
    (hlen : (Wire.encode e).length < 2 ^ 64) : decode (vanity ++ Wire.encode e) = .ok e := by
  rw [decode_append hvanity, Wire.read_encode e hlen]
  rfl

theorem Extension.length_of_decode {extraData : Bytes} {e : Extension} (h : decode extraData = .ok e) :
    vanityLength ≤ extraData.length := by
  by_contra hshort
  rw [decode, if_pos (Nat.not_le.1 hshort)] at h
  cases h

/-- The same block with an extension that reads the same but may be spelled in other bytes. -/
def Block.respell (b : Block) (extraData : Bytes) : Block :=
  { b with header := { b.header with extraData }.withDigest }

/-- No check looks at the bytes of an extension but through reading it, so the spelling is up to the
proposer. -/
theorem RoundInputs.checkBlock_respell {r : RoundInputs} {chain : Chain} {now : UInt64} {block : Block}
    {extraData : Bytes} {e : Extension} (hcheck : r.checkBlock chain now block = .ok ())
    (he : Extension.decode block.header.extraData = .ok e)
    (hspelled : Extension.decode extraData = .ok e) :
    r.checkBlock chain now (block.respell extraData) = .ok () := by
  obtain ⟨hheader, e', c, parentExtension, parentCheckpoint, next, hcarries, hparent, hseal, htransactions,
    hnext, hvalid⟩ := checkBlock_ok_iff.1 hcheck
  cases he.symm.trans hcarries.1
  obtain ⟨-, hlink, hnumber, htime, hnonce, hgas, hlater, hmix, hdifficulty, -⟩ :=
    Header.checkAgainst_ok_iff.1 hheader
  apply checkBlock_ok_iff.2
  refine ⟨?_, e, c, parentExtension, parentCheckpoint, next, ⟨hspelled, hcarries.2⟩, hparent, hseal,
    htransactions, hnext, hvalid⟩
  apply Header.checkAgainst_ok_iff.2
  exact ⟨Extension.length_of_decode hspelled, hlink, hnumber, htime, hnonce, hgas, hlater, hmix,
    hdifficulty, rfl⟩

namespace Round

variable {β : Type} {r validated closed : Round β} {chain chain' : Chain} {now : UInt64}
  {proposal received : Bytes} {seals : List CommittedSeal} {b stored : ExecutedBlock}

/-- An engine that does not change a block leaves the block of the proposal for a target. -/
theorem target_of_validate (hvalidate : r.validate chain now proposal = .ok validated)
    (hexecute : ∀ block executed, chain.execute r.inputs.parent block = .ok executed →
      executed.block = block) :
    ∃ block receipts e c, Block.decode proposal = .ok block ∧
      r.inputs.checkBlock chain now block = .ok () ∧ block.header.Carries e c ∧
      block.header.digest = block.header.computeDigest ∧
      validated = { r with target := some ⟨block, receipts⟩, phase := .validated } := by
  obtain ⟨-, target, haccept, rfl⟩ := validate_ok_iff.1 hvalidate
  obtain ⟨block, hdecode, hcheck, hrun⟩ := RoundInputs.accept_ok_iff.1 haccept
  obtain ⟨hheader, e, c, _, _, _, hcarries, -⟩ := RoundInputs.checkBlock_ok_iff.1 hcheck
  obtain ⟨-, -, -, -, -, -, -, -, -, hdigest⟩ := Header.checkAgainst_ok_iff.1 hheader
  cases hexecute block target hrun
  exact ⟨target.block, target.receipts, e, c, hdecode, hcheck, hcarries, hdigest, rfl⟩

/-- The seal stays out of the digest input, so sealing a block leaves it as it is exactly if what is
covered of the extension has the form that writing gives it. -/
theorem digestInput_withSeal_iff {committed : Seal} {e : Extension}
    (he : Extension.decode b.block.header.extraData = .ok e)
    (hsealed : withSeal b committed = .ok stored)
    (hshort : stored.block.header.extraData.length < 2 ^ 64) :
    b.block.header.digestInput = stored.block.header.digestInput ↔
      e.committedSeal.isSome ∨ b.block.header.extraData = e.encode := by
  obtain ⟨e', he', rfl⟩ := withSeal_ok_iff.1 hsealed
  cases he.symm.trans he'
  have hstrip := Extension.stripSeal_encode { e with committedSeal := some committed } hshort
  rw [Header.digestInput_eq_iff, hstrip]
  exact Extension.stripSeal_eq_iff he

/-- Committing an accepted block keeps the digest that it declares. This is the digest of what is stored
exactly if the proposer wrote the extension as it is written here, or put a seal of the block's own into
it: without one, whatever bytes it is spelled in are covered. -/
theorem digest_insert_iff (hvalidate : r.validate chain now proposal = .ok validated)
    (hexecute : ∀ block executed, chain.execute r.inputs.parent block = .ok executed →
      executed.block = block)
    (hinsert : validated.insert chain' received seals = .ok (stored, closed))
    (hshort : stored.block.header.extraData.length < 2 ^ 64) :
    ∃ block e, Block.decode proposal = .ok block ∧ Extension.decode block.header.extraData = .ok e ∧
      chain'.commit stored = .ok () ∧ block.header.digest = block.header.computeDigest ∧
      stored.block.header.digest = block.header.digest ∧
      (stored.block.header.digest = stored.block.header.computeDigest ↔
        e.committedSeal.isSome ∨ block.header.extraData = e.encode ∨
          Digest.Collide block.header.digestInput stored.block.header.digestInput) := by
  obtain ⟨block, receipts, e, _, hdecode, -, hcarries, hdigest, rfl⟩ := target_of_validate hvalidate hexecute
  obtain ⟨-, hsealed, hcommit, -⟩ := insert_ok_iff.1 hinsert
  obtain ⟨_, target, committed, -, htarget, -, -, hwith⟩ := sealedTarget_ok_iff.1 hsealed
  cases htarget
  have hkept : stored.block.header.digest = block.header.digest := by
    obtain ⟨_, _, rfl⟩ := withSeal_ok_iff.1 hwith
    rfl
  have hinput := digestInput_withSeal_iff hcarries.1 hwith hshort
  refine ⟨block, e, hdecode, hcarries.1, hcommit, hdigest, hkept, ?_⟩
  rw [hkept, hdigest, Header.computeDigest_eq_iff, hinput, or_assoc]

section first
open Simulation AcceptedChain

/-- The extension of the first block behind a byte that a proposer may choose. -/
def firstSpelling (vanity : UInt8) : Bytes :=
  (vanity :: List.replicate 31 0) ++ Wire.encode firstExtension

theorem decode_firstSpelling (vanity : UInt8) :
    Extension.decode (firstSpelling vanity) = .ok firstExtension := by
  have hlength : firstExtension.encode.length =
      Extension.vanityLength + (Wire.encode firstExtension).length := by
    rw [Extension.encode, List.length_append, List.length_replicate]
  rw [length_firstExtension] at hlength
  exact Extension.decode_behind firstExtension rfl (by omega)

theorem checkBlock_firstBlock : firstInputs.checkBlock firstChain 1700000000 firstBlock = .ok () := by
  obtain ⟨block, hdecode, hcheck, -⟩ := RoundInputs.accept_ok_iff.1 accept_firstBlock
  cases (Block.decode_encode _ length_firstBlock_lt).symm.trans hdecode
  exact hcheck

/-- The first block, spelled with that byte. -/
def respelledFirst (vanity : UInt8) : Block := firstBlock.respell (firstSpelling vanity)

def validatedFirst (vanity : UInt8) : Round Builder :=
  { ofInputs firstInputs none with
    target := some ⟨respelledFirst vanity, []⟩
    phase := .validated }

/-- What is stored of it under the seal of the validator. -/
def storedFirst (vanity : UInt8) : ExecutedBlock :=
  ⟨⟨{ (respelledFirst vanity).header with extraData := firstCommitted.encode },
    firstBlock.transactions⟩, []⟩

theorem decode_respelledFirst (vanity : UInt8) :
    Block.decode (respelledFirst vanity).encode = .ok (respelledFirst vanity) := by
  have hlength : (respelledFirst vanity).encode.length < 2 ^ 64 := by
    have hlt := length_firstBlock_lt
    rw [Block.length_encode, Header.length_encode] at hlt ⊢
    exact hlt
  exact Block.decode_encode _ hlength

theorem validate_respelledFirst (vanity : UInt8) :
    (ofInputs firstInputs none : Round Builder).validate firstChain 1700000000
      (respelledFirst vanity).encode = .ok (validatedFirst vanity) := by
  have hspelled := RoundInputs.checkBlock_respell checkBlock_firstBlock (decode_firstSpelling 0)
    (decode_firstSpelling vanity)
  apply validate_ok_iff.2
  refine ⟨rfl, ⟨respelledFirst vanity, []⟩, ?_, rfl⟩
  exact RoundInputs.accept_ok_iff.2 ⟨_, decode_respelledFirst vanity, hspelled, rfl⟩

theorem insert_respelledFirst (vanity : UInt8) :
    (validatedFirst vanity).insert firstChain (respelledFirst vanity).encode [blankSeal] =
      .ok (storedFirst vanity, { validatedFirst vanity with phase := .committed }) := by
  have hseal : withSeal ⟨respelledFirst vanity, []⟩ ⟨blankSeal.signature, ⟨[1]⟩⟩ =
      .ok (storedFirst vanity) := withSeal_ok_iff.2 ⟨firstExtension, decode_firstSpelling vanity, rfl⟩
  apply insert_ok_iff.2
  refine ⟨.inr rfl, ?_, rfl, rfl⟩
  exact sealedTarget_ok_iff.2 ⟨_, _, _, decode_respelledFirst vanity, rfl, rfl, aggregateSeals_blankSeal,
    hseal⟩

/-- With zeros in front the first block keeps its digest. With a one among them it is accepted and
committed all the same, and then no longer has the digest that it declares. -/
theorem digest_insert_spellings :
    (storedFirst 0).block.header.digest = (storedFirst 0).block.header.computeDigest ∧
    (ofInputs firstInputs none : Round Builder).validate firstChain 1700000000
      (respelledFirst 1).encode = .ok (validatedFirst 1) ∧
    (validatedFirst 1).insert firstChain (respelledFirst 1).encode [blankSeal] =
      .ok (storedFirst 1, { validatedFirst 1 with phase := .committed }) ∧
    (storedFirst 1).block.header.digest = (respelledFirst 1).header.digest ∧
    (storedFirst 1).block.header.digest ≠ (storedFirst 1).block.header.computeDigest := by
  have hiff (vanity : UInt8) := digest_insert_iff (validate_respelledFirst vanity)
    (fun _ _ => execute_firstChain_ok) (insert_respelledFirst vanity) length_firstCommitted
  constructor
  · obtain ⟨block, e, hdecode, he, -, -, -, hkeeps⟩ := hiff 0
    cases (decode_respelledFirst 0).symm.trans hdecode
    cases (decode_firstSpelling 0).symm.trans he
    exact hkeeps.2 (.inr (.inl rfl))
  · obtain ⟨block, e, hdecode, he, -, -, hkept, hkeeps⟩ := hiff 1
    cases (decode_respelledFirst 1).symm.trans hdecode
    cases (decode_firstSpelling 1).symm.trans he
    have hspelling : firstSpelling 1 ≠ firstExtension.encode := by decide +kernel
    have hdigests : (respelledFirst 1).header.computeDigest ≠
        (storedFirst 1).block.header.computeDigest := by decide +kernel
    refine ⟨validate_respelledFirst 1, insert_respelledFirst 1, hkept, ?_⟩
    intro hsame
    rcases hkeeps.1 hsame with hseal | hspelled | hcollide
    · cases hseal
    · exact hspelling hspelled
    · exact hdigests hcollide.2

end first

end Round

end EpochSeal
