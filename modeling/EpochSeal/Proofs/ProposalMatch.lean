import EpochSeal.Proofs.BodyBinding
import EpochSeal.Proofs.RoundCalls

/-! Which proposals an insertion takes for the one that the round built or validated. Only the digest that
the proposal declares is compared with the target, so its other fields and its transactions may be any. -/
namespace EpochSeal
open Outcome

/-- What one declared digest says of two blocks, if it is the digest of either header: they differ at most
in the seal of their own and in the transactions, and where both roots are right the transactions have the
same digests. -/
structure Block.Alike (b target : Block) : Prop where
  header : { b.header with extraData := target.header.extraData } = target.header
  extension : Extension.stripSeal b.header.extraData = Extension.stripSeal target.header.extraData
  transactions : b.header.transactionRoot = transactionRoot b.transactions →
    target.header.transactionRoot = transactionRoot target.transactions →
      b.transactions.map (·.digest) = target.transactions.map (·.digest) ∨
        Digest.Collide (b.transactions.flatMap (·.digest.bytes))
          (target.transactions.flatMap (·.digest.bytes))

theorem Block.alike_of_digest_eq {b target : Block} (hsame : b.header.digest = target.header.digest)
    (hright : b.header.digest = b.header.computeDigest)
    (hright' : target.header.digest = target.header.computeDigest) :
    b.Alike target ∨ Digest.Collide b.header.digestInput target.header.digestInput := by
  have hcomputed : b.header.computeDigest = target.header.computeDigest := by
    rw [← hright, ← hright', hsame]
  rcases Header.computeDigest_eq_iff.1 hcomputed with hinput | hcollide
  · obtain ⟨hfields, hextension⟩ := Header.eq_of_digestInput_eq hinput
    rw [← hsame] at hfields
    refine .inl ⟨hfields, hextension, ?_⟩
    intro hroot hroot'
    have hroots := Header.transactionRoot_eq_of_digestInput_eq hinput
    rw [hroot, hroot'] at hroots
    exact digests_eq_of_transactionRoot_eq hroots
  · exact .inr hcollide

namespace Round

variable {β : Type} {r : Round β} {chain : Chain} {proposal : Bytes} {seals : List CommittedSeal}
  {proposed : Block} {target : ExecutedBlock}

/-- What an insertion does once the proposal has named the target. -/
def sealAndStore (r : Round β) (chain : Chain) (target : ExecutedBlock) (seals : List CommittedSeal) :
    Except RoundError (ExecutedBlock × Round β) := do
  let committed ← aggregateSeals r.inputs.validators seals
  let b ← withSeal target committed
  (chain.commit b).mapError (.backend "failed to commit block")
  return (b, { r with phase := .committed })

theorem never_mismatch_aggregateSeals (validators : ValidatorSet) (seals : List CommittedSeal) :
    Never .proposalMismatch (aggregateSeals validators seals) := by
  have hread (s : CommittedSeal) : Never .proposalMismatch (readSeal validators s) := by
    unfold readSeal
    cases validators.indexOf? s.signer with
    | none => exact Never.throw (by simp)
    | some index => exact Never.bind (Never.mapError (by simp)) fun _ => Never.pure _
  refine (Never.mapM hread seals).bind fun read => ?_
  exact Never.bind (Never.mapError (by simp)) fun _ => Never.pure _

theorem never_mismatch_sealAndStore (r : Round β) (chain : Chain) (target : ExecutedBlock)
    (seals : List CommittedSeal) : Never .proposalMismatch (r.sealAndStore chain target seals) := by
  refine (never_mismatch_aggregateSeals _ seals).bind fun committed => ?_
  refine Never.bind ?_ fun b => ?_
  · exact Never.bind (Never.mapError (by simp)) fun _ => Never.pure _
  · exact Never.bind (Never.mapError (by simp)) fun _ => Never.pure _

/-- A proposal that decodes is looked at no further than to its declared digest. -/
theorem sealedTarget_of_decoded (htarget : r.target = some target)
    (hdecode : Block.decode proposal = .ok proposed) :
    r.sealedTarget proposal seals =
      if proposed.header.digest = target.block.header.digest then
        aggregateSeals r.inputs.validators seals >>= withSeal target
      else .error .proposalMismatch := by
  by_cases hsame : proposed.header.digest = target.block.header.digest
  · rw [if_pos hsame]
    simp only [sealedTarget, hdecode, htarget, hsame, Except.mapError, bind, Except.bind, ne_eq, not_true,
      if_false]
  · rw [if_neg hsame]
    simp only [sealedTarget, hdecode, htarget, Ne.symm hsame, Except.mapError, bind, Except.bind, ne_eq,
      not_false_eq_true, if_true]
    rfl

theorem sealedTarget_of_undecodable {cause : WireError} (h : Block.decode proposal = .error cause) :
    r.sealedTarget proposal seals = .error (.decode cause) := by
  simp only [sealedTarget, h, Except.mapError, bind, Except.bind]

theorem handed_of_open (hphase : r.phase = .proposed ∨ r.phase = .validated) :
    r.handed proposal seals = r.sealedTarget proposal seals := by
  have hopen : r.checkPhase "insert" [.proposed, .validated] = .ok () :=
    checkPhase_ok_iff.2 (by simpa using hphase)
  rw [handed, hopen]
  rfl

section named

variable (hphase : r.phase = .proposed ∨ r.phase = .validated) (htarget : r.target = some target)
  (hdecode : Block.decode proposal = .ok proposed)
include hphase htarget hdecode

theorem insert_of_named (hsame : proposed.header.digest = target.block.header.digest) :
    r.insert chain proposal seals = r.sealAndStore chain target seals := by
  rw [insert_eq, handed_of_open hphase, sealedTarget_of_decoded htarget hdecode, if_pos hsame,
    sealAndStore, bind_assoc]

variable [BlockBuilder β]

theorem call_insert_mismatch_iff : r.call (.insert chain proposal seals) = (.refused .proposalMismatch, r) ↔
    proposed.header.digest ≠ target.block.header.digest := by
  constructor
  · intro hcall hsame
    -- past the comparison of the digests every refusal has another cause
    have hnever := never_mismatch_sealAndStore r chain target seals
    rw [← insert_of_named hphase htarget hdecode hsame] at hnever
    cases hinsert : r.insert chain proposal seals with
    | error cause =>
        rw [call_of_refused hinsert] at hcall
        cases hcall
        exact hnever hinsert
    | ok stored =>
        rw [call_of_insert hinsert] at hcall
        cases hcall
  · intro hother
    apply call_of_refused
    rw [insert_eq, handed_of_open hphase, sealedTarget_of_decoded htarget hdecode, if_neg hother]
    rfl

theorem call_insert_of_named (hsame : proposed.header.digest = target.block.header.digest) {own : Bytes}
    (hown : Block.decode own = .ok target.block) :
    r.call (.insert chain proposal seals) = r.call (.insert chain own seals) := by
  simp only [call, insert_of_named hphase htarget hdecode hsame, insert_of_named hphase htarget hown rfl]

end named

section calls

variable [BlockBuilder β]

theorem sealedAs_of_call_insert {b : ExecutedBlock} {r' : Round β} (htarget : r.target = some target)
    (h : r.call (.insert chain proposal seals) = (.inserted b, r')) : target.SealedAs b := by
  have hmoves := moves_call h
  generalize r.stores? _ = stored at hmoves
  cases hmoves with
  | inserted held b _ _ _ hheld hsealed =>
      cases htarget.symm.trans hheld
      exact hsealed

/-- A round that has built or validated a block refuses the bytes that are none and the proposals that
declare another digest, and stays as it is. Any other proposal has the outcome of the target's own bytes:
what is stored is the target under the seals. Such a proposal is `Alike` to the target if either header
has the digest that it declares, which an insertion does not check. -/
theorem insert_by_digest (inputs : RoundInputs) (builder : Option β) (calls : List (Call β))
    (hphase : ((ofInputs inputs builder).after calls).phase = .proposed ∨
      ((ofInputs inputs builder).after calls).phase = .validated) :
    let r := (ofInputs inputs builder).after calls
    ∃ target, r.target = some target ∧ ∀ chain proposal seals,
      (∀ cause, Block.decode proposal = .error cause →
        r.call (.insert chain proposal seals) = (.refused (.decode cause), r)) ∧
      ∀ proposed, Block.decode proposal = .ok proposed →
        (r.call (.insert chain proposal seals) = (.refused .proposalMismatch, r) ↔
          proposed.header.digest ≠ target.block.header.digest) ∧
        (proposed.header.digest = target.block.header.digest →
          (∀ own, Block.decode own = .ok target.block →
            r.call (.insert chain proposal seals) = r.call (.insert chain own seals)) ∧
          (∀ b r', r.call (.insert chain proposal seals) = (.inserted b, r') → target.SealedAs b) ∧
          (proposed.header.digest = proposed.header.computeDigest →
            target.block.header.digest = target.block.header.computeDigest →
              proposed.Alike target.block ∨
                Digest.Collide proposed.header.digestInput target.block.header.digestInput)) := by
  intro r
  change r.phase = .proposed ∨ r.phase = .validated at hphase
  have hsound := (sound_ofInputs inputs builder).after calls
  change r.Sound _ at hsound
  have hleft : r.target ≠ none := by
    intro hnone
    have hwaiting := hsound.target.1 hnone
    rcases hphase with hphase | hphase <;> cases hwaiting.symm.trans hphase
  obtain ⟨target, htarget⟩ := Option.ne_none_iff_exists'.1 hleft
  refine ⟨target, htarget, fun chain proposal seals => ⟨?_, ?_⟩⟩
  · intro cause hcause
    apply call_of_refused
    rw [insert_eq, handed_of_open hphase, sealedTarget_of_undecodable hcause]
    rfl
  · intro proposed hdecode
    refine ⟨call_insert_mismatch_iff hphase htarget hdecode, ?_⟩
    intro hsame
    refine ⟨?_, fun b r' => sealedAs_of_call_insert htarget, Block.alike_of_digest_eq hsame⟩
    intro own hown
    exact call_insert_of_named hphase htarget hdecode hsame hown

section first
open Simulation AcceptedChain

/-- A block that declares the digest of the first one, but says that gas was used and has no transaction. -/
def disguisedFirst : Block := ⟨{ (respelledFirst 0).header with gasUsed := 7 }, []⟩

/-- The same with the digest of nothing. -/
def undisguisedFirst : Block := ⟨{ disguisedFirst.header with digest := Digest.zero }, []⟩

theorem length_disguised_lt (digest : Digest) :
    (Block.mk { disguisedFirst.header with digest } []).encode.length < 2 ^ 64 := by
  have hfull := length_firstBlock_lt
  refine Nat.lt_of_le_of_lt (Block.length_encode_le _ firstBlock.transactions) ?_
  rw [Block.length_encode, Header.length_encode] at hfull ⊢
  exact hfull

theorem after_validate_first : (ofInputs firstInputs none : Round Builder).after
    [.validate firstChain 1700000000 (respelledFirst 0).encode] = validatedFirst 0 := by
  rw [after_cons, call_of_validate (validate_respelledFirst 0)]
  rfl

/-- The round of the first height has validated its block. It stores it on a proposal that is another
block with the same declared digest, and refuses this other block under another digest. -/
theorem insert_by_digest_disguised :
    let r : Round Builder := (ofInputs firstInputs none).after
      [.validate firstChain 1700000000 (respelledFirst 0).encode]
    Block.decode disguisedFirst.encode = .ok disguisedFirst ∧
      r.target = some ⟨respelledFirst 0, []⟩ ∧
      disguisedFirst.header ≠ (respelledFirst 0).header ∧
      disguisedFirst.transactions ≠ (respelledFirst 0).transactions ∧
      r.call (.insert firstChain disguisedFirst.encode [blankSeal]) =
        (.inserted (storedFirst 0), { validatedFirst 0 with phase := .committed }) ∧
      r.call (.insert firstChain undisguisedFirst.encode [blankSeal]) = (.refused .proposalMismatch, r) := by
  intro r
  have hr : r = validatedFirst 0 := after_validate_first
  have hphase : r.phase = .validated := by rw [hr]; rfl
  have htarget : r.target = some ⟨respelledFirst 0, []⟩ := by rw [hr]; rfl
  have hdisguised : Block.decode disguisedFirst.encode = .ok disguisedFirst :=
    Block.decode_encode _ (length_disguised_lt _)
  have hundisguised : Block.decode undisguisedFirst.encode = .ok undisguisedFirst :=
    Block.decode_encode _ (length_disguised_lt _)
  have hown : r.call (.insert firstChain (respelledFirst 0).encode [blankSeal]) =
      (.inserted (storedFirst 0), { validatedFirst 0 with phase := .committed }) := by
    rw [hr]
    exact call_of_insert (insert_respelledFirst 0)
  obtain ⟨target, htarget', hinsert⟩ := insert_by_digest firstInputs (none : Option Builder)
    [.validate firstChain 1700000000 (respelledFirst 0).encode] (.inr hphase)
  cases htarget.symm.trans htarget'
  refine ⟨hdisguised, htarget, ?_, ?_, ?_, ?_⟩
  · intro hsame
    cases congrArg Header.gasUsed hsame
  · intro hsame
    cases hsame
  · obtain ⟨-, hnamed⟩ := (hinsert firstChain disguisedFirst.encode [blankSeal]).2 _ hdisguised
    exact ((hnamed rfl).1 _ (decode_respelledFirst 0)).trans hown
  · obtain ⟨hmismatch, -⟩ := (hinsert firstChain undisguisedFirst.encode [blankSeal]).2 _ hundisguised
    have hother : Digest.zero ≠ (respelledFirst 0).header.digest := by decide +kernel
    exact hmismatch.2 hother

end first

end calls

end Round

end EpochSeal
