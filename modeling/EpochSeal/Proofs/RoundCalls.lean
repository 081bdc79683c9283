import EpochSeal.Proofs.SealedDigest
import EpochSeal.Round.Proposal

/-! A round over its whole life: any calls, in any order, with collaborators that answer anything. It
stores one block at most, the one that it took for its target. -/
namespace EpochSeal
open Outcome

/-- A block that is another one with a seal of its own in the extension. -/
structure ExecutedBlock.SealedAs (target b : ExecutedBlock) : Prop where
  transactions : b.block.transactions = target.block.transactions
  receipts : b.receipts = target.receipts
  fields : { b.block.header with extraData := [] } = { target.block.header with extraData := [] }
  extension : ∃ e committed, Extension.decode target.block.header.extraData = .ok e ∧
    b.block.header.extraData = { e with committedSeal := some committed }.encode ∧
    (b.block.header.extraData.length < 2 ^ 64 →
      Extension.decode b.block.header.extraData = .ok { e with committedSeal := some committed })

namespace Round

/-- An operation on a round, with the collaborators as they are when it is called. -/
inductive Call (β : Type) where
  /-- The builder may have changed since it was used last. -/
  | build (meanwhile : β → β) (round : UInt64)
  | validate (chain : Chain) (now : UInt64) (proposal : Bytes)
  | insert (chain : Chain) (proposal : Bytes) (seals : List CommittedSeal)

inductive Reply where
  | refused (cause : RoundError)
  | built (proposal : Bytes)
  | valid
  | inserted (b : ExecutedBlock)

variable {β : Type}

/-- The block that an insertion hands over to be stored. -/
def handed (r : Round β) (proposal : Bytes) (seals : List CommittedSeal) :
    Except RoundError ExecutedBlock := do
  r.checkPhase "insert" [.proposed, .validated]
  r.sealedTarget proposal seals

/-- The block that a call stores, whatever it replies. -/
def stores? (r : Round β) : Call β → Option ExecutedBlock
  | .insert chain proposal seals =>
    match r.handed proposal seals with
    | .ok b => (chain.commit b).toOption.map fun _ => b
    | .error _ => none
  | _ => none

/-- The chain is asked to store the block that is handed over, and what it answers is the last word. -/
theorem insert_eq (r : Round β) (chain : Chain) (proposal : Bytes) (seals : List CommittedSeal) :
    r.insert chain proposal seals = do
      let b ← r.handed proposal seals
      (chain.commit b).mapError (.backend "failed to commit block")
      return (b, { r with phase := .committed }) := by
  simp only [insert, handed, bind_assoc]

theorem handed_ok_iff {r : Round β} {proposal : Bytes} {seals : List CommittedSeal} {b : ExecutedBlock} :
    r.handed proposal seals = .ok b ↔
      (r.phase = .proposed ∨ r.phase = .validated) ∧ r.sealedTarget proposal seals = .ok b := by
  simp only [handed, bind_ok_iff, exists_unit, checkPhase_ok_iff, List.mem_cons, List.not_mem_nil, or_false]

theorem sealedAs_of_handed {r : Round β} {proposal : Bytes} {seals : List CommittedSeal}
    {b : ExecutedBlock} (h : r.handed proposal seals = .ok b) :
    ∃ target, r.target = some target ∧ target.SealedAs b := by
  obtain ⟨-, hsealed⟩ := handed_ok_iff.1 h
  obtain ⟨_, target, committed, -, htarget, -, -, hwith⟩ := sealedTarget_ok_iff.1 hsealed
  obtain ⟨e, he, rfl⟩ := withSeal_ok_iff.1 hwith
  refine ⟨target, htarget, rfl, rfl, rfl, e, committed, he, rfl, ?_⟩
  intro hshort
  exact Extension.decode_encode _ hshort

/-- What a call can do to a round, by what it replies, and which block it stores. -/
inductive Moves (r r' : Round β) : Reply → Option ExecutedBlock → Prop where
  | refused (cause : RoundError) (phase : r'.phase = r.phase) (target : r'.target = r.target) :
      Moves r r' (.refused cause) none
  | built (proposal : Bytes) (target : ExecutedBlock) (before : r.phase = .waiting)
      (phase : r'.phase = .proposed) (taken : r'.target = some target) : Moves r r' (.built proposal) none
  | valid (target : ExecutedBlock) (before : r.phase = .waiting) (phase : r'.phase = .validated)
      (taken : r'.target = some target) : Moves r r' .valid none
  | inserted (target b : ExecutedBlock) (before : r.phase = .proposed ∨ r.phase = .validated)
      (phase : r'.phase = .committed) (kept : r'.target = r.target) (held : r.target = some target)
      (sealedAs : target.SealedAs b) : Moves r r' (.inserted b) (some b)

section moves

variable {r r' : Round β} {reply : Reply} {b? : Option ExecutedBlock} {stored : List ExecutedBlock}

/-- A round has a target once it has left its first phase, and it has stored a block, its target under
seals, exactly if it is committed. -/
structure Sound (r : Round β) (stored : List ExecutedBlock) : Prop where
  target : r.target = none ↔ r.phase = .waiting
  uncommitted : r.phase ≠ .committed → stored = []
  committed : r.phase = .committed →
    ∃ b target, stored = [b] ∧ r.target = some target ∧ target.SealedAs b

theorem sound_ofInputs (inputs : RoundInputs) (builder : Option β) : (ofInputs inputs builder).Sound [] where
  target := iff_of_true rfl rfl
  uncommitted _ := rfl
  committed h := by cases h

theorem Sound.moves (hsound : r.Sound stored)
    (h : r.Moves r' reply b?) : r'.Sound (stored ++ b?.toList) := by
  cases h with
  | refused cause hphase hkept =>
      rw [Option.toList_none, List.append_nil]
      constructor
      · rw [hkept, hphase]
        exact hsound.target
      · rw [hphase]
        exact hsound.uncommitted
      · rw [hphase, hkept]
        exact hsound.committed
  | built proposal target hbefore hphase htaken =>
      have hnone := hsound.uncommitted (by simp [hbefore])
      constructor <;> simp [hphase, htaken, hnone]
  | valid target hbefore hphase htaken =>
      have hnone := hsound.uncommitted (by simp [hbefore])
      constructor <;> simp [hphase, htaken, hnone]
  | inserted target b hbefore hphase hkept hheld hsealed =>
      have hopen : r.phase ≠ .committed := by
        rcases hbefore with hbefore | hbefore <;> simp [hbefore]
      have hnone := hsound.uncommitted hopen
      rw [← hkept] at hheld
      constructor
      · simp [hphase, hheld]
      · intro hne
        exact absurd hphase hne
      · intro _
        rw [hnone]
        exact ⟨b, target, rfl, hheld, hsealed⟩

theorem Sound.length_le (hsound : r.Sound stored) : stored.length ≤ 1 := by
  by_cases hphase : r.phase = .committed
  · obtain ⟨b, target, rfl, -, -⟩ := hsound.committed hphase
    exact Nat.le_refl 1
  · rw [hsound.uncommitted hphase]
    exact Nat.zero_le 1

end moves

section calls

variable [BlockBuilder β]

/-- What a call replies and the round after it. -/
def call (r : Round β) : Call β → Reply × Round β
  | .build meanwhile round =>
    match { r with builder := r.builder.map meanwhile }.buildProposal round with
    | (.ok proposal, r') => (.built proposal, r')
    | (.error cause, r') => (.refused cause, r')
  | .validate chain now proposal =>
    match r.validate chain now proposal with
    | .ok r' => (.valid, r')
    | .error cause => (.refused cause, r)
  | .insert chain proposal seals =>
    match r.insert chain proposal seals with
    | .ok (b, r') => (.inserted b, r')
    | .error cause => (.refused cause, r)

def after (r : Round β) (calls : List (Call β)) : Round β := calls.foldl (fun r c => (r.call c).2) r

/-- The blocks that a list of calls stores, in order. -/
def storedBy (r : Round β) : List (Call β) → List ExecutedBlock
  | [] => []
  | c :: calls => (r.stores? c).toList ++ (r.call c).2.storedBy calls

variable {r r' : Round β} {reply : Reply} {chain : Chain}

theorem call_of_validate {now : UInt64} {proposal : Bytes} (h : r.validate chain now proposal = .ok r') :
    r.call (.validate chain now proposal) = (.valid, r') := by
  simp only [call, h]

theorem call_of_insert {proposal : Bytes} {seals : List CommittedSeal} {b : ExecutedBlock}
    (h : r.insert chain proposal seals = .ok (b, r')) :
    r.call (.insert chain proposal seals) = (.inserted b, r') := by
  simp only [call, h]

theorem call_of_refused {proposal : Bytes} {seals : List CommittedSeal} {cause : RoundError}
    (h : r.insert chain proposal seals = .error cause) :
    r.call (.insert chain proposal seals) = (.refused cause, r) := by
  simp only [call, h]

theorem after_cons (c : Call β) (calls : List (Call β)) : r.after (c :: calls) = (r.call c).2.after calls :=
  rfl

/-- Building is refused with nothing but the builder changed, or it makes the target. -/
theorem buildProposal_cases {round : UInt64} {result : Except RoundError Bytes}
    (h : r.buildProposal round = (result, r')) :
    (∃ cause, result = .error cause ∧ r'.phase = r.phase ∧ r'.target = r.target) ∨
    (∃ target, result = .ok target.block.encode ∧ r.phase = .waiting ∧ r'.phase = .proposed ∧
      r'.target = some target) := by
  simp only [buildProposal] at h
  split at h
  · cases h
    exact .inl ⟨_, rfl, rfl, rfl⟩
  · next hparts =>
      simp only [bind_ok_iff, exists_unit, checkPhase_ok_iff, List.mem_singleton] at hparts
      split at h
      · cases h
        exact .inl ⟨_, rfl, rfl, rfl⟩
      · cases h
        exact .inr ⟨_, rfl, hparts.1, rfl, rfl⟩

theorem moves_build {meanwhile : β → β} {round : UInt64}
    (h : r.call (.build meanwhile round) = (reply, r')) : r.Moves r' reply none := by
  simp only [call] at h
  split at h
  · next proposal built hbuild =>
      cases h
      rcases buildProposal_cases hbuild with ⟨_, hresult, -⟩ | ⟨target, -, hbefore, hphase, htaken⟩
      · cases hresult
      · exact .built proposal target hbefore hphase htaken
  · next cause left hbuild =>
      cases h
      rcases buildProposal_cases hbuild with ⟨_, -, hphase, hkept⟩ | ⟨_, hresult, -⟩
      · exact .refused cause hphase hkept
      · cases hresult

theorem moves_validate {now : UInt64} {proposal : Bytes}
    (h : r.call (.validate chain now proposal) = (reply, r')) : r.Moves r' reply none := by
  simp only [call] at h
  split at h
  · next hvalidate =>
      cases h
      obtain ⟨hphase, target, -, rfl⟩ := validate_ok_iff.1 hvalidate
      exact .valid target hphase rfl rfl
  · cases h
    exact .refused _ rfl rfl

/-- An insertion that hands nothing over is refused, and so is one that the chain does not store. -/
theorem moves_insert {proposal : Bytes} {seals : List CommittedSeal}
    (h : r.call (.insert chain proposal seals) = (reply, r')) :
    r.Moves r' reply (r.stores? (.insert chain proposal seals)) := by
  simp only [call, insert_eq] at h
  simp only [stores?]
  cases hhanded : r.handed proposal seals with
  | error cause =>
      rw [hhanded] at h
      cases h
      exact .refused cause rfl rfl
  | ok b =>
      rw [hhanded] at h
      cases hcommit : chain.commit b with
      | error cause =>
          simp only [bind, Except.bind, hcommit] at h
          cases h
          simp only [hcommit]
          exact .refused _ rfl rfl
      | ok _ =>
          simp only [bind, Except.bind, hcommit] at h
          cases h
          simp only [hcommit]
          obtain ⟨hphase, -⟩ := handed_ok_iff.1 hhanded
          obtain ⟨target, htarget, hsealed⟩ := sealedAs_of_handed hhanded
          exact .inserted target b hphase rfl rfl htarget hsealed

theorem moves_call {c : Call β} (h : r.call c = (reply, r')) : r.Moves r' reply (r.stores? c) := by
  cases c with
  | build _ _ => exact moves_build h
  | validate _ _ _ => exact moves_validate h
  | insert _ _ _ => exact moves_insert h

theorem Sound.after {stored : List ExecutedBlock} (hsound : r.Sound stored) (calls : List (Call β)) :
    (r.after calls).Sound (stored ++ r.storedBy calls) := by
  induction calls generalizing r stored with
  | nil =>
      rw [storedBy, List.append_nil]
      exact hsound
  | cons c calls ih =>
      have hstep := ih (hsound.moves (moves_call (c := c) rfl))
      rw [List.append_assoc] at hstep
      exact hstep

section first
open Simulation AcceptedChain

end first

end calls

end Round

end EpochSeal
