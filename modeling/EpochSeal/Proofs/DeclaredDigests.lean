import EpochSeal.Proofs.Envelope

/-! What the digest that a state transaction declares is worth. The rules compute the digest of a call anew
and compare it with that of the call they expect, and of a commitment they look at the input, so the digest
that either declares may be any. -/
namespace EpochSeal

namespace Transaction

def redeclare (t : Transaction) (digest : Digest) : Transaction := { t with digest }

theorem sameContent_redeclare (t : Transaction) (digest : Digest) : t.SameContent (t.redeclare digest) :=
  ⟨rfl, rfl, rfl, rfl, rfl, rfl, rfl, rfl⟩

theorem SameContent.symm {t u : Transaction} (h : t.SameContent u) : u.SameContent t :=
  ⟨h.nonce.symm, h.sender.symm, h.recipient.symm, h.value.symm, h.gas.symm, h.gasPrice.symm, h.input.symm,
    h.kind.symm⟩

end Transaction

namespace RoundInputs
open Outcome Transaction

variable {r : RoundInputs} {chain : Chain} {index : Nat} {seen seen' : List StateCallKind}
  {t u : Transaction} {ts us : List Transaction}

/-- Every state transaction declares the digest that its content has at the height of the round. -/
def RightlyDeclared (r : RoundInputs) (ts : List Transaction) : Prop :=
  ∀ t ∈ ts, t.isState = true → t.digest = t.computeDigest r.height

section content

variable (h : t.SameContent u)
include h

theorem isState_eq : t.isState = u.isState := by
  rw [isState, isState, h.kind]

theorem isCommitment_eq : r.isCommitment t = r.isCommitment u := by
  rw [isCommitment, isCommitment, h.recipient]

theorem callKind?_eq : r.callKind? t = r.callKind? u := by
  rw [callKind?, callKind?, isState_eq h, isCommitment_eq h, h.input]

theorem checkCommitment_ok_congr :
    r.checkCommitment chain t = .ok () ↔ r.checkCommitment chain u = .ok () := by
  rw [checkCommitment_ok_iff, checkCommitment_ok_iff, h.input]

theorem ownCall_congr {kind : StateCallKind} : r.OwnCall t kind ↔ r.OwnCall u kind := by
  rw [OwnCall, OwnCall, h.input, h.computeDigest_eq]

theorem Permits.of_sameContent (hpermits : r.Permits chain index seen t) : r.Permits chain index seen u := by
  obtain ⟨hcommitment, hcall⟩ := hpermits
  rw [isState_eq h, isCommitment_eq h] at hcommitment hcall
  simp only [checkCommitment_ok_congr h, ownCall_congr h] at hcommitment hcall
  exact ⟨hcommitment, hcall⟩

theorem permits_congr : r.Permits chain index seen t ↔ r.Permits chain index seen u :=
  ⟨fun hpermits => hpermits.of_sameContent h, fun hpermits => hpermits.of_sameContent h.symm⟩

theorem checkTransaction_ok_congr : r.checkTransaction chain index seen t = .ok seen' ↔
    r.checkTransaction chain index seen u = .ok seen' := by
  rw [checkTransaction_ok_iff, checkTransaction_ok_iff, permits_congr h, callKind?_eq h]

end content

theorem checkFrom_ok_congr (h : List.Forall₂ SameContent ts us) :
    r.checkFrom chain index seen ts = .ok seen' ↔ r.checkFrom chain index seen us = .ok seen' := by
  induction h generalizing index seen with
  | nil => rfl
  | cons hfirst _ ih => simp only [checkFrom, bind_ok_iff, checkTransaction_ok_congr hfirst, ih]

theorem checkTransactions_ok_congr (h : List.Forall₂ SameContent ts us) :
    r.checkTransactions chain ts = .ok () ↔ r.checkTransactions chain us = .ok () := by
  simp only [checkTransactions, bind_ok_iff, checkFrom_ok_congr h]

/-- The digest of one state transaction can be declared wrongly, because there is more than one digest. -/
theorem exists_not_rightlyDeclared (ht : t ∈ ts) (hstate : t.isState = true) :
    ∃ us, List.Forall₂ SameContent ts us ∧ ¬ r.RightlyDeclared us := by
  obtain ⟨digest, hwrong⟩ : ∃ digest, digest ≠ t.computeDigest r.height := by
    by_cases hzero : t.computeDigest r.height = Digest.zero
    · exact ⟨⟨List.replicate 32 1, rfl⟩, by rw [hzero]; decide⟩
    · exact ⟨Digest.zero, Ne.symm hzero⟩
  refine ⟨ts.map fun u => u.redeclare digest, ?_, ?_⟩
  · rw [List.forall₂_map_right_iff, List.forall₂_same]
    intro u _
    exact sameContent_redeclare u digest
  · intro hright
    exact hwrong (hright (t.redeclare digest) (List.mem_map_of_mem ht) hstate)

/-- Blocks of one content are accepted together, whatever digests their transactions declare. A call that is
accepted has the content of the one that this node makes itself, unless two digest inputs collide. So what
is accepted declares the right digests only if it has no state transaction at all. -/
theorem declared_freely (r : RoundInputs) (chain : Chain) :
    (∀ ts us, List.Forall₂ SameContent ts us →
      (r.checkTransactions chain ts = .ok () ↔ r.checkTransactions chain us = .ok ())) ∧
    (∀ ts, r.checkTransactions chain ts = .ok () → ∀ t ∈ ts, t.isState = true → ¬ r.isCommitment t →
      ∃ kind own, r.ownCall? kind = some own ∧ t.computeDigest r.height = own.digest ∧
        (t.SameContent own ∨ Digest.Collide (t.digestInput r.height) (own.digestInput r.height))) ∧
    ((∀ ts, r.checkTransactions chain ts = .ok () → r.RightlyDeclared ts) ↔
      ∀ ts, r.checkTransactions chain ts = .ok () → ∀ t ∈ ts, t.isState = false) := by
  refine ⟨fun _ _ => checkTransactions_ok_congr, ?_, ?_⟩
  · intro ts haccepted t ht hstate hbridge
    obtain ⟨_, _, hpermits⟩ := permits_of_accepted haccepted ht
    obtain ⟨kind, ⟨_, own, _, _, hown, hdigest⟩, -⟩ := hpermits.call hstate hbridge
    exact ⟨kind, own, hown, hdigest, sameContent_ownCall hown hdigest⟩
  · constructor
    · intro hright ts haccepted t ht
      by_contra hstate
      obtain ⟨us, hsame, hwrong⟩ := exists_not_rightlyDeclared (r := r) ht (Bool.not_eq_false _ ▸ hstate)
      exact hwrong (hright us ((checkTransactions_ok_congr hsame).1 haccepted))
    · intro hnone ts haccepted t ht hstate
      rw [hnone ts haccepted t ht] at hstate
      cases hstate

/-- The calls that end an epoch may declare wrong digests. -/
theorem declared_freely_ending : ∃ ts, endingInputs.checkTransactions Round.firstChain ts = .ok () ∧
    ¬ endingInputs.RightlyDeclared ts := by
  obtain ⟨calls, hcalls, hlength, haccepted⟩ := accepted_endingCalls
  obtain ⟨-, -, hright⟩ := declared_freely endingInputs Round.firstChain
  obtain ⟨t, ht⟩ := List.exists_mem_of_length_pos (l := calls) (by omega)
  obtain ⟨call, value, rfl⟩ := mem_callTransactions hcalls ht
  by_contra hnone
  have hall : ∀ ts, endingInputs.checkTransactions Round.firstChain ts = .ok () →
      endingInputs.RightlyDeclared ts := by
    intro ts hts
    by_contra hwrong
    exact hnone ⟨ts, hts, hwrong⟩
  cases hright.1 hall calls haccepted _ ht

end RoundInputs

end EpochSeal
