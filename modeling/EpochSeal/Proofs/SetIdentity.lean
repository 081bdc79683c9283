import EpochSeal.Proofs.Ranking
import EpochSeal.Proofs.TransactionForm

/-! What the digest of a validator set is taken of says who is in the set, with which key and power, and
nothing about the order. -/
namespace EpochSeal

/-- What a set's digest says about one member. -/
def Validator.identity (v : Validator) : Address × Option PublicKey × UInt64 :=
  (v.address, v.blsKey, v.power)

namespace ValidatorSet

variable {s t : ValidatorSet}

def identities (s : ValidatorSet) : List (Address × Option PublicKey × UInt64) :=
  s.sorted.map Validator.identity

theorem digestInput_eq (s : ValidatorSet) : s.digestInput = Wire.encode s.identities := rfl

theorem perm_identities (s : ValidatorSet) : s.identities.Perm (s.members.map Validator.identity) :=
  (perm_sortBy s.members).map Validator.identity

/-- Distinct addresses leave one order only. -/
theorem pairwise_identities (h : s.addresses.Nodup) : s.identities.Pairwise fun x y => x.1 < y.1 := by
  have hsorted : s.sorted.Pairwise fun v w => v.address.le w.address = true :=
    @pairwise_sortBy Validator (fun v w => v.address.le w.address)
      (fun v w => Address.le_total v.address w.address) (fun _ _ _ => Address.le_trans) s.members
  have hdistinct : s.sorted.Pairwise fun v w => v.address ≠ w.address :=
    List.pairwise_map.1 (((perm_sortBy s.members).map Validator.address).nodup_iff.2 h)
  refine List.pairwise_map.2 ((hsorted.and hdistinct).imp ?_)
  rintro v w ⟨hle, hne⟩
  exact Address.lt_of_le_of_ne hle hne

theorem nodup_of_perm (h : s.addresses.Nodup)
    (hperm : (s.members.map Validator.identity).Perm (t.members.map Validator.identity)) :
    t.addresses.Nodup := by
  have haddresses (u : ValidatorSet) : u.addresses = (u.members.map Validator.identity).map (·.1) := by
    rw [List.map_map]
    rfl
  rw [haddresses] at h ⊢
  exact (hperm.map _).nodup_iff.1 h

theorem identities_eq_of_perm (h : s.addresses.Nodup)
    (hperm : (s.members.map Validator.identity).Perm (t.members.map Validator.identity)) :
    s.identities = t.identities := by
  have hall : s.identities.Perm t.identities :=
    (perm_identities s).trans (hperm.trans (perm_identities t).symm)
  refine List.Perm.eq_of_pairwise ?_ (pairwise_identities h)
    (pairwise_identities (nodup_of_perm h hperm)) hall
  intro x y _ _ hxy hyx
  exact absurd (Address.lt_trans hxy hyx) (Address.lt_irrefl x.1)

theorem digestInput_eq_iff (h : s.addresses.Nodup) (hshort : s.digestInput.length < 2 ^ 64) :
    s.digestInput = t.digestInput ↔
      (s.members.map Validator.identity).Perm (t.members.map Validator.identity) := by
  constructor
  · intro heq
    have hsame : s.identities = t.identities := Wire.encode_inj hshort heq
    have hsorted := perm_identities t
    rw [← hsame] at hsorted
    exact (perm_identities s).symm.trans hsorted
  · intro hperm
    rw [digestInput_eq, digestInput_eq, identities_eq_of_perm h hperm]

/-- The digest of a set is taken of the same bytes exactly if the members are the same with the same keys
and powers, in whatever order; what members are told about being active is not in it. So sets have one
digest if they are the same in this way, and else only if their digest inputs collide. -/
theorem digestInput_eq_iff_perm (h : s.addresses.Nodup) (hshort : s.digestInput.length < 2 ^ 64) :
    s.digest = Digest.ofMessage s.digestInput ∧
    (s.digestInput = t.digestInput ↔
      (s.members.map fun v => (v.address, v.blsKey, v.power)).Perm
        (t.members.map fun v => (v.address, v.blsKey, v.power))) ∧
    (s.digest = t.digest ↔
      (s.members.map fun v => (v.address, v.blsKey, v.power)).Perm
        (t.members.map fun v => (v.address, v.blsKey, v.power)) ∨
      Digest.Collide s.digestInput t.digestInput) := by
  have hinput := digestInput_eq_iff (t := t) h hshort
  refine ⟨digest_eq s, hinput, ?_⟩
  rw [digest_eq, digest_eq, Digest.ofMessage_eq_iff, hinput]
  rfl

/-- Three members out of order: one without a key, one with a key of the right length and one whose key no
one has checked. -/
def tripleSet : ValidatorSet :=
  ⟨[⟨Address.ofLow 3, none, 10, true⟩,
    ⟨Address.ofLow 1, some ⟨List.replicate 48 1⟩, 10, true⟩,
    ⟨Address.ofLow 2, some ⟨[7]⟩, 4, true⟩]⟩

/-- The same members in another order, one of them marked as inactive. -/
def turnedSet : ValidatorSet :=
  ⟨[⟨Address.ofLow 2, some ⟨[7]⟩, 4, false⟩,
    ⟨Address.ofLow 3, none, 10, true⟩,
    ⟨Address.ofLow 1, some ⟨List.replicate 48 1⟩, 10, true⟩]⟩

theorem digestInput_eq_iff_perm_triple :
    tripleSet.digest = Digest.ofMessage turnedSet.digestInput ∧ tripleSet.digest = turnedSet.digest ∧
      tripleSet.digestInput ≠ (ValidatorSet.mk (tripleSet.members.take 2)).digestInput := by
  have hdistinct : tripleSet.addresses.Nodup := by decide
  have hshort : tripleSet.digestInput.length < 2 ^ 64 := by decide +kernel
  have hturned : (tripleSet.members.map fun v => (v.address, v.blsKey, v.power)).Perm
      (turnedSet.members.map fun v => (v.address, v.blsKey, v.power)) := by decide
  obtain ⟨hdigest, hinput, hsame⟩ := digestInput_eq_iff_perm (t := turnedSet) hdistinct hshort
  refine ⟨?_, hsame.2 (.inl hturned), ?_⟩
  · rw [hdigest, hinput.2 hturned]
  · intro heq
    have hperm := (digestInput_eq_iff_perm hdistinct hshort).2.1.1 heq
    exact absurd hperm.length_eq (by decide)

end ValidatorSet

end EpochSeal
