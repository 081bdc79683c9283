import EpochSeal.Proofs.Outcome
import EpochSeal.Seal
import Mathlib.Algebra.BigOperators.Group.Finset.Piecewise
import Mathlib.Algebra.Order.BigOperators.Group.Finset

/-! Two quorums of one set share more than a third of its power, whatever the signatures are worth. A
member counts once, however often a bitmap or the set names its address. -/
namespace EpochSeal
open Outcome

theorem nodup_eraseDups {α : Type} [DecidableEq α] (items : List α) : items.eraseDups.Nodup := by
  match items with
  | [] => exact List.nodup_nil
  | a :: rest =>
      rw [List.eraseDups_cons, List.nodup_cons]
      have hshorter : (rest.filter fun b => !b == a).length ≤ rest.length := List.length_filter_le _ _
      constructor
      · simp [List.mem_eraseDups]
      · exact nodup_eraseDups (rest.filter fun b => !b == a)
termination_by items.length
decreasing_by
  rw [List.length_cons]
  omega

namespace ValidatorSet

/-- The power that the set resolves an address to. -/
def weight (s : ValidatorSet) (a : Address) : Nat := ((s.find? a).map (·.power.toNat)).getD 0

theorem weight_cons (v : Validator) (rest : List Validator) (a : Address) :
    weight ⟨v :: rest⟩ a = if v.address = a then v.power.toNat else weight ⟨rest⟩ a := by
  by_cases h : v.address = a <;> simp [weight, find?, h]

theorem powerOf_eq_sum (s : ValidatorSet) (signers : List Address) :
    s.powerOf signers = ∑ a ∈ signers.toFinset, s.weight a := by
  have hsame : signers.eraseDups.toFinset = signers.toFinset := by
    ext a
    simp [List.mem_eraseDups]
  rw [← hsame, List.sum_toFinset _ (nodup_eraseDups signers), powerOf]
  induction signers.eraseDups with
  | nil => rfl
  | cons a rest ih =>
      rw [List.map_cons, List.sum_cons, ← ih]
      cases hfound : s.find? a <;> simp [weight, hfound]

theorem sum_weight_le (s : ValidatorSet) (addresses : Finset Address) :
    ∑ a ∈ addresses, s.weight a ≤ s.totalPower := by
  obtain ⟨members⟩ := s
  induction members with
  | nil => simp [weight, find?]
  | cons v rest ih =>
      have hone : ∀ a, weight ⟨v :: rest⟩ a ≤
          (if v.address = a then v.power.toNat else 0) + weight ⟨rest⟩ a := by
        intro a
        rw [weight_cons]
        split <;> omega
      have hfirst : (∑ a ∈ addresses, if v.address = a then v.power.toNat else 0) ≤ v.power.toNat := by
        rw [Finset.sum_ite_eq]
        split <;> omega
      have htotal : totalPower ⟨v :: rest⟩ = v.power.toNat + totalPower ⟨rest⟩ := rfl
      have hsum := Finset.sum_le_sum fun a (_ : a ∈ addresses) => hone a
      rw [Finset.sum_add_distrib] at hsum
      omega

/-- What two groups have together and what they share is what the one and the other have. -/
theorem powerOf_add_le (s : ValidatorSet) (signers others : List Address) :
    s.powerOf signers + s.powerOf others ≤
      s.totalPower + s.powerOf (signers.filter (· ∈ others)) := by
  have hshared : (signers.filter (· ∈ others)).toFinset = signers.toFinset ∩ others.toFinset := by
    ext a
    simp
  have hunion := s.sum_weight_le (signers.toFinset ∪ others.toFinset)
  rw [powerOf_eq_sum, powerOf_eq_sum, powerOf_eq_sum, hshared, ← Finset.sum_union_inter]
  omega

/-- Rounding two thirds down and adding one leaves more than a third in common. -/
theorem totalPower_lt_of_hasQuorum {s : ValidatorSet} {signers others : List Address}
    (h : s.hasQuorum signers) (h' : s.hasQuorum others) :
    s.totalPower < 3 * s.powerOf (signers.filter (· ∈ others)) := by
  have hsum := s.powerOf_add_le signers others
  have hreached : s.quorum ≤ s.powerOf signers := of_decide_eq_true h
  have hreached' : s.quorum ≤ s.powerOf others := of_decide_eq_true h'
  rw [quorum, quorumOf] at hreached hreached'
  omega

theorem totalPower_pos_of_hasQuorum {s : ValidatorSet} {signers : List Address}
    (h : s.hasQuorum signers) : 0 < s.totalPower := by
  have hle := s.sum_weight_le signers.toFinset
  rw [← powerOf_eq_sum] at hle
  have hreached : s.quorum ≤ s.powerOf signers := of_decide_eq_true h
  rw [quorum, quorumOf] at hreached
  omega

end ValidatorSet

namespace Seal

variable {read read' : Bytes → Except CryptoError SealSignature}
  {check check' : SealSignature → List PublicKey → Bytes → Bytes → Except CryptoError Unit}
  {validators : ValidatorSet}

theorem hasQuorum_of_verifyWith {s : Seal} {digest domain : Digest}
    (h : s.verifyWith read check digest validators domain = .ok ()) :
    ∃ signers, validators.select s.signers = .ok signers ∧
      validators.hasQuorum signers.addresses = true := by
  simp only [verifyWith, bind_ok_iff, mapError_ok_iff] at h
  obtain ⟨signers, hsigners, h⟩ := h
  refine ⟨signers, hsigners, ?_⟩
  split at h
  · obtain ⟨_, hfailed, _⟩ := bind_ok_iff.1 h
    cases hfailed
  · next hquorum => simpa using hquorum

theorem third_shared_of_verifyWith {s s' : Seal} {digest digest' domain domain' : Digest}
    (h : s.verifyWith read check digest validators domain = .ok ())
    (h' : s'.verifyWith read' check' digest' validators domain' = .ok ()) :
    0 < validators.size ∧ 0 < validators.totalPower ∧
    ∃ signers signers', validators.select s.signers = .ok signers ∧
      validators.select s'.signers = .ok signers' ∧
      validators.totalPower <
        3 * validators.powerOf (signers.addresses.filter (· ∈ signers'.addresses)) := by
  obtain ⟨signers, hselect, hquorum⟩ := hasQuorum_of_verifyWith h
  obtain ⟨signers', hselect', hquorum'⟩ := hasQuorum_of_verifyWith h'
  have hpower := ValidatorSet.totalPower_pos_of_hasQuorum hquorum
  have hshared := ValidatorSet.totalPower_lt_of_hasQuorum hquorum hquorum'
  refine ⟨?_, hpower, signers, signers', hselect, hselect', hshared⟩
  apply List.length_pos_of_ne_nil
  intro hempty
  rw [ValidatorSet.totalPower, hempty] at hpower
  exact absurd hpower (by decide)

/-- Two seals that hold against one set were given by members with more than a third of its power in
common, whatever they seal. That is so for the check of BLS aggregates, and it would be so with any other
signatures. -/
theorem third_shared :
    verify = verifyWith SealSignature.ofBytes SealSignature.verifyAggregate ∧
    ∀ (read read' : Bytes → Except CryptoError SealSignature)
      (check check' : SealSignature → List PublicKey → Bytes → Bytes → Except CryptoError Unit)
      (validators : ValidatorSet) (s s' : Seal) (digest digest' domain domain' : Digest),
      s.verifyWith read check digest validators domain = .ok () →
      s'.verifyWith read' check' digest' validators domain' = .ok () →
      0 < validators.size ∧ 0 < validators.totalPower ∧
      ∃ signers signers', validators.select s.signers = .ok signers ∧
        validators.select s'.signers = .ok signers' ∧
        validators.totalPower <
          3 * validators.powerOf (signers.addresses.filter (· ∈ signers'.addresses)) :=
  ⟨rfl, fun _ _ _ _ _ _ _ _ _ _ _ => third_shared_of_verifyWith⟩

section uneven

def unevenKeys : List PublicKey :=
  [⟨Bytes.bigEndian 48
      0x95a254501b7733239ed3cec4d56737977bd09ede881d8a234560e83e5525017add3b1dcc3eabfb85e12a4131b19c253b⟩,
   ⟨Bytes.bigEndian 48
      0xac80a5e08c712d5f08f0306ad743f7d8c215d982489b84a1d6ba805733d94c006e8938f9089a75db3ffa135af33bc69a⟩,
   ⟨Bytes.bigEndian 48
      0x96df714a5cc9ddd2298546dce3d6d3827762a6d5b1c2a91e5ca93c9c898b1b4319cc105c493212a55b63080732ec2249⟩]

/-- Two members with one vote each and one with two. -/
def unevenSet : ValidatorSet :=
  ⟨[.ofStake (Address.ofLow 1) unevenKeys[0]? 1, .ofStake (Address.ofLow 2) unevenKeys[1]? 1,
    .ofStake (Address.ofLow 3) unevenKeys[2]? 2]⟩

/-- The digest that the second of two seals is over; the first is over zeros. -/
def unevenDigest : Digest := ⟨List.replicate 32 1, rfl⟩

/-- What the first and the third validator signed together. -/
def firstAggregate : SealSignature :=
  ⟨Bytes.bigEndian 96
    0xb37dfb44bd0fec1f9f5d73403bf38f5b1c21a0a615bf76da2c27428ab933eb0be14aed1790f2302357c59f5dabcf4f0d06f4f664bf02ce84c6c4a115a6fa5ffa52542c94c3bd6e608021d23ad0981a337deb8b2b2e65befec30814878276677e⟩

/-- What the second and the third validator signed together. -/
def secondAggregate : SealSignature :=
  ⟨Bytes.bigEndian 96
    0xb794cb2bc655ba9131c29de425e50c29e221442547dc8eac1df3b646b3c6269ed6180bad5971d1ea2c1bd667c017e4210a88682117ddc0c3134f57a5d130ee42554f20aa7ece898b25554d21798c2d507976e2579a9a7f2223e6deb3d9b81ecb⟩

/-- Accepts the two aggregates for what they are and nothing else. A pairing takes too long to be evaluated
in a proof; it accepts them as well. -/
def checkUneven (signature : SealSignature) (keys : List PublicKey) (message domain : Bytes) :
    Except CryptoError Unit :=
  let first := (firstAggregate, [unevenKeys[0]?, unevenKeys[2]?], Digest.zero.bytes)
  let second := (secondAggregate, [unevenKeys[1]?, unevenKeys[2]?], unevenDigest.bytes)
  if (signature, keys.map some, message) ∈ [first, second] ∧ domain = checkpointDomain.bytes then .ok ()
  else .error .verifyFailed

/-- The member with two votes is in both of the seals that three of four votes give, and the seal of one
digest is none of the other. -/
theorem third_shared_uneven :
    verifyWith SealSignature.ofBytes checkUneven ⟨firstAggregate.bytes, ⟨[5]⟩⟩ Digest.zero unevenSet
      checkpointDomain = .ok () ∧
    verifyWith SealSignature.ofBytes checkUneven ⟨secondAggregate.bytes, ⟨[6]⟩⟩ unevenDigest unevenSet
      checkpointDomain = .ok () ∧
    verifyWith SealSignature.ofBytes checkUneven ⟨firstAggregate.bytes, ⟨[5]⟩⟩ unevenDigest unevenSet
      checkpointDomain = .error (.signature .verifyFailed) ∧
    unevenSet.totalPower < 3 * unevenSet.powerOf [Address.ofLow 3] := by
  have hfirst : verifyWith SealSignature.ofBytes checkUneven ⟨firstAggregate.bytes, ⟨[5]⟩⟩ Digest.zero
      unevenSet checkpointDomain = .ok () := by decide +kernel
  have hsecond : verifyWith SealSignature.ofBytes checkUneven ⟨secondAggregate.bytes, ⟨[6]⟩⟩ unevenDigest
      unevenSet checkpointDomain = .ok () := by decide +kernel
  obtain ⟨-, hshares⟩ := third_shared
  obtain ⟨_, _, signers, signers', hselect, hselect', hshared⟩ :=
    hshares _ _ _ _ _ _ _ _ _ _ _ hfirst hsecond
  cases hselect
  cases hselect'
  exact ⟨hfirst, hsecond, by decide +kernel, hshared⟩

end uneven

end Seal

end EpochSeal
