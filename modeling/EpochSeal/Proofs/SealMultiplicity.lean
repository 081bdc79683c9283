import EpochSeal.Proofs.SealHandover
import EpochSeal.Proofs.SealedDigest
import Mathlib.Data.List.Dedup

/-! How often a signature counts in a committed seal. The bitmap has one bit for each signer, but the sum
takes every seal of the list: a signer that is listed twice is selected once and counts twice. -/
namespace EpochSeal
open Outcome

theorem CryptoError.ofPoint_ok_iff {α : Type} {x : Except Bls.PointError α} {a : α} :
    CryptoError.ofPoint x = .ok a ↔ x = .ok a := by
  cases x <;> simp [CryptoError.ofPoint]

namespace Bls

theorem exists_aggregate_ok_iff {points : List (Curve.Affine Fp2)} :
    (∃ sum, aggregate points = .ok sum) ↔ ∀ point ∈ points, inGroup point = true := by
  unfold aggregate
  rw [← List.all_eq_true]
  split <;> simp [*]

end Bls

namespace SealSignature

variable {signatures : List SealSignature} {s : SealSignature} {bytes : Bytes}

/-- The signature is a point of the group. -/
def Sound (s : SealSignature) : Prop :=
  ∃ point, Bls.readSignature s.bytes = .ok point ∧ Bls.inGroup point = true

theorem eq_of_ofBytes (h : ofBytes bytes = .ok s) : s = ⟨bytes⟩ := by
  unfold ofBytes at h
  split at h
  · split at h
    · exact (Except.ok.inj h).symm
    · cases h
  · cases h

/-- Signatures have a sum if there is one at all and each is sound, however often it is listed. -/
theorem exists_aggregate_ok_iff :
    (∃ sum, aggregate signatures = .ok sum) ↔ signatures ≠ [] ∧ ∀ s ∈ signatures, s.Sound := by
  have hpoints : (∃ points, signatures.mapM (fun s => CryptoError.ofPoint (Bls.readSignature s.bytes)) =
      .ok points ∧ ∀ point ∈ points, Bls.inGroup point = true) ↔ ∀ s ∈ signatures, s.Sound := by
    rw [exists_mapM_ok_iff]
    simp only [CryptoError.ofPoint_ok_iff, Sound]
  rw [← hpoints]
  cases signatures with
  | nil => simp [aggregate]
  | cons s rest =>
      have hsome : ¬ (s :: rest).isEmpty = true := Bool.false_ne_true
      simp only [aggregate, if_neg hsome, bind_ok_iff, pure_ok_iff, CryptoError.ofPoint_ok_iff,
        ← Bls.exists_aggregate_ok_iff]
      constructor
      · rintro ⟨_, points, hread, total, htotal, -⟩
        exact ⟨List.cons_ne_nil s rest, points, hread, total, htotal⟩
      · rintro ⟨-, points, hread, total, htotal⟩
        exact ⟨_, points, hread, total, htotal, rfl⟩

end SealSignature

namespace Round

variable {validators selected : ValidatorSet} {seals again : List CommittedSeal} {committed : Seal}

/-- The signatures that are added up. -/
def signatures (seals : List CommittedSeal) : List SealSignature :=
  seals.map fun given => ⟨given.signature⟩

theorem signatures_of_read {read : List (Nat × SealSignature)}
    (h : seals.mapM (readSeal validators) = .ok read) : signatures seals = read.map (·.2) := by
  apply map_eq_of_mapM h
  intro given s hgiven
  exact (SealSignature.eq_of_ofBytes (readSeal_ok_iff.1 hgiven).2).symm

theorem aggregate_of_aggregateSeals (h : aggregateSeals validators seals = .ok committed) :
    SealSignature.aggregate (signatures seals) = .ok ⟨committed.signature⟩ := by
  simp only [aggregateSeals, bind_ok_iff, mapError_ok_iff, pure_ok_iff] at h
  obtain ⟨read, hread, sum, hsum, rfl⟩ := h
  rw [signatures_of_read hread]
  exact hsum

/-- The seals of a list can be put together if each can be read and has a sound signature. -/
theorem exists_aggregateSeals_ok_iff :
    (∃ committed, aggregateSeals validators seals = .ok committed) ↔
      seals ≠ [] ∧ ∀ given ∈ seals, ∃ s, readSeal validators given = .ok s ∧ s.2.Sound := by
  have hreadable : (∃ read, seals.mapM (readSeal validators) = .ok read ∧ ∀ s ∈ read, s.2.Sound) ↔
      ∀ given ∈ seals, ∃ s, readSeal validators given = .ok s ∧ s.2.Sound := exists_mapM_ok_iff
  rw [← hreadable]
  simp only [aggregateSeals, bind_ok_iff, mapError_ok_iff, pure_ok_iff]
  have hsums {read : List (Nat × SealSignature)} (hread : seals.mapM (readSeal validators) = .ok read) :
      (∃ sum, SealSignature.aggregate (read.map (·.2)) = .ok sum) ↔
        seals ≠ [] ∧ ∀ s ∈ read, s.2.Sound := by
    rw [SealSignature.exists_aggregate_ok_iff, List.forall_mem_map, ← signatures_of_read hread, signatures,
      ne_eq, List.map_eq_nil_iff]
  constructor
  · rintro ⟨_, read, hread, sum, hsum, -⟩
    obtain ⟨hsome, hsound⟩ := (hsums hread).1 ⟨sum, hsum⟩
    exact ⟨hsome, read, hread, hsound⟩
  · rintro ⟨hsome, read, hread, hsound⟩
    obtain ⟨sum, hsum⟩ := (hsums hread).2 ⟨hsome, hsound⟩
    exact ⟨_, read, hread, sum, hsum, rfl⟩

/-- Whether there is a seal depends on which seals are given, not on how often. -/
theorem exists_aggregateSeals_congr (hsame : ∀ given, given ∈ again ↔ given ∈ seals) :
    (∃ committed, aggregateSeals validators again = .ok committed) ↔
      ∃ committed, aggregateSeals validators seals = .ok committed := by
  have hnil : again = [] ↔ seals = [] := by
    simp only [List.eq_nil_iff_forall_not_mem, hsame]
  simp only [exists_aggregateSeals_ok_iff, ne_eq, hnil, hsame]

/-- Every signer is selected, and once. -/
theorem perm_addresses_select (hdistinct : validators.addresses.Nodup)
    (h : aggregateSeals validators seals = .ok committed)
    (hselect : validators.select committed.signers = .ok selected) :
    selected.addresses.Perm (seals.map (·.signer)).dedup := by
  obtain ⟨hselected, hmembers⟩ := select_aggregateSeals hdistinct h
  cases hselect.symm.trans hselected
  refine (List.perm_ext_iff_of_nodup ?_ (List.nodup_dedup _)).2 fun a => ?_
  · exact hdistinct.sublist (List.filter_sublist.map _)
  · simp only [ValidatorSet.addresses, List.mem_map, List.mem_filter, List.mem_dedup, decide_eq_true_eq]
    constructor
    · rintro ⟨v, ⟨-, hv⟩, rfl⟩
      exact hv
    · rintro ⟨given, hgiven, rfl⟩
      obtain ⟨v, hv, ha⟩ := List.mem_map.1 (hmembers given hgiven)
      exact ⟨v, ⟨hv, given, hgiven, ha.symm⟩, ha⟩

theorem length_indices_of_select {signers : Bitmap} (h : validators.select signers = .ok selected) :
    signers.indices.length = selected.size := (ValidatorSet.select_ok_iff.1 h).length_eq

section committing

variable {β : Type} {r closed : Round β} {chain : Chain} {proposal : Bytes} {b : ExecutedBlock}

/-- A block is the target of a round under a seal that adds the signatures of a list up and selects some
members of the set. -/
structure Commits (r : Round β) (seals : List CommittedSeal) (b : ExecutedBlock) (committed : Seal)
    (selected : ValidatorSet) : Prop where
  block : ∃ target, r.target = some target ∧ withSeal target committed = .ok b
  sum : SealSignature.aggregate (signatures seals) = .ok ⟨committed.signature⟩
  signers : r.inputs.validators.select committed.signers = .ok selected

theorem commits_of_sealedTarget (hdistinct : r.inputs.validators.addresses.Nodup)
    (h : r.sealedTarget proposal seals = .ok b) :
    ∃ committed selected, r.Commits seals b committed selected ∧
      selected.addresses.Perm (seals.map (·.signer)).dedup ∧
      selected = ⟨r.inputs.validators.members.filter fun v => decide (v.address ∈ seals.map (·.signer))⟩ := by
  obtain ⟨_, target, committed, -, htarget, -, haggregate, hwith⟩ := sealedTarget_ok_iff.1 h
  obtain ⟨hselect, -⟩ := select_aggregateSeals hdistinct haggregate
  exact ⟨committed, _, ⟨⟨target, htarget, hwith⟩, aggregate_of_aggregateSeals haggregate, hselect⟩,
    perm_addresses_select hdistinct haggregate hselect, rfl⟩

theorem exists_sealedTarget_congr (h : r.sealedTarget proposal seals = .ok b)
    (hsame : ∀ given, given ∈ again ↔ given ∈ seals) : ∃ b', r.sealedTarget proposal again = .ok b' := by
  obtain ⟨proposed, target, committed, hproposed, htarget, hdigest, haggregate, hwith⟩ :=
    sealedTarget_ok_iff.1 h
  obtain ⟨committed', haggregate'⟩ := (exists_aggregateSeals_congr hsame).2 ⟨committed, haggregate⟩
  obtain ⟨e, he, -⟩ := withSeal_ok_iff.1 hwith
  exact ⟨_, sealedTarget_ok_iff.2 ⟨proposed, target, committed', hproposed, htarget, hdigest, haggregate',
    withSeal_ok_iff.2 ⟨e, he, rfl⟩⟩⟩

/-- A seal adds up one signature for each seal in the list and selects each signer once. So there is one
signature for each bit exactly if no signer is listed twice. A list that repeats some is neither refused nor
counted once: it commits the block as well, with the same signers. -/
theorem signature_count (hdistinct : r.inputs.validators.addresses.Nodup)
    (hinsert : r.insert chain proposal seals = .ok (b, closed)) :
    ∃ committed selected, r.Commits seals b committed selected ∧
      selected.addresses.Perm (seals.map (·.signer)).dedup ∧
      committed.signers.indices.length = selected.size ∧
      ((signatures seals).length = committed.signers.indices.length ↔ (seals.map (·.signer)).Nodup) ∧
      ∀ again : List CommittedSeal, (∀ given, given ∈ again ↔ given ∈ seals) →
        ∃ b' committed', r.Commits again b' committed' selected ∧
          (chain.commit b' = .ok () → r.insert chain proposal again = .ok (b', closed)) := by
  obtain ⟨hphase, hsealed, -, hclosed⟩ := insert_ok_iff.1 hinsert
  obtain ⟨committed, selected, hcommits, hsigners, hselected⟩ := commits_of_sealedTarget hdistinct hsealed
  have hbits := length_indices_of_select hcommits.signers
  have hcount : selected.size = (seals.map (·.signer)).dedup.length := by
    rw [← hsigners.length_eq, ValidatorSet.addresses, List.length_map, ValidatorSet.size]
  refine ⟨committed, selected, hcommits, hsigners, hbits, ?_, ?_⟩
  -- dropping repeated signers makes the list shorter unless there are none
  · rw [hbits, hcount, signatures, List.length_map, ← List.length_map (·.signer), ← List.dedup_eq_self]
    constructor
    · intro hlength
      exact (List.dedup_sublist _).eq_of_length hlength.symm
    · intro hnone
      rw [hnone]
  · intro again hsame
    obtain ⟨b', hsealed'⟩ := exists_sealedTarget_congr hsealed hsame
    obtain ⟨committed', selected', hcommits', -, hselected'⟩ := commits_of_sealedTarget hdistinct hsealed'
    -- which members are selected depends on who has signed only
    have hsigner (a : Address) : a ∈ again.map (·.signer) ↔ a ∈ seals.map (·.signer) := by
      simp only [List.mem_map, hsame]
    have hequal : selected' = selected := by
      simp only [hselected', hselected, hsigner]
    rw [hequal] at hcommits'
    exact ⟨b', committed', hcommits', fun hcommit => insert_ok_iff.2 ⟨hphase, hsealed', hcommit, hclosed⟩⟩

end committing

section first
open Simulation AcceptedChain

/-- The only validator may give its seal of the first block twice, and then both of its signatures are in
the sum for its one bit. -/
theorem signature_count_twice : loneSet.addresses.Nodup ∧ ∃ b committed,
    (validatedFirst 0).insert firstChain (respelledFirst 0).encode [blankSeal, blankSeal] =
      .ok (b, { validatedFirst 0 with phase := .committed }) ∧
    withSeal ⟨respelledFirst 0, []⟩ committed = .ok b ∧ committed.signers.indices.length = 1 ∧
    SealSignature.aggregate [⟨blankSeal.signature⟩, ⟨blankSeal.signature⟩] = .ok ⟨committed.signature⟩ := by
  have hdistinct : loneSet.addresses.Nodup := by decide
  have hsame : ∀ given, given ∈ [blankSeal, blankSeal] ↔ given ∈ [blankSeal] := by simp
  obtain ⟨_, selected, -, hsigners, -, -, hagain⟩ := signature_count hdistinct (insert_respelledFirst 0)
  obtain ⟨b, committed, hcommits, hinsert⟩ := hagain [blankSeal, blankSeal] hsame
  obtain ⟨_, htarget, hwith⟩ := hcommits.block
  cases htarget
  have hlone : selected.size = 1 := by
    rw [ValidatorSet.size, ← List.length_map (·.address)]
    exact hsigners.length_eq
  exact ⟨hdistinct, b, committed, hinsert rfl, hwith, (length_indices_of_select hcommits.signers).trans hlone,
    hcommits.sum⟩

end first

end Round

end EpochSeal
