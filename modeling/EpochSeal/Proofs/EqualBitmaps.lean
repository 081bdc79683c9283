import EpochSeal.Proofs.BitmapSet
import EpochSeal.Round.Validation
import EpochSeal.Uptime

/-! Equality of bitmaps and what is done with them. It is decided on the bytes without those at the end
that are zero, while a set is chosen from, a seal checked and a change applied by the numbers that are
held. A change that validation takes for its own is therefore applied as its own. -/
namespace EpochSeal

variable {a b : Bitmap} {d d' : SetDelta}

theorem ValidatorSet.select_congr (h : a.indices = b.indices) (s : ValidatorSet) :
    s.select a = s.select b := by
  rw [select, select, h]

theorem Seal.verify_congr (h : a.indices = b.indices) (signature : Bytes) (digest : Digest)
    (validators : ValidatorSet) (domain : Digest) :
    verify ⟨signature, a⟩ digest validators domain = verify ⟨signature, b⟩ digest validators domain := by
  have hselect : validators.select (Seal.mk signature a).signers =
      validators.select (Seal.mk signature b).signers := ValidatorSet.select_congr h validators
  simp only [verify, verifyWith, hselect]

theorem Bitmap.isEmpty_congr (h : a.sameBits b = true) : a.isEmpty = b.isEmpty := by
  rw [Bool.eq_iff_iff, isEmpty_iff, isEmpty_iff]
  simp only [sameBits_iff.1 h]

namespace SetDelta

theorem same_iff : d.same d' = true ↔
    d.added = d'.added ∧ d.updated = d'.updated ∧ d.removed.sameBits d'.removed = true := by
  simp only [same, Bool.and_eq_true, decide_eq_true_eq, and_assoc]

theorem isEmpty_congr (h : d.same d' = true) : d.isEmpty = d'.isEmpty := by
  obtain ⟨hadded, hupdated, hremoved⟩ := same_iff.1 h
  rw [isEmpty, isEmpty, hadded, hupdated, Bitmap.isEmpty_congr hremoved]

/-- Whatever is done with two changes, also if it fails, is the same with both. -/
structure Alike (d d' : SetDelta) : Prop where
  same : d.same d' = true
  isEmpty : d.isEmpty = d'.isEmpty
  applied : ∀ s : ValidatorSet, s.apply d = s.apply d'
  announced : ∀ previous, PowerSync.ofDelta d previous = PowerSync.ofDelta d' previous
  accepted : ∀ r : RoundInputs, r.endsEpoch = true → r.delta = some d' →
    r.checkDelta (some d) = (r.validators.apply d').mapError .validatorSet

end SetDelta

theorem ValidatorSet.apply_congr (h : d.same d' = true) (s : ValidatorSet) : s.apply d = s.apply d' := by
  obtain ⟨hadded, hupdated, hremoved⟩ := SetDelta.same_iff.1 h
  have hcontains := Bitmap.sameBits_iff.1 hremoved
  have hindices := Bitmap.indices_eq_iff.2 hcontains
  have hsurvivors : s.survivors d.removed = s.survivors d'.removed := by
    simp only [survivors, hcontains]
  rw [apply, apply, SetDelta.isEmpty_congr h, hindices, hsurvivors, hadded, hupdated]

theorem PowerSync.ofDelta_congr (h : d.same d' = true) (previous : ValidatorSet) :
    ofDelta d previous = ofDelta d' previous := by
  obtain ⟨hadded, hupdated, hremoved⟩ := SetDelta.same_iff.1 h
  have hindices := Bitmap.indices_eq_iff.2 (Bitmap.sameBits_iff.1 hremoved)
  have hremovals : removals d.removed previous = removals d'.removed previous := by
    rw [removals, removals, hindices]
  rw [ofDelta, ofDelta, SetDelta.isEmpty_congr h, hremovals, hadded, hupdated]

theorem SetDelta.alike_of_same (h : d.same d' = true) : d.Alike d' where
  same := h
  isEmpty := isEmpty_congr h
  applied := ValidatorSet.apply_congr h
  announced := PowerSync.ofDelta_congr h
  accepted := by
    intro r hends hdelta
    simp only [RoundInputs.checkDelta, hends, hdelta, if_pos h, ValidatorSet.apply_congr h]

namespace Bitmap

/-- The numbers of a bitmap are listed in ascending order, and adding one adds no other. Equality is that
of the numbers held and that of the numbers listed, whatever zero bytes stand at the end, and nothing
that is done with a bitmap tells equal ones apart. -/
theorem equality_respected (a b : Bitmap) :
    ((∀ i, i ∈ a.indices ↔ a.contains i = true) ∧ a.indices.Pairwise (· < ·) ∧
      ∀ i j, (a.insert i).contains j = true ↔ j = i ∨ a.contains j = true) ∧
    (a.sameBits b = true ↔ ∀ i, a.contains i = b.contains i) ∧
    (a.sameBits b = true ↔ a.indices = b.indices) ∧
    (a.sameBits b = true →
      (∀ s : ValidatorSet, s.select a = s.select b) ∧
      (∀ signature digest validators domain, Seal.verify ⟨signature, a⟩ digest validators domain =
        Seal.verify ⟨signature, b⟩ digest validators domain) ∧
      ∀ added updated, SetDelta.Alike ⟨added, updated, a⟩ ⟨added, updated, b⟩) := by
  refine ⟨⟨fun i => mem_indices, pairwise_indices a, ?_⟩, sameBits_iff,
    sameBits_iff.trans indices_eq_iff.symm, ?_⟩
  · intro i j
    rw [contains_insert, Bool.or_eq_true, decide_eq_true_eq, or_comm]
    exact or_congr_left eq_comm
  · intro hsame
    have hindices := indices_eq_iff.2 (sameBits_iff.1 hsame)
    refine ⟨ValidatorSet.select_congr hindices, Seal.verify_congr hindices, ?_⟩
    intro added updated
    exact SetDelta.alike_of_same (SetDelta.same_iff.2 ⟨rfl, rfl, hsame⟩)

/-- Two zero bytes at the end change nothing. -/
theorem equality_respected_padded : sameBits ⟨[5, 0, 0]⟩ ⟨[5]⟩ = true ∧ indices ⟨[5, 0, 0]⟩ = [0, 2] ∧
    (∀ s : ValidatorSet, s.select ⟨[5, 0, 0]⟩ = s.select ⟨[5]⟩) ∧
    SetDelta.Alike ⟨[], [], ⟨[5, 0, 0]⟩⟩ ⟨[], [], ⟨[5]⟩⟩ := by
  obtain ⟨-, -, -, hused⟩ := equality_respected ⟨[5, 0, 0]⟩ ⟨[5]⟩
  obtain ⟨hselect, -, halike⟩ := hused (by decide)
  exact ⟨by decide, by decide, hselect, halike [] []⟩

end Bitmap

end EpochSeal
