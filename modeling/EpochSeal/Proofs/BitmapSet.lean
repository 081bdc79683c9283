import EpochSeal.Bitmap
import Mathlib.Data.List.DropRight

/-! A bitmap is the set of the numbers that it holds. Two of them that differ in zero bytes at the end
are the same set, and no others are. -/
namespace EpochSeal.Bitmap

theorem testBit_or_shift (byte : UInt8) {i j : Nat} (hi : i < 8) (hj : j < 8) :
    (byte ||| 1 <<< UInt8.ofNat i).toNat.testBit j = (byte.toNat.testBit j || decide (i = j)) := by
  have hbit : ∀ i j : Fin 8, ((1 : UInt8) <<< UInt8.ofNat i).toNat.testBit j = decide (i = j) := by
    decide
  have h := hbit ⟨i, hi⟩ ⟨j, hj⟩
  simp only [Fin.mk.injEq] at h
  rw [UInt8.toNat_or, Nat.testBit_or, h]

theorem getElem?_grown (bytes : Bytes) (count k : Nat) :
    (bytes ++ List.replicate (count - bytes.length) 0)[k]? =
      if k < bytes.length then bytes[k]? else if k < count then some 0 else none := by
  by_cases h : k < bytes.length
  · rw [if_pos h, List.getElem?_append_left h]
  · have hshift : k - bytes.length < count - bytes.length ↔ k < count := by omega
    rw [if_neg h, List.getElem?_append_right (by omega), List.getElem?_replicate]
    simp only [hshift]

theorem contains_insert (b : Bitmap) (i j : Nat) :
    (b.insert i).contains j = (b.contains j || decide (i = j)) := by
  unfold contains insert
  simp only [List.getElem?_modify, getElem?_grown]
  by_cases hbyte : i / 8 = j / 8
  · have hbits (byte : UInt8) := testBit_or_shift byte (i := i % 8) (j := j % 8) (by omega) (by omega)
    have hsame : i % 8 = j % 8 ↔ i = j := by omega
    simp only [hbyte, if_true]
    cases hget : b.bytes[j / 8]? with
    | some byte =>
        have hheld := (List.getElem?_eq_some_iff.1 hget).1
        simp only [hheld, if_true, Option.map_eq_map, Option.map_some, hbits, hsame]
    | none =>
        have hnew : ¬ j / 8 < b.bytes.length := Nat.not_lt.2 (List.getElem?_eq_none_iff.1 hget)
        simp only [hnew, if_false, Nat.lt_succ_self, if_true, Option.map_eq_map, Option.map_some,
          hbits, hsame]
        simp
  · have hne : i ≠ j := fun h => hbyte (by rw [h])
    by_cases hheld : j / 8 < b.bytes.length
    · simp [hbyte, hheld, hne]
    · by_cases hnew : j / 8 < i / 8 + 1 <;> simp [hbyte, hheld, hne, hnew]

@[simp] theorem contains_empty (i : Nat) : empty.contains i = false := by
  simp [contains, empty]

theorem lt_bitLength_of_contains {b : Bitmap} {i : Nat} (h : b.contains i = true) :
    i < b.bitLength := by
  unfold contains at h
  split at h
  · next hbyte =>
      have hlt := (List.getElem?_eq_some_iff.1 hbyte).1
      rw [bitLength]
      omega
  · cases h

@[simp] theorem mem_indices {b : Bitmap} {i : Nat} : i ∈ b.indices ↔ b.contains i = true := by
  rw [indices_eq_filter, List.mem_filter, List.mem_range]
  exact and_iff_right_of_imp lt_bitLength_of_contains

theorem pairwise_indices (b : Bitmap) : b.indices.Pairwise (· < ·) := by
  rw [indices_eq_filter]
  exact List.pairwise_lt_range.filter _

theorem nodup_indices (b : Bitmap) : b.indices.Nodup := (pairwise_indices b).imp Nat.ne_of_lt

/-- The listed numbers are those of any range that has them all. -/
theorem perm_indices {b : Bitmap} {bound : Nat} (h : ∀ i, b.contains i = true → i < bound) :
    ((List.range bound).filter b.contains).Perm b.indices := by
  refine (List.perm_ext_iff_of_nodup (List.nodup_range.filter _) (nodup_indices b)).2 ?_
  intro i
  rw [List.mem_filter, List.mem_range, mem_indices]
  exact and_iff_right_of_imp (h i)

theorem contains_of_isEmpty {b : Bitmap} (h : b.isEmpty = true) (i : Nat) : b.contains i = false := by
  unfold contains
  split
  · next byte hbyte =>
      have hzero : byte = 0 := by
        simpa using List.all_eq_true.1 h byte (List.mem_of_getElem? hbyte)
      rw [hzero]
      exact Nat.zero_testBit _
  · rfl

theorem eq_of_testBit_eq {x y : UInt8} (h : ∀ i < 8, x.toNat.testBit i = y.toNat.testBit i) : x = y := by
  apply UInt8.toNat_inj.1
  apply Nat.eq_of_testBit_eq
  intro i
  by_cases hi : i < 8
  · exact h i hi
  · have hpow : 2 ^ 8 ≤ 2 ^ i := Nat.pow_le_pow_right (by decide) (Nat.le_of_not_lt hi)
    rw [Nat.testBit_lt_two_pow (Nat.lt_of_lt_of_le x.toNat_lt hpow),
      Nat.testBit_lt_two_pow (Nat.lt_of_lt_of_le y.toNat_lt hpow)]

theorem isEmpty_iff {b : Bitmap} : b.isEmpty = true ↔ ∀ i, b.contains i = false := by
  constructor
  · exact contains_of_isEmpty
  · intro hnone
    apply List.all_eq_true.2
    intro byte hbyte
    obtain ⟨k, hk⟩ := List.getElem?_of_mem hbyte
    apply decide_eq_true
    apply eq_of_testBit_eq
    intro i hi
    have hdiv : (8 * k + i) / 8 = k := by omega
    have hmod : (8 * k + i) % 8 = i := by omega
    have hbit := hnone (8 * k + i)
    rw [contains, hdiv, hmod, hk] at hbit
    exact hbit.trans (Nat.zero_testBit i).symm

theorem trimmed_eq_nil_iff {b : Bitmap} : b.trimmed = [] ↔ b.isEmpty = true := by
  rw [isEmpty, List.all_eq_true]
  exact List.rdropWhile_eq_nil_iff

/-- The first byte goes only if nothing is left behind it. -/
theorem trimmed_cons (byte : UInt8) (rest : Bytes) : trimmed ⟨byte :: rest⟩ =
    if trimmed ⟨rest⟩ = [] ∧ byte = 0 then [] else byte :: trimmed ⟨rest⟩ := by
  simp only [trimmed, List.reverse_cons, List.dropWhile_append, List.isEmpty_iff,
    List.reverse_eq_nil_iff]
  by_cases hrest : rest.reverse.dropWhile (· = 0) = []
  · by_cases hbyte : byte = 0 <;> simp [hrest, hbyte]
  · rw [if_neg hrest, if_neg fun h => hrest h.1, List.reverse_append, List.reverse_singleton,
      List.singleton_append]

theorem contains_trimmed (b : Bitmap) (i : Nat) : contains ⟨b.trimmed⟩ i = b.contains i := by
  obtain ⟨bytes⟩ := b
  induction bytes generalizing i with
  | nil => rfl
  | cons byte rest ih =>
      rw [trimmed_cons]
      split
      · next hnone =>
          obtain ⟨hrest, rfl⟩ := hnone
          have hempty : isEmpty ⟨0 :: rest⟩ = true := by
            simpa [isEmpty] using trimmed_eq_nil_iff.1 hrest
          exact (contains_of_isEmpty hempty i).symm
      · rcases Nat.lt_or_ge i 8 with hi | hi
        · rw [contains_cons_of_lt _ _ hi, contains_cons_of_lt _ _ hi]
        · obtain ⟨j, rfl⟩ := Nat.exists_eq_add_of_le hi
          rw [contains_cons_add, contains_cons_add, ih]

theorem trimmed_congr {a b : Bitmap} (h : ∀ i, a.contains i = b.contains i) : a.trimmed = b.trimmed := by
  obtain ⟨bytes⟩ := a
  obtain ⟨bytes'⟩ := b
  induction bytes generalizing bytes' with
  | nil =>
      have hempty : isEmpty ⟨bytes'⟩ = true := isEmpty_iff.2 fun i => (h i).symm
      exact (trimmed_eq_nil_iff.2 hempty).symm
  | cons byte rest ih =>
      cases bytes' with
      | nil => exact trimmed_eq_nil_iff.2 (isEmpty_iff.2 h)
      | cons byte' rest' =>
          have hbyte : byte = byte' := by
            apply eq_of_testBit_eq
            intro i hi
            have hbit := h i
            rwa [contains_cons_of_lt _ _ hi, contains_cons_of_lt _ _ hi] at hbit
          have hrest : trimmed ⟨rest⟩ = trimmed ⟨rest'⟩ := by
            apply ih
            intro i
            have hbit := h (8 + i)
            rwa [contains_cons_add, contains_cons_add] at hbit
          rw [trimmed_cons, trimmed_cons, hbyte, hrest]

theorem sameBits_iff {a b : Bitmap} : a.sameBits b = true ↔ ∀ i, a.contains i = b.contains i := by
  rw [sameBits, decide_eq_true_eq]
  constructor
  · intro htrimmed i
    rw [← contains_trimmed a, ← contains_trimmed b, htrimmed]
  · exact trimmed_congr

/-- Two ascending lists with the same numbers are one list. -/
theorem indices_eq_iff {a b : Bitmap} : a.indices = b.indices ↔ ∀ i, a.contains i = b.contains i := by
  constructor
  · intro hsame i
    rw [Bool.eq_iff_iff, ← mem_indices, ← mem_indices, hsame]
  · intro hsame
    apply List.Perm.eq_of_pairwise (fun i j _ _ hij hji => absurd hij (Nat.lt_asymm hji))
      (pairwise_indices a) (pairwise_indices b)
    apply (List.perm_ext_iff_of_nodup (nodup_indices a) (nodup_indices b)).2
    intro i
    rw [mem_indices, mem_indices, hsame]

end EpochSeal.Bitmap
