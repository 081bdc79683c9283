/-!
Heights, epochs and times are numbers of 64 bits. Counting on from the greatest one begins again at zero;
where that would be wrong, sums and differences stop at the ends of the range.
-/
namespace EpochSeal

/-- The number after a height, an epoch or a time is one more, until the 64 bits are used up. -/
theorem toNat_succ {n : UInt64} (h : n.toNat + 1 < 2 ^ 64) : (n + 1).toNat = n.toNat + 1 := by
  rw [UInt64.toNat_add]
  exact Nat.mod_eq_of_lt h

/-- The sum, or the greatest number of 64 bits if it does not fit. -/
def saturatingAdd (a b : UInt64) : UInt64 := UInt64.ofNat (min (a.toNat + b.toNat) (2 ^ 64 - 1))

/-- The difference, or zero if it would be negative. -/
def saturatingSub (a b : UInt64) : UInt64 := if b ≤ a then a - b else 0

theorem toNat_saturatingSub (a b : UInt64) : (saturatingSub a b).toNat = a.toNat - b.toNat := by
  unfold saturatingSub
  split
  · next hle => exact UInt64.toNat_sub_of_le a b hle
  · next hlt =>
      rw [UInt64.le_iff_toNat_le] at hlt
      exact (Nat.sub_eq_zero_of_le (by omega)).symm

/-- The first height of an epoch that ends at a height, or zero if the epoch is longer than that. -/
def epochStart (epochSize last : UInt64) : UInt64 := saturatingSub (last + 1) epochSize

/-- The last height of all has none after it from which to count back. -/
theorem toNat_epochStart (epochSize : UInt64) {last : UInt64} (hlast : last.toNat + 1 < 2 ^ 64) :
    (epochStart epochSize last).toNat = last.toNat + 1 - epochSize.toNat := by
  rw [epochStart, toNat_saturatingSub, toNat_succ hlast]

end EpochSeal
