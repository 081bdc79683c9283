import EpochSeal.Proofs.Selection
import EpochSeal.Uptime

/-! What the uptime of an epoch counts: how often the seals that a node has stored select a member. -/
namespace EpochSeal.Uptime
open Outcome

/-- How many of the members that a block's own seal selects have an address. -/
def selections (validators : ValidatorSet) (header : Header) (a : Address) : Nat :=
  match Extension.decode header.extraData with
  | .error _ => 0
  | .ok extension =>
    match extension.committedSeal with
    | none => 0
    | some committed =>
      committed.signers.indices.countP fun i => validators.members[i]?.any fun v => v.address = a

/-- The selections in `count` blocks from height `first` on. -/
def selectionsFrom (chain : Chain) (parent : Header) (validators : ValidatorSet) (a : Address)
    (first : UInt64) : (count : Nat) → Nat
  | 0 => 0
  | count + 1 =>
    (match headerAt chain parent first with
      | .ok header => selections validators header a
      | .error _ => 0) + selectionsFrom chain parent validators a (first + 1) count

/-- How often the seals of an epoch's blocks up to `parent` select an address, as a number of 64
bits. -/
def timesSealed (chain : Chain) (epochSize : UInt64) (parent : Header) (validators : ValidatorSet)
    (a : Address) : UInt64 :=
  let first := firstHeight epochSize parent
  UInt64.ofNat (selectionsFrom chain parent validators a first
    (parent.number.toNat + 1 - first.toNat))

theorem count_select {validators selected : ValidatorSet} {bitmap : Bitmap} (a : Address)
    (h : validators.select bitmap = .ok selected) :
    selected.addresses.count a =
      bitmap.indices.countP fun i => validators.members[i]?.any fun v => v.address = a := by
  have hall := ValidatorSet.select_ok_iff.1 h
  change (selected.members.map (·.address)).count a = _
  generalize bitmap.indices = indices, selected.members = members at hall
  induction hall with
  | nil => rfl
  | cons hfound _ ih =>
      rw [List.map_cons, List.count_cons, List.countP_cons, ih, hfound]
      simp

theorem count_sealersOf {validators : ValidatorSet} {header : Header} {sealers : List Address}
    (a : Address) (h : sealersOf validators header = .ok sealers) :
    sealers.count a = selections validators header a := by
  simp only [sealersOf, bind_ok_iff, mapError_ok_iff] at h
  obtain ⟨extension, hextension, h⟩ := h
  simp only [selections, hextension]
  cases hcommitted : extension.committedSeal with
  | none =>
      rw [hcommitted] at h
      cases h
      rfl
  | some committed =>
      simp only [hcommitted, bind_ok_iff, mapError_ok_iff, pure_ok_iff] at h
      obtain ⟨selected, hselected, rfl⟩ := h
      exact count_select a hselected

theorem count_sealersFrom {chain : Chain} {parent : Header} {validators : ValidatorSet}
    {first : UInt64} {count : Nat} {sealers : List Address} (a : Address)
    (h : sealersFrom chain parent validators first count = .ok sealers) :
    sealers.count a = selectionsFrom chain parent validators a first count := by
  induction count generalizing first sealers with
  | zero =>
      cases h
      rfl
  | succ count ih =>
      simp only [sealersFrom, bind_ok_iff, pure_ok_iff] at h
      obtain ⟨header, hheader, now, hnow, later, hlater, rfl⟩ := h
      rw [List.count_append, count_sealersOf a hnow, ih hlater, selectionsFrom, hheader]

/-- The count succeeds exactly if every block is there and its seal selects members. -/
theorem sealersFrom_exists_iff {chain : Chain} {parent : Header} {validators : ValidatorSet}
    {first count : Nat} :
    (∃ sealers, sealersFrom chain parent validators (UInt64.ofNat first) count = .ok sealers) ↔
      ∀ number ∈ (List.range' first count).map UInt64.ofNat, ∃ header sealers,
        headerAt chain parent number = .ok header ∧ sealersOf validators header = .ok sealers := by
  induction count generalizing first with
  | zero => simp [sealersFrom]
  | succ count ih =>
      have hnext : UInt64.ofNat first + 1 = UInt64.ofNat (first + 1) := (UInt64.ofNat_add first 1).symm
      rw [List.range'_succ, List.map_cons, List.forall_mem_cons, ← ih]
      simp only [sealersFrom, bind_ok_iff, pure_ok_iff, hnext]
      constructor
      · rintro ⟨_, header, hheader, now, hnow, later, hlater, -⟩
        exact ⟨⟨header, now, hheader, hnow⟩, later, hlater⟩
      · rintro ⟨⟨header, now, hheader, hnow⟩, later, hlater⟩
        exact ⟨_, header, hheader, now, hnow, later, hlater, rfl⟩

/-- The heights that count for an epoch that ends with the block after `parent`. -/
def Counts (epochSize : UInt64) (parent : Header) (number : UInt64) : Prop :=
  firstHeight epochSize parent ≤ number ∧ number ≤ parent.number

theorem ofEpoch_exists {chain : Chain} {epochSize : UInt64} {parent : Header}
    {validators : ValidatorSet}
    (h : ∀ number, Counts epochSize parent number → ∃ header sealers,
      headerAt chain parent number = .ok header ∧ sealersOf validators header = .ok sealers) :
    ∃ uptime, ofEpoch chain epochSize parent validators = .ok uptime := by
  have hsealers : ∃ sealers, sealersFrom chain parent validators
      (UInt64.ofNat (firstHeight epochSize parent).toNat)
      (parent.number.toNat + 1 - (firstHeight epochSize parent).toNat) = .ok sealers := by
    refine sealersFrom_exists_iff.2 fun number hnumber => h number ?_
    obtain ⟨n, hn, rfl⟩ := List.mem_map.1 hnumber
    rw [List.mem_range'_1] at hn
    have hparent := parent.number.toNat_lt
    have hnat : (UInt64.ofNat n).toNat = n := UInt64.toNat_ofNat_of_lt' (show n < 2 ^ 64 by omega)
    refine ⟨UInt64.le_iff_toNat_le.2 ?_, UInt64.le_iff_toNat_le.2 ?_⟩
    · omega
    · omega
  rw [UInt64.ofNat_toNat] at hsealers
  obtain ⟨sealers, hsealers⟩ := hsealers
  exact ⟨_, functor_map_ok_iff.2 ⟨sealers, hsealers, rfl⟩⟩

/-- The members of a set with the count of each, less those whose count is zero. -/
def withCounts (validators : ValidatorSet) (signed : Address → UInt64) : List Uptime :=
  (validators.members.map fun v => ⟨v.address, signed v.address⟩).filter fun u => 0 < u.signed

theorem ofEpoch_ok {chain : Chain} {epochSize : UInt64} {parent : Header} {validators : ValidatorSet}
    {uptime : List Uptime} (h : ofEpoch chain epochSize parent validators = .ok uptime) :
    uptime = withCounts validators (timesSealed chain epochSize parent validators) := by
  obtain ⟨sealers, hsealers, rfl⟩ := functor_map_ok_iff.1 h
  unfold tally withCounts
  congr 1
  refine List.map_congr_left fun v _ => ?_
  rw [count_sealersFrom v.address hsealers]
  rfl

theorem length_withCounts_le (validators : ValidatorSet) (signed : Address → UInt64) :
    (withCounts validators signed).length ≤ validators.size := by
  refine Nat.le_trans (List.length_filter_le _ _) ?_
  rw [List.length_map]
  exact Nat.le_refl _

theorem mem_withCounts {validators : ValidatorSet} {signed : Address → UInt64} {a : Address}
    {n : UInt64} :
    ⟨a, n⟩ ∈ withCounts validators signed ↔ a ∈ validators.addresses ∧ signed a = n ∧ 0 < n := by
  simp only [withCounts, List.mem_filter, List.mem_map, ValidatorSet.addresses, decide_eq_true_eq,
    Uptime.mk.injEq]
  constructor
  · rintro ⟨⟨v, hv, rfl, rfl⟩, hpositive⟩
    exact ⟨⟨v, hv, rfl⟩, rfl, hpositive⟩
  · rintro ⟨⟨v, hv, rfl⟩, rfl, hpositive⟩
    exact ⟨⟨v, hv, rfl, rfl⟩, hpositive⟩

theorem withCounts_eq_iff {validators : ValidatorSet} {signed signed' : Address → UInt64} :
    withCounts validators signed = withCounts validators signed' ↔
      ∀ a ∈ validators.addresses, signed a = signed' a := by
  constructor
  · intro h a ha
    have hiff : ∀ n, 0 < n → (signed a = n ↔ signed' a = n) := by
      intro n hn
      have hmem : ⟨a, n⟩ ∈ withCounts validators signed ↔ ⟨a, n⟩ ∈ withCounts validators signed' := by
        rw [h]
      simpa [mem_withCounts, ha, hn] using hmem
    -- a member without seals stands in neither list, so zero has to be seen apart
    by_cases hzero : signed a = 0
    · by_cases hzero' : signed' a = 0
      · rw [hzero, hzero']
      · exact (hiff _ (UInt64.pos_iff_ne_zero.2 hzero')).2 rfl
    · exact ((hiff _ (UInt64.pos_iff_ne_zero.2 hzero)).1 rfl).symm
  · intro h
    unfold withCounts
    congr 1
    refine List.map_congr_left fun v hv => ?_
    rw [h v.address (List.mem_map_of_mem hv)]

end EpochSeal.Uptime
