import EpochSeal.StakeTable
import Mathlib.Data.List.Basic

/-! Which validators are the strongest: those of positive power that few enough others precede. -/
namespace EpochSeal

namespace Address

theorem lt_irrefl (a : Address) : ¬ a < a := List.lt_irrefl a.bytes

theorem le_total (a b : Address) : a.le b ∨ b.le a := by
  unfold le
  by_cases h : b < a
  · right
    have hnot : ¬ a < b := fun h' => lt_irrefl a (lt_trans h' h)
    simpa using hnot
  · left
    simpa using h

theorem lt_of_le_of_ne {a b : Address} (h : a.le b = true) (hne : a ≠ b) : a < b := by
  have hnot : ¬ b < a := by simpa [le] using h
  exact lt_of_not_lt_of_ne hnot (Ne.symm hne)

theorem le_of_lt {a b : Address} (h : a < b) : a.le b = true := by
  have hnot : ¬ b < a := fun h' => lt_irrefl a (lt_trans h h')
  simpa [le] using hnot

theorem le_trans {a b c : Address} (hab : a.le b = true) (hbc : b.le c = true) : a.le c = true := by
  by_cases h : a = b
  · rwa [h]
  · by_cases h' : b = c
    · rwa [← h']
    · exact le_of_lt (lt_trans (lt_of_le_of_ne hab h) (lt_of_le_of_ne hbc h'))

end Address

/-- Whether `a` strictly precedes `b`: it has greater power, or the smaller address at equal power. -/
def Validator.precedes (a b : Validator) : Bool :=
  b.power < a.power || (a.power = b.power && decide (a.address < b.address))

namespace StakeTable

theorem ranksBefore_iff {a b : Validator} :
    ranksBefore a b = true ↔ b.power < a.power ∨ a.power = b.power ∧ a.address.le b.address = true := by
  simp [ranksBefore]

theorem ranksBefore_total (a b : Validator) : ranksBefore a b ∨ ranksBefore b a := by
  simp only [ranksBefore_iff, UInt64.lt_iff_toNat_lt, ← UInt64.toNat_inj]
  rcases Nat.lt_trichotomy a.power.toNat b.power.toNat with hlt | heq | hgt
  · exact .inr (.inl hlt)
  · rcases Address.le_total a.address b.address with h | h
    · exact .inl (.inr ⟨heq, h⟩)
    · exact .inr (.inr ⟨heq.symm, h⟩)
  · exact .inl (.inl hgt)

theorem ranksBefore_trans (a b c : Validator) (hab : ranksBefore a b) (hbc : ranksBefore b c) :
    ranksBefore a c := by
  simp only [ranksBefore_iff, UInt64.lt_iff_toNat_lt, ← UInt64.toNat_inj] at hab hbc ⊢
  rcases hab with hab | ⟨hab, hab'⟩ <;> rcases hbc with hbc | ⟨hbc, hbc'⟩
  · exact .inl (by omega)
  · exact .inl (by omega)
  · exact .inl (by omega)
  · exact .inr ⟨by omega, Address.le_trans hab' hbc'⟩

theorem precedes_of_ranksBefore {a b : Validator} (h : ranksBefore a b) (hne : a.address ≠ b.address) :
    a.precedes b = true := by
  rcases ranksBefore_iff.1 h with hlt | ⟨heq, hle⟩
  · simp [Validator.precedes, hlt]
  · simp [Validator.precedes, heq, Address.lt_of_le_of_ne hle hne]

theorem precedes_irrefl (a : Validator) : a.precedes a = false := by
  simp [Validator.precedes, Address.lt_irrefl]

theorem precedes_asymm {a b : Validator} (h : a.precedes b = true) : b.precedes a = false := by
  simp only [Validator.precedes, Bool.or_eq_true, Bool.and_eq_true, decide_eq_true_eq,
    UInt64.lt_iff_toNat_lt, ← UInt64.toNat_inj, Bool.or_eq_false_iff, Bool.and_eq_false_iff,
    decide_eq_false_iff_not] at h ⊢
  rcases h with hlt | ⟨heq, hlt⟩
  · exact ⟨by omega, .inl (by omega)⟩
  · exact ⟨by omega, .inr fun h' => Address.lt_irrefl _ (Address.lt_trans hlt h')⟩

/-- In a list in strict order, the first ones are those that few enough others precede. -/
theorem mem_take_iff {members : List Validator} (size : Nat)
    (h : members.Pairwise fun a b => a.precedes b = true) {v : Validator} :
    v ∈ members.take size ↔ v ∈ members ∧ members.countP (·.precedes v) < size := by
  induction members generalizing size with
  | nil => simp
  | cons first rest ih =>
      obtain ⟨hfirst, hrest⟩ := List.pairwise_cons.1 h
      cases size with
      | zero => simp
      | succ size =>
          by_cases hv : v = first
          · have hnone : rest.countP (·.precedes first) = 0 :=
              List.countP_eq_zero.2 fun w hw => by simp [precedes_asymm (hfirst w hw)]
            simp [hv, precedes_irrefl, hnone]
          · have hiff := ih size hrest
            simp only [List.take_succ_cons, List.mem_cons, hv, false_or, hiff]
            refine and_congr_right fun hmem => ?_
            have hcount : (first :: rest).countP (·.precedes v) = rest.countP (·.precedes v) + 1 :=
              List.countP_cons_of_pos (hfirst v hmem)
            rw [hcount]
            omega

/-- Every validator is stored under its own address. -/
def Keyed (t : StakeTable) : Prop := ∀ e ∈ t.entries, e.2.address = e.1

variable {t : StakeTable}

theorem map_address_validators (h : t.Keyed) :
    t.validators.map (·.address) = t.entries.map (·.1) := by
  rw [validators, List.map_map]
  exact List.map_congr_left h

theorem nodup_addresses (h : t.Keyed) : (t.validators.map (·.address)).Nodup := by
  rw [map_address_validators h]
  refine List.pairwise_map.2 (t.sorted.imp fun hlt heq => ?_)
  rw [heq] at hlt
  exact Address.lt_irrefl _ hlt

theorem find?_eq_some_iff_mem {a : Address} {v : Validator} :
    t.find? a = some v ↔ (a, v) ∈ t.entries := by
  have hsorted := t.sorted
  unfold find?
  generalize t.entries = entries at hsorted
  induction entries with
  | nil => simp
  | cons entry rest ih =>
      obtain ⟨key, w⟩ := entry
      obtain ⟨hfirst, hrest⟩ := List.pairwise_cons.1 hsorted
      by_cases hkey : a = key
      · have hnot : (key, v) ∉ rest := fun hmem => Address.lt_irrefl key (hfirst _ hmem)
        rw [hkey, List.lookup_cons_self]
        simp [hnot, eq_comm]
      · have hlookup : List.lookup a ((key, w) :: rest) = rest.lookup a := by
          rw [List.lookup_cons, beq_eq_false_iff_ne.2 hkey]
        rw [hlookup]
        simpa [hkey] using ih hrest

theorem find?_eq_some_iff (h : t.Keyed) {a : Address} {v : Validator} :
    t.find? a = some v ↔ v ∈ t.validators ∧ v.address = a := by
  rw [find?_eq_some_iff_mem, validators, List.mem_map]
  constructor
  · intro hmem
    exact ⟨⟨(a, v), hmem, rfl⟩, h _ hmem⟩
  · rintro ⟨⟨⟨key, w⟩, hmem, rfl⟩, rfl⟩
    rwa [h _ hmem]

/-- The stored validators with power, the strongest first. -/
def ranked (t : StakeTable) : List Validator :=
  sortBy ranksBefore (t.validators.filter fun v => 0 < v.power)

theorem perm_ranked (t : StakeTable) :
    t.ranked.Perm (t.validators.filter fun v => 0 < v.power) := perm_sortBy _

theorem nodup_ranked (h : t.Keyed) : (t.ranked.map (·.address)).Nodup := by
  have hperm := (perm_ranked t).map Validator.address
  exact hperm.nodup_iff.2 ((nodup_addresses h).sublist (List.filter_sublist.map _))

theorem pairwise_ranked (h : t.Keyed) : t.ranked.Pairwise fun a b => a.precedes b = true := by
  have hsorted := pairwise_sortBy ranksBefore_total ranksBefore_trans
    (t.validators.filter fun v => 0 < v.power)
  have hdistinct := List.pairwise_map.1 (nodup_ranked h)
  exact (hsorted.and hdistinct).imp fun ⟨hranks, hne⟩ => precedes_of_ranksBefore hranks hne

/-- The strongest validators are those of positive power that few enough others precede. -/
theorem mem_strongest (h : t.Keyed) {size : Nat} {v : Validator} :
    v ∈ (t.strongest size).members ↔
      v ∈ t.validators ∧ 0 < v.power ∧ t.validators.countP (·.precedes v) < size := by
  change v ∈ t.ranked.take size ↔ _
  rw [mem_take_iff size (pairwise_ranked h), (perm_ranked t).mem_iff, List.mem_filter, and_assoc,
    (perm_ranked t).countP_eq, List.countP_filter]
  simp only [decide_eq_true_eq]
  refine and_congr_right fun _ => and_congr_right fun hpower => ?_
  -- whoever precedes a validator of positive power has some itself
  have hpositive : 0 < v.power.toNat := UInt64.lt_iff_toNat_lt.1 hpower
  have hcount : t.validators.countP (fun w => w.precedes v && decide (0 < w.power)) =
      t.validators.countP (·.precedes v) := by
    refine List.countP_congr fun w _ => ?_
    rw [Bool.and_eq_true, decide_eq_true_eq, UInt64.lt_iff_toNat_lt, UInt64.toNat_zero]
    refine and_iff_left_of_imp fun hprecedes => ?_
    simp only [Validator.precedes, Bool.and_eq_true, Bool.or_eq_true, decide_eq_true_eq,
      UInt64.lt_iff_toNat_lt, ← UInt64.toNat_inj] at hprecedes
    rcases hprecedes with hmore | ⟨hequal, _⟩ <;> omega
  rw [hcount]

theorem length_strongest_le (size : Nat) : (t.strongest size).members.length ≤ size :=
  List.length_take_le size _

theorem nodup_strongest (h : t.Keyed) (size : Nat) : (t.strongest size).addresses.Nodup :=
  (nodup_ranked h).sublist ((List.take_sublist size t.ranked).map _)

end StakeTable

end EpochSeal
