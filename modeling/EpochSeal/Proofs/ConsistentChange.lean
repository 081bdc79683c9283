import EpochSeal.Proofs.SetChange
import Mathlib.Data.List.Forall2
import Mathlib.Data.List.Induction

/-! Which changes of a set succeed, and what they make of it. Changes come with blocks from other nodes, so
that nothing is known of them: a member may be removed and added again, or be updated twice. -/
namespace EpochSeal

/-- A change removes members only; whoever stays or is added then has an address of its own, and no one
else is updated. -/
structure SetDelta.Fits (d : SetDelta) (s : ValidatorSet) : Prop where
  removed : ∀ i, d.removed.contains i = true → i < s.size
  distinct : ((s.survivors d.removed ++ d.added).map (·.address)).Nodup
  updated : ∀ update ∈ d.updated, update.address ∈ (s.survivors d.removed ++ d.added).map (·.address)

namespace ValidatorSet
open Outcome

variable {s next : ValidatorSet} {delta : SetDelta} {members added updated result : List Validator}

def lastUpdate? (updated : List Validator) (a : Address) : Option Validator :=
  (updated.filter fun update => update.address = a).getLast?

/-- A member before and after the updates. -/
structure UpdatedBy (updated : List Validator) (v w : Validator) : Prop where
  address : w.address = v.address
  blsKey : w.blsKey = v.blsKey
  power : w.power = ((lastUpdate? updated v.address).map (·.power)).getD v.power
  active : v.address ∈ updated.map (·.address) → w.active = decide (0 < w.power)
  untouched : v.address ∉ updated.map (·.address) → w = v

/-- Those that stay come first, in their old order, then those that are added, in theirs. -/
structure Changed (s : ValidatorSet) (delta : SetDelta) (next : ValidatorSet) : Prop where
  members : List.Forall₂ (UpdatedBy delta.updated) (s.survivors delta.removed ++ delta.added) next.members
  distinct : next.addresses.Nodup
  size : next.size + delta.removed.indices.length = s.size + delta.added.length

theorem lastUpdate?_append (updated : List Validator) (update : Validator) (a : Address) :
    lastUpdate? (updated ++ [update]) a =
      if update.address = a then some update else lastUpdate? updated a := by
  unfold lastUpdate?
  rw [List.filter_append, List.getLast?_append]
  by_cases h : update.address = a <;> simp [h]

theorem UpdatedBy.append {update v w : Validator} (h : UpdatedBy updated v w) :
    UpdatedBy (updated ++ [update]) v (reweighBy update w) := by
  have hmem : v.address ∈ (updated ++ [update]).map (·.address) ↔
      v.address ∈ updated.map (·.address) ∨ v.address = update.address := by
    rw [List.map_append, List.mem_append, List.map_singleton, List.mem_singleton]
  refine ⟨(reweighBy_address update w).trans h.address, (reweighBy_blsKey update w).trans h.blsKey,
    ?_, ?_, ?_⟩
  · rw [lastUpdate?_append, reweighBy, h.address]
    by_cases hsame : v.address = update.address
    · rw [if_pos hsame, if_pos hsame.symm]
      rfl
    · rw [if_neg hsame, if_neg (Ne.symm hsame)]
      exact h.power
  · intro hupdated
    rw [reweighBy, h.address]
    by_cases hsame : v.address = update.address
    · rw [if_pos hsame]
    · rw [if_neg hsame]
      exact h.active ((hmem.1 hupdated).resolve_right hsame)
  · intro hother
    rw [hmem, not_or] at hother
    rw [reweighBy, h.address, if_neg hother.2]
    exact h.untouched hother.1

/-- The updates are made one after another, so that of several for one member the last one counts. -/
theorem updatedBy_reweigh (updated : List Validator) (v : Validator) :
    UpdatedBy updated v (reweigh updated v) := by
  induction updated using List.reverseRecOn with
  | nil =>
      refine ⟨rfl, rfl, rfl, ?_, fun _ => rfl⟩
      intro hupdated
      cases hupdated
  | append_singleton updated update ih =>
      have hlast : reweigh (updated ++ [update]) v = reweighBy update (reweigh updated v) := by
        simp [reweigh]
      rw [hlast]
      exact ih.append

theorem addAll_ok_iff (hdistinct : (members.map (·.address)).Nodup) :
    addAll members added = .ok result ↔
      ((members ++ added).map (·.address)).Nodup ∧ result = members ++ added := by
  constructor
  · intro h
    induction added generalizing members with
    | nil =>
        cases h
        simpa using hdistinct
    | cons first rest ih =>
        obtain ⟨members', hfirst, hrest⟩ := bind_ok_iff.1 h
        obtain ⟨hnew, hmembers'⟩ := ite_error_ok_iff.1 hfirst
        cases hmembers'
        have hdistinct' : ((members ++ [first]).map (·.address)).Nodup := by
          simp only [List.any_eq_true, decide_eq_true_eq, not_exists, not_and] at hnew
          rw [List.map_append, List.nodup_append]
          refine ⟨hdistinct, by simp, ?_⟩
          intro a ha b hb heq
          obtain ⟨m, hm, rfl⟩ := List.mem_map.1 ha
          exact hnew m hm (heq.trans (List.mem_singleton.1 hb))
        simpa using ih hdistinct' hrest
  · rintro ⟨hall, rfl⟩
    exact addAll_eq hall

theorem updatePower_eq_none {update : Validator} (h : update.address ∉ members.map (·.address)) :
    updatePower update members = none := by
  induction members with
  | nil => rfl
  | cons first rest ih =>
      rw [List.map_cons, List.mem_cons, not_or] at h
      rw [updatePower, if_neg (Ne.symm h.1), ih h.2]
      rfl

theorem updateAll_ok_iff (hdistinct : (members.map (·.address)).Nodup) :
    updateAll members updated = .ok result ↔
      (∀ update ∈ updated, update.address ∈ members.map (·.address)) ∧
        result = members.map (reweigh updated) := by
  constructor
  · intro h
    have hmem : ∀ update ∈ updated, update.address ∈ members.map (·.address) := by
      induction updated generalizing members with
      | nil => exact List.forall_mem_nil _
      | cons update rest ih =>
          have hfirst : update.address ∈ members.map (·.address) := by
            by_contra hnone
            unfold updateAll at h
            rw [List.foldlM_cons, updatePower_eq_none hnone] at h
            cases h
          unfold updateAll at h
          rw [List.foldlM_cons, updatePower_eq hdistinct hfirst] at h
          have hrest := ih (by rwa [addresses_map_reweighBy]) h
          rw [addresses_map_reweighBy] at hrest
          exact List.forall_mem_cons.2 ⟨hfirst, hrest⟩
    rw [updateAll_eq hdistinct hmem, Except.ok.injEq] at h
    exact ⟨hmem, h.symm⟩
  · rintro ⟨hmem, rfl⟩
    exact updateAll_eq hdistinct hmem

theorem survivors_sublist (s : ValidatorSet) (removed : Bitmap) :
    (s.survivors removed).Sublist s.members := by
  have hsublist := (List.filter_sublist (p := fun pair => !removed.contains pair.2)
    (l := s.members.zipIdx)).map Prod.fst
  rwa [List.zipIdx_map_fst] at hsublist

/-- A removed member is removed by one bit. -/
theorem length_survivors {removed : Bitmap} (hrange : ∀ i, removed.contains i = true → i < s.size) :
    (s.survivors removed).length + removed.indices.length = s.size := by
  have hstay : (s.survivors removed).length =
      (List.range s.size).countP (fun i => !removed.contains i) := by
    rw [survivors, List.length_map, ← List.countP_eq_length_filter, List.range_eq_range',
      size, ← List.zipIdx_map_snd, List.countP_map]
    rfl
  have hgo : removed.indices.length = (List.range s.size).countP removed.contains := by
    rw [← (Bitmap.perm_indices hrange).length_eq, ← List.countP_eq_length_filter]
  have hall := List.length_eq_countP_add_countP removed.contains (l := List.range s.size)
  rw [List.length_range] at hall
  rw [hstay, hgo, Nat.add_comm]
  simpa using hall.symm

theorem fits_of_isEmpty (hdistinct : s.addresses.Nodup) (hempty : delta.isEmpty = true) :
    delta.Fits s := by
  simp only [SetDelta.isEmpty, Bool.and_eq_true, List.isEmpty_iff] at hempty
  obtain ⟨⟨hadded, hupdated⟩, hremoved⟩ := hempty
  refine ⟨?_, ?_, ?_⟩
  · intro i hi
    rw [Bitmap.contains_of_isEmpty hremoved] at hi
    cases hi
  · rw [hadded, List.append_nil]
    exact hdistinct.sublist ((survivors_sublist s delta.removed).map _)
  · rw [hupdated]
    exact List.forall_mem_nil _

/-- A change that succeeds fits the set: if one of its steps meets what it cannot do, it stops there. -/
theorem fits_of_apply (hdistinct : s.addresses.Nodup) (h : s.apply delta = .ok next) : delta.Fits s := by
  unfold apply at h
  split at h
  · next hempty => exact fits_of_isEmpty hdistinct hempty
  · next =>
      split at h
      · cases h
      · next hrange =>
          simp only [bind_ok_iff, pure_ok_iff] at h
          obtain ⟨members, hadded, updated, hupdated, -⟩ := h
          have hstay : ((s.survivors delta.removed).map (·.address)).Nodup :=
            hdistinct.sublist ((survivors_sublist s delta.removed).map _)
          obtain ⟨hall, rfl⟩ := (addAll_ok_iff hstay).1 hadded
          refine ⟨?_, hall, ((updateAll_ok_iff hall).1 hupdated).1⟩
          simpa [List.find?_eq_none] using hrange

theorem changed_of_fits (h : delta.Fits s) : Changed s delta
    ⟨(s.survivors delta.removed ++ delta.added).map (reweigh delta.updated)⟩ := by
  refine ⟨?_, ?_, ?_⟩
  · rw [List.forall₂_map_right_iff, List.forall₂_same]
    intro v _
    exact updatedBy_reweigh delta.updated v
  · have haddresses := h.distinct
    rwa [← addresses_map_reweigh] at haddresses
  · have hlength := length_survivors h.removed
    rw [size, List.length_map, List.length_append]
    omega

/-- Exactly the changes that fit a set succeed, and what comes out is the changed set. -/
theorem apply_iff_fits (hdistinct : s.addresses.Nodup) (delta : SetDelta) :
    ((∃ next, s.apply delta = .ok next) ↔ delta.Fits s) ∧
      ∀ next, s.apply delta = .ok next → Changed s delta next := by
  constructor
  · constructor
    · rintro ⟨next, h⟩
      exact fits_of_apply hdistinct h
    · intro hfits
      exact ⟨_, apply_eq hfits.removed hfits.distinct hfits.updated⟩
  · intro next h
    have hfits := fits_of_apply hdistinct h
    rw [apply_eq hfits.removed hfits.distinct hfits.updated] at h
    cases h
    exact changed_of_fits hfits

def returnSet : ValidatorSet :=
  ⟨([(1, 10), (2, 20), (3, 30)] : List (UInt64 × UInt64)).map fun (a, power) =>
    Validator.ofStake (Address.ofLow a) none power⟩

/-- The second member goes and comes back with a key and less power. A fourth one is added and updated
twice, to no power in the end. -/
def returnDelta : SetDelta :=
  ⟨[Validator.ofStake (Address.ofLow 2) (some ⟨[7]⟩) 5, Validator.ofStake (Address.ofLow 4) none 40],
    ([(4, 8), (1, 11), (4, 0)] : List (UInt64 × UInt64)).map fun (a, power) =>
      Validator.ofStake (Address.ofLow a) none power,
    ⟨[0b10, 0]⟩⟩

def returnedSet : ValidatorSet :=
  ⟨[Validator.ofStake (Address.ofLow 1) none 11, Validator.ofStake (Address.ofLow 3) none 30,
    Validator.ofStake (Address.ofLow 2) (some ⟨[7]⟩) 5, Validator.ofStake (Address.ofLow 4) none 0]⟩

/-- The change fits the set, but not if it is to remove a member more than there is. -/
theorem apply_iff_fits_return : returnSet.addresses.Nodup ∧ returnDelta.Fits returnSet ∧
    Changed returnSet returnDelta returnedSet ∧
      ¬ SetDelta.Fits { returnDelta with removed := ⟨[0b1010]⟩ } returnSet := by
  have hdistinct : returnSet.addresses.Nodup := by decide
  have happly : returnSet.apply returnDelta = .ok returnedSet := rfl
  have hstray : returnSet.apply { returnDelta with removed := ⟨[0b1010]⟩ } =
      .error (.removedOutOfRange 3 3) := rfl
  obtain ⟨hiff, hchanged⟩ := apply_iff_fits hdistinct returnDelta
  refine ⟨hdistinct, hiff.1 ⟨_, happly⟩, hchanged _ happly, ?_⟩
  intro hfits
  obtain ⟨next, h⟩ := (apply_iff_fits hdistinct _).1.2 hfits
  rw [hstray] at h
  cases h

end ValidatorSet

end EpochSeal
