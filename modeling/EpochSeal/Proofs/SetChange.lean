import EpochSeal.Proofs.BitmapSet
import EpochSeal.Proofs.Outcome
import EpochSeal.SetDelta
import Mathlib.Data.List.Basic

/-! What a change makes of a set of validators with distinct addresses. -/
namespace EpochSeal.ValidatorSet
open Outcome

/-- The validator with the power of an update, if that is its own. -/
def reweighBy (update v : Validator) : Validator :=
  if v.address = update.address then
    { v with power := update.power, active := 0 < update.power }
  else v

def reweigh (updated : List Validator) (v : Validator) : Validator :=
  updated.foldl (fun v update => reweighBy update v) v

theorem reweigh_cons (update : Validator) (updated : List Validator) (v : Validator) :
    reweigh (update :: updated) v = reweigh updated (reweighBy update v) := rfl

@[simp] theorem reweighBy_address (update v : Validator) : (reweighBy update v).address = v.address := by
  unfold reweighBy
  split <;> rfl

@[simp] theorem reweighBy_blsKey (update v : Validator) : (reweighBy update v).blsKey = v.blsKey := by
  unfold reweighBy
  split <;> rfl

@[simp] theorem reweigh_address (updated : List Validator) (v : Validator) :
    (reweigh updated v).address = v.address := by
  induction updated generalizing v with
  | nil => rfl
  | cons update updated ih => rw [reweigh_cons, ih, reweighBy_address]

@[simp] theorem reweigh_blsKey (updated : List Validator) (v : Validator) :
    (reweigh updated v).blsKey = v.blsKey := by
  induction updated generalizing v with
  | nil => rfl
  | cons update updated ih => rw [reweigh_cons, ih, reweighBy_blsKey]

theorem addresses_map_reweighBy (update : Validator) (members : List Validator) :
    (members.map (reweighBy update)).map (·.address) = members.map (·.address) := by
  simp [List.map_map, Function.comp_def]

theorem addresses_map_reweigh (updated members : List Validator) :
    (members.map (reweigh updated)).map (·.address) = members.map (·.address) := by
  simp [List.map_map, Function.comp_def]

/-- If all updates of a validator agree, it has the power that they say. -/
theorem reweigh_power {updated : List Validator} {v : Validator} {power : UInt64}
    (hmem : v.address ∈ updated.map (·.address) ∨ v.power = power)
    (h : ∀ update ∈ updated, update.address = v.address → update.power = power) :
    (reweigh updated v).power = power := by
  induction updated generalizing v with
  | nil => exact hmem.resolve_left (by simp)
  | cons update updated ih =>
      have hrest : ∀ other ∈ updated, other.address = v.address → other.power = power :=
        fun other hother => h other (List.mem_cons_of_mem update hother)
      rw [reweigh_cons, reweighBy]
      split
      · next heq => exact ih (.inr (h update List.mem_cons_self heq.symm)) hrest
      · next hne =>
          refine ih (hmem.imp_left fun hmem => ?_) hrest
          simpa [hne] using hmem

variable {members : List Validator}

theorem updatePower_eq {update : Validator} (hdistinct : (members.map (·.address)).Nodup)
    (hmem : update.address ∈ members.map (·.address)) :
    updatePower update members = some (members.map (reweighBy update)) := by
  induction members with
  | nil => simp at hmem
  | cons first rest ih =>
      obtain ⟨hfirst, hrest⟩ := List.nodup_cons.1 hdistinct
      rw [updatePower]
      split
      · next heq =>
          have hkeep : ∀ v ∈ rest, reweighBy update v = v := by
            intro v hv
            have hne : v.address ≠ update.address := by
              intro hsame
              exact hfirst (List.mem_map.2 ⟨v, hv, hsame.trans heq.symm⟩)
            rw [reweighBy, if_neg hne]
          rw [List.map_cons, List.map_congr_left hkeep, List.map_id', reweighBy, if_pos heq]
      · next hne =>
          have hrestMem : update.address ∈ rest.map (·.address) := by
            simpa [Ne.symm hne] using hmem
          rw [ih hrest hrestMem, List.map_cons, reweighBy, if_neg hne]
          rfl

/-- Updates of members succeed, and the last one of an address counts. -/
theorem updateAll_eq {updated : List Validator} (hdistinct : (members.map (·.address)).Nodup)
    (hmem : ∀ update ∈ updated, update.address ∈ members.map (·.address)) :
    updateAll members updated = .ok (members.map (reweigh updated)) := by
  induction updated generalizing members with
  | nil =>
      have hkeep : members.map (reweigh []) = members := List.map_id members
      rw [hkeep]
      rfl
  | cons update updated ih =>
      -- a change of power keeps every address, so the later updates still find their members
      have hfirst := updatePower_eq hdistinct (hmem update List.mem_cons_self)
      have hrest : updateAll (members.map (reweighBy update)) updated =
          .ok ((members.map (reweighBy update)).map (reweigh updated)) := by
        refine ih (by rwa [addresses_map_reweighBy]) ?_
        rw [addresses_map_reweighBy]
        exact fun other hother => hmem other (List.mem_cons_of_mem update hother)
      rw [List.map_map] at hrest
      unfold updateAll at hrest ⊢
      rw [List.foldlM_cons, hfirst]
      exact hrest

theorem addAll_eq {added : List Validator} (hdistinct : ((members ++ added).map (·.address)).Nodup) :
    addAll members added = .ok (members ++ added) := by
  -- each member is checked against those that were added in front of it
  induction added generalizing members with
  | nil => simp [addAll]
  | cons first rest ih =>
      have hnew : ¬ (members.any fun m => decide (m.address = first.address)) = true := by
        rw [List.map_append, List.nodup_append] at hdistinct
        simp only [List.any_eq_true, decide_eq_true_eq, not_exists, not_and]
        intro m hm heq
        exact hdistinct.2.2 _ (List.mem_map_of_mem hm) _ (by simp) heq
      have hrest : addAll (members ++ [first]) rest = .ok (members ++ [first] ++ rest) :=
        ih (by simpa using hdistinct)
      unfold addAll at hrest ⊢
      rw [List.foldlM_cons, if_neg hnew]
      simpa using hrest

/-- If the removed indices are those of the members without a property, the members with it stay. -/
theorem survivors_eq_filter {s : ValidatorSet} {removed : Bitmap} {stays : Validator → Bool}
    (h : ∀ i v, s.members[i]? = some v → removed.contains i = !stays v) :
    s.survivors removed = s.members.filter stays := by
  have hfilter : s.members.zipIdx.filter (fun pair => !removed.contains pair.2) =
      s.members.zipIdx.filter (stays ∘ Prod.fst) := by
    refine List.filter_congr fun pair hpair => ?_
    obtain ⟨v, i⟩ := pair
    change (!removed.contains i) = stays v
    rw [h i v (List.mem_zipIdx_iff_getElem?.1 hpair), Bool.not_not]
  change (s.members.zipIdx.filter fun pair => !removed.contains pair.2).map Prod.fst = _
  rw [hfilter, ← List.filter_map, List.zipIdx_map_fst]

/-- A change succeeds that removes members only, adds addresses that are new to those that stay, and
updates who is then there. The shortcut for an empty change gives the same. -/
theorem apply_eq {s : ValidatorSet} {delta : SetDelta}
    (hrange : ∀ i, delta.removed.contains i = true → i < s.size)
    (hdistinct : ((s.survivors delta.removed ++ delta.added).map (·.address)).Nodup)
    (hupdated : ∀ update ∈ delta.updated,
      update.address ∈ (s.survivors delta.removed ++ delta.added).map (·.address)) :
    s.apply delta = .ok ⟨(s.survivors delta.removed ++ delta.added).map (reweigh delta.updated)⟩ := by
  unfold apply
  split
  · next hempty =>
      simp only [SetDelta.isEmpty, Bool.and_eq_true, List.isEmpty_iff] at hempty
      obtain ⟨⟨hadded, hupdated'⟩, hremoved⟩ := hempty
      have hall : s.survivors delta.removed = s.members :=
        (survivors_eq_filter fun i _ _ =>
          Bitmap.contains_of_isEmpty hremoved i).trans (List.filter_true s.members)
      rw [hall, hadded, hupdated', List.append_nil]
      exact congrArg (fun members => Except.ok (mk members)) (List.map_id s.members).symm
  · next =>
      have hnone : delta.removed.indices.find? (fun i => decide (s.size ≤ i)) = none := by
        simpa [List.find?_eq_none] using hrange
      rw [hnone]
      exact bind_ok_iff.2 ⟨_, addAll_eq hdistinct, bind_ok_iff.2 ⟨_, updateAll_eq hdistinct hupdated, rfl⟩⟩

end EpochSeal.ValidatorSet
