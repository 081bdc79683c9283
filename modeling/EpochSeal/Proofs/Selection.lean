import EpochSeal.Proofs.BitmapSet
import EpochSeal.Proofs.Outcome
import EpochSeal.Validator

/-! Which members of a set a bitmap selects, and at which place a member stands. -/
namespace EpochSeal.ValidatorSet
open Outcome

variable {s selected : ValidatorSet} {bitmap : Bitmap} {p : Validator → Bool}

theorem mapM_filter_range {pick : Nat → Except ValidatorSetError Validator}
    (hpick : ∀ i v, s.members[i]? = some v → pick i = .ok v)
    (h : ∀ i, bitmap.contains i = s.members[i]?.any p) (bound : Nat) :
    ((List.range bound).filter bitmap.contains).mapM pick = .ok ((s.members.take bound).filter p) := by
  induction bound with
  | zero => rfl
  | succ bound ih =>
      have hlast := h bound
      rw [List.range_succ, List.filter_append, List.mapM_append, ih, List.take_add_one,
        List.filter_append]
      cases hv : s.members[bound]? with
      | none =>
          rw [hv, Option.any_none] at hlast
          simp [hlast]
      | some v =>
          rw [hv, Option.any_some] at hlast
          cases hp : p v with
          | false => simp [hlast, hp]
          | true => simp [hlast, hp, hpick bound v hv]

theorem select_of_contains (h : ∀ i, bitmap.contains i = s.members[i]?.any p) :
    s.select bitmap = .ok ⟨s.members.filter p⟩ := by
  have hrest : (s.members.drop bitmap.bitLength).filter p = [] := by
    refine List.filter_eq_nil_iff.2 ?_
    intro v hv hp
    obtain ⟨i, hi⟩ := List.mem_iff_getElem?.1 hv
    rw [List.getElem?_drop] at hi
    have hlt := Bitmap.lt_bitLength_of_contains (b := bitmap) (by rw [h, hi]; exact hp)
    omega
  have hall : (s.members.take bitmap.bitLength).filter p = s.members.filter p := by
    conv_rhs => rw [← List.take_append_drop bitmap.bitLength s.members, List.filter_append, hrest,
      List.append_nil]
  rw [select, Bitmap.indices_eq_filter]
  refine functor_map_ok_iff.2 ⟨_, mapM_filter_range ?_ h _, congrArg ValidatorSet.mk hall⟩
  intro i v hv
  rw [hv]

theorem indexOf?_eq_some_iff (hdistinct : s.addresses.Nodup) {a : Address} {i : Nat} :
    s.indexOf? a = some i ↔ ∃ v, s.members[i]? = some v ∧ v.address = a := by
  constructor
  · intro h
    obtain ⟨hi, ha, -⟩ := List.findIdx?_eq_some_iff_getElem.1 h
    exact ⟨_, List.getElem?_eq_getElem hi, of_decide_eq_true ha⟩
  · rintro ⟨v, hv, rfl⟩
    obtain ⟨hi, rfl⟩ := List.getElem?_eq_some_iff.1 hv
    refine List.findIdx?_eq_some_iff_getElem.2 ⟨hi, decide_eq_true rfl, ?_⟩
    intro j hj hsame
    exact List.pairwise_iff_getElem.1 (List.pairwise_map.1 hdistinct) j i _ hi hj (of_decide_eq_true hsame)

theorem select_ok_iff : s.select bitmap = .ok selected ↔
    List.Forall₂ (fun i v => s.members[i]? = some v) bitmap.indices selected.members := by
  simp only [select, functor_map_ok_iff, mapM_ok_iff]
  constructor
  · rintro ⟨members, hmembers, rfl⟩
    apply hmembers.imp
    intro i v hpick
    cases hfound : s.members[i]? with
    | none =>
        rw [hfound] at hpick
        cases hpick
    | some w =>
        rw [hfound] at hpick
        rw [Except.ok.inj hpick]
  · intro h
    refine ⟨_, h.imp ?_, rfl⟩
    intro i v hfound
    rw [hfound]

/-- What selects at all selects members only. -/
theorem lt_size_of_select (h : s.select bitmap = .ok selected) {i : Nat}
    (hi : bitmap.contains i = true) : i < s.size := by
  have hall := select_ok_iff.1 h
  have hmem := Bitmap.mem_indices.2 hi
  generalize bitmap.indices = indices, selected.members = members at hall hmem
  induction hall with
  | nil => cases hmem
  | cons hfirst _ ih =>
      rcases List.mem_cons.1 hmem with rfl | hrest
      · exact (List.getElem?_eq_some_iff.1 hfirst).1
      · exact ih hrest

end EpochSeal.ValidatorSet
