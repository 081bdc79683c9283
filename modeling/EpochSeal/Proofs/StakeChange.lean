import EpochSeal.Ledger
import EpochSeal.Proofs.Ranking
import EpochSeal.Proofs.SetChange
import EpochSeal.Simulation.World
import Mathlib.Data.List.Forall2
import Mathlib.Data.List.Nodup
import Mathlib.Data.List.Perm.Subperm

/-! The change that the ledger computes turns the set of an epoch into the strongest validators of
the snapshot. -/
namespace EpochSeal.Ledger
open Outcome

theorem contains_removedBits {members : List Validator} {kept : List Address} {i : Nat} :
    (removedBits members kept).contains i = true ↔ ∃ v, members[i]? = some v ∧ v.address ∉ kept := by
  have hfold : ∀ (pairs : List (Validator × Nat)) (bits : Bitmap),
      (pairs.foldl (fun bits pair => if pair.1.address ∈ kept then bits else bits.insert pair.2)
        bits).contains i = true ↔
          bits.contains i = true ∨ ∃ v, (v, i) ∈ pairs ∧ v.address ∉ kept := by
    intro pairs
    induction pairs with
    | nil => simp
    | cons pair pairs ih =>
        obtain ⟨w, k⟩ := pair
        intro bits
        rw [List.foldl_cons, ih]
        simp only [List.mem_cons, Prod.mk.injEq]
        by_cases hkept : w.address ∈ kept
        · rw [if_pos hkept]
          refine or_congr_right (exists_congr fun v => and_congr_left fun hv => ?_)
          have hne : ¬ (v = w ∧ i = k) := fun h => hv (by rw [h.1]; exact hkept)
          rw [or_iff_right hne]
        · rw [if_neg hkept, Bitmap.contains_insert, Bool.or_eq_true, decide_eq_true_eq]
          constructor
          · rintro ((h | rfl) | ⟨v, hv, hv'⟩)
            · exact .inl h
            · exact .inr ⟨w, .inl ⟨rfl, rfl⟩, hkept⟩
            · exact .inr ⟨v, .inr hv, hv'⟩
          · rintro (h | ⟨v, ⟨rfl, rfl⟩ | hv, hv'⟩)
            · exact .inl (.inl h)
            · exact .inl (.inr rfl)
            · exact .inr ⟨v, hv, hv'⟩
  refine (hfold members.zipIdx .empty).trans ?_
  simp [List.mem_zipIdx_iff_getElem?]

/-- How the next members fall into added and updated ones. -/
structure Split (previous : ValidatorSet) (next added updated : List Validator) : Prop where
  /-- A member that is added is as strong as the snapshot says, and has a key. -/
  added : List.Forall₂ (fun v new => new = { v with blsKey := new.blsKey } ∧ new.blsKey.isSome)
    (next.filter fun v => (previous.find? v.address).isNone) added
  updated : updated = next.filter fun v => (previous.find? v.address).any fun old => old.power ≠ v.power

theorem sortMembers_new {chain : Chain} {previous : ValidatorSet} {v : Validator}
    {rest added updated : List Validator} (hnew : previous.find? v.address = none)
    (h : sortMembers chain previous (v :: rest) = .ok (added, updated)) :
    ∃ key added', added = { v with blsKey := some key } :: added' ∧
      sortMembers chain previous rest = .ok (added', updated) := by
  rw [sortMembers, hnew] at h
  cases hkey : v.blsKey with
  | none =>
      simp only [hkey, bind_ok_iff, pure_ok_iff] at h
      obtain ⟨key, _, ⟨added', updated'⟩, hrest, h⟩ := h
      cases h
      exact ⟨key, added', rfl, hrest⟩
  | some key =>
      simp only [hkey, bind_ok_iff, pure_ok_iff] at h
      obtain ⟨key, _, ⟨added', updated'⟩, hrest, h⟩ := h
      cases h
      exact ⟨key, added', rfl, hrest⟩

theorem sortMembers_ok {chain : Chain} {previous : ValidatorSet} {next added updated : List Validator}
    (h : sortMembers chain previous next = .ok (added, updated)) :
    Split previous next added updated := by
  induction next generalizing added updated with
  | nil =>
      cases h
      exact ⟨.nil, rfl⟩
  | cons v rest ih =>
      -- a new validator is added, an old one with another power updated, and any other one left alone
      cases hold : previous.find? v.address with
      | none =>
          obtain ⟨key, added', rfl, hrest⟩ := sortMembers_new hold h
          have hsplit := ih hrest
          refine ⟨?_, ?_⟩
          · rw [List.filter_cons_of_pos (by simp [hold])]
            exact .cons ⟨rfl, rfl⟩ hsplit.added
          · rw [List.filter_cons_of_neg (by simp [hold])]
            exact hsplit.updated
      | some old =>
          rw [sortMembers, hold] at h
          simp only [bind_ok_iff, pure_ok_iff] at h
          obtain ⟨⟨added', updated'⟩, hrest, h⟩ := h
          have hsplit := ih hrest
          cases h
          refine ⟨?_, ?_⟩
          · rw [List.filter_cons_of_neg (by simp [hold])]
            exact hsplit.added
          · by_cases hpower : old.power = v.power
            · rw [List.filter_cons_of_neg (by simp [hold, hpower]), if_pos hpower]
              exact hsplit.updated
            · rw [List.filter_cons_of_pos (by simp [hold, hpower]), if_neg hpower]
              exact congrArg (v :: ·) hsplit.updated

/-- What a change is made of that was computed for the members that are to come. -/
structure Changes (previous next : ValidatorSet) (delta : SetDelta) : Prop where
  split : Split previous next.members delta.added delta.updated
  removed : delta.removed = removedBits previous.members next.addresses

theorem computeDelta_ok {l : Ledger} {chain : Chain} {store : Store} {epoch : UInt64}
    {previous : ValidatorSet} {delta : SetDelta} {snapshot : Snapshot}
    (hsnapshot : snapshot? store = .ok (some snapshot))
    (h : l.computeDelta chain store epoch previous = .ok delta) :
    Changes previous (snapshot.stakes.strongest l.maxSetSize) delta := by
  unfold computeDelta at h
  simp only [hsnapshot, bind_ok_iff, pure_ok_iff, Except.ok.injEq, exists_eq_left'] at h
  obtain ⟨⟨added, updated⟩, hsort, rfl⟩ := h
  exact ⟨sortMembers_ok hsort, rfl⟩

theorem find?_eq_none_iff {s : ValidatorSet} {a : Address} : s.find? a = none ↔ a ∉ s.addresses := by
  simp [ValidatorSet.find?, ValidatorSet.addresses]

theorem find?_of_mem {s : ValidatorSet} (hdistinct : s.addresses.Nodup) {v : Validator}
    (hv : v ∈ s.members) : s.find? v.address = some v := by
  unfold ValidatorSet.find?
  cases hfind : s.members.find? fun w => decide (w.address = v.address) with
  | none => simpa using List.find?_eq_none.1 hfind v hv
  | some w =>
      have haddress : w.address = v.address := by simpa using List.find?_some hfind
      rw [List.inj_on_of_nodup_map hdistinct (List.mem_of_find?_eq_some hfind) hv haddress]

section change

variable {previous next : ValidatorSet} {delta : SetDelta}

def keptMembers (previous next : ValidatorSet) : List Validator :=
  previous.members.filter fun v => decide (v.address ∈ next.addresses)

theorem survivors_eq (h : Changes previous next delta) :
    previous.survivors delta.removed = keptMembers previous next := by
  refine ValidatorSet.survivors_eq_filter fun i v hv => ?_
  rw [h.removed, Bool.eq_iff_iff, contains_removedBits, hv]
  simp

theorem addresses_added (h : Changes previous next delta) :
    delta.added.map (·.address) =
      (next.members.filter fun v => (previous.find? v.address).isNone).map (·.address) := by
  have hadded := h.split.added
  generalize delta.added = added, (next.members.filter fun v => (previous.find? v.address).isNone) = new
    at hadded ⊢
  induction hadded with
  | nil => rfl
  | cons hfirst _ ih => rw [List.map_cons, List.map_cons, ih, hfirst.1]

theorem mem_added (h : Changes previous next delta) {w : Validator} (hw : w ∈ delta.added) :
    ∃ v ∈ next.members, v.address ∉ previous.addresses ∧ w.address = v.address ∧
      w.power = v.power ∧ w.blsKey.isSome := by
  have hadded := h.split.added
  have hnew : ∀ v ∈ next.members.filter fun v => (previous.find? v.address).isNone,
      v ∈ next.members ∧ v.address ∉ previous.addresses := by
    intro v hv
    rw [List.mem_filter, Option.isNone_iff_eq_none, find?_eq_none_iff] at hv
    exact hv
  generalize delta.added = added, (next.members.filter fun v => (previous.find? v.address).isNone) = new
    at hadded hw hnew
  induction hadded with
  | nil => cases hw
  | @cons v first _ _ hfirst _ ih =>
      rcases List.mem_cons.1 hw with rfl | hw
      · obtain ⟨hmem, hout⟩ := hnew v List.mem_cons_self
        refine ⟨v, hmem, hout, ?_, ?_, hfirst.2⟩ <;> rw [hfirst.1]
      · exact ih hw fun v hv => hnew v (List.mem_cons_of_mem _ hv)

theorem mem_keptMembers {v : Validator} :
    v ∈ keptMembers previous next ↔ v ∈ previous.members ∧ v.address ∈ next.addresses := by
  simp [keptMembers]

/-- Those that stay and those that are added are exactly the members to come. -/
theorem mem_addresses_iff (h : Changes previous next delta) {a : Address} :
    a ∈ (keptMembers previous next ++ delta.added).map (·.address) ↔ a ∈ next.addresses := by
  rw [List.map_append, List.mem_append, addresses_added h]
  simp only [List.mem_map, mem_keptMembers, List.mem_filter, Option.isNone_iff_eq_none,
    find?_eq_none_iff]
  constructor
  · rintro (⟨v, ⟨_, hv⟩, rfl⟩ | ⟨v, ⟨hv, _⟩, rfl⟩)
    · exact hv
    · exact List.mem_map_of_mem hv
  · intro ha
    by_cases hold : a ∈ previous.addresses
    · obtain ⟨v, hv, rfl⟩ := List.mem_map.1 hold
      exact .inl ⟨v, ⟨hv, ha⟩, rfl⟩
    · obtain ⟨v, hv, rfl⟩ := List.mem_map.1 ha
      exact .inr ⟨v, ⟨hv, hold⟩, rfl⟩

theorem nodup_changed (h : Changes previous next delta) (hprevious : previous.addresses.Nodup)
    (hnext : next.addresses.Nodup) :
    ((keptMembers previous next ++ delta.added).map (·.address)).Nodup := by
  rw [List.map_append, List.nodup_append]
  refine ⟨hprevious.sublist (List.filter_sublist.map _), ?_, ?_⟩
  · rw [addresses_added h]
    exact hnext.sublist (List.filter_sublist.map _)
  · rintro _ ha _ hb rfl
    obtain ⟨v, hv, rfl⟩ := List.mem_map.1 ha
    obtain ⟨w, hw, heq⟩ := List.mem_map.1 hb
    obtain ⟨u, _, hout, haddress, _⟩ := mem_added h hw
    refine hout ?_
    rw [← haddress, heq]
    exact List.mem_map_of_mem (mem_keptMembers.1 hv).1

theorem mem_updated (h : Changes previous next delta) {v : Validator} :
    v ∈ delta.updated ↔
      v ∈ next.members ∧ ∃ old, previous.find? v.address = some old ∧ old.power ≠ v.power := by
  rw [h.split.updated, List.mem_filter]
  cases previous.find? v.address <;> simp

theorem apply_changes (h : Changes previous next delta) (hprevious : previous.addresses.Nodup)
    (hnext : next.addresses.Nodup) :
    previous.apply delta = .ok ⟨(keptMembers previous next ++ delta.added).map
      (ValidatorSet.reweigh delta.updated)⟩ := by
  have hsurvivors := survivors_eq h
  have happly := @ValidatorSet.apply_eq previous delta ?_ ?_ ?_
  · rwa [hsurvivors] at happly
  · intro i hi
    rw [h.removed, contains_removedBits] at hi
    obtain ⟨v, hv, _⟩ := hi
    exact (List.getElem?_eq_some_iff.1 hv).1
  · rw [hsurvivors]
    exact nodup_changed h hprevious hnext
  · intro update hupdate
    rw [hsurvivors, mem_addresses_iff h]
    exact List.mem_map_of_mem ((mem_updated h).1 hupdate).1

theorem power_reweigh (h : Changes previous next delta) (hprevious : previous.addresses.Nodup)
    (hnext : next.addresses.Nodup) {w : Validator} (hw : w ∈ keptMembers previous next ++ delta.added) :
    ∃ v ∈ next.members, v.address = w.address ∧
      (ValidatorSet.reweigh delta.updated w).power = v.power := by
  have hagree : ∀ v ∈ next.members, v.address = w.address → ∀ update ∈ delta.updated,
      update.address = w.address → update.power = v.power := by
    intro v hv haddress update hupdate hsame
    rw [List.inj_on_of_nodup_map hnext ((mem_updated h).1 hupdate).1 hv (hsame.trans haddress.symm)]
  rcases List.mem_append.1 hw with hkept | hadded
  · obtain ⟨hold, hmem⟩ := mem_keptMembers.1 hkept
    obtain ⟨v, hv, haddress⟩ := List.mem_map.1 hmem
    refine ⟨v, hv, haddress, ValidatorSet.reweigh_power ?_ (hagree v hv haddress)⟩
    by_cases hpower : w.power = v.power
    · exact .inr hpower
    · have hfind : previous.find? v.address = some w := by
        rw [haddress]
        exact find?_of_mem hprevious hold
      refine .inl ?_
      rw [← haddress]
      exact List.mem_map_of_mem ((mem_updated h).2 ⟨hv, w, hfind, hpower⟩)
  · obtain ⟨v, hv, _, haddress, hpower, _⟩ := mem_added h hadded
    exact ⟨v, hv, haddress.symm, ValidatorSet.reweigh_power (.inr hpower) (hagree v hv haddress.symm)⟩

end change

/-- A set holds the strongest validators of a table: whoever was in the previous set comes first, in
the old order and with the old key. -/
structure Succeeds (stakes : StakeTable) (size : Nat) (previous next : ValidatorSet) : Prop where
  distinct : next.addresses.Nodup
  size_le : next.size ≤ size
  /-- The members have positive power, and fewer than `size` validators precede them. -/
  strongest : ∀ a, a ∈ next.addresses ↔ ∃ v, stakes.find? a = some v ∧ 0 < v.power ∧
    stakes.validators.countP (·.precedes v) < size
  power : ∀ w ∈ next.members, ∃ v, stakes.find? w.address = some v ∧ w.power = v.power
  order : ∃ kept added, next.members = kept ++ added ∧
    (kept.map fun v => (v.address, v.blsKey)) =
      ((previous.members.filter fun v => decide (v.address ∈ next.addresses)).map
        fun v => (v.address, v.blsKey)) ∧
    ∀ v ∈ added, v.address ∉ previous.addresses
  keys : (∀ v ∈ previous.members, v.blsKey.isSome) → ∀ v ∈ next.members, v.blsKey.isSome

theorem succeeds_of_changes {stakes : StakeTable} {size : Nat} {previous : ValidatorSet}
    {delta : SetDelta} (hkeyed : stakes.Keyed) (hprevious : previous.addresses.Nodup)
    (h : Changes previous (stakes.strongest size) delta) :
    Succeeds stakes size previous ⟨(keptMembers previous (stakes.strongest size) ++ delta.added).map
      (ValidatorSet.reweigh delta.updated)⟩ := by
  have hnext := StakeTable.nodup_strongest hkeyed size
  have haddresses := ValidatorSet.addresses_map_reweigh delta.updated
    (keptMembers previous (stakes.strongest size) ++ delta.added)
  have hmem : ∀ a, a ∈ ((keptMembers previous (stakes.strongest size) ++ delta.added).map
      (ValidatorSet.reweigh delta.updated)).map (·.address) ↔ a ∈ (stakes.strongest size).addresses := by
    intro a
    rw [haddresses, mem_addresses_iff h]
  have hdistinct := nodup_changed h hprevious hnext
  rw [← haddresses] at hdistinct
  refine ⟨hdistinct, ?_, ?_, ?_, ?_, ?_⟩
  · have hle := (hdistinct.subperm fun a ha => (hmem a).1 ha).length_le
    rw [List.length_map] at hle
    refine Nat.le_trans hle ?_
    rw [ValidatorSet.addresses, List.length_map]
    exact StakeTable.length_strongest_le size
  · intro a
    refine (hmem a).trans ?_
    simp only [ValidatorSet.addresses, List.mem_map, StakeTable.mem_strongest hkeyed,
      StakeTable.find?_eq_some_iff hkeyed]
    constructor
    · rintro ⟨v, ⟨hv, hpower, hcount⟩, haddress⟩
      exact ⟨v, ⟨hv, haddress⟩, hpower, hcount⟩
    · rintro ⟨v, ⟨hv, haddress⟩, hpower, hcount⟩
      exact ⟨v, ⟨hv, hpower, hcount⟩, haddress⟩
  · intro w hw
    obtain ⟨u, hu, rfl⟩ := List.mem_map.1 hw
    obtain ⟨v, hv, haddress, hpower⟩ := power_reweigh h hprevious hnext hu
    refine ⟨v, (StakeTable.find?_eq_some_iff hkeyed).2 ⟨?_, ?_⟩, hpower⟩
    · exact ((StakeTable.mem_strongest hkeyed).1 hv).1
    · rw [ValidatorSet.reweigh_address, haddress]
  · refine ⟨_, _, List.map_append, ?_, ?_⟩
    · have hkept : (previous.members.filter fun v => decide (v.address ∈ ((keptMembers previous
          (stakes.strongest size) ++ delta.added).map (ValidatorSet.reweigh delta.updated)).map
            (·.address))) = keptMembers previous (stakes.strongest size) :=
        List.filter_congr fun v _ => by simp only [hmem]
      rw [List.map_map]
      refine Eq.trans ?_ (congrArg (List.map fun v => (v.address, v.blsKey)) hkept).symm
      exact List.map_congr_left fun v _ => by simp
    · intro w hw
      obtain ⟨u, hu, rfl⟩ := List.mem_map.1 hw
      obtain ⟨v, _, hout, haddress, _⟩ := mem_added h hu
      rwa [ValidatorSet.reweigh_address, haddress]
  · intro hkeys w hw
    obtain ⟨u, hu, rfl⟩ := List.mem_map.1 hw
    rw [ValidatorSet.reweigh_blsKey]
    rcases List.mem_append.1 hu with hkept | hadded
    · exact hkeys u (mem_keptMembers.1 hkept).1
    · obtain ⟨_, _, _, _, _, hkey⟩ := mem_added h hadded
      exact hkey

/-- Changing the previous set as the ledger says makes the set of the strongest validators. -/
theorem apply_computeDelta {l : Ledger} {chain : Chain} {store : Store} {epoch : UInt64}
    {previous : ValidatorSet} {delta : SetDelta} {snapshot : Snapshot}
    (hsnapshot : snapshot? store = .ok (some snapshot)) (hkeyed : snapshot.stakes.Keyed)
    (hdistinct : previous.addresses.Nodup)
    (h : l.computeDelta chain store epoch previous = .ok delta) :
    ∃ next, previous.apply delta = .ok next ∧
      Succeeds snapshot.stakes l.maxSetSize previous next := by
  have hchanges := computeDelta_ok hsnapshot h
  have hnext := StakeTable.nodup_strongest hkeyed l.maxSetSize
  exact ⟨_, apply_changes hchanges hdistinct hnext, succeeds_of_changes hkeyed hdistinct hchanges⟩

/-- Four stakes: one without power, and two that tie for the last place in a set of two. -/
def tiedStakes : StakeTable :=
  StakeTable.ofList (([(1, 0), (2, 3), (3, 5), (4, 3)] : List (UInt64 × UInt64)).map fun (a, power) =>
    (Address.ofLow a, Validator.ofStake (Address.ofLow a) (some ⟨[]⟩) power))

/-- A set with two members that have to leave it and one whose power changes. -/
def oldSet : ValidatorSet :=
  ⟨([(4, 3), (3, 2), (1, 1)] : List (UInt64 × UInt64)).map fun (a, power) =>
    Validator.ofStake (Address.ofLow a) (some ⟨[]⟩) power⟩

/-- How the old set becomes the two strongest of them. -/
def tiedDelta : SetDelta :=
  ⟨[Validator.ofStake (Address.ofLow 2) (some ⟨[]⟩) 3],
    [Validator.ofStake (Address.ofLow 3) (some ⟨[]⟩) 5], ⟨[0b101]⟩⟩

/-- Of two validators with equal power the one with the smaller address takes the last place. -/
theorem apply_computeDelta_tie :
    ∃ next, oldSet.apply tiedDelta = .ok next ∧ Succeeds tiedStakes 2 oldSet next := by
  have hsnapshot : snapshot? (Store.put ⟨1, 1, 1, tiedStakes⟩) = .ok (some ⟨1, 1, 1, tiedStakes⟩) := by
    rfl
  have hdelta : computeDelta ⟨Contract.staking, 2⟩ (Simulation.World.ofGenesis
      Simulation.emptyHeader ⟨[]⟩).chain (Store.put ⟨1, 1, 1, tiedStakes⟩) 1 oldSet =
        .ok tiedDelta := by
    rfl
  have hkeyed : tiedStakes.Keyed := by
    unfold StakeTable.Keyed
    decide
  exact apply_computeDelta hsnapshot hkeyed (by decide) hdelta

end EpochSeal.Ledger
