import EpochSeal.Proofs.Selection
import EpochSeal.Proofs.StakeChange
import EpochSeal.Uptime
import Mathlib.Logic.Function.Basic

/-! A change of the set is read in two ways: it is applied to the set, and it is announced as a list of
powers. Both come to the same powers if the ledger computed the change. -/
namespace EpochSeal
open Outcome

namespace ValidatorSet

variable {s : ValidatorSet}

/-- The power of an address. Who is no member has none. -/
def powerAt (s : ValidatorSet) (a : Address) : UInt64 := ((s.find? a).map (·.power)).getD 0

theorem powerAt_of_mem (hdistinct : s.addresses.Nodup) {v : Validator} (hv : v ∈ s.members) :
    s.powerAt v.address = v.power := by
  rw [powerAt, Ledger.find?_of_mem hdistinct hv]
  rfl

theorem powerAt_of_not_mem {a : Address} (h : a ∉ s.addresses) : s.powerAt a = 0 := by
  rw [powerAt, Ledger.find?_eq_none_iff.2 h]
  rfl

end ValidatorSet

namespace PowerSync

variable {sync : PowerSync} {powers : Address → UInt64}

/-- The powers after an announcement, whose entries are taken in one after another. -/
def overwrite (sync : PowerSync) (powers : Address → UInt64) : Address → UInt64 :=
  sync.powers.foldl (fun powers update => Function.update powers update.validator update.power) powers

theorem overwrite_of_not_mem {a : Address} (h : a ∉ sync.powers.map (·.validator)) :
    sync.overwrite powers a = powers a := by
  obtain ⟨updates⟩ := sync
  induction updates generalizing powers with
  | nil => rfl
  | cons first rest ih =>
      rw [List.map_cons, List.mem_cons, not_or] at h
      exact (ih h.2).trans (Function.update_of_ne h.1 _ _)

theorem overwrite_of_mem (hdistinct : (sync.powers.map (·.validator)).Nodup) {update : PowerUpdate}
    (h : update ∈ sync.powers) : sync.overwrite powers update.validator = update.power := by
  obtain ⟨updates⟩ := sync
  induction updates generalizing powers with
  | nil => cases h
  | cons first rest ih =>
      obtain ⟨hfirst, hrest⟩ := List.nodup_cons.1 hdistinct
      rcases List.mem_cons.1 h with rfl | h
      · exact (@overwrite_of_not_mem ⟨rest⟩ _ _ hfirst).trans (Function.update_self _ _ _)
      · exact ih hrest h

theorem removals_of_select {removed : Bitmap} {previous gone : ValidatorSet}
    (h : previous.select removed = .ok gone) :
    removals removed previous = .ok (gone.members.map fun v => ⟨v.address, 0⟩) := by
  refine mapM_ok_iff.2 (List.forall₂_map_right_iff.2 ((ValidatorSet.select_ok_iff.1 h).imp ?_))
  intro i v hv
  rw [hv]

theorem ofDelta_of_select {delta : SetDelta} {previous gone : ValidatorSet}
    (hchange : delta.isEmpty = false) (h : previous.select delta.removed = .ok gone) :
    ofDelta delta previous = .ok (some ⟨((delta.added ++ delta.updated).map fun v => ⟨v.address, v.power⟩) ++
      gone.members.map fun v => ⟨v.address, 0⟩⟩) := by
  rw [ofDelta, hchange, removals_of_select h]
  rfl

end PowerSync

namespace Ledger

section change

variable {previous next : ValidatorSet} {delta : SetDelta}

def goneMembers (previous next : ValidatorSet) : List Validator :=
  previous.members.filter fun v => decide (v.address ∉ next.addresses)

/-- What is announced of a change: the powers of those that are added and updated, and none for those
that go. -/
def announcement (previous next : ValidatorSet) (delta : SetDelta) : PowerSync :=
  ⟨((delta.added ++ delta.updated).map fun v => ⟨v.address, v.power⟩) ++
    (goneMembers previous next).map fun v => ⟨v.address, 0⟩⟩

theorem select_removed (h : Changes previous next delta) :
    previous.select delta.removed = .ok ⟨goneMembers previous next⟩ := by
  apply ValidatorSet.select_of_contains
  intro i
  rw [h.removed, Bool.eq_iff_iff, contains_removedBits]
  cases previous.members[i]? <;> simp

theorem ofDelta_changes (h : Changes previous next delta) (hchange : delta.isEmpty = false) :
    PowerSync.ofDelta delta previous = .ok (some (announcement previous next delta)) :=
  PowerSync.ofDelta_of_select hchange (select_removed h)

theorem validators_announcement (previous next : ValidatorSet) (delta : SetDelta) :
    (announcement previous next delta).powers.map (·.validator) =
      delta.added.map (·.address) ++ delta.updated.map (·.address) ++
        (goneMembers previous next).map (·.address) := by
  simp [announcement, Function.comp_def]

theorem mem_addresses_filter (members : List Validator) (p : Address → Bool) {a : Address} :
    a ∈ (members.filter fun v => p v.address).map (·.address) ↔
      a ∈ members.map (·.address) ∧ p a = true := by
  have hfilter : (members.filter fun v => p v.address).map (·.address) =
      (members.map (·.address)).filter p := List.filter_map.symm
  rw [hfilter, List.mem_filter]

theorem mem_addresses_added (h : Changes previous next delta) {a : Address} :
    a ∈ delta.added.map (·.address) ↔ a ∈ next.addresses ∧ a ∉ previous.addresses := by
  rw [addresses_added h]
  apply (mem_addresses_filter next.members fun a => (previous.find? a).isNone).trans
  rw [Option.isNone_iff_eq_none, find?_eq_none_iff]
  rfl

theorem mem_addresses_updated (h : Changes previous next delta) {a : Address}
    (ha : a ∈ delta.updated.map (·.address)) : a ∈ next.addresses ∧ a ∈ previous.addresses := by
  obtain ⟨v, hv, rfl⟩ := List.mem_map.1 ha
  obtain ⟨hnext, old, hold, -⟩ := (mem_updated h).1 hv
  refine ⟨List.mem_map_of_mem hnext, ?_⟩
  by_contra hout
  rw [find?_eq_none_iff.2 hout] at hold
  cases hold

theorem mem_addresses_gone {a : Address} :
    a ∈ (goneMembers previous next).map (·.address) ↔ a ∈ previous.addresses ∧ a ∉ next.addresses := by
  apply (mem_addresses_filter previous.members fun a => decide (a ∉ next.addresses)).trans
  rw [decide_eq_true_eq]
  rfl

/-- Who is added was no member, who is updated is one before and after, and who goes is none any more. -/
theorem nodup_announcement (h : Changes previous next delta) (hprevious : previous.addresses.Nodup)
    (hnext : next.addresses.Nodup) :
    ((announcement previous next delta).powers.map (·.validator)).Nodup := by
  rw [validators_announcement, List.nodup_append, List.nodup_append]
  refine ⟨⟨?_, ?_, ?_⟩, hprevious.sublist (List.filter_sublist.map _), ?_⟩
  · rw [addresses_added h]
    exact hnext.sublist (List.filter_sublist.map _)
  · rw [h.split.updated]
    exact hnext.sublist (List.filter_sublist.map _)
  · rintro a hadded _ hupdated rfl
    exact ((mem_addresses_added h).1 hadded).2 (mem_addresses_updated h hupdated).2
  · rintro a hstay _ hgone rfl
    apply (mem_addresses_gone.1 hgone).2
    rcases List.mem_append.1 hstay with hadded | hupdated
    · exact ((mem_addresses_added h).1 hadded).1
    · exact (mem_addresses_updated h hupdated).1

/-- Every entry says the power to come. -/
theorem power_announced (h : Changes previous next delta) (hnext : next.addresses.Nodup)
    {update : PowerUpdate} (hupdate : update ∈ (announcement previous next delta).powers) :
    update.power = next.powerAt update.validator := by
  simp only [announcement, List.mem_append, List.mem_map] at hupdate
  rcases hupdate with ⟨v, hadded | hupdated, rfl⟩ | ⟨v, hgone, rfl⟩
  · obtain ⟨w, hw, -, haddress, hpower, -⟩ := mem_added h hadded
    change v.power = next.powerAt v.address
    rw [haddress, ValidatorSet.powerAt_of_mem hnext hw, hpower]
  · exact (ValidatorSet.powerAt_of_mem hnext ((mem_updated h).1 hupdated).1).symm
  · exact (ValidatorSet.powerAt_of_not_mem (mem_addresses_gone.1 (List.mem_map_of_mem hgone)).2).symm

/-- Whoever is not announced has the power to come already. -/
theorem powerAt_of_silent (h : Changes previous next delta) (hprevious : previous.addresses.Nodup)
    (hnext : next.addresses.Nodup) {a : Address}
    (ha : a ∉ (announcement previous next delta).powers.map (·.validator)) :
    previous.powerAt a = next.powerAt a := by
  rw [validators_announcement, List.mem_append, List.mem_append, not_or, not_or] at ha
  obtain ⟨⟨hadded, hupdated⟩, hgone⟩ := ha
  by_cases hcome : a ∈ next.addresses
  · have hmember : a ∈ previous.addresses := by
      by_contra hnew
      exact hadded ((mem_addresses_added h).2 ⟨hcome, hnew⟩)
    obtain ⟨v, hv, rfl⟩ := List.mem_map.1 hcome
    obtain ⟨old, hold, haddress⟩ := List.mem_map.1 hmember
    have hfind := find?_of_mem hprevious hold
    have hpower : old.power = v.power := by
      by_contra hother
      rw [haddress] at hfind
      exact hupdated (List.mem_map_of_mem ((mem_updated h).2 ⟨hv, old, hfind, hother⟩))
    rw [ValidatorSet.powerAt_of_mem hnext hv, ← hpower, ← haddress]
    exact ValidatorSet.powerAt_of_mem hprevious hold
  · have hmember : a ∉ previous.addresses := by
      intro hold
      exact hgone (mem_addresses_gone.2 ⟨hold, hcome⟩)
    rw [ValidatorSet.powerAt_of_not_mem hcome, ValidatorSet.powerAt_of_not_mem hmember]

theorem overwrite_announcement (h : Changes previous next delta) (hprevious : previous.addresses.Nodup)
    (hnext : next.addresses.Nodup) :
    (announcement previous next delta).overwrite previous.powerAt = next.powerAt := by
  funext a
  by_cases ha : a ∈ (announcement previous next delta).powers.map (·.validator)
  · obtain ⟨update, hupdate, rfl⟩ := List.mem_map.1 ha
    rw [PowerSync.overwrite_of_mem (nodup_announcement h hprevious hnext) hupdate]
    exact power_announced h hnext hupdate
  · rw [PowerSync.overwrite_of_not_mem ha]
    exact powerAt_of_silent h hprevious hnext ha

/-- The set that the change makes has the powers to come, in whatever order its members are. -/
theorem powerAt_applied (h : Changes previous next delta) (hprevious : previous.addresses.Nodup)
    (hnext : next.addresses.Nodup) :
    (ValidatorSet.mk ((keptMembers previous next ++ delta.added).map
      (ValidatorSet.reweigh delta.updated))).powerAt = next.powerAt := by
  have haddresses := ValidatorSet.addresses_map_reweigh delta.updated
    (keptMembers previous next ++ delta.added)
  have hdistinct := nodup_changed h hprevious hnext
  rw [← haddresses] at hdistinct
  funext a
  by_cases hcome : a ∈ next.addresses
  · obtain ⟨w, hw, rfl⟩ := List.mem_map.1 ((mem_addresses_iff h).2 hcome)
    obtain ⟨v, hv, haddress, hpower⟩ := power_reweigh h hprevious hnext hw
    have happlied := ValidatorSet.powerAt_of_mem hdistinct
      (List.mem_map_of_mem (f := ValidatorSet.reweigh delta.updated) hw)
    rw [ValidatorSet.reweigh_address, hpower] at happlied
    rw [happlied, ← haddress, ValidatorSet.powerAt_of_mem hnext hv]
  · rw [ValidatorSet.powerAt_of_not_mem hcome]
    apply ValidatorSet.powerAt_of_not_mem
    rw [ValidatorSet.addresses, haddresses, mem_addresses_iff h]
    exact hcome

end change

/-- What the ledger computes can always be announced. Without an announcement the set stays as it is, and
with one the announced powers and the changed set say the same. -/
theorem announced_of_computeDelta {l : Ledger} {chain : Chain} {store : Store} {epoch : UInt64}
    {previous : ValidatorSet} {delta : SetDelta} {snapshot : Snapshot}
    (hsnapshot : snapshot? store = .ok (some snapshot)) (hkeyed : snapshot.stakes.Keyed)
    (hdistinct : previous.addresses.Nodup)
    (h : l.computeDelta chain store epoch previous = .ok delta) :
    ∃ found, PowerSync.ofDelta delta previous = .ok found ∧
      (found = none → previous.apply delta = .ok previous) ∧
      ∀ sync, found = some sync → (sync.powers.map (·.validator)).Nodup ∧
        ∃ next, previous.apply delta = .ok next ∧ sync.overwrite previous.powerAt = next.powerAt := by
  have hchanges := computeDelta_ok hsnapshot h
  have hnext := StakeTable.nodup_strongest hkeyed l.maxSetSize
  cases hempty : delta.isEmpty with
  | true =>
      refine ⟨none, by rw [PowerSync.ofDelta, if_pos hempty], fun _ => ?_, ?_⟩
      · rw [ValidatorSet.apply, if_pos hempty]
      · intro sync hsync
        cases hsync
  | false =>
      refine ⟨_, ofDelta_changes hchanges hempty, ?_, ?_⟩
      · intro hnone
        cases hnone
      · intro sync hsync
        cases hsync
        refine ⟨nodup_announcement hchanges hdistinct hnext, _, apply_changes hchanges hdistinct hnext, ?_⟩
        rw [overwrite_announcement hchanges hdistinct hnext, powerAt_applied hchanges hdistinct hnext]

/-- How the old set becomes the three strongest: one comes, one changes its power, one stays as it is, and
the last one goes. -/
def mixedDelta : SetDelta :=
  ⟨[Validator.ofStake (Address.ofLow 2) (some ⟨[]⟩) 3],
    [Validator.ofStake (Address.ofLow 3) (some ⟨[]⟩) 5], ⟨[0b100]⟩⟩

/-- An addition, an update and a removal are announced in this order. -/
theorem announced_of_computeDelta_mixed :
    ∃ next, oldSet.apply mixedDelta = .ok next ∧
      PowerSync.overwrite ⟨[⟨Address.ofLow 2, 3⟩, ⟨Address.ofLow 3, 5⟩, ⟨Address.ofLow 1, 0⟩]⟩
        oldSet.powerAt = next.powerAt := by
  have hsnapshot : snapshot? (Store.put ⟨1, 1, 1, tiedStakes⟩) = .ok (some ⟨1, 1, 1, tiedStakes⟩) := by
    rfl
  have hdelta : computeDelta ⟨Contract.staking, 3⟩ (Simulation.World.ofGenesis
      Simulation.emptyHeader ⟨[]⟩).chain (Store.put ⟨1, 1, 1, tiedStakes⟩) 1 oldSet =
        .ok mixedDelta := by
    rfl
  have hkeyed : tiedStakes.Keyed := by
    unfold StakeTable.Keyed
    decide
  obtain ⟨found, hfound, -, hsome⟩ := announced_of_computeDelta hsnapshot hkeyed (by decide) hdelta
  have hsync : PowerSync.ofDelta mixedDelta oldSet =
      .ok (some ⟨[⟨Address.ofLow 2, 3⟩, ⟨Address.ofLow 3, 5⟩, ⟨Address.ofLow 1, 0⟩]⟩) := by
    rfl
  exact (hsome _ (Except.ok.inj (hfound.symm.trans hsync))).2

end Ledger

end EpochSeal
