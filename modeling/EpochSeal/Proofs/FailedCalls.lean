import EpochSeal.Proofs.LedgerCalls

/-! What a call of the ledger that fails leaves behind. In a transaction of its own that is nothing. In a
transaction of the caller it is the snapshot of the genesis set, if the call was the first to look for one:
whatever fails later, this has been written by then. -/
namespace EpochSeal
open Outcome

namespace Ledger

variable {chain chain' : Chain} {store : Store}

/-- A call finds no snapshot, and there is a genesis set to make one of. -/
def Seeds (chain : Chain) (store : Store) : Prop :=
  snapshot? store = .ok none ∧ ∃ genesis, chain.validatorsAt 0 = .ok genesis

/-- The store with the genesis set for its snapshot, if it has none. -/
def seeded (chain : Chain) (store : Store) : Store :=
  match snapshot? store, chain.validatorsAt 0 with
  | .ok none, .ok genesis => Store.put (genesisSnapshot genesis)
  | _, _ => store

theorem seeded_of_seeds {genesis : ValidatorSet} (hnone : snapshot? store = .ok none)
    (hgenesis : chain.validatorsAt 0 = .ok genesis) :
    seeded chain store = Store.put (genesisSnapshot genesis) := by
  rw [seeded, hnone, hgenesis]

theorem seeded_of_not_seeds (h : ¬ Seeds chain store) : seeded chain store = store := by
  unfold seeded
  split
  · next genesis hnone hgenesis => exact absurd ⟨hnone, genesis, hgenesis⟩ h
  · rfl

theorem snapshot?_put_ne (s : Snapshot) : snapshot? (Store.put s) ≠ .ok none := by
  intro h
  rw [snapshot?, mapError_ok_iff, Store.snapshot, Store.put] at h
  dsimp only at h
  split at h <;> cases h

theorem snapshot?_seeded_iff : snapshot? (seeded chain store) = snapshot? store ↔ ¬ Seeds chain store := by
  constructor
  · rintro hsame ⟨hnone, genesis, hgenesis⟩
    rw [seeded_of_seeds hnone hgenesis, hnone] at hsame
    exact snapshot?_put_ne _ hsame
  · intro h
    rw [seeded_of_not_seeds h]

/-- Whether the snapshot can be loaded or not, what is missing has been written. -/
theorem run_load_snd (chain : Chain) (store : Store) : ((load chain).run store).2 = seeded chain store := by
  rw [run_load]
  unfold seeded
  split
  · next hstore => rw [hstore]
  · next hstore => rw [hstore]
  · next hstore =>
      rw [hstore]
      cases chain.validatorsAt 0 <;> rfl

/-- A snapshot that another call has seeded is what this one would start from. -/
theorem run_load_seeded (hfits : (seeded chain store).Fits) :
    (load chain).run (seeded chain store) = (load chain).run store := by
  by_cases hseeds : Seeds chain store
  · obtain ⟨hnone, genesis, hgenesis⟩ := hseeds
    rw [seeded_of_seeds hnone hgenesis] at hfits ⊢
    rw [run_load, run_load, snapshot?_put hfits, hnone, hgenesis]
  · rw [seeded_of_not_seeds hseeds]

theorem seeded_congr (h : chain.validatorsAt 0 = chain'.validatorsAt 0) :
    seeded chain store = seeded chain' store := by
  rw [seeded, seeded, h]

end Ledger

namespace LedgerCall
open Ledger

variable {l : Ledger} {store written : Store} {c : LedgerCall} {cause : LedgerError}

def chain : LedgerCall → Chain
  | .catchUp chain => chain
  | .finalized chain _ _ => chain

/-- A call loads the snapshot and writes once more at most, at its end. -/
theorem steps_eq (l : Ledger) (c : LedgerCall) : ∃ rest : Snapshot → Transactional LedgerError Unit,
    c.steps l = load c.chain >>= rest ∧ ∀ s, Atomic (rest s) := by
  cases c with
  | catchUp chain =>
      refine ⟨_, rfl, fun s => ?_⟩
      split
      · exact .lift_bind _ fun _ => .lift_bind _ fun _ => .lift_bind _ fun _ => .set _
      · exact .pure _
  | finalized chain block epoch =>
      refine ⟨_, rfl, fun s => ?_⟩
      split
      · exact .lift_bind _ fun _ => .lift_bind _ fun _ => .lift_bind _ fun _ => .set _
      · exact .pure _

/-- A call that fails leaves nothing of its own transaction. In one of the caller it leaves the genesis set
for a snapshot if there was none, and the snapshot that is read then is another exactly in this case. The
call, or another with the same genesis set, finds what it would have found without it. -/
theorem failed_call_leaves (hfailed : (c.steps l).run store = (.error cause, written)) :
    c.run l store = (.error cause, store) ∧ written = seeded c.chain store ∧
    (snapshot? written = snapshot? store ↔ ¬ Seeds c.chain store) ∧
    (written.Fits → ∀ again : LedgerCall, again.chain.validatorsAt 0 = c.chain.validatorsAt 0 →
      (again.steps l).run written = (again.steps l).run store) := by
  have hwritten : written = seeded c.chain store := by
    obtain ⟨rest, hsteps, hrest⟩ := steps_eq l c
    rw [hsteps] at hfailed
    rw [← run_load_snd]
    rcases run_bind_error_iff.1 hfailed with hload | ⟨s, middle, hload, hrun⟩
    · rw [hload]
    · rw [hload, hrest s middle written cause hrun]
  subst hwritten
  refine ⟨?_, rfl, snapshot?_seeded_iff, ?_⟩
  · rw [run, Transactional.runOwn, hfailed]
  · intro hfits again hgenesis
    obtain ⟨rest, hsteps, -⟩ := steps_eq l again
    rw [seeded_congr hgenesis.symm] at hfits ⊢
    rw [hsteps]
    exact run_bind_congr rest (run_load_seeded hfits)

/-- The notification of block 4 fails where block 3 is missing. The caller finds a snapshot that was not
there before. -/
theorem failed_call_leaves_early : ∃ written, ((notification (fun _ => ⟨1, 1⟩) 2 4).steps stakingLedger).run
      Store.empty = (.error (.missingHeader 3), written) ∧
    snapshot? Store.empty = .ok none ∧ snapshot? written = .ok (some (genesisSnapshot pairSet)) := by
  have houtcome : (((notification (fun _ => ⟨1, 1⟩) 2 4).steps stakingLedger).run Store.empty).1 =
      .error (.missingHeader 3) := by decide +kernel
  have hlength : ((Store.put (genesisSnapshot pairSet)).record.getD []).length < 2 ^ 64 := by decide +kernel
  cases hfailed : ((notification (fun _ => ⟨1, 1⟩) 2 4).steps stakingLedger).run Store.empty with
  | mk outcome written =>
      rw [hfailed] at houtcome
      cases houtcome
      obtain ⟨-, rfl, -, -⟩ := failed_call_leaves hfailed
      have hgenesis : (notification (fun _ => ⟨1, 1⟩) 2 4).chain.validatorsAt 0 = .ok pairSet := rfl
      rw [seeded_of_seeds rfl hgenesis]
      exact ⟨_, rfl, rfl, snapshot?_put (fits_of_length hlength)⟩

end LedgerCall

end EpochSeal
