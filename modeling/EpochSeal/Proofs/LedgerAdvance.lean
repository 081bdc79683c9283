import EpochSeal.Proofs.Outcome
import EpochSeal.Proofs.StakeHistory

/-! What one successful call makes of the snapshot: the changes of the blocks since then are put on top
of it, in order, and all weighed with one exponent. -/
namespace EpochSeal
open Outcome

namespace Ledger
open StakeHistory

/-- The snapshot that a call starts from: that of the store or, if it has none, that of the genesis. -/
def StartsFrom (h : StakeHistory) (store : Store) (s : Snapshot) : Prop :=
  snapshot? store = .ok (some s) ∨ snapshot? store = .ok none ∧ s = genesisSnapshot h.genesis

/-- The later snapshot is the earlier one with the changes of the blocks between them, all weighed with
the exponent after the last of these. -/
structure Advances (h : StakeHistory) (l : Ledger) (before after : Snapshot) : Prop where
  block_le : before.block.toNat ≤ after.block.toNat
  keyed : before.stakes.Keyed → after.stakes.Keyed
  power : ∀ a, after.stakes.power? a =
    weighed (fun _ => h.exponent after.block.toNat) (before.stakes.power? a)
      (lastAmong a (h.changes l (before.block.toNat + 1) (after.block.toNat - before.block.toNat)))

variable {h : StakeHistory} {l : Ledger} {chain : Chain} {store written : Store}

theorem Advances.refl (h : StakeHistory) (l : Ledger) (s : Snapshot) : Advances h l s s where
  block_le := Nat.le_refl _
  keyed := id
  power := by
    intro a
    rw [Nat.sub_self]
    rfl

theorem logEvents_ok {log : Log} {events : List BalanceChanged} (hevents : l.logEvents log = .ok events) :
    events = (l.announced? log).toList := by
  unfold logEvents at hevents
  unfold announced?
  split at hevents
  · next hstaking =>
      split at hevents
      · next event hevent =>
          cases hevents
          rw [if_pos hstaking, hevent]
          rfl
      · cases hevents
  · next hother =>
      cases hevents
      rw [if_neg hother]
      rfl

theorem receiptEvents_ok {receipts : List Receipt} {events : List BalanceChanged}
    (hevents : l.receiptEvents receipts = .ok events) :
    events = ((receipts.filter (·.success)).flatMap (·.logs)).filterMap l.announced? := by
  obtain ⟨found, hfound, rfl⟩ := functor_map_ok_iff.1 hevents
  have hlogs := map_eq_of_mapM hfound fun log events hlog => (logEvents_ok hlog).symm
  rw [List.filterMap_eq_flatMap_toList, List.flatMap_def, hlogs, List.map_id']

theorem storedEvents_ok (hchain : chain.Shows h) {first : UInt64} {count : Nat}
    {events : List BalanceChanged} (hlast : first.toNat + count ≤ 2 ^ 64)
    (hevents : l.storedEvents chain first count = .ok events) :
    events = (h.changes l first.toNat count).map (·.2) := by
  induction count generalizing first events with
  | zero =>
      cases hevents
      rfl
  | succ count ih =>
      unfold storedEvents at hevents
      split at hevents
      · next header hheader =>
          simp only [bind_ok_iff, mapError_ok_iff, pure_ok_iff] at hevents
          obtain ⟨receipts, hreceipts, found, hfound, later, hlater, rfl⟩ := hevents
          have hrest : later = (h.changes l (first.toNat + 1) count).map (·.2) := by
            cases count with
            | zero =>
                cases hlater
                rfl
            | succ count =>
                have hnext := toNat_succ (n := first) (by omega)
                rw [← hnext]
                exact ih (by omega) hlater
          rw [StakeHistory.map_changes_succ, ← hrest, receiptEvents_ok hfound,
            hchain.receipts first header receipts hheader hreceipts]
          rfl
      · simp at hevents

theorem eventsBetween_ok (hchain : chain.Shows h) {first stop : UInt64} {events : List BalanceChanged}
    (hevents : l.eventsBetween chain first stop = .ok events) :
    events = (h.changes l first.toNat (stop.toNat - first.toNat)).map (·.2) := by
  have hfirst := first.toNat_lt
  have hstop := stop.toNat_lt
  exact storedEvents_ok hchain (by omega) hevents

theorem exponentAt_ok (hchain : chain.Shows h) {n : Nat} (hn : n < 2 ^ 64) {e : Exponent}
    (he : exponentAt chain (h.header n) = .ok e) : e = h.exponent n := by
  simp only [exponentAt, bind_ok_iff, mapError_ok_iff] at he
  obtain ⟨state, hstate, hexponent⟩ := he
  exact hchain.exponent n hn state e hstate hexponent

theorem applyEvents_ok (hchain : chain.Shows h) {n : Nat} (hn : n < 2 ^ 64) {before after : Snapshot}
    {changes : List (Nat × BalanceChanged)}
    (happly : applyEvents chain before (changes.map (·.2)) (h.header n) = .ok after) :
    (before.stakes.Keyed → after.stakes.Keyed) ∧ ∀ a, after.stakes.power? a =
      weighed (fun _ => h.exponent n) (before.stakes.power? a) (lastAmong a changes) := by
  unfold applyEvents at happly
  split at happly
  · next hnone =>
      cases happly
      have hempty : changes = [] := by simpa using hnone
      subst hempty
      exact ⟨id, fun a => rfl⟩
  · simp only [bind_ok_iff, pure_ok_iff] at happly
    obtain ⟨e, he, rfl⟩ := happly
    cases exponentAt_ok hchain hn he
    refine ⟨fun hkeyed => ?_, fun a => ?_⟩
    · exact StakeTable.keyed_completeKeys (StakeTable.keyed_foldl_setStake hkeyed _ _) chain
    · rw [StakeTable.power?_completeKeys, StakeTable.power?_foldl_setStake]

/-- A call that succeeds has taken the ledger at least to a block. -/
def Reaches (h : StakeHistory) (l : Ledger) (store written : Store) (n : Nat) : Prop :=
  ∃ before after, StartsFrom h store before ∧ Advances h l before after ∧
    after.block.toNat = max before.block.toNat n ∧
    (written.Fits → snapshot? written = .ok (some after))

theorem snapshot?_put {s : Snapshot} (hfits : (Store.put s).Fits) :
    snapshot? (Store.put s) = .ok (some s) :=
  mapError_ok_iff.2 (Store.snapshot_put hfits)

theorem run_load (chain : Chain) (store : Store) : (load chain).run store =
    match snapshot? store with
    | .error e => (.error e, store)
    | .ok (some s) => (.ok s, store)
    | .ok none =>
      match chain.validatorsAt 0 with
      | .error e => (.error (.backend e), store)
      | .ok genesis => (.ok (genesisSnapshot genesis), Store.put (genesisSnapshot genesis)) := by
  have hget : (get : Transactional LedgerError Store).run store = (.ok store, store) := rfl
  rw [load, run_bind_ok hget]
  cases snapshot? store with
  | error e => rfl
  | ok found =>
      cases found with
      | some s => rfl
      | none => cases chain.validatorsAt 0 <;> rfl

theorem load_ok (hchain : chain.Shows h) {s : Snapshot}
    (hload : (load chain).run store = (.ok s, written)) :
    StartsFrom h store s ∧ (written.Fits → snapshot? written = .ok (some s)) := by
  rw [run_load] at hload
  split at hload
  · cases hload
  · next found hfound =>
      cases hload
      exact ⟨.inl hfound, fun _ => hfound⟩
  · next hnone =>
      split at hload
      · cases hload
      · next genesis hgenesis =>
          cases hload
          rw [hchain.genesis genesis hgenesis]
          exact ⟨.inr ⟨hnone, rfl⟩, snapshot?_put⟩

theorem reaches_of_applyEvents (hchain : chain.Shows h) {n : Nat} (hn : n < 2 ^ 64)
    {before after : Snapshot} {events : List BalanceChanged} (hstarts : StartsFrom h store before)
    (hlt : before.block.toNat < n)
    (hevents : events = (h.changes l (before.block.toNat + 1) (n - before.block.toNat)).map (·.2))
    (happly : applyEvents chain before events (h.header n) = .ok after) (epoch : UInt64) :
    Reaches h l store (Store.put { after with epoch, block := (h.header n).number }) n := by
  rw [hevents] at happly
  obtain ⟨hkeyed, hpower⟩ := applyEvents_ok hchain hn happly
  have hnumber := h.number_header n hn
  refine ⟨before, { after with epoch, block := (h.header n).number }, hstarts, ⟨?_, hkeyed, ?_⟩, ?_,
    snapshot?_put⟩
  · rw [hnumber]
    exact Nat.le_of_lt hlt
  · rw [hnumber]
    exact hpower
  · rw [hnumber]
    omega

theorem reaches_of_le {n : Nat} {s : Snapshot} (hstarts : StartsFrom h store s)
    (hleft : written.Fits → snapshot? written = .ok (some s)) (hle : n ≤ s.block.toNat) :
    Reaches h l store written n :=
  ⟨s, s, hstarts, Advances.refl h l s, by omega, hleft⟩

theorem catchUp_ok (hchain : chain.Shows h) {n : Nat} (hn : n + 1 < 2 ^ 64)
    (hhead : chain.head = h.header n) (hrun : (l.catchUp chain).run store = (.ok (), written)) :
    Reaches h l store written n := by
  have hlt : n < 2 ^ 64 := Nat.lt_of_succ_lt hn
  have hnumber := h.number_header n hlt
  obtain ⟨before, middle, hload, hrun⟩ := run_bind_ok_iff.1 hrun
  obtain ⟨hstarts, hloaded⟩ := load_ok hchain hload
  rw [hhead] at hrun
  split at hrun
  · next hbehind =>
      rw [UInt64.lt_iff_toNat_lt, hnumber] at hbehind
      simp only [run_lift_bind_ok_iff] at hrun
      obtain ⟨events, hevents, after, happly, epoch, _, hrun⟩ := hrun
      cases hrun
      have hfirst := toNat_succ (Nat.lt_of_le_of_lt hbehind hlt)
      -- the head itself is read as well
      have hstop := toNat_succ (n := (h.header n).number) (by rwa [hnumber])
      have hfound := eventsBetween_ok hchain hevents
      rw [hfirst, hstop, hnumber, Nat.add_sub_add_right] at hfound
      exact reaches_of_applyEvents hchain hlt hstarts hbehind hfound happly epoch
  · next hreached =>
      cases hrun
      rw [UInt64.lt_iff_toNat_lt, hnumber] at hreached
      exact reaches_of_le hstarts hloaded (by omega)

theorem onFinalized_ok (hchain : chain.Shows h) {n : Nat} (hn : n < 2 ^ 64) {block : ExecutedBlock}
    {epoch : UInt64} (hheader : block.block.header = h.header n) (hreceipts : block.receipts = h.receipts n)
    (hrun : (l.onFinalized chain block epoch).run store = (.ok (), written)) :
    Reaches h l store written n := by
  have hnumber := h.number_header n hn
  obtain ⟨before, middle, hload, hrun⟩ := run_bind_ok_iff.1 hrun
  obtain ⟨hstarts, hloaded⟩ := load_ok hchain hload
  rw [hheader, hreceipts] at hrun
  split at hrun
  · next hbehind =>
      rw [UInt64.lt_iff_toNat_lt, hnumber] at hbehind
      simp only [run_lift_bind_ok_iff] at hrun
      obtain ⟨missed, hmissed, events, hevents, after, happly, hrun⟩ := hrun
      cases hrun
      have hfirst := toNat_succ (Nat.lt_of_le_of_lt hbehind hn)
      have hfound := eventsBetween_ok hchain hmissed
      rw [hfirst, hnumber] at hfound
      -- the gap and the block itself are the blocks after the snapshot
      have hall : missed ++ events =
          (h.changes l (before.block.toNat + 1) (n - before.block.toNat)).map (·.2) := by
        have hsplit : n - before.block.toNat = n - (before.block.toNat + 1) + 1 := by omega
        have hlast : before.block.toNat + 1 + (n - (before.block.toNat + 1)) = n := by omega
        rw [hsplit, changes_add, hlast, List.map_append, map_changes_succ, hfound,
          receiptEvents_ok hevents]
        exact congrArg _ (List.append_nil _).symm
      exact reaches_of_applyEvents hchain hn hstarts hbehind hall happly epoch
  · next hreached =>
      cases hrun
      rw [UInt64.lt_iff_toNat_lt, hnumber] at hreached
      exact reaches_of_le hstarts hloaded (by omega)

/-- The block up to which the snapshot of a store goes. -/
def watermark (store : Store) : Nat :=
  match snapshot? store with
  | .ok (some s) => s.block.toNat
  | _ => 0

/-- The record of a store can be read, if there is one, and gives every address the power that it has
if what block `k` leaves of a stake is weighed with the exponent `weigh k`. -/
def Agrees (h : StakeHistory) (l : Ledger) (weigh : Nat → Exponent) (store : Store) : Prop :=
  ∃ found, snapshot? store = .ok found ∧ ∀ s ∈ found, s.stakes.Keyed ∧
    ∀ a, s.stakes.power? a = h.powerOf l weigh s.block.toNat a

theorem watermark_of_snapshot? {s : Snapshot} (hstore : snapshot? store = .ok (some s)) :
    watermark store = s.block.toNat := by
  rw [watermark, hstore]

theorem agrees_empty (h : StakeHistory) (l : Ledger) (weigh : Nat → Exponent) :
    Agrees h l weigh Store.empty :=
  ⟨none, rfl, fun _ hs => by cases hs⟩

theorem StartsFrom.block_eq {s : Snapshot} (hstarts : StartsFrom h store s) :
    s.block.toNat = watermark store := by
  rcases hstarts with hstored | ⟨hnone, rfl⟩
  · exact (watermark_of_snapshot? hstored).symm
  · rw [watermark, hnone]
    rfl

/-- A call that succeeds leaves a snapshot that goes up to the block it was about, or further. -/
theorem Reaches.snapshot {n : Nat} (hreaches : Reaches h l store written n) (hfits : written.Fits) :
    ∃ s, snapshot? written = .ok (some s) ∧ s.block.toNat = max (watermark store) n := by
  obtain ⟨before, after, hstarts, -, hblock, hleft⟩ := hreaches
  rw [hstarts.block_eq] at hblock
  exact ⟨after, hleft hfits, hblock⟩

variable {weigh weigh' : Nat → Exponent}

theorem Agrees.congr (hagrees : Agrees h l weigh store)
    (hsame : ∀ k ≤ watermark store, weigh k = weigh' k) : Agrees h l weigh' store := by
  obtain ⟨found, hfound, hpowers⟩ := hagrees
  refine ⟨found, hfound, fun s hs => ⟨(hpowers s hs).1, fun a => ?_⟩⟩
  rw [(hpowers s hs).2 a]
  cases hs
  rw [watermark_of_snapshot? hfound] at hsame
  exact powerOf_congr hsame a

/-- The snapshot that a call starts from agrees as well, also if it is that of the genesis. -/
theorem Agrees.startsFrom (hagrees : Agrees h l weigh store) {s : Snapshot}
    (hstarts : StartsFrom h store s) : s.block.toNat = watermark store ∧ s.stakes.Keyed ∧
      ∀ a, s.stakes.power? a = h.powerOf l weigh s.block.toNat a := by
  refine ⟨hstarts.block_eq, ?_⟩
  rcases hstarts with hstored | ⟨-, rfl⟩
  · obtain ⟨found, hfound, hpowers⟩ := hagrees
    rw [hstored] at hfound
    cases hfound
    exact hpowers s rfl
  · exact ⟨StakeTable.keyed_ofMembers h.genesis, fun a => rfl⟩

/-- What a successful call has taken in is weighed with the exponent after the block it led to. -/
theorem Agrees.reaches (hagrees : Agrees h l weigh store) {n : Nat} (hreaches : Reaches h l store written n)
    (hfits : written.Fits) : watermark written = max (watermark store) n ∧
      Agrees h l (fun k => if k ≤ watermark store then weigh k else h.exponent (watermark written))
        written := by
  obtain ⟨before, after, hstarts, hadvances, hblock, hleft⟩ := hreaches
  obtain ⟨hmark, hkeyed, hpowers⟩ := hagrees.startsFrom hstarts
  have hwritten := hleft hfits
  have hmark' := watermark_of_snapshot? hwritten
  rw [hmark', ← hmark]
  refine ⟨hblock, some after, hwritten, fun s hs => ?_⟩
  cases hs
  refine ⟨hadvances.keyed hkeyed, fun a => ?_⟩
  rw [hadvances.power, powerOf_eq_weighed _ hadvances.block_le, hpowers]
  cases hlast : lastAmong a (h.changes l (before.block.toNat + 1)
    (after.block.toNat - before.block.toNat)) with
  | none => exact powerOf_congr (fun k hk => (if_pos hk).symm) a
  | some last =>
      have hnew := (lastAmong_range hlast).1
      rw [weighed, weighed, if_neg (by omega)]

end Ledger

end EpochSeal
