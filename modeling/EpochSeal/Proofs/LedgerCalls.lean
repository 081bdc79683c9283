import EpochSeal.Proofs.LedgerAdvance
import EpochSeal.Simulation.World
import Mathlib.Data.List.Infix

/-! What a ledger knows of the stakes after calls of any kind, in any order, of which some fail. Every
block up to the one that it has reached counts once, and later blocks not at all. -/
namespace EpochSeal

/-- A call of a ledger, with the chain as it is at that moment. -/
inductive LedgerCall where
  | catchUp (chain : Chain)
  | finalized (chain : Chain) (block : ExecutedBlock) (epoch : UInt64)

namespace LedgerCall
open Ledger StakeHistory

def steps (l : Ledger) : LedgerCall → Transactional LedgerError Unit
  | .catchUp chain => l.catchUp chain
  | .finalized chain block epoch => l.onFinalized chain block epoch

/-- The block that a call leads the ledger to. -/
def height : LedgerCall → Nat
  | .catchUp chain => chain.head.number.toNat
  | .finalized _ block _ => block.block.header.number.toNat

/-- The outcome of a call in a transaction of its own, and the store after it. -/
def run (l : Ledger) (store : Store) (c : LedgerCall) : Except LedgerError Unit × Store :=
  Transactional.runOwn (c.steps l) store

def after (l : Ledger) (store : Store) (calls : List LedgerCall) : Store :=
  calls.foldl (fun store c => (c.run l store).2) store

/-- A call is made with what happened. -/
def Faithful (h : StakeHistory) : LedgerCall → Prop
  | .catchUp chain => chain.Shows h
  | .finalized chain block _ => chain.Shows h ∧
    ∃ n < 2 ^ 64, block.block.header = h.header n ∧ block.receipts = h.receipts n

/-- The block that the ledger had reached when it first had reached block `n`. -/
def markOf (l : Ledger) (n : Nat) : Store → List LedgerCall → Nat
  | store, [] => watermark store
  | store, c :: rest =>
    if n ≤ watermark store then watermark store else markOf l n (c.run l store).2 rest

variable {h : StakeHistory} {l : Ledger} {store written : Store} {weigh : Nat → Exponent}
  {calls : List LedgerCall}

theorem run_error {c : LedgerCall} {cause : LedgerError} (hrun : c.run l store = (.error cause, written)) :
    written = store := by
  unfold run Transactional.runOwn at hrun
  split at hrun <;> cases hrun
  rfl

theorem run_ok {c : LedgerCall} (hrun : c.run l store = (.ok (), written)) :
    (c.steps l).run store = (.ok (), written) := by
  unfold run Transactional.runOwn at hrun
  split at hrun
  · next hsteps =>
      cases hrun
      exact hsteps
  · cases hrun

theorem reaches_of_run {c : LedgerCall} (hfaithful : c.Faithful h)
    (hrun : c.run l store = (.ok (), written)) : Reaches h l store written c.height := by
  have hsteps := run_ok hrun
  cases c with
  | catchUp chain =>
      obtain ⟨n, hn, hhead⟩ := Chain.Shows.head hfaithful
      rw [height, hhead, h.number_header n (Nat.lt_of_succ_lt hn)]
      exact catchUp_ok hfaithful hn hhead hsteps
  | finalized chain block epoch =>
      obtain ⟨hchain, n, hn, hheader, hreceipts⟩ := hfaithful
      rw [height, hheader, h.number_header n hn]
      exact onFinalized_ok hchain hn hheader hreceipts hsteps

theorem agrees_run {c : LedgerCall} (hfaithful : c.Faithful h) (hagrees : Agrees h l weigh store)
    (hfits : (c.run l store).2.Fits) : watermark store ≤ watermark (c.run l store).2 ∧
      Agrees h l (fun k => if k ≤ watermark store then weigh k
        else h.exponent (watermark (c.run l store).2)) (c.run l store).2 := by
  cases hrun : c.run l store with
  | mk outcome written =>
      rw [hrun] at hfits
      cases outcome with
      | error cause =>
          cases run_error hrun
          exact ⟨Nat.le_refl _, hagrees.congr fun k hk => (if_pos hk).symm⟩
      | ok _ =>
          obtain ⟨hmark, hnext⟩ := hagrees.reaches (reaches_of_run hfaithful hrun) hfits
          exact ⟨by simp only [hmark]; omega, hnext⟩

theorem markOf_of_le {n : Nat} (hle : n ≤ watermark store) (calls : List LedgerCall) :
    markOf l n store calls = watermark store := by
  cases calls with
  | nil => rfl
  | cons c rest => exact if_pos hle

/-- Calls in any order, with any outcomes: each block is taken in once, with the exponent after the
block that the ledger then reached. -/
theorem agrees_after (hfaithful : ∀ c ∈ calls, c.Faithful h) (hagrees : Agrees h l weigh store)
    (hfits : ∀ front, front <+: calls → (after l store front).Fits) :
    Agrees h l (fun k => if k ≤ watermark store then weigh k else h.exponent (markOf l k store calls))
      (after l store calls) := by
  induction calls generalizing store weigh with
  | nil => exact hagrees.congr fun k hk => (if_pos hk).symm
  | cons c rest ih =>
      have hfirst : (c.run l store).2.Fits := hfits [c] (List.prefix_append [c] rest)
      obtain ⟨hmark, hnext⟩ := agrees_run (hfaithful c List.mem_cons_self) hagrees hfirst
      have hrest := ih (fun d hd => hfaithful d (List.mem_cons_of_mem c hd)) hnext
        fun front hfront => hfits (c :: front) (List.cons_prefix_cons.2 ⟨rfl, hfront⟩)
      refine hrest.congr fun k _ => ?_
      by_cases hold : k ≤ watermark store
      · rw [if_pos (by omega), if_pos hold, if_pos hold]
      · rw [if_neg hold, if_neg hold, markOf, if_neg hold]
        split
        · next hreached => rw [markOf_of_le hreached]
        · rfl

theorem powers_after {s : Snapshot} (hfaithful : ∀ c ∈ calls, c.Faithful h)
    (hfits : ∀ front, front <+: calls → (after l Store.empty front).Fits)
    (hs : snapshot? (after l Store.empty calls) = .ok (some s)) : s.stakes.Keyed ∧
      ∀ a, s.stakes.power? a =
        h.powerOf l (fun k => h.exponent (markOf l k Store.empty calls)) s.block.toNat a := by
  obtain ⟨found, hfound, hpowers⟩ := agrees_after hfaithful (agrees_empty h l h.exponent) hfits
  rw [hs] at hfound
  cases hfound
  refine ⟨(hpowers s rfl).1, fun a => ((hpowers s rfl).2 a).trans (powerOf_congr (fun k _ => ?_) a)⟩
  split
  · next hzero => rw [markOf_of_le hzero, Nat.le_zero.1 hzero]; rfl
  · rfl

/-- A store that has a snapshot keeps one, and it does not go back. -/
theorem block_le_run {c : LedgerCall} (hfaithful : c.Faithful h) (hfits : (c.run l store).2.Fits)
    {s : Snapshot} (hstore : snapshot? store = .ok (some s)) :
    ∃ s', snapshot? (c.run l store).2 = .ok (some s') ∧ s.block ≤ s'.block := by
  cases hrun : c.run l store with
  | mk outcome written =>
      rw [hrun] at hfits
      cases outcome with
      | error cause =>
          cases run_error hrun
          exact ⟨s, hstore, UInt64.le_refl _⟩
      | ok _ =>
          obtain ⟨before, after, hstarts, hadvances, _, hleft⟩ := reaches_of_run hfaithful hrun
          rcases hstarts with hstored | ⟨hnone, _⟩
          · rw [hstore] at hstored
            cases hstored
            exact ⟨after, hleft hfits, UInt64.le_iff_toNat_le.2 hadvances.block_le⟩
          · rw [hstore] at hnone
            cases hnone

theorem after_append (l : Ledger) (store : Store) (front back : List LedgerCall) :
    after l store (front ++ back) = after l (after l store front) back := List.foldl_append

/-- Every change of stake counts once, whatever is repeated, skipped or fails: the ledger knows the
last change up to the block that it has reached. A call that fails changes nothing, one that succeeds
reaches its block, and none goes back. -/
theorem last_change_counts {e : Exponent} (hexponent : ∀ n, h.exponent n = e)
    (hdistinct : h.genesis.addresses.Nodup) (hfaithful : ∀ c ∈ calls, c.Faithful h)
    (hfits : ∀ front, front <+: calls → (after l Store.empty front).Fits) :
    (∀ front c back, calls = front ++ c :: back →
      (∀ cause, (c.run l (after l Store.empty front)).1 = .error cause →
        (c.run l (after l Store.empty front)).2 = after l Store.empty front) ∧
      ((c.run l (after l Store.empty front)).1 = .ok () →
        ∃ s, snapshot? (c.run l (after l Store.empty front)).2 = .ok (some s) ∧
          s.block.toNat = max (watermark (after l Store.empty front)) c.height) ∧
      ∀ s, snapshot? (after l Store.empty front) = .ok (some s) →
        ∃ s', snapshot? (c.run l (after l Store.empty front)).2 = .ok (some s') ∧ s.block ≤ s'.block) ∧
    ∃ found, snapshot? (after l Store.empty calls) = .ok found ∧ ∀ s ∈ found, ∀ a,
      (s.stakes.find? a).map (·.power) = match h.lastChange l s.block.toNat a with
        | some (_, balance) => some (VotingPower.ofBalance balance e)
        | none => (h.genesis.find? a).map (·.power) := by
  constructor
  · rintro front c back rfl
    have hcall : c.Faithful h := hfaithful c (by simp)
    have hnext : (c.run l (after l Store.empty front)).2.Fits := by
      have hafter : (c.run l (after l Store.empty front)).2 = after l Store.empty (front ++ [c]) := by
        rw [after_append]
        rfl
      rw [hafter]
      exact hfits (front ++ [c]) (by simp)
    refine ⟨fun cause hcause => run_error (Prod.ext hcause rfl), fun hok => ?_, fun s hs => ?_⟩
    · exact (reaches_of_run hcall (Prod.ext hok rfl)).snapshot hnext
    · exact block_le_run hcall hnext hs
  · obtain ⟨found, hfound, _⟩ := agrees_after hfaithful (agrees_empty h l h.exponent) hfits
    refine ⟨found, hfound, fun s hs a => ?_⟩
    cases hs
    have hpower := (powers_after hfaithful hfits hfound).2 a
    simp only [hexponent] at hpower
    refine hpower.trans ?_
    unfold powerOf
    cases h.lastChange l s.block.toNat a with
    | none => exact genesisPower?_eq hdistinct a
    | some last => rfl

def pairSet : ValidatorSet :=
  ⟨[Validator.ofStake (Address.ofLow 1) none 5, Validator.ofStake (Address.ofLow 2) none 7]⟩

/-- In block 2 the first of two validators withdraws its stake. -/
def withdrawal (exponent : Nat → Exponent) : StakeHistory where
  genesis := pairSet
  header n := { Simulation.emptyHeader with
    number := UInt64.ofNat n
    digest := Payload.wordDigest (BitVec.ofNat 256 n) }
  receipts n :=
    if n = 2 then
      [⟨Digest.zero, true, 21000, [BalanceChanged.toLog ⟨Address.ofLow 1, 0⟩ Contract.staking]⟩]
    else []
  exponent
  number_header _ hn := UInt64.toNat_ofNat_of_lt hn

/-- What a node sees of it that has stored the blocks up to `top`. -/
def withdrawalChain (exponent : Nat → Exponent) (top : Nat) : Chain where
  head := (withdrawal exponent).header top
  header? n := if n.toNat ≤ top then some ((withdrawal exponent).header n.toNat) else none
  receipts digest := .ok ((withdrawal exponent).receipts (Word.ofBytes digest.bytes).toNat)
  systemState header := .ok
    { epoch := .ok 1
      nextCommittedIndex := .ok 1
      exponent := .ok (exponent header.number.toNat)
      blsKey := fun _ => .error (.call "getValidator" "execution reverted")
      status := fun _ => .ok .active }
  balance _ _ := .ok 0
  execute _ block := .ok ⟨block, []⟩
  commit _ := .ok ()
  validatorsAt _ := .ok pairSet

theorem shows_withdrawalChain (exponent : Nat → Exponent) {top : Nat} (htop : top + 1 < 2 ^ 64) :
    (withdrawalChain exponent top).Shows (withdrawal exponent) where
  head := ⟨top, htop, rfl⟩
  header n found hfound := by
    simp only [withdrawalChain, Option.ite_none_right_eq_some, Option.some.injEq] at hfound
    exact hfound.2.symm
  receipts n found receipts hfound hreceipts := by
    simp only [withdrawalChain, Option.ite_none_right_eq_some, Option.some.injEq] at hfound
    obtain ⟨_, rfl⟩ := hfound
    have hlt := n.toNat_lt
    have hnumber : (Word.ofBytes ((withdrawal exponent).header n.toNat).digest.bytes).toNat = n.toNat := by
      change (Word.ofBytes (Word.toBytes (BitVec.ofNat 256 n.toNat))).toNat = n.toNat
      rw [Word.ofBytes_toBytes, BitVec.toNat_ofNat]
      exact Nat.mod_eq_of_lt (by omega)
    rw [← hnumber]
    exact (Except.ok.inj hreceipts).symm
  exponent n hn state e hstate he := by
    cases hstate
    cases he
    exact congrArg exponent ((withdrawal exponent).number_header n hn)
  genesis genesis hgenesis := by
    cases hgenesis
    rfl

/-- The notification of block `n` at a node that has stored the blocks up to `top`. -/
def notification (exponent : Nat → Exponent) (top n : Nat) : LedgerCall :=
  .finalized (withdrawalChain exponent top)
    ⟨⟨(withdrawal exponent).header n, []⟩, (withdrawal exponent).receipts n⟩ 1

theorem faithful_notification (exponent : Nat → Exponent) {top n : Nat} (htop : top + 1 < 2 ^ 64)
    (hn : n < 2 ^ 64) : (notification exponent top n).Faithful (withdrawal exponent) :=
  ⟨shows_withdrawalChain exponent htop, n, hn, rfl, rfl⟩

def stakingLedger : Ledger := ⟨Contract.staking, 100⟩

/-- A notification that comes too early, one in time, a restart, and an old notification. -/
def unorderedCalls : List LedgerCall :=
  [notification (fun _ => ⟨1, 1⟩) 2 4, notification (fun _ => ⟨1, 1⟩) 2 1,
    .catchUp (withdrawalChain (fun _ => ⟨1, 1⟩) 2), notification (fun _ => ⟨1, 1⟩) 2 1]

theorem fits_of_length {store : Store} (h : (store.record.getD []).length < 2 ^ 64) : store.Fits := by
  intro bytes hbytes
  rwa [hbytes] at h

theorem last_change_counts_unordered :
    ∃ s, snapshot? (after stakingLedger .empty unorderedCalls) = .ok (some s) ∧ s.block = 2 ∧
      (s.stakes.find? (Address.ofLow 1)).map (·.power) = some 0 ∧
      (s.stakes.find? (Address.ofLow 2)).map (·.power) = some 7 := by
  have hfaithful : ∀ c ∈ unorderedCalls, c.Faithful (withdrawal fun _ => ⟨1, 1⟩) := by
    simp only [unorderedCalls, List.forall_mem_cons]
    exact ⟨faithful_notification _ (by decide) (by decide), faithful_notification _ (by decide) (by decide),
      shows_withdrawalChain _ (by decide), faithful_notification _ (by decide) (by decide),
      fun _ h => absurd h List.not_mem_nil⟩
  have hlength : ∀ front ∈ unorderedCalls.inits,
      ((after stakingLedger .empty front).record.getD []).length < 2 ^ 64 := by decide +kernel
  obtain ⟨_, found, hfound, hpowers⟩ := last_change_counts (l := stakingLedger) (fun _ => rfl)
    (by decide) hfaithful fun front hfront => fits_of_length (hlength front ((List.mem_inits _ _).2 hfront))
  have hblock : (snapshot? (after stakingLedger .empty unorderedCalls)).map
      (fun found => found.map (·.block)) = .ok (some 2) := by decide +kernel
  rw [hfound] at hblock
  obtain ⟨s, rfl, hs⟩ := Option.map_eq_some_iff.1 (Except.ok.inj hblock)
  have hfirst : (withdrawal fun _ => ⟨1, 1⟩).lastChange stakingLedger 2 (Address.ofLow 1) =
      some (2, 0) := by decide +kernel
  have hsecond : (withdrawal fun _ => ⟨1, 1⟩).lastChange stakingLedger 2 (Address.ofLow 2) = none := by
    decide +kernel
  have htwo : s.block.toNat = 2 := by rw [hs]; rfl
  refine ⟨s, hfound, hs, ?_, ?_⟩
  · rw [hpowers s rfl, htwo, hfirst]
    rfl
  · rw [hpowers s rfl, htwo, hsecond]
    rfl

end LedgerCall

end EpochSeal
