import EpochSeal.Proofs.Acceptance
import EpochSeal.Proofs.LedgerCalls
import EpochSeal.Proofs.Preparation
import EpochSeal.Proofs.SealCount
import EpochSeal.Proofs.StakeChange

/-! Which blocks the change at the end of an epoch takes into account. It is computed from the record
of the ledger as it is, whether that goes up to the parent of the round or not. -/
namespace EpochSeal
open Outcome

/-- What a node keeps between rounds: its coordinator and the record of stakes. -/
structure Follower where
  coordinator : Coordinator
  store : Store

/-- What a node is asked to do, with the chain as it has grown by then. A block that is committed and
not handed to the node shows in the chain only. -/
inductive FollowerCall where
  | started (chain : Chain)
  | inserted (chain : Chain) (block : ExecutedBlock)
  | created (chain : Chain) (parent : Header) (context : RoundContext)

namespace Coordinator

variable {c c' : Coordinator} {chain : Chain} {store store' : Store} {block : ExecutedBlock}

/-- A block that is taken in goes to the ledger, under the epoch that it says. -/
theorem onInserted_ok_iff : c.onInserted chain store block = .ok (c', store') ↔
    c' = c.afterBlock block.block.header.number ∧ ∃ e checkpoint,
      Extension.decode block.block.header.extraData = .ok e ∧ e.checkpoint = some checkpoint ∧
      (LedgerCall.finalized chain block checkpoint.epoch).run c.ledger store = (.ok (), store') := by
  simp only [onInserted, bind_ok_iff, mapError_ok_iff]
  constructor
  · rintro ⟨e, hextension, h⟩
    split at h
    · next checkpoint hcheckpoint =>
        split at h
        · cases h
        · next hrun =>
            cases h
            exact ⟨rfl, e, checkpoint, hextension, hcheckpoint, hrun⟩
    · cases h
  · rintro ⟨rfl, e, checkpoint, hextension, hcheckpoint, hrun⟩
    refine ⟨e, hextension, ?_⟩
    simp only [hcheckpoint]
    split
    · next hfailed => cases hfailed.symm.trans hrun
    · next hwritten =>
        cases hwritten.symm.trans hrun
        rfl

theorem ledger_afterBlock (c : Coordinator) (height : UInt64) : (c.afterBlock height).ledger = c.ledger := by
  unfold afterBlock
  split <;> rfl

end Coordinator

namespace Ledger

/-- The record of a store goes up to some block: it holds every change of stake until then and none
after it. What a block leaves of a stake was weighed with an exponent at or after that block. -/
def Tracks (h : StakeHistory) (l : Ledger) (store : Store) : Prop :=
  ∃ weigh, Agrees h l weigh store ∧ ∀ k ≤ watermark store,
    ∃ n, k ≤ n ∧ n ≤ watermark store ∧ weigh k = h.exponent n

theorem tracks_empty (h : StakeHistory) (l : Ledger) : Tracks h l Store.empty := by
  refine ⟨h.exponent, agrees_empty h l h.exponent, ?_⟩
  intro k hk
  exact ⟨k, Nat.le_refl k, hk, rfl⟩

/-- A call of the ledger that succeeds takes the record at least to the block that it is about. -/
theorem Tracks.run {h : StakeHistory} {l : Ledger} {store written : Store} {call : LedgerCall}
    (htracks : Tracks h l store) (hrun : call.run l store = (.ok (), written))
    (hfaithful : call.Faithful h) (hfits : written.Fits) :
    Tracks h l written ∧ watermark written = max (watermark store) call.height := by
  obtain ⟨weigh, hagrees, hweigh⟩ := htracks
  obtain ⟨hmark, hnext⟩ := hagrees.reaches (LedgerCall.reaches_of_run hfaithful hrun) hfits
  refine ⟨⟨_, hnext, ?_⟩, hmark⟩
  intro k hk
  by_cases hold : k ≤ watermark store
  · obtain ⟨n, hkn, hn, heq⟩ := hweigh k hold
    exact ⟨n, hkn, by omega, by rw [if_pos hold, heq]⟩
  · exact ⟨watermark written, hk, Nat.le_refl _, if_neg hold⟩

end Ledger

namespace FollowerCall
open Ledger

def Faithful (h : StakeHistory) : FollowerCall → Prop
  | .started chain => chain.Shows h
  | .inserted chain block => chain.Shows h ∧
    ∃ n < 2 ^ 64, block.block.header = h.header n ∧ block.receipts = h.receipts n
  | .created .. => True

def height : FollowerCall → Nat
  | .started chain => chain.head.number.toNat
  | .inserted _ block => block.block.header.number.toNat
  | .created .. => 0

/-- The outcome of a call, and the node after it. -/
def run (f : Follower) : FollowerCall → Except CoordinatorError Unit × Follower
  | .started chain =>
    let (outcome, store) := (LedgerCall.catchUp chain).run f.coordinator.ledger f.store
    (outcome.mapError .ledger, { f with store })
  | .inserted chain block =>
    match f.coordinator.onInserted chain f.store block with
    | .ok (coordinator, store) => (.ok (), ⟨coordinator, store⟩)
    | .error cause => (.error cause, f)
  | .created chain parent context =>
    let (outcome, coordinator) :=
      (Coordinator.createRound chain f.store parent (none : Option Unit) context).run f.coordinator
    (outcome.map fun _ => (), { f with coordinator })

variable {h : StakeHistory} {l : Ledger} {f next : Follower} {c : FollowerCall}

theorem run_error {cause : CoordinatorError} (hrun : c.run f = (.error cause, next)) :
    next.store = f.store := by
  cases c with
  | started chain =>
      cases hledger : (LedgerCall.catchUp chain).run f.coordinator.ledger f.store with
      | mk outcome store =>
          simp only [run, hledger] at hrun
          cases outcome with
          | error _ =>
              cases hrun
              exact LedgerCall.run_error hledger
          | ok _ => cases hrun
  | inserted chain block =>
      simp only [run] at hrun
      split at hrun <;> cases hrun
      rfl
  | created chain parent context => exact congrArg (·.2.store) hrun.symm

theorem ledger_run (hledger : f.coordinator.ledger = l) : (c.run f).2.coordinator.ledger = l := by
  cases c with
  | started chain => exact hledger
  | inserted chain block =>
      simp only [run]
      split
      · next hinserted =>
          obtain ⟨rfl, -⟩ := Coordinator.onInserted_ok_iff.1 hinserted
          exact (Coordinator.ledger_afterBlock _ _).trans hledger
      · exact hledger
  | created chain parent context =>
      exact Coordinator.ledger_createRound l chain f.store parent none context f.coordinator hledger

theorem tracks_run_ok (hfaithful : c.Faithful h) (hledger : f.coordinator.ledger = l)
    (htracks : Tracks h l f.store) (hrun : c.run f = (.ok (), next)) (hfits : next.store.Fits) :
    Tracks h l next.store ∧ watermark next.store = max (watermark f.store) c.height := by
  subst hledger
  cases c with
  | started chain =>
      cases hledger : (LedgerCall.catchUp chain).run f.coordinator.ledger f.store with
      | mk outcome store =>
          simp only [run, hledger] at hrun
          cases outcome with
          | error _ => cases hrun
          | ok _ =>
              cases hrun
              exact htracks.run hledger hfaithful hfits
  | inserted chain block =>
      simp only [run] at hrun
      split at hrun
      · next hinserted =>
          cases hrun
          obtain ⟨-, _, _, -, -, hledger⟩ := Coordinator.onInserted_ok_iff.1 hinserted
          exact htracks.run hledger hfaithful hfits
      · cases hrun
  | created chain parent context =>
      have hstore : next.store = f.store := congrArg (·.2.store) hrun.symm
      rw [hstore]
      exact ⟨htracks, (Nat.max_zero _).symm⟩

/-- The highest block that was handed over by a call that succeeded. -/
def told (f : Follower) : List FollowerCall → Nat
  | [] => 0
  | c :: rest =>
    match c.run f with
    | (.ok _, next) => max c.height (told next rest)
    | (.error _, next) => told next rest

def after (f : Follower) (calls : List FollowerCall) : Follower := calls.foldl (fun f c => (c.run f).2) f

/-- Calls in any order, with any outcomes: the record goes up to the highest block that was handed over,
whatever was missed before it. -/
theorem tracks_after {calls : List FollowerCall} (hfaithful : ∀ c ∈ calls, c.Faithful h)
    (hledger : f.coordinator.ledger = l) (htracks : Tracks h l f.store)
    (hfits : ∀ front, front <+: calls → (after f front).store.Fits) :
    (after f calls).coordinator.ledger = l ∧ Tracks h l (after f calls).store ∧
      watermark (after f calls).store = max (watermark f.store) (told f calls) := by
  -- on the calls for any node: one that fails leaves the record, one that succeeds keeps `Tracks`
  induction calls generalizing f with
  | nil => exact ⟨hledger, htracks, (Nat.max_zero _).symm⟩
  | cons c rest ih =>
      have hfirst : (c.run f).2.store.Fits := hfits [c] (List.prefix_append [c] rest)
      have hrest : ∀ front, front <+: rest → (after (c.run f).2 front).store.Fits := by
        intro front hfront
        exact hfits (c :: front) (List.cons_prefix_cons.2 ⟨rfl, hfront⟩)
      have hlater : ∀ d ∈ rest, d.Faithful h := fun d hd => hfaithful d (List.mem_cons_of_mem c hd)
      have hkept := ledger_run (c := c) hledger
      change (after (c.run f).2 rest).coordinator.ledger = l ∧ Tracks h l (after (c.run f).2 rest).store ∧
        watermark (after (c.run f).2 rest).store = _
      rw [told]
      cases hrun : c.run f with
      | mk outcome next =>
          rw [hrun] at hfirst hrest hkept
          cases outcome with
          | error cause =>
              have hsame := run_error hrun
              rw [← hsame] at htracks ⊢
              exact ih hlater hkept htracks hrest
          | ok _ =>
              obtain ⟨hnext, hmark⟩ :=
                tracks_run_ok (hfaithful c List.mem_cons_self) hledger htracks hrun hfirst
              obtain ⟨hl, ht, hreached⟩ := ih hlater hkept hnext hrest
              exact ⟨hl, ht, by rw [hreached, hmark, Nat.max_assoc]⟩

/-- The change at the end of an epoch is computed from a record that goes up to the highest block that
was handed over, and takes in the events until that block and no later one. So it is that of the parent
exactly if the parent was handed over and nothing behind it: no step looks for what is missing. -/
theorem delta_basis {β : Type} {calls : List FollowerCall} {chain : Chain} {parent : Header}
    {builder : Option β} {context : RoundContext} {r : Round β} {c' : Coordinator}
    (hempty : f.store = Store.empty) (hfaithful : ∀ c ∈ calls, c.Faithful h)
    (hfits : ∀ front, front <+: calls → (after f front).store.Fits)
    (hcreate : (Coordinator.createRound chain (after f calls).store parent builder context).run
      (after f calls).coordinator = (.ok r, c'))
    (hends : r.inputs.endsEpoch = true) :
    ∃ s delta, snapshot? (after f calls).store = .ok (some s) ∧ r.inputs.delta = some delta ∧
      Changes r.inputs.validators (s.stakes.strongest f.coordinator.ledger.maxSetSize) delta ∧
      (s.block = parent.number ↔ told f calls = parent.number.toNat) ∧
      s.block.toNat = told f calls ∧
      ∃ weigh, (∀ k ≤ s.block.toNat, ∃ n, k ≤ n ∧ n ≤ s.block.toNat ∧ weigh k = h.exponent n) ∧
        ∀ a, s.stakes.power? a = h.powerOf f.coordinator.ledger weigh s.block.toNat a := by
  have hstart : Tracks h f.coordinator.ledger f.store := by
    rw [hempty]
    exact tracks_empty h f.coordinator.ledger
  obtain ⟨hledger, ⟨weigh, ⟨found, hfound, hpowers⟩, hweigh⟩, hmark⟩ :=
    tracks_after hfaithful rfl hstart hfits
  have hzero : watermark f.store = 0 := by
    rw [hempty]
    rfl
  obtain ⟨epoch, parentDelta, active, inputs, -, -, hcomplete, rfl⟩ :=
    Coordinator.createRound_ok_iff.1 hcreate
  obtain ⟨_, _, delta, -, -, hdelta, rfl⟩ :=
    RoundInputs.endingEpoch_ok_iff.1 ((Coordinator.completeInputs_ending_iff hends).1 hcomplete)
  rw [hledger] at hdelta
  cases found with
  | none =>
      rw [computeDelta, hfound] at hdelta
      cases hdelta
  | some s =>
      have hblock := watermark_of_snapshot? hfound
      rw [hzero, Nat.zero_max] at hmark
      rw [hblock] at hmark hweigh
      refine ⟨s, delta, hfound, rfl, computeDelta_ok hfound hdelta, ?_, hmark, weigh, hweigh,
        (hpowers s rfl).2⟩
      rw [← UInt64.toNat_inj, hmark]

section missed
open LedgerCall

/-- A withdrawal in block 2, with blocks that a coordinator can read. -/
def recordedWithdrawal : StakeHistory :=
  { withdrawal fun _ => ⟨1, 1⟩ with
    header := fun n => { (withdrawal fun _ => ⟨1, 1⟩).header n with
      extraData := (Simulation.genesisExtension pairSet).encode }
    number_header := (withdrawal fun _ => ⟨1, 1⟩).number_header }

def recordedChain (top : Nat) : Chain :=
  { withdrawalChain (fun _ => ⟨1, 1⟩) top with
    head := recordedWithdrawal.header top
    header? := fun n => if n.toNat ≤ top then some (recordedWithdrawal.header n.toNat) else none }

theorem decode_recordedWithdrawal (n : Nat) : Extension.decode (recordedWithdrawal.header n).extraData =
    .ok (Simulation.genesisExtension pairSet) := by
  have hlength : (Simulation.genesisExtension pairSet).encode.length = 274 :=
    Extension.length_encode_checkpoint _
  exact Extension.decode_encode _ (by omega)

theorem shows_recordedChain {top : Nat} (htop : top + 1 < 2 ^ 64) :
    (recordedChain top).Shows recordedWithdrawal where
  head := ⟨top, htop, rfl⟩
  header n found hfound := by
    simp only [recordedChain, Option.ite_none_right_eq_some, Option.some.injEq] at hfound
    exact hfound.2.symm
  receipts n found receipts hfound hreceipts := by
    simp only [recordedChain, Option.ite_none_right_eq_some, Option.some.injEq] at hfound
    obtain ⟨hstored, rfl⟩ := hfound
    exact (shows_withdrawalChain (fun _ => ⟨1, 1⟩) htop).receipts n
      ((withdrawal fun _ => ⟨1, 1⟩).header n.toNat) receipts (if_pos hstored) hreceipts
  exponent n hn state e hstate he :=
    (shows_withdrawalChain (fun _ => ⟨1, 1⟩) htop).exponent n hn state e hstate he
  genesis := (shows_withdrawalChain (fun _ => ⟨1, 1⟩) htop).genesis

def newFollower : Follower :=
  ⟨⟨{ Config.default with epochSize := 3 }, stakingLedger, none⟩, Store.empty⟩

def quietBlock : ExecutedBlock := ⟨⟨recordedWithdrawal.header 1, []⟩, recordedWithdrawal.receipts 1⟩

/-- Block 1 is handed over. Block 2 is committed and never is. -/
def parentMissed : List FollowerCall := [.inserted (recordedChain 1) quietBlock]

def staleStore : Store :=
  ((LedgerCall.finalized (recordedChain 1) quietBlock 0).run stakingLedger Store.empty).2

theorem run_quietBlock : (inserted (recordedChain 1) quietBlock).run newFollower =
    (.ok (), ⟨newFollower.coordinator, staleStore⟩) := by
  have hledger : ((LedgerCall.finalized (recordedChain 1) quietBlock 0).run stakingLedger
      Store.empty).1 = .ok () := toOption_eq_some_iff.1 (by decide)
  have hnumber : newFollower.coordinator.config.endsEpoch (recordedWithdrawal.header 1).number = false := by
    decide
  have hstays : newFollower.coordinator =
      newFollower.coordinator.afterBlock quietBlock.block.header.number :=
    (if_neg (Bool.eq_false_iff.1 hnumber)).symm
  have hinserted : newFollower.coordinator.onInserted (recordedChain 1) newFollower.store quietBlock =
      .ok (newFollower.coordinator, staleStore) :=
    Coordinator.onInserted_ok_iff.2 ⟨hstays, _, _, decode_recordedWithdrawal 1, rfl, Prod.ext hledger rfl⟩
  simp only [run, hinserted]

theorem after_parentMissed : after newFollower parentMissed = ⟨newFollower.coordinator, staleStore⟩ :=
  congrArg Prod.snd run_quietBlock

theorem told_parentMissed : told newFollower parentMissed = 1 := by
  simp only [parentMissed, told, run_quietBlock]
  rfl

theorem ofEpoch_recordedChain : ∃ uptime, Uptime.ofEpoch (recordedChain 2) 3 (recordedWithdrawal.header 2)
    pairSet = .ok uptime := by
  refine Uptime.ofEpoch_exists fun number hnumber => ?_
  have htwo : number.toNat ≤ 2 := UInt64.le_iff_toNat_le.1 hnumber.2
  have hheader : Uptime.headerAt (recordedChain 2) (recordedWithdrawal.header 2) number =
      .ok (recordedWithdrawal.header number.toNat) := by
    unfold Uptime.headerAt
    split
    · next heq =>
        rw [heq]
        rfl
    · simp only [recordedChain, if_pos htwo]
  refine ⟨_, [], hheader, ?_⟩
  simp only [Uptime.sealersOf, decode_recordedWithdrawal]
  rfl

theorem createRound_parentMissed : ∃ r : Round Unit, r.inputs.endsEpoch = true ∧
    (Coordinator.createRound (recordedChain 2) (after newFollower parentMissed).store
      (recordedWithdrawal.header 2) none ⟨Digest.zero, none⟩).run
        (after newFollower parentMissed).coordinator =
          (.ok r, { newFollower.coordinator with cached := some (2, pairSet) }) := by
  have hread : Coordinator.readParent newFollower.coordinator.config (recordedWithdrawal.header 2) =
      .ok (0, none) := by
    have hepoch : newFollower.coordinator.config.epochAt 0 ((recordedWithdrawal.header 2).number + 1) = 0 := by
      decide
    simp only [Coordinator.readParent, decode_recordedWithdrawal]
    exact congrArg (fun epoch => Except.ok (epoch, none)) hepoch
  obtain ⟨uptime, huptime⟩ := ofEpoch_recordedChain
  obtain ⟨delta, hdelta⟩ := Option.isSome_iff_exists.1 (show (newFollower.coordinator.ledger.computeDelta
    (recordedChain 2) staleStore 0 pairSet).toOption.isSome = true by decide)
  have hends : (RoundInputs.plain newFollower.coordinator.config (recordedWithdrawal.header 2) pairSet 0
      ⟨Digest.zero, none⟩).endsEpoch = true := by decide
  rw [after_parentMissed]
  refine ⟨_, ?_, Coordinator.createRound_ok_iff.2 ⟨0, none, pairSet, _, hread, rfl,
    (if_pos hends).trans (RoundInputs.endingEpoch_ok_iff.2 ⟨uptime, _, delta, huptime, rfl,
      toOption_eq_some_iff.1 hdelta, rfl⟩), rfl⟩⟩
  exact hends

/-- The withdrawal is missing in what the change is computed from. -/
theorem delta_basis_missed : ∃ (r : Round Unit) (c' : Coordinator) (s : Snapshot) (delta : SetDelta),
    (Coordinator.createRound (recordedChain 2) (after newFollower parentMissed).store
      (recordedWithdrawal.header 2) none ⟨Digest.zero, none⟩).run
        (after newFollower parentMissed).coordinator = (.ok r, c') ∧
    r.inputs.endsEpoch = true ∧ snapshot? (after newFollower parentMissed).store = .ok (some s) ∧
    r.inputs.delta = some delta ∧ Changes r.inputs.validators (s.stakes.strongest 100) delta ∧
    s.block ≠ (recordedWithdrawal.header 2).number ∧ s.stakes.power? (Address.ofLow 1) = some 5 ∧
    recordedWithdrawal.powerOf stakingLedger recordedWithdrawal.exponent 2 (Address.ofLow 1) = some 0 := by
  have hfaithful : ∀ c ∈ parentMissed, c.Faithful recordedWithdrawal := by
    simp only [parentMissed, List.forall_mem_singleton]
    exact ⟨shows_recordedChain (by decide), 1, by decide, rfl, rfl⟩
  have hfits : ∀ front, front <+: parentMissed → (after newFollower front).store.Fits := by
    intro front hfront
    rcases List.prefix_cons_iff.1 hfront with rfl | ⟨rest, rfl, hrest⟩
    · intro bytes hbytes
      cases hbytes
    · cases List.prefix_nil.1 hrest
      rw [← parentMissed, after_parentMissed]
      exact fits_of_length (by decide +kernel)
  obtain ⟨r, hends, hcreate⟩ := createRound_parentMissed
  obtain ⟨s, delta, hs, hdelta, hchanges, hiff, hblock, weigh, -, hpowers⟩ :=
    delta_basis rfl hfaithful hfits hcreate hends
  rw [told_parentMissed] at hiff hblock
  have hgenesis : recordedWithdrawal.genesisPower? (Address.ofLow 1) = some 5 := by decide
  have hearly : recordedWithdrawal.lastChange stakingLedger 1 (Address.ofLow 1) = none := by
    decide
  have hlate : recordedWithdrawal.lastChange stakingLedger 2 (Address.ofLow 1) = some (2, 0) := by
    decide +kernel
  refine ⟨r, _, s, delta, hcreate, hends, hs, hdelta, hchanges, ?_, ?_, ?_⟩
  · rw [Ne, hiff]
    decide
  · rw [hpowers, hblock]
    change recordedWithdrawal.powerOf stakingLedger weigh 1 (Address.ofLow 1) = some 5
    rw [StakeHistory.powerOf, hearly]
    exact hgenesis
  · rw [StakeHistory.powerOf, hlate]
    decide

end missed

end FollowerCall

end EpochSeal
