import EpochSeal.Proofs.FailedCalls

/-! What is true of every record of stakes that is committed. Each validator stands under its address and
is active exactly if it has power, no validator that was ever recorded is missing, and a key that was
recorded stays. Transactions of a caller count as well, with all that failing calls leave in them. -/
namespace EpochSeal
open Outcome

namespace StakeTable

structure InOrder (t : StakeTable) : Prop where
  keyed : t.Keyed
  active : ∀ a v, t.find? a = some v → v.active = decide (0 < v.power)

/-- Every validator is still there, with its key if one was recorded. -/
def KeptIn (t u : StakeTable) : Prop :=
  ∀ a v, t.find? a = some v → ∃ w, u.find? a = some w ∧ ∀ key, v.blsKey = some key → w.blsKey = some key

variable {t u : StakeTable}

theorem KeptIn.refl (t : StakeTable) : t.KeptIn t := by
  intro a v hv
  exact ⟨v, hv, fun _ hkey => hkey⟩

theorem KeptIn.trans {t₁ t₂ t₃ : StakeTable} (h₁ : t₁.KeptIn t₂) (h₂ : t₂.KeptIn t₃) : t₁.KeptIn t₃ := by
  intro a v hv
  obtain ⟨w, hw, hkey⟩ := h₁ a v hv
  obtain ⟨x, hx, hkey'⟩ := h₂ a w hw
  exact ⟨x, hx, fun key h => hkey' key (hkey key h)⟩

theorem inOrder_empty : empty.InOrder := by
  constructor
  · intro e he
    cases he
  · intro a v hv
    cases hv

theorem InOrder.insert (h : t.InOrder) {v : Validator} (hactive : v.active = decide (0 < v.power)) :
    (t.insert v.address v).InOrder := by
  refine ⟨h.keyed.insert v, ?_⟩
  intro a w hw
  rw [find?_insert] at hw
  split at hw
  · cases hw
    exact hactive
  · exact h.active a w hw

theorem InOrder.insertAll (h : t.InOrder) {members : List Validator}
    (hactive : ∀ v ∈ members, v.active = decide (0 < v.power)) :
    ((members.map fun v => (v.address, v)).foldl (fun t e => t.insert e.1 e.2) t).InOrder := by
  induction members generalizing t with
  | nil => exact h
  | cons v rest ih =>
      obtain ⟨hfirst, hrest⟩ := List.forall_mem_cons.1 hactive
      exact ih (h.insert hfirst) hrest

theorem InOrder.setStake (h : t.InOrder) (a : Address) (balance : Word) (e : Exponent) :
    (t.setStake a balance e).InOrder := by
  refine ⟨h.keyed.setStake a balance e, ?_⟩
  intro b w hw
  rw [StakeTable.setStake, find?_insert] at hw
  split at hw
  · cases hw
    rfl
  · exact h.active b w hw

theorem keptIn_setStake (t : StakeTable) (a : Address) (balance : Word) (e : Exponent) :
    t.KeptIn (t.setStake a balance e) := by
  intro b v hv
  rw [setStake, find?_insert]
  split
  · next hb =>
      subst hb
      rw [hv]
      exact ⟨_, rfl, fun _ hkey => hkey⟩
  · exact ⟨v, hv, fun _ hkey => hkey⟩

theorem foldl_setStake (h : t.InOrder) (events : List BalanceChanged) (e : Exponent) :
    (events.foldl (fun t event => t.setStake event.account event.balance e) t).InOrder ∧
      t.KeptIn (events.foldl (fun t event => t.setStake event.account event.balance e) t) := by
  induction events generalizing t with
  | nil => exact ⟨h, .refl t⟩
  | cons event rest ih =>
      obtain ⟨hinorder, hkept⟩ := ih (h.setStake event.account event.balance e)
      exact ⟨hinorder, (keptIn_setStake t _ _ _).trans hkept⟩

theorem InOrder.completeKeys (h : t.InOrder) (chain : Chain) :
    (t.mapValidators (Ledger.completeKey chain)).InOrder := by
  refine ⟨keyed_completeKeys h.keyed chain, ?_⟩
  intro a w hw
  rw [find?_mapValidators] at hw
  obtain ⟨v, -, rfl⟩ := Option.map_eq_some_iff.1 hw
  rfl

/-- A key is looked up only for a validator without one. -/
theorem keptIn_completeKeys (t : StakeTable) (chain : Chain) :
    t.KeptIn (t.mapValidators (Ledger.completeKey chain)) := by
  intro a v hv
  refine ⟨Ledger.completeKey chain a v, ?_, ?_⟩
  · rw [find?_mapValidators, hv]
    rfl
  · intro key hkey
    simp only [Ledger.completeKey, hkey]

end StakeTable

namespace Snapshot

structure InOrder (s : Snapshot) : Prop where
  stakes : s.stakes.InOrder
  updatedAt_le : s.updatedAt ≤ s.block

/-- The later snapshot is in order if the earlier one is, and then it has lost nothing. -/
def LeadsTo (before after : Snapshot) : Prop :=
  before.InOrder → after.InOrder ∧ before.stakes.KeptIn after.stakes

theorem LeadsTo.refl (s : Snapshot) : s.LeadsTo s := by
  intro h
  exact ⟨h, .refl s.stakes⟩

end Snapshot

namespace Ledger

variable {chain : Chain} {store : Store}

theorem inOrder_genesisSnapshot {genesis : ValidatorSet}
    (h : ∀ v ∈ genesis.members, v.active = decide (0 < v.power)) : (genesisSnapshot genesis).InOrder :=
  ⟨StakeTable.inOrder_empty.insertAll h, UInt64.le_refl 0⟩

theorem leadsTo_of_applyEvents {before after : Snapshot} {events : List BalanceChanged} {header : Header}
    (happly : applyEvents chain before events header = .ok after) (hbehind : before.block < header.number)
    (epoch : UInt64) : before.LeadsTo { after with epoch, block := header.number } := by
  intro h
  have hold : before.updatedAt ≤ header.number :=
    UInt64.le_trans h.updatedAt_le (UInt64.le_of_lt hbehind)
  unfold applyEvents at happly
  split at happly
  · cases happly
    exact ⟨⟨h.stakes, hold⟩, .refl _⟩
  · simp only [bind_ok_iff, pure_ok_iff] at happly
    obtain ⟨e, -, rfl⟩ := happly
    obtain ⟨hinorder, hkept⟩ := StakeTable.foldl_setStake h.stakes events e
    exact ⟨⟨hinorder.completeKeys chain, UInt64.le_refl _⟩,
      hkept.trans (StakeTable.keptIn_completeKeys _ chain)⟩

end Ledger

namespace LedgerCall
open Ledger

variable {l : Ledger} {store : Store} {c : LedgerCall}

/-- After it has loaded a snapshot, a call writes one that the loaded one leads to, or nothing. -/
theorem steps_keeps (l : Ledger) (c : LedgerCall) : ∃ rest : Snapshot → Transactional LedgerError Unit,
    c.steps l = load c.chain >>= rest ∧ ∀ before p, (∀ after, before.LeadsTo after → p (Store.put after)) →
      Keeps p (rest before) := by
  cases c with
  | catchUp chain =>
      refine ⟨_, rfl, ?_⟩
      intro before p hput
      split
      · next hbehind =>
          exact .lift_bind _ fun _ _ => .lift_bind _ fun _ happly => .lift_bind _ fun epoch _ =>
            .set (hput _ (leadsTo_of_applyEvents happly hbehind epoch))
      · exact .mk_pure p (.ok ())
  | finalized chain block epoch =>
      refine ⟨_, rfl, ?_⟩
      intro before p hput
      split
      · next hbehind =>
          exact .lift_bind _ fun _ _ => .lift_bind _ fun _ _ => .lift_bind _ fun _ happly =>
            .set (hput _ (leadsTo_of_applyEvents happly hbehind epoch))
      · exact .mk_pure p (.ok ())

/-- What a call leaves, whether it succeeds or fails: what it found, or a snapshot that the one it found
leads to, or that of the genesis set if it found none. -/
theorem run_steps_cases (l : Ledger) (store : Store) (c : LedgerCall) :
    ((c.steps l).run store).2 = store ∨ ∃ before after,
      (snapshot? store = .ok (some before) ∨ snapshot? store = .ok none ∧
        ∃ genesis, c.chain.validatorsAt 0 = .ok genesis ∧ before = genesisSnapshot genesis) ∧
      before.LeadsTo after ∧ ((c.steps l).run store).2 = Store.put after := by
  obtain ⟨rest, hsteps, hrest⟩ := steps_keeps l c
  rw [hsteps]
  have hload := run_load c.chain store
  split at hload
  · rw [run_bind_error hload]
    exact .inl rfl
  · next before hfound =>
      rw [run_bind_ok hload]
      rcases hrest before (fun s => s = store ∨ ∃ after, before.LeadsTo after ∧ s = Store.put after)
        (fun after hafter => .inr ⟨after, hafter, rfl⟩) store (.inl rfl) with hsame | ⟨after, hafter, hwritten⟩
      · exact .inl hsame
      · exact .inr ⟨before, after, .inl hfound, hafter, hwritten⟩
  · next hnone =>
      split at hload
      · rw [run_bind_error hload]
        exact .inl rfl
      · next genesis hgenesis =>
          rw [run_bind_ok hload]
          obtain ⟨after, hafter, hwritten⟩ := hrest (genesisSnapshot genesis)
            (fun s => ∃ after, (genesisSnapshot genesis).LeadsTo after ∧ s = Store.put after)
            (fun after hafter => ⟨after, hafter, rfl⟩) (Store.put (genesisSnapshot genesis)) ⟨_, .refl _, rfl⟩
          exact .inr ⟨_, after, .inr ⟨hnone, genesis, hgenesis, rfl⟩, hafter, hwritten⟩

end LedgerCall

namespace Store
open Ledger

/-- The store has no snapshot, or one that is in order. -/
def InOrder (store : Store) : Prop := ∃ found, snapshot? store = .ok found ∧ ∀ s ∈ found, s.InOrder

theorem inOrder_of_snapshot {store : Store} {s : Snapshot} (hstore : snapshot? store = .ok (some s))
    (h : s.InOrder) : store.InOrder := by
  refine ⟨some s, hstore, ?_⟩
  intro found hfound
  cases hfound
  exact h

/-- What a store has of a snapshot, the later one has lost nothing of. -/
def KeptIn (store later : Store) : Prop := ∀ s, snapshot? store = .ok (some s) →
  ∃ s', snapshot? later = .ok (some s') ∧ s.stakes.KeptIn s'.stakes

theorem KeptIn.refl (store : Store) : store.KeptIn store := by
  intro s hs
  exact ⟨s, hs, .refl s.stakes⟩

theorem KeptIn.trans {store₁ store₂ store₃ : Store} (h₁ : store₁.KeptIn store₂)
    (h₂ : store₂.KeptIn store₃) : store₁.KeptIn store₃ := by
  intro s hs
  obtain ⟨s', hs', hkept⟩ := h₁ s hs
  obtain ⟨s'', hs'', hkept'⟩ := h₂ s' hs'
  exact ⟨s'', hs'', hkept.trans hkept'⟩

end Store

namespace LedgerCall
open Ledger

/-- If a call makes a snapshot of the genesis set, its members are active exactly if they have power. -/
def SoundGenesis (c : LedgerCall) : Prop :=
  ∀ genesis, c.chain.validatorsAt 0 = .ok genesis → ∀ v ∈ genesis.members, v.active = decide (0 < v.power)

theorem inOrder_run_steps {l : Ledger} {store : Store} {c : LedgerCall} (hgenesis : c.SoundGenesis)
    (hstore : store.InOrder) (hfits : ((c.steps l).run store).2.Fits) :
    ((c.steps l).run store).2.InOrder ∧ store.KeptIn ((c.steps l).run store).2 := by
  rcases run_steps_cases l store c with hsame | ⟨before, after, hbefore, hleads, hwritten⟩
  · rw [hsame]
    exact ⟨hstore, .refl store⟩
  · rw [hwritten] at hfits ⊢
    have hafter := snapshot?_put hfits
    obtain ⟨found, hfound, hinorder⟩ := hstore
    rcases hbefore with hloaded | ⟨hnone, genesis, hanswer, rfl⟩
    · rw [hloaded] at hfound
      cases hfound
      obtain ⟨hnext, hkept⟩ := hleads (hinorder before rfl)
      refine ⟨Store.inOrder_of_snapshot hafter hnext, ?_⟩
      intro s hs
      rw [hloaded] at hs
      cases hs
      exact ⟨after, hafter, hkept⟩
    · obtain ⟨hnext, -⟩ := hleads (inOrder_genesisSnapshot (hgenesis genesis hanswer))
      refine ⟨Store.inOrder_of_snapshot hafter hnext, ?_⟩
      intro s hs
      rw [hnone] at hs
      cases hs

end LedgerCall

/-- A write transaction: one that the ledger opens for a single call, or one of a caller, who lets the
ledger make some calls in it and then commits or aborts it. -/
inductive StakeTransaction where
  | own (call : LedgerCall)
  | shared (calls : List LedgerCall) (commits : Bool)

namespace StakeTransaction
open Ledger

def calls : StakeTransaction → List LedgerCall
  | .own call => [call]
  | .shared calls _ => calls

/-- What is seen in a transaction after some calls, of which any may have failed. -/
def inside (l : Ledger) (store : Store) (calls : List LedgerCall) : Store :=
  calls.foldl (fun seen c => ((c.steps l).run seen).2) store

/-- The store after a transaction. -/
def run (l : Ledger) (store : Store) : StakeTransaction → Store
  | .own call => (call.run l store).2
  | .shared calls commits => if commits then inside l store calls else store

def after (l : Ledger) (store : Store) (transactions : List StakeTransaction) : Store :=
  transactions.foldl (run l) store

variable {l : Ledger} {store : Store}

theorem inOrder_inside {calls : List LedgerCall} (hgenesis : ∀ c ∈ calls, c.SoundGenesis)
    (hstore : store.InOrder) (hfits : ∀ seen, seen <+: calls → (inside l store seen).Fits) :
    (inside l store calls).InOrder ∧ store.KeptIn (inside l store calls) := by
  induction calls generalizing store with
  | nil => exact ⟨hstore, .refl store⟩
  | cons c rest ih =>
      obtain ⟨hfirst, hrest⟩ := List.forall_mem_cons.1 hgenesis
      obtain ⟨hnext, hkept⟩ := LedgerCall.inOrder_run_steps hfirst hstore
        (hfits [c] (List.prefix_append [c] rest))
      obtain ⟨hlast, hkept'⟩ := ih hrest hnext
        fun seen hseen => hfits (c :: seen) (List.cons_prefix_cons.2 ⟨rfl, hseen⟩)
      exact ⟨hlast, hkept.trans hkept'⟩

theorem inOrder_run {t : StakeTransaction} (hgenesis : ∀ c ∈ t.calls, c.SoundGenesis)
    (hstore : store.InOrder) (hfits : ∀ seen, seen <+: t.calls → (inside l store seen).Fits) :
    (t.run l store).InOrder ∧ store.KeptIn (t.run l store) := by
  cases t with
  | own call =>
      -- what a failing call has written goes with its transaction
      cases hrun : call.run l store with
      | mk outcome written =>
          rw [run, hrun]
          cases outcome with
          | error cause =>
              cases LedgerCall.run_error hrun
              exact ⟨hstore, .refl store⟩
          | ok _ =>
              have hinside := inOrder_inside hgenesis hstore hfits
              rwa [inside, calls, List.foldl_cons, List.foldl_nil, LedgerCall.run_ok hrun] at hinside
  | shared calls commits =>
      cases commits with
      | true => exact inOrder_inside hgenesis hstore hfits
      | false => exact ⟨hstore, .refl store⟩

theorem inOrder_after {transactions : List StakeTransaction}
    (hgenesis : ∀ t ∈ transactions, ∀ c ∈ t.calls, c.SoundGenesis) (hstore : store.InOrder)
    (hfits : ∀ front t, front ++ [t] <+: transactions → ∀ seen, seen <+: t.calls →
      (inside l (after l store front) seen).Fits) :
    (after l store transactions).InOrder ∧ store.KeptIn (after l store transactions) := by
  induction transactions generalizing store with
  | nil => exact ⟨hstore, .refl store⟩
  | cons t rest ih =>
      obtain ⟨hfirst, hrest⟩ := List.forall_mem_cons.1 hgenesis
      obtain ⟨hnext, hkept⟩ := inOrder_run hfirst hstore (hfits [] t (List.prefix_append [t] rest))
      obtain ⟨hlast, hkept'⟩ := ih hrest hnext
        fun front u hfront => hfits (t :: front) u (List.cons_prefix_cons.2 ⟨rfl, hfront⟩)
      exact ⟨hlast, hkept.trans hkept'⟩

/-- Whatever is called in whatever transactions, every snapshot that is committed is in order and has lost
no validator and no key of those that were committed before it. -/
theorem records_kept {transactions : List StakeTransaction}
    (hgenesis : ∀ t ∈ transactions, ∀ c ∈ t.calls, c.SoundGenesis)
    (hfits : ∀ front t, front ++ [t] <+: transactions → ∀ seen, seen <+: t.calls →
      (inside l (after l Store.empty front) seen).Fits) :
    (∃ found, snapshot? (after l Store.empty transactions) = .ok found ∧ ∀ s ∈ found,
      (∀ e ∈ s.stakes.entries, e.2.address = e.1 ∧ e.2.active = decide (0 < e.2.power)) ∧
      s.updatedAt ≤ s.block) ∧
    ∀ front, front <+: transactions → ∀ s, snapshot? (after l Store.empty front) = .ok (some s) →
      ∃ s', snapshot? (after l Store.empty transactions) = .ok (some s') ∧
        ∀ a v, s.stakes.find? a = some v → ∃ w, s'.stakes.find? a = some w ∧
          ∀ key, v.blsKey = some key → w.blsKey = some key := by
  have hempty : Store.empty.InOrder := by
    refine ⟨none, rfl, ?_⟩
    intro s hs
    cases hs
  constructor
  · obtain ⟨found, hfound, hinorder⟩ := (inOrder_after hgenesis hempty hfits).1
    refine ⟨found, hfound, ?_⟩
    intro s hs
    refine ⟨?_, (hinorder s hs).updatedAt_le⟩
    rintro ⟨a, v⟩ he
    exact ⟨(hinorder s hs).stakes.keyed _ he,
      (hinorder s hs).stakes.active a v (StakeTable.find?_eq_some_iff_mem.2 he)⟩
  · rintro front ⟨back, rfl⟩
    have hfront := (inOrder_after (fun t ht => hgenesis t (List.mem_append_left back ht)) hempty
      fun front' t ht => hfits front' t (ht.trans (List.prefix_append front back))).1
    have hsplit : after l Store.empty (front ++ back) = after l (after l Store.empty front) back :=
      List.foldl_append
    rw [hsplit]
    refine (inOrder_after (fun t ht => hgenesis t (List.mem_append_right front ht)) hfront ?_).2
    intro front' t ht
    have hlater : after l (after l Store.empty front) front' = after l Store.empty (front ++ front') :=
      List.foldl_append.symm
    rw [hlater]
    apply hfits
    rw [List.append_assoc]
    exact (List.prefix_append_right_inj front).2 ht

section registration
open LedgerCall

/-- The contracts register one key for everybody. -/
def registryChain (key : PublicKey) : Chain :=
  { withdrawalChain (fun _ => ⟨1, 1⟩) 0 with
    systemState := fun _ => .ok
      { epoch := .ok 1
        nextCommittedIndex := .ok 1
        exponent := .ok ⟨1, 1⟩
        blsKey := fun _ => .ok key
        status := fun _ => .ok .active } }

/-- The notification of a block in which an account withdraws its stake. -/
def withdrawalOf (key : PublicKey) (number : UInt64) (account : Address) : LedgerCall :=
  .finalized (registryChain key)
    ⟨⟨{ Simulation.emptyHeader with number }, []⟩,
      [⟨Digest.zero, true, 21000, [BalanceChanged.toLog ⟨account, 0⟩ Contract.staking]⟩]⟩ 1

def firstKey : PublicKey := (SealKey.mk 1).publicKey

def laterKey : PublicKey := (SealKey.mk 2).publicKey

/-- A call fails, and its caller commits what it has left. Then blocks 1 and 2 are taken in, and between
them another key is registered. -/
def registrations : List StakeTransaction :=
  [.shared [withdrawalOf firstKey 3 (Address.ofLow 1)] true,
    .own (withdrawalOf firstKey 1 (Address.ofLow 1)), .own (withdrawalOf laterKey 2 (Address.ofLow 3))]

theorem soundGenesis_registrations : ∀ t ∈ registrations, ∀ c ∈ t.calls, c.SoundGenesis := by
  have hsound (key : PublicKey) (number : UInt64) (account : Address) :
      (withdrawalOf key number account).SoundGenesis := by
    intro genesis hgenesis
    cases hgenesis
    decide
  simp only [registrations, calls, List.forall_mem_cons]
  exact ⟨⟨hsound _ _ _, fun _ h => absurd h List.not_mem_nil⟩,
    ⟨hsound _ _ _, fun _ h => absurd h List.not_mem_nil⟩,
    ⟨hsound _ _ _, fun _ h => absurd h List.not_mem_nil⟩, fun _ h => absurd h List.not_mem_nil⟩

theorem fits_registrations : ∀ front t, front ++ [t] <+: registrations → ∀ seen, seen <+: t.calls →
    (inside stakingLedger (after stakingLedger Store.empty front) seen).Fits := by
  have hlength : ∀ i < 3, ∀ t ∈ registrations[i]?.toList, ∀ seen ∈ t.calls.inits,
      ((inside stakingLedger (after stakingLedger Store.empty (registrations.take i)) seen).record.getD
        []).length < 2 ^ 64 := by decide +kernel
  rintro front t ⟨back, hsplit⟩ seen hseen
  have hcount : (front ++ [t] ++ back).length = 3 := congrArg List.length hsplit
  rw [List.length_append, List.length_append, List.length_singleton] at hcount
  have htake : registrations.take front.length = front := by simp [← hsplit]
  have hget : registrations[front.length]? = some t := by simp [← hsplit]
  have hfits := hlength front.length (by omega) t (by simp [hget]) seen ((List.mem_inits _ _).2 hseen)
  rw [htake] at hfits
  exact fits_of_length hfits

/-- Who was recorded with a key keeps it, whatever is registered later. -/
theorem records_kept_registered : ∃ s s',
    snapshot? (after stakingLedger Store.empty (registrations.take 2)) = .ok (some s) ∧
    snapshot? (after stakingLedger Store.empty registrations) = .ok (some s') ∧ s'.updatedAt ≤ s'.block ∧
    (s.stakes.find? (Address.ofLow 2)).bind (·.blsKey) = some firstKey ∧
    (s'.stakes.find? (Address.ofLow 2)).bind (·.blsKey) = some firstKey ∧
    (s'.stakes.find? (Address.ofLow 3)).bind (·.blsKey) = some laterKey := by
  have hkeys (transactions : List StakeTransaction) (key : PublicKey) (a : Address)
      (h : (snapshot? (after stakingLedger Store.empty transactions)).map (fun found =>
        found.bind fun s => (s.stakes.find? a).bind (·.blsKey)) = .ok (some key)) :
      ∃ s, snapshot? (after stakingLedger Store.empty transactions) = .ok (some s) ∧
        (s.stakes.find? a).bind (·.blsKey) = some key := by
    obtain ⟨found, hfound, hkey⟩ := map_ok_iff.1 h
    obtain ⟨s, rfl, hs⟩ := Option.bind_eq_some_iff.1 hkey
    exact ⟨s, hfound, hs⟩
  obtain ⟨s, hs, hfirst⟩ := hkeys (registrations.take 2) firstKey (Address.ofLow 2) (by decide +kernel)
  obtain ⟨s', hs', hlater⟩ := hkeys registrations laterKey (Address.ofLow 3) (by decide +kernel)
  obtain ⟨⟨found, hfound, hinorder⟩, hkept⟩ := records_kept soundGenesis_registrations fits_registrations
  rw [hs'] at hfound
  cases hfound
  obtain ⟨s'', hs'', hretained⟩ := hkept (registrations.take 2) (List.take_prefix 2 registrations) s hs
  rw [hs'] at hs''
  cases hs''
  obtain ⟨v, hv, hkey⟩ := Option.bind_eq_some_iff.1 hfirst
  obtain ⟨w, hw, hstays⟩ := hretained (Address.ofLow 2) v hv
  refine ⟨s, s', hs, hs', (hinorder s' rfl).2, hfirst, ?_, hlater⟩
  rw [hw]
  exact hstays firstKey hkey

end registration

end StakeTransaction

end EpochSeal
