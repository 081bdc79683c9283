import EpochSeal.Proofs.StakeRecord

/-! What happened to the stakes on a chain, and the power that an address should have after a block:
that of the balance after the last change of its stake, or else the one from the genesis set. -/
namespace EpochSeal

/-- What happened to stakes on a chain. -/
structure StakeHistory where
  genesis : ValidatorSet
  header : Nat → Header
  receipts : Nat → List Receipt
  /-- The exponent of voting power after a block. -/
  exponent : Nat → Exponent
  number_header : ∀ n < 2 ^ 64, (header n).number.toNat = n

/-- Where a node is told something, at some moment, it is what happened. There is a height after that of
the head, so it can be said where the stored blocks end. -/
structure Chain.Shows (chain : Chain) (h : StakeHistory) : Prop where
  head : ∃ n, n + 1 < 2 ^ 64 ∧ chain.head = h.header n
  header : ∀ n found, chain.header? n = some found → found = h.header n.toNat
  receipts : ∀ n found receipts, chain.header? n = some found →
    chain.receipts found.digest = .ok receipts → receipts = h.receipts n.toNat
  exponent : ∀ n < 2 ^ 64, ∀ state e, chain.systemState (h.header n) = .ok state →
    state.exponent = .ok e → e = h.exponent n
  genesis : ∀ genesis, chain.validatorsAt 0 = .ok genesis → genesis = h.genesis

/-- The change of stake that a log announces, if it is one of the staking contract and can be read. -/
def Ledger.announced? (l : Ledger) (log : Log) : Option BalanceChanged :=
  if log.address = l.stakingContract then (BalanceChanged.ofLog log).toOption.join else none

namespace StakeHistory

/-- The changes of stake in a block, in order. -/
def changesIn (h : StakeHistory) (l : Ledger) (n : Nat) : List BalanceChanged :=
  (((h.receipts n).filter (·.success)).flatMap (·.logs)).filterMap l.announced?

/-- The changes of stake in `count` blocks from `first` on, with the blocks that they are in. -/
def changes (h : StakeHistory) (l : Ledger) (first count : Nat) : List (Nat × BalanceChanged) :=
  (List.range' first count).flatMap fun n => (h.changesIn l n).map (n, ·)

/-- The last block among some that changes the stake of an address, and the balance after it. -/
def lastAmong (a : Address) (changes : List (Nat × BalanceChanged)) : Option (Nat × Word) :=
  (changes.filter (·.2.account = a)).getLast?.map fun c => (c.1, c.2.balance)

/-- The last change of an address in the blocks from 1 to `n`. -/
def lastChange (h : StakeHistory) (l : Ledger) (n : Nat) (a : Address) : Option (Nat × Word) :=
  lastAmong a (h.changes l 1 n)

/-- The power of an address before the first block. -/
def genesisPower? (h : StakeHistory) (a : Address) : Option UInt64 :=
  (Ledger.genesisSnapshot h.genesis).stakes.power? a

/-- The power after a last change, if what block `k` leaves of a stake is weighed with the exponent
`weigh k`. Without a change it is what it was. -/
def weighed (weigh : Nat → Exponent) (earlier : Option UInt64) : Option (Nat × Word) → Option UInt64
  | some (k, balance) => some (VotingPower.ofBalance balance (weigh k))
  | none => earlier

/-- The power of an address after block `n`. -/
def powerOf (h : StakeHistory) (l : Ledger) (weigh : Nat → Exponent) (n : Nat) (a : Address) :
    Option UInt64 :=
  weighed weigh (h.genesisPower? a) (h.lastChange l n a)

theorem lastAmong_append (a : Address) (front back : List (Nat × BalanceChanged)) :
    lastAmong a (front ++ back) = (lastAmong a back).or (lastAmong a front) := by
  simp only [lastAmong, List.filter_append, List.getLast?_append]
  cases (back.filter (·.2.account = a)).getLast? <;> rfl

theorem lastAmong_singleton (a : Address) (c : Nat × BalanceChanged) :
    lastAmong a [c] = if c.2.account = a then some (c.1, c.2.balance) else none := by
  unfold lastAmong
  by_cases ha : c.2.account = a <;> simp [ha]

theorem exists_mem_of_lastAmong {a : Address} {changes : List (Nat × BalanceChanged)} {k : Nat}
    {balance : Word} (h : lastAmong a changes = some (k, balance)) : ∃ c ∈ changes, c.1 = k := by
  obtain ⟨c, hc, heq⟩ := Option.map_eq_some_iff.1 h
  exact ⟨c, (List.mem_filter.1 (List.mem_of_getLast? hc)).1, congrArg Prod.fst heq⟩

variable {h : StakeHistory} {l : Ledger}

theorem changes_add (first count more : Nat) :
    h.changes l first (count + more) = h.changes l first count ++ h.changes l (first + count) more := by
  unfold changes
  rw [← List.flatMap_append, List.range'_append_1]

theorem lt_of_mem_changes {first count : Nat} {c : Nat × BalanceChanged}
    (hc : c ∈ h.changes l first count) : first ≤ c.1 ∧ c.1 < first + count := by
  obtain ⟨n, hn, hmem⟩ := List.mem_flatMap.1 hc
  obtain ⟨event, _, rfl⟩ := List.mem_map.1 hmem
  exact List.mem_range'_1.1 hn

theorem map_changes_succ (first count : Nat) :
    (h.changes l first (count + 1)).map (·.2) =
      h.changesIn l first ++ (h.changes l (first + 1) count).map (·.2) := by
  simp [changes, List.range'_succ, Function.comp_def]

theorem lastAmong_range {first count k : Nat} {a : Address} {balance : Word}
    (hlast : lastAmong a (h.changes l first count) = some (k, balance)) : first ≤ k ∧ k < first + count := by
  obtain ⟨c, hc, rfl⟩ := exists_mem_of_lastAmong hlast
  exact lt_of_mem_changes hc

theorem powerOf_congr {weigh weigh' : Nat → Exponent} {n : Nat} (hsame : ∀ k ≤ n, weigh k = weigh' k)
    (a : Address) : h.powerOf l weigh n a = h.powerOf l weigh' n a := by
  unfold powerOf
  cases hlast : h.lastChange l n a with
  | none => rfl
  | some last =>
      have hrange := lastAmong_range hlast
      rw [weighed, weighed, hsame last.1 (by omega)]

/-- The powers after block `n` are those after an earlier block, with the changes since then. -/
theorem powerOf_eq_weighed (weigh : Nat → Exponent) {m n : Nat} (hle : m ≤ n) (a : Address) :
    h.powerOf l weigh n a =
      weighed weigh (h.powerOf l weigh m a) (lastAmong a (h.changes l (m + 1) (n - m))) := by
  have hsplit : h.changes l 1 n = h.changes l 1 m ++ h.changes l (m + 1) (n - m) := by
    rw [Nat.add_comm m 1, ← changes_add, Nat.add_sub_cancel' hle]
  rw [powerOf, powerOf, lastChange, lastChange, hsplit, lastAmong_append]
  cases lastAmong a (h.changes l (m + 1) (n - m)) <;> rfl

theorem genesisPower?_eq (hdistinct : h.genesis.addresses.Nodup) (a : Address) :
    h.genesisPower? a = (h.genesis.find? a).map (·.power) := by
  rw [genesisPower?, StakeTable.power?, Ledger.genesisSnapshot, StakeTable.find?_ofMembers hdistinct]

end StakeHistory

namespace StakeTable
open StakeHistory

/-- After changes of stake, the last change of an address counts, weighed with one exponent. -/
theorem power?_foldl_setStake (changes : List (Nat × BalanceChanged)) (e : Exponent) (t : StakeTable)
    (a : Address) :
    ((changes.map (·.2)).foldl (fun t event => t.setStake event.account event.balance e) t).power? a =
      weighed (fun _ => e) (t.power? a) (lastAmong a changes) := by
  induction changes generalizing t with
  | nil => rfl
  | cons c rest ih =>
      rw [List.map_cons, List.foldl_cons, ih, power?_setStake, ← List.singleton_append, lastAmong_append,
        lastAmong_singleton]
      cases lastAmong a rest with
      | some last => rfl
      | none =>
          by_cases ha : c.2.account = a
          · simp [weighed, ha]
          · simp [weighed, ha, Ne.symm ha]

theorem keyed_foldl_setStake {t : StakeTable} (ht : t.Keyed) (events : List BalanceChanged)
    (e : Exponent) :
    (events.foldl (fun t event => t.setStake event.account event.balance e) t).Keyed := by
  induction events generalizing t with
  | nil => exact ht
  | cons event rest ih => exact ih (ht.setStake _ _ _)

theorem power?_completeKeys (t : StakeTable) (chain : Chain) (a : Address) :
    (t.mapValidators (Ledger.completeKey chain)).power? a = t.power? a := by
  rw [power?, find?_mapValidators, Option.map_map]
  rfl

theorem keyed_completeKeys {t : StakeTable} (ht : t.Keyed) (chain : Chain) :
    (t.mapValidators (Ledger.completeKey chain)).Keyed := by
  refine keyed_iff.2 fun a v hv => ?_
  rw [find?_mapValidators] at hv
  obtain ⟨w, hw, rfl⟩ := Option.map_eq_some_iff.1 hv
  exact keyed_iff.1 ht a w hw

end StakeTable

end EpochSeal
