import EpochSeal.Proofs.LedgerCalls

/-! A ledger that missed blocks and catches up, next to one that took in every block when it was
finalized. The first weighs what it missed with the exponent after the last of these blocks, the second
with the exponent after each block. -/
namespace EpochSeal

namespace StakeTable

/-- What of a validator the choice of the active set depends on. -/
def standing (v : Validator) : Address × UInt64 := (v.address, v.power)

/-- Whether an address with its power strictly precedes another one. -/
def Outranks (x y : Address × UInt64) : Prop := y.2 < x.2 ∨ x.2 = y.2 ∧ x.1 < y.1

theorem not_outranks_of_outranks {x y : Address × UInt64} (h : Outranks x y) : ¬ Outranks y x := by
  simp only [Outranks, UInt64.lt_iff_toNat_lt, ← UInt64.toNat_inj] at h ⊢
  rcases h with hlt | ⟨heq, hlt⟩
  · omega
  · rintro (hlt' | ⟨_, hlt'⟩)
    · omega
    · exact Address.lt_irrefl _ (Address.lt_trans hlt hlt')

theorem outranks_of_precedes {v w : Validator} (h : v.precedes w = true) :
    Outranks (standing v) (standing w) := by
  simpa [Validator.precedes, Outranks, standing] using h

variable {t u : StakeTable}

theorem pairwise_standings (h : t.Keyed) : (t.ranked.map standing).Pairwise Outranks :=
  List.pairwise_map.2 ((pairwise_ranked h).imp outranks_of_precedes)

theorem mem_standings (h : t.Keyed) {a : Address} {power : UInt64} :
    (a, power) ∈ t.ranked.map standing ↔ t.power? a = some power ∧ 0 < power := by
  simp only [List.mem_map, (perm_ranked t).mem_iff, List.mem_filter, decide_eq_true_eq, power?,
    Option.map_eq_some_iff, find?_eq_some_iff h, standing, Prod.mk.injEq]
  constructor
  · rintro ⟨v, ⟨hv, hpower⟩, haddress, rfl⟩
    exact ⟨⟨v, ⟨hv, haddress⟩, rfl⟩, hpower⟩
  · rintro ⟨⟨v, ⟨hv, haddress⟩, rfl⟩, hpower⟩
    exact ⟨v, ⟨hv, hpower⟩, haddress, rfl⟩

/-- Tables with equal powers have the same strongest validators, in the same order. -/
theorem standings_strongest_congr (ht : t.Keyed) (hu : u.Keyed) (h : ∀ a, t.power? a = u.power? a)
    (size : Nat) :
    (t.strongest size).members.map standing = (u.strongest size).members.map standing := by
  have hnodup {t : StakeTable} (ht : t.Keyed) : (t.ranked.map standing).Nodup :=
    (pairwise_standings ht).imp fun hlt heq => by
      rw [heq] at hlt
      exact not_outranks_of_outranks hlt hlt
  have hperm : (t.ranked.map standing).Perm (u.ranked.map standing) := by
    refine (List.perm_ext_iff_of_nodup (hnodup ht) (hnodup hu)).2 fun x => ?_
    rw [mem_standings ht, mem_standings hu, h]
  have hsame : t.ranked.map standing = u.ranked.map standing :=
    List.Perm.eq_of_pairwise (fun x y _ _ hxy hyx => absurd hyx (not_outranks_of_outranks hxy))
      (pairwise_standings ht) (pairwise_standings hu) hperm
  change (t.ranked.take size).map standing = (u.ranked.take size).map standing
  rw [List.map_take, List.map_take, hsame]

end StakeTable

namespace LedgerCall
open Ledger Outcome StakeHistory

/-- Calls that take in the blocks after block `n` one by one, as they are finalized. -/
def Follows (l : Ledger) : Nat → Store → List LedgerCall → Prop
  | _, _, [] => True
  | n, store, c :: rest =>
    (∃ chain block epoch, c = .finalized chain block epoch ∧
      block.block.header.number.toNat = n + 1) ∧
    (c.run l store).1 = .ok () ∧ Follows l (n + 1) (c.run l store).2 rest

variable {h : StakeHistory} {l : Ledger} {store : Store} {weigh : Nat → Exponent}
  {calls other : List LedgerCall}

/-- A ledger that follows the chain was at every block when it had taken in that block. -/
theorem markOf_follows {n k : Nat} (hfollows : Follows l n store calls)
    (hfaithful : ∀ c ∈ calls, c.Faithful h) (hagrees : Agrees h l weigh store)
    (hfits : ∀ front, front <+: calls → (after l store front).Fits) (hmark : watermark store = n)
    (hlow : n ≤ k) (hhigh : k ≤ watermark (after l store calls)) : markOf l k store calls = k := by
  induction calls generalizing n store weigh with
  | nil =>
      change k ≤ watermark store at hhigh
      change watermark store = k
      omega
  | cons c rest ih =>
      obtain ⟨⟨chain, block, epoch, rfl, hnumber⟩, hrun, hrest⟩ := hfollows
      have hfirst := hfits [_] (List.prefix_append [_] rest)
      have hcall := hfaithful _ List.mem_cons_self
      obtain ⟨hchain, m, hm, hheader, hreceipts⟩ := id hcall
      rw [hheader, h.number_header m hm] at hnumber
      have hreaches := onFinalized_ok hchain hm hheader hreceipts (run_ok (Prod.ext hrun rfl))
      have hreached : watermark (run l store (.finalized chain block epoch)).2 = n + 1 := by
        rw [(hagrees.reaches hreaches hfirst).1]
        omega
      by_cases hk : k ≤ watermark store
      · rw [markOf, if_pos hk]
        omega
      · rw [markOf, if_neg hk]
        exact ih hrest (fun d hd => hfaithful d (List.mem_cons_of_mem _ hd))
          (agrees_run hcall hagrees hfirst).2
          (fun front hfront => hfits (_ :: front) (List.cons_prefix_cons.2 ⟨rfl, hfront⟩))
          hreached (by omega) hhigh

/-- Two ledgers that have reached the same block agree on all powers exactly if every last change of a
stake weighs the same with the exponents that they used. -/
theorem same_powers_iff {s s' : Snapshot} {weigh' : Nat → Exponent} {n : Nat}
    (hpowers : ∀ a, s.stakes.power? a = h.powerOf l weigh n a)
    (hpowers' : ∀ a, s'.stakes.power? a = h.powerOf l weigh' n a) :
    (∀ a, s.stakes.power? a = s'.stakes.power? a) ↔
      ∀ a k balance, h.lastChange l n a = some (k, balance) →
        VotingPower.ofBalance balance (weigh k) = VotingPower.ofBalance balance (weigh' k) := by
  simp only [hpowers, hpowers', powerOf]
  constructor
  · intro hsame a k balance hlast
    simpa [hlast, weighed] using hsame a
  · intro hsame a
    cases hlast : h.lastChange l n a with
    | none => rfl
    | some last => exact congrArg some (hsame a last.1 last.2 hlast)

/-- A ledger that follows the chain and one that has caught up with it to the same block know the same
powers exactly if no last change of a stake weighs differently with the exponent after its block and
the one after the block that the other ledger then reached. If they do, they choose the same set. -/
theorem caught_up_iff {follower : List LedgerCall} {s s' : Snapshot}
    (hfollows : Follows l 0 Store.empty follower) (hfaithful : ∀ c ∈ follower ++ other, c.Faithful h)
    (hfits : ∀ front, front <+: follower ∨ front <+: other → (after l Store.empty front).Fits)
    (hs : snapshot? (after l Store.empty follower) = .ok (some s))
    (hs' : snapshot? (after l Store.empty other) = .ok (some s')) (hblock : s.block = s'.block) :
    ((∀ a, s.stakes.power? a = s'.stakes.power? a) ↔
      ∀ a k balance, h.lastChange l s.block.toNat a = some (k, balance) →
        VotingPower.ofBalance balance (h.exponent k) =
          VotingPower.ofBalance balance (h.exponent (markOf l k Store.empty other))) ∧
    ((∀ a, s.stakes.power? a = s'.stakes.power? a) → ∀ size,
      (s.stakes.strongest size).members.map StakeTable.standing =
        (s'.stakes.strongest size).members.map StakeTable.standing) := by
  have hfaithful₁ : ∀ c ∈ follower, c.Faithful h := fun c hc => hfaithful c (List.mem_append_left _ hc)
  have hfaithful₂ : ∀ c ∈ other, c.Faithful h := fun c hc => hfaithful c (List.mem_append_right _ hc)
  have hfits₁ : ∀ front, front <+: follower → (after l Store.empty front).Fits :=
    fun front hfront => hfits front (.inl hfront)
  obtain ⟨hkeyed, hpowers⟩ := powers_after hfaithful₁ hfits₁ hs
  obtain ⟨hkeyed', hpowers'⟩ := powers_after hfaithful₂ (fun front hfront => hfits front (.inr hfront)) hs'
  refine ⟨?_, StakeTable.standings_strongest_congr hkeyed hkeyed'⟩
  have hmark := watermark_of_snapshot? hs
  have hown : ∀ k ≤ s.block.toNat, h.exponent (markOf l k Store.empty follower) = h.exponent k := by
    intro k hk
    rw [markOf_follows hfollows hfaithful₁ (agrees_empty h l h.exponent) hfits₁ rfl (Nat.zero_le k)
      (by omega)]
  rw [← hblock] at hpowers'
  exact same_powers_iff (fun a => (hpowers a).trans (powerOf_congr hown a)) hpowers'

/-- An exponent that changes with every block. -/
def fadingExponent (n : Nat) : Exponent := ⟨1, UInt64.ofNat n⟩

/-- Notifications of three blocks, as they are finalized. -/
def promptCalls : List LedgerCall :=
  [notification fadingExponent 1 1, notification fadingExponent 2 2, notification fadingExponent 3 3]

/-- The notification of block 2 is missed. -/
def lateCalls : List LedgerCall :=
  [notification fadingExponent 1 1, notification fadingExponent 3 3]

/-- A stake that is withdrawn has no power with any exponent. -/
theorem caught_up_late : ∃ s s', snapshot? (after stakingLedger .empty promptCalls) = .ok (some s) ∧
    snapshot? (after stakingLedger .empty lateCalls) = .ok (some s') ∧ s.block = 3 ∧ s'.block = 3 ∧
    (∀ a, s.stakes.power? a = s'.stakes.power? a) ∧
    ∀ size, (s.stakes.strongest size).members.map StakeTable.standing =
      (s'.stakes.strongest size).members.map StakeTable.standing := by
  have hfollows : Follows stakingLedger 0 Store.empty promptCalls :=
    ⟨⟨_, _, _, rfl, rfl⟩, by decide +kernel, ⟨_, _, _, rfl, rfl⟩, by decide +kernel,
      ⟨_, _, _, rfl, rfl⟩, by decide +kernel, trivial⟩
  have hfaithful : ∀ c ∈ promptCalls ++ lateCalls, c.Faithful (withdrawal fadingExponent) := by
    simp only [promptCalls, lateCalls, List.forall_mem_append, List.forall_mem_cons]
    exact ⟨⟨faithful_notification _ (by decide) (by decide),
      faithful_notification _ (by decide) (by decide), faithful_notification _ (by decide) (by decide),
      fun _ h => absurd h List.not_mem_nil⟩, faithful_notification _ (by decide) (by decide),
      faithful_notification _ (by decide) (by decide), fun _ h => absurd h List.not_mem_nil⟩
  have hlength : ∀ front ∈ promptCalls.inits ++ lateCalls.inits,
      ((after stakingLedger .empty front).record.getD []).length < 2 ^ 64 := by decide +kernel
  have hfits : ∀ front, front <+: promptCalls ∨ front <+: lateCalls →
      (after stakingLedger Store.empty front).Fits := by
    intro front hfront
    refine fits_of_length (hlength front (List.mem_append.2 ?_))
    exact hfront.imp (List.mem_inits _ _).2 (List.mem_inits _ _).2
  have hread (calls : List LedgerCall) (hblock : (snapshot? (after stakingLedger .empty calls)).map
      (fun found => found.map (·.block)) = .ok (some 3)) :
      ∃ s, snapshot? (after stakingLedger .empty calls) = .ok (some s) ∧ s.block = 3 := by
    obtain ⟨found, hfound, hblock⟩ := map_ok_iff.1 hblock
    obtain ⟨s, rfl, hs⟩ := Option.map_eq_some_iff.1 hblock
    exact ⟨s, hfound, hs⟩
  obtain ⟨s, hs, hblock⟩ := hread promptCalls (by decide +kernel)
  obtain ⟨s', hs', hblock'⟩ := hread lateCalls (by decide +kernel)
  obtain ⟨hiff, hstrongest⟩ := caught_up_iff hfollows hfaithful hfits hs hs' (hblock.trans hblock'.symm)
  have hthree : s.block.toNat = 3 := by rw [hblock]; rfl
  have hchanges : (withdrawal fadingExponent).changes stakingLedger 1 3 =
      [(2, ⟨Address.ofLow 1, 0⟩)] := by decide +kernel
  have hsame : ∀ a, s.stakes.power? a = s'.stakes.power? a := by
    refine hiff.2 fun a k balance hlast => ?_
    rw [hthree, lastChange, hchanges, lastAmong_singleton] at hlast
    split at hlast <;> cases hlast
    exact (VotingPower.ofBalance_zero _).trans (VotingPower.ofBalance_zero _).symm
  exact ⟨s, s', hs, hs', hblock, hblock', hsame, hstrongest hsame⟩

end LedgerCall

end EpochSeal
