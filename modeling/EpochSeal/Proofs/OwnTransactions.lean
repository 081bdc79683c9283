import EpochSeal.Proofs.CallForm
import EpochSeal.Proofs.StateRules

/-! The state transactions that a round determines pass the rules of a round with the same inputs,
also with transactions behind them that the rules do not look into. -/
namespace EpochSeal

/-- No call of the protocol is sent to the receiver of bridge commitments. -/
def Config.BridgeApart (c : Config) : Prop :=
  ∀ receiver, c.bridgeReceiver? = some receiver →
    receiver ≠ Contract.registry ∧ receiver ≠ Contract.staking ∧ receiver ≠ Contract.rewardWallet

namespace RoundInputs
open Outcome

/-- A transaction that a user sent, or a commitment that passes its own check. -/
def Passive (r : RoundInputs) (chain : Chain) (t : Transaction) : Prop :=
  t.isState → r.isCommitment t ∧ r.checkCommitment chain t = .ok ()

/-- The calls of the round whose input is short enough to be read back. -/
def Readable (ts : List Transaction) : Prop := ∀ t ∈ ts, t.input.length < 2 ^ 256

theorem not_isCommitment_ofCall {r : RoundInputs} (hapart : r.config.BridgeApart) (height : UInt64)
    (call : StateCall) (value : Word) : ¬ r.isCommitment (Transaction.ofCall height call value) := by
  unfold isCommitment
  cases hreceiver : r.config.bridgeReceiver? with
  | none => simp
  | some receiver =>
      obtain ⟨hregistry, hstaking, hwallet⟩ := hapart receiver hreceiver
      have hrecipient : (Transaction.ofCall height call value).recipient = some call.target := rfl
      have htarget : call.target ≠ receiver := by
        cases call with
        | commitEpoch _ | distributeDaoIncentive | syncPowers _ => exact hregistry.symm
        | fundRewardWallet => exact hwallet.symm
        | distributeRewards _ => exact hstaking.symm
      simpa [hrecipient] using htarget

/-- The call of a kind that the round determines is let through at its place. -/
theorem checkTransaction_ofCall {r : RoundInputs} {chain : Chain} {index : Nat}
    {seen : List StateCallKind} (call : StateCall) {value : Word} (hapart : r.config.BridgeApart)
    (hown : r.ownCall? call.kind = some (Transaction.ofCall r.height call value))
    (hreadable : call.encode.length < 2 ^ 256) (hnew : call.kind ∉ seen)
    (hplace : r.Placed index seen call.kind) :
    r.checkTransaction chain index seen (Transaction.ofCall r.height call value) =
      .ok (call.kind :: seen) := by
  have hbridge := not_isCommitment_ofCall hapart r.height call value
  have hdecode := call.decode_encode hreadable
  have hkind : r.callKind? (Transaction.ofCall r.height call value) = some call.kind :=
    callKind?_eq_some_iff.2 ⟨rfl, hbridge, call, hdecode, rfl⟩
  refine checkTransaction_ok_iff.2 ⟨⟨fun _ h => absurd h hbridge, fun _ _ => ?_⟩, by rw [hkind]; rfl⟩
  exact ⟨call.kind, ⟨call, _, hdecode, rfl, hown, rfl⟩, hnew, hplace⟩

/-- What the rules do not look into changes nothing. -/
theorem checkFrom_passive {r : RoundInputs} {chain : Chain} {index : Nat}
    {seen : List StateCallKind} {ts : List Transaction} (h : ∀ t ∈ ts, r.Passive chain t) :
    r.checkFrom chain index seen ts = .ok seen := by
  induction ts generalizing index with
  | nil => rfl
  | cons t rest ih =>
      have hfirst : r.checkTransaction chain index seen t = .ok seen := by
        have hkind : r.callKind? t = none := by
          unfold callKind?
          by_cases hstate : t.isState
          · simp [(h t List.mem_cons_self hstate).1]
          · simp [hstate]
        have hpermits : r.Permits chain index seen t :=
          ⟨fun hstate _ => (h t List.mem_cons_self hstate).2,
            fun hstate hbridge => absurd (h t List.mem_cons_self hstate).1 hbridge⟩
        exact checkTransaction_ok_iff.2 ⟨hpermits, by rw [hkind]; rfl⟩
      have hrest : r.checkFrom chain (index + 1) seen rest = .ok seen :=
        ih fun u hu => h u (List.mem_cons_of_mem t hu)
      exact bind_ok_iff.2 ⟨seen, hfirst, hrest⟩

theorem checkFrom_cons {r : RoundInputs} {chain : Chain} {index : Nat}
    {seen seen' : List StateCallKind} {t : Transaction} {rest : List Transaction}
    (h : r.checkTransaction chain index seen t = .ok seen') :
    r.checkFrom chain index seen (t :: rest) = r.checkFrom chain (index + 1) seen' rest := by
  rw [checkFrom, h]
  rfl

theorem checkFrom_append {r : RoundInputs} {chain : Chain} {index : Nat}
    {seen seen' : List StateCallKind} {front rest : List Transaction}
    (h : r.checkFrom chain index seen front = .ok seen') :
    r.checkFrom chain index seen (front ++ rest) = r.checkFrom chain (index + front.length) seen' rest := by
  induction front generalizing index seen with
  | nil =>
      cases h
      rfl
  | cons t front ih =>
      obtain ⟨middle, hfirst, hfront⟩ := bind_ok_iff.1 h
      have hrest := ih hfront
      rw [List.cons_append, checkFrom_cons hfirst, hrest, List.length_cons, Nat.add_assoc, Nat.add_comm 1]

theorem commitEpochTransaction_ok {r : RoundInputs} {t : Transaction}
    (h : r.commitEpochTransaction = .ok t) :
    ∃ call, t = Transaction.ofCall r.height (.commitEpoch call) 0 := by
  unfold commitEpochTransaction at h
  split at h
  · next call _ =>
      cases h
      exact ⟨call, rfl⟩
  · cases h

theorem rewardsTransaction_ok {r : RoundInputs} {t : Transaction}
    (h : r.rewardsTransaction = .ok t) :
    ∃ call, t = Transaction.ofCall r.height (.distributeRewards call) 0 := by
  unfold rewardsTransaction at h
  split at h
  · next call _ =>
      cases h
      exact ⟨call, rfl⟩
  · cases h

theorem checkFrom_commit {r : RoundInputs} (chain : Chain) {commit : Transaction}
    (hends : r.endsEpoch) (hapart : r.config.BridgeApart)
    (hcommit : r.commitEpochTransaction = .ok commit) (hreadable : commit.input.length < 2 ^ 256) :
    ∃ seen, r.checkFrom chain 0 [] (commit :: if r.fundRequired then [r.fundTransaction] else []) =
        .ok seen ∧
      .commitEpoch ∈ seen ∧ (r.fundAmount ≠ 0 → .fundRewardWallet ∈ seen) ∧
      .distributeRewards ∉ seen ∧ .distributeDaoIncentive ∉ seen := by
  have hown : r.ownCall? .commitEpoch = some commit := by simp [ownCall?, hcommit, Except.toOption]
  obtain ⟨call, rfl⟩ := commitEpochTransaction_ok hcommit
  have hfirst : r.checkTransaction chain 0 [] (Transaction.ofCall r.height (.commitEpoch call) 0) =
      .ok [.commitEpoch] :=
    checkTransaction_ofCall (.commitEpoch call) hapart hown hreadable (by simp) ⟨hends, rfl⟩
  rw [checkFrom_cons hfirst]
  by_cases hfund : r.fundAmount = 0
  · have hrequired : r.fundRequired = false := decide_eq_false (not_not_intro hfund)
    rw [hrequired]
    exact ⟨_, rfl, by simp, fun h => absurd hfund h, by decide, by decide⟩
  · have hrequired : r.fundRequired = true := decide_eq_true hfund
    have hsecond : r.checkTransaction chain 1 [.commitEpoch] r.fundTransaction =
        .ok [.fundRewardWallet, .commitEpoch] :=
      checkTransaction_ofCall .fundRewardWallet hapart rfl (by decide) (by decide) hends
    rw [hrequired, if_pos rfl, checkFrom_cons hsecond]
    exact ⟨_, rfl, by simp, fun _ => by simp, by decide, by decide⟩

/-- The rewards and the incentive are paid once the reward wallet has what it needs. -/
theorem checkFrom_payments {r : RoundInputs} {chain : Chain} {index : Nat}
    {seen : List StateCallKind} {rewards : Transaction} (hends : r.endsEpoch)
    (hapart : r.config.BridgeApart) (hrewards : r.rewardsTransaction = .ok rewards)
    (hreadable : rewards.input.length < 2 ^ 256) (hfunded : r.fundAmount ≠ 0 → .fundRewardWallet ∈ seen)
    (hnewRewards : .distributeRewards ∉ seen) (hnewIncentive : .distributeDaoIncentive ∉ seen) :
    r.checkFrom chain index seen [rewards, r.incentiveTransaction] =
      .ok (.distributeDaoIncentive :: .distributeRewards :: seen) := by
  have hown : r.ownCall? .distributeRewards = some rewards := by
    simp [ownCall?, hrewards, Except.toOption]
  obtain ⟨call, rfl⟩ := rewardsTransaction_ok hrewards
  have hfirst : r.checkTransaction chain index seen
      (Transaction.ofCall r.height (.distributeRewards call) 0) = .ok (.distributeRewards :: seen) :=
    checkTransaction_ofCall (.distributeRewards call) hapart hown hreadable hnewRewards
      ⟨hends, hfunded⟩
  have hsecond : r.checkTransaction chain (index + 1) (.distributeRewards :: seen)
      r.incentiveTransaction = .ok (.distributeDaoIncentive :: .distributeRewards :: seen) :=
    checkTransaction_ofCall .distributeDaoIncentive hapart rfl (by decide)
      (by simpa [StateCall.kind] using hnewIncentive) ⟨hends, fun h => List.mem_cons_of_mem _ (hfunded h)⟩
  rw [checkFrom_cons hfirst, checkFrom_cons hsecond]
  rfl

/-- The calls of a round pass the scan and none that the block needs is missing. A block that ends
an epoch announces no powers, even if it starts one as well. -/
theorem checkFrom_callTransactions {r : RoundInputs} (chain : Chain) {calls : List Transaction}
    (hcalls : r.callTransactions = .ok calls) (hapart : r.config.BridgeApart)
    (hreadable : Readable calls) (hsync : r.endsEpoch → r.powerSync = none) :
    ∃ seen, r.checkFrom chain 0 [] calls = .ok seen ∧ ∀ kind ∈ r.neededKinds, kind ∈ seen := by
  unfold callTransactions at hcalls
  split at hcalls
  · next hends =>
      simp only [bind_ok_iff, pure_ok_iff] at hcalls
      obtain ⟨commit, hcommit, rewards, hrewards, rfl⟩ := hcalls
      simp only [Readable, List.cons_append, List.forall_mem_cons, List.forall_mem_append] at hreadable
      obtain ⟨seen, hfront, hseenCommit, hfunded, hnewRewards, hnewIncentive⟩ :=
        checkFrom_commit chain hends hapart hcommit hreadable.1
      refine ⟨_, (checkFrom_append hfront).trans (checkFrom_payments hends hapart hrewards
        hreadable.2.2.1 hfunded hnewRewards hnewIncentive), fun kind hkind => ?_⟩
      rcases mem_neededKinds.1 hkind with ⟨_, rfl | rfl | rfl | ⟨rfl, hfund⟩⟩ | ⟨_, _, hsome⟩
      · simp [hseenCommit]
      · simp
      · simp
      · simp [hfunded hfund]
      · rw [hsync hends] at hsome
        cases hsome
  · next hends =>
      split at hcalls
      · next hstarts =>
          cases hpowers : r.powerSync with
          | none =>
              have hnone : r.syncTransaction? = none := by simp [syncTransaction?, hpowers]
              rw [hnone] at hcalls
              cases hcalls
              refine ⟨[], rfl, fun kind hkind => ?_⟩
              rcases mem_neededKinds.1 hkind with ⟨h, _⟩ | ⟨_, _, hsome⟩
              · exact absurd h hends
              · simp [hpowers] at hsome
          | some call =>
              have hown : r.syncTransaction? =
                  some (Transaction.ofCall r.height (.syncPowers call) 0) := by
                simp [syncTransaction?, hpowers]
              rw [hown] at hcalls
              cases hcalls
              have hfirst : r.checkTransaction chain 0 []
                  (Transaction.ofCall r.height (.syncPowers call) 0) = .ok [.syncPowers] :=
                checkTransaction_ofCall (.syncPowers call) hapart hown
                  (hreadable _ List.mem_cons_self) (by simp) ⟨hstarts, rfl⟩
              refine ⟨_, checkFrom_cons hfirst, fun kind hkind => ?_⟩
              rcases mem_neededKinds.1 hkind with ⟨h, _⟩ | ⟨rfl, _⟩
              · exact absurd h hends
              · simp
      · next hstarts =>
          cases hcalls
          refine ⟨[], rfl, fun kind hkind => ?_⟩
          rcases mem_neededKinds.1 hkind with ⟨h, _⟩ | ⟨_, h, _⟩
          · exact absurd h hends
          · exact absurd h hstarts

/-- A block with the calls of the round in front and passive transactions behind is accepted. -/
theorem checkTransactions_callTransactions {r : RoundInputs} {chain : Chain}
    {calls rest : List Transaction} (hcalls : r.callTransactions = .ok calls)
    (hapart : r.config.BridgeApart) (hreadable : Readable calls)
    (hsync : r.endsEpoch → r.powerSync = none) (hrest : ∀ t ∈ rest, r.Passive chain t) :
    r.checkTransactions chain (calls ++ rest) = .ok () := by
  obtain ⟨seen, hfront, hneeded⟩ := checkFrom_callTransactions chain hcalls hapart hreadable hsync
  have hall : r.checkFrom chain 0 [] (calls ++ rest) = .ok seen := by
    rw [checkFrom_append hfront, checkFrom_passive hrest]
  have hnone : (r.neededKinds.find? fun kind => decide (kind ∉ seen)) = none := by
    simpa using hneeded
  refine bind_ok_iff.2 ⟨seen, hall, ?_⟩
  rw [hnone]
  rfl

theorem mem_callTransactions {r : RoundInputs} {calls : List Transaction} {t : Transaction}
    (hcalls : r.callTransactions = .ok calls) (ht : t ∈ calls) :
    ∃ call value, t = Transaction.ofCall r.height call value := by
  unfold callTransactions at hcalls
  split at hcalls
  · simp only [bind_ok_iff, pure_ok_iff] at hcalls
    obtain ⟨commit, hcommit, rewards, hrewards, rfl⟩ := hcalls
    simp only [List.cons_append, List.mem_cons, List.mem_append, List.not_mem_nil, or_false] at ht
    rcases ht with rfl | hfund | rfl | rfl
    · obtain ⟨call, rfl⟩ := commitEpochTransaction_ok hcommit
      exact ⟨_, _, rfl⟩
    · split at hfund
      · cases List.mem_singleton.1 hfund
        exact ⟨_, _, rfl⟩
      · cases hfund
    · obtain ⟨call, rfl⟩ := rewardsTransaction_ok hrewards
      exact ⟨_, _, rfl⟩
    · exact ⟨_, _, rfl⟩
  · split at hcalls
    · cases hcalls
      obtain ⟨call, _, rfl⟩ := Option.map_eq_some_iff.1 (Option.mem_toList.1 ht)
      exact ⟨_, _, rfl⟩
    · cases hcalls
      cases ht

end RoundInputs

end EpochSeal
