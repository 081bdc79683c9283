import EpochSeal.Coordinator
import EpochSeal.Proofs.Outcome

/-! What a coordinator puts into the inputs of a round, and from where. -/
namespace EpochSeal
open Outcome

/-- The inputs agree in everything but what the place of the block in its epoch adds. -/
structure RoundInputs.Extends (r plain : RoundInputs) : Prop where
  config : r.config = plain.config
  parent : r.parent = plain.parent
  validators : r.validators = plain.validators
  epoch : r.epoch = plain.epoch
  commitment : r.commitment = plain.commitment
  eventRoot : r.eventRoot = plain.eventRoot

namespace RoundInputs

theorem endingEpoch_ok_iff {r r' : RoundInputs} {l : Ledger} {chain : Chain} {store : Store} :
    r.endingEpoch l chain store = .ok r' ↔
      ∃ uptime fundAmount delta,
        Uptime.ofEpoch chain r.config.epochSize r.parent r.validators = .ok uptime ∧
        RewardWallet.shortfall chain r.config.rewardWalletTarget r.parent = .ok fundAmount ∧
        l.computeDelta chain store r.epoch r.validators = .ok delta ∧
        r' = { r with
          epochCommit := some
            { id := r.epoch, range := r.epochRange, epochSize := r.config.epochSize, uptime }
          rewards := some { epochId := r.epoch, uptime, epochSize := r.config.epochSize }
          fundAmount
          delta := some delta } := by
  simp only [endingEpoch, bind_ok_iff, mapError_ok_iff, pure_ok_iff]
  constructor
  · rintro ⟨uptime, huptime, fundAmount, hfund, delta, hdelta, rfl⟩
    exact ⟨uptime, fundAmount, delta, huptime, hfund, hdelta, rfl⟩
  · rintro ⟨uptime, fundAmount, delta, huptime, hfund, hdelta, rfl⟩
    exact ⟨uptime, huptime, fundAmount, hfund, delta, hdelta, rfl⟩

/-- A block that starts an epoch at most gets powers to announce. -/
theorem startingEpoch_ok {r r' : RoundInputs} {chain : Chain} {parentDelta : Option SetDelta}
    (h : r.startingEpoch chain parentDelta = .ok r') :
    ∃ powerSync, r' = { r with powerSync } := by
  unfold startingEpoch at h
  split at h
  · cases h
    exact ⟨_, rfl⟩
  · simp only [bind_ok_iff, mapError_ok_iff, pure_ok_iff] at h
    obtain ⟨_, _, powerSync, _, rfl⟩ := h
    exact ⟨powerSync, rfl⟩

end RoundInputs

namespace Coordinator

theorem completeInputs_extends {l : Ledger} {chain : Chain} {store : Store}
    {parentDelta : Option SetDelta} {plain r : RoundInputs}
    (h : completeInputs l chain store parentDelta plain = .ok r) : r.Extends plain := by
  unfold completeInputs at h
  split at h
  · obtain ⟨_, _, _, _, _, _, rfl⟩ := RoundInputs.endingEpoch_ok_iff.1 h
    exact ⟨rfl, rfl, rfl, rfl, rfl, rfl⟩
  · split at h
    · obtain ⟨_, rfl⟩ := RoundInputs.startingEpoch_ok h
      exact ⟨rfl, rfl, rfl, rfl, rfl, rfl⟩
    · cases h
      exact ⟨rfl, rfl, rfl, rfl, rfl, rfl⟩

theorem completeInputs_ending_iff {l : Ledger} {chain : Chain} {store : Store}
    {parentDelta : Option SetDelta} {plain r : RoundInputs} (hends : r.endsEpoch) :
    completeInputs l chain store parentDelta plain = .ok r ↔
      plain.endingEpoch l chain store = .ok r := by
  have hplain (hextends : r.Extends plain) : plain.endsEpoch = true := by
    rw [← hends, RoundInputs.endsEpoch, RoundInputs.endsEpoch, RoundInputs.height,
      RoundInputs.height, hextends.config, hextends.parent]
  constructor
  · intro h
    rwa [completeInputs, if_pos (hplain (completeInputs_extends h))] at h
  · intro h
    have hextends : r.Extends plain := by
      obtain ⟨_, _, _, _, _, _, rfl⟩ := RoundInputs.endingEpoch_ok_iff.1 h
      exact ⟨rfl, rfl, rfl, rfl, rfl, rfl⟩
    rwa [completeInputs, if_pos (hplain hextends)]

theorem completeInputs_powerSync {l : Ledger} {chain : Chain} {store : Store}
    {parentDelta : Option SetDelta} {plain r : RoundInputs}
    (h : completeInputs l chain store parentDelta plain = .ok r) (hplain : plain.powerSync = none)
    (hends : r.endsEpoch) : r.powerSync = none := by
  obtain ⟨_, _, _, _, _, _, rfl⟩ := RoundInputs.endingEpoch_ok_iff.1 ((completeInputs_ending_iff hends).1 h)
  exact hplain

/-- The parent's extension gives the epoch of the next block and the announced change. -/
theorem readParent_ok {config : Config} {parent : Header} {epoch : UInt64}
    {parentDelta : Option SetDelta} (h : readParent config parent = .ok (epoch, parentDelta)) :
    ∃ extension checkpoint, Extension.decode parent.extraData = .ok extension ∧
      extension.checkpoint = some checkpoint ∧ parentDelta = extension.delta ∧
      epoch = config.epochAt checkpoint.epoch (parent.number + 1) := by
  simp only [readParent, bind_ok_iff, mapError_ok_iff] at h
  obtain ⟨extension, hextension, h⟩ := h
  split at h
  · next checkpoint hcheckpoint =>
      cases h
      exact ⟨extension, checkpoint, hextension, hcheckpoint, rfl, rfl⟩
  · cases h

/-- What a coordinator remembers of the history of sets is what the history says. -/
def Remembers (c : Coordinator) (chain : Chain) : Prop :=
  ∀ number active, c.cached = some (number, active) → chain.validatorsAt number = .ok active

theorem run_get (c : Coordinator) : (get : Coordinating Coordinator).run c = (.ok c, c) := rfl

theorem activeSet_of_cached {chain : Chain} {parent : Header} {active : ValidatorSet}
    {c : Coordinator} (hcached : c.cached = some (parent.number, active)) :
    (activeSet chain parent).run c = (.ok active, c) := by
  rw [activeSet, run_bind_ok (run_get c)]
  simp only [hcached, if_true]
  rfl

theorem activeSet_of_fresh {chain : Chain} {parent : Header} {c : Coordinator}
    (hfresh : ∀ active, c.cached ≠ some (parent.number, active)) :
    (∀ cause, chain.validatorsAt parent.number = .error cause → (activeSet chain parent).run c =
      (.error (.backend "failed to get validators" cause), c)) ∧
    ∀ active, chain.validatorsAt parent.number = .ok active → (activeSet chain parent).run c =
      (.ok active, { c with cached := some (parent.number, active) }) := by
  rw [activeSet, run_bind_ok (run_get c)]
  cases hcached : c.cached with
  | none =>
      constructor
      · intro cause hhistory
        simp only [hhistory]
        rfl
      · intro active hhistory
        simp only [hhistory]
        rfl
  | some entry =>
      obtain ⟨number, remembered⟩ := entry
      have hnumber : number ≠ parent.number := by
        rintro rfl
        exact hfresh remembered hcached
      constructor
      · intro cause hhistory
        simp only [hnumber, if_false, hhistory]
        rfl
      · intro active hhistory
        simp only [hnumber, if_false, hhistory]
        rfl

/-- The active set comes from the history, and the coordinator goes on to remember it. -/
theorem activeSet_ok_iff {chain : Chain} {parent : Header} {active : ValidatorSet}
    {c c' : Coordinator} (hremembers : c.Remembers chain) :
    (activeSet chain parent).run c = (.ok active, c') ↔
      chain.validatorsAt parent.number = .ok active ∧
        c' = { c with cached := some (parent.number, active) } := by
  by_cases hcached : ∃ remembered, c.cached = some (parent.number, remembered)
  · obtain ⟨remembered, hcached⟩ := hcached
    have hhistory := hremembers parent.number remembered hcached
    rw [activeSet_of_cached hcached, hhistory]
    constructor
    · intro h
      cases h
      exact ⟨rfl, by rw [← hcached]⟩
    · rintro ⟨h, rfl⟩
      cases h
      rw [← hcached]
  · obtain ⟨hfailed, hfound⟩ := activeSet_of_fresh (not_exists.1 hcached)
    cases hhistory : chain.validatorsAt parent.number with
    | error cause =>
        rw [hfailed cause hhistory]
        constructor
        · intro h
          cases h
        · rintro ⟨h, _⟩
          cases h
    | ok found =>
        rw [hfound found hhistory]
        constructor
        · intro h
          cases h
          exact ⟨rfl, rfl⟩
        · rintro ⟨h, rfl⟩
          cases h
          rfl

theorem remembers_of_fresh {c : Coordinator} (chain : Chain) (hfresh : c.cached = none) :
    c.Remembers chain := by
  intro number active hcached
  rw [hfresh] at hcached
  cases hcached

theorem remembers_make {config : Config} {ledger : Ledger} {c : Coordinator} (chain : Chain)
    (h : make config ledger = .ok c) : c.Remembers chain := by
  simp only [make, bind_ok_iff, pure_ok_iff] at h
  obtain ⟨_, _, rfl⟩ := h
  exact remembers_of_fresh chain rfl

/-- Looking up the active set changes nothing but what is remembered, and that is right. -/
theorem run_activeSet_cases (chain : Chain) (parent : Header) (c : Coordinator) :
    ((activeSet chain parent).run c).2 = c ∨ ∃ active, chain.validatorsAt parent.number = .ok active ∧
      ((activeSet chain parent).run c).2 = { c with cached := some (parent.number, active) } := by
  by_cases hcached : ∃ remembered, c.cached = some (parent.number, remembered)
  · obtain ⟨remembered, hcached⟩ := hcached
    rw [activeSet_of_cached hcached]
    exact .inl rfl
  · obtain ⟨hfailed, hfound⟩ := activeSet_of_fresh (not_exists.1 hcached)
    cases hhistory : chain.validatorsAt parent.number with
    | error cause =>
        rw [hfailed cause hhistory]
        exact .inl rfl
    | ok found =>
        rw [hfound found hhistory]
        exact .inr ⟨found, rfl, rfl⟩

/-- Preparing a round changes the coordinator by looking up the active set only. -/
theorem keeps_createRound {β : Type} {p : Coordinator → Prop} {chain : Chain} {parent : Header}
    (hactive : Keeps p (activeSet chain parent)) (store : Store) (builder : Option β)
    (context : RoundContext) : Keeps p (createRound chain store parent builder context) := by
  refine Keeps.bind (Keeps.get _) fun c => Keeps.bind (Keeps.mk_pure _ _) fun announced => ?_
  refine Keeps.bind hactive fun active => ?_
  exact Keeps.bind (Keeps.mk_pure _ _) fun inputs => Keeps.mk_pure _ (.ok _)

/-- No step of a coordinator exchanges its ledger. -/
theorem ledger_createRound {β : Type} (l : Ledger) (chain : Chain) (store : Store) (parent : Header)
    (builder : Option β) (context : RoundContext) :
    Keeps (·.ledger = l) (createRound chain store parent builder context) := by
  refine keeps_createRound ?_ store builder context
  intro c hledger
  rcases run_activeSet_cases chain parent c with hsame | ⟨active, _, hcached⟩
  · rw [hsame]
    exact hledger
  · rw [hcached]
    exact hledger

variable {β : Type}

/-- Preparing a round reads the parent, then finds the active set, then completes the inputs. -/
theorem createRound_ok_iff {chain : Chain} {store : Store} {parent : Header} {builder : Option β}
    {context : RoundContext} {c c' : Coordinator} {round : Round β} :
    (createRound chain store parent builder context).run c = (.ok round, c') ↔
      ∃ epoch parentDelta active inputs,
        readParent c.config parent = .ok (epoch, parentDelta) ∧
        (activeSet chain parent).run c = (.ok active, c') ∧
        completeInputs c.ledger chain store parentDelta
          (RoundInputs.plain c.config parent active epoch context) = .ok inputs ∧
        round = Round.ofInputs inputs builder := by
  constructor
  · intro h
    obtain ⟨_, _, hget, h⟩ := run_bind_ok_iff.1 h
    cases hget
    obtain ⟨⟨epoch, parentDelta⟩, _, hread, h⟩ := run_bind_ok_iff.1 h
    rw [run_mk_pure, Prod.mk.injEq] at hread
    obtain ⟨hread, rfl⟩ := hread
    obtain ⟨active, c₁, hactive, h⟩ := run_bind_ok_iff.1 h
    obtain ⟨inputs, _, hinputs, h⟩ := run_bind_ok_iff.1 h
    rw [run_mk_pure, Prod.mk.injEq] at hinputs
    obtain ⟨hinputs, rfl⟩ := hinputs
    cases h
    exact ⟨epoch, parentDelta, active, inputs, hread, hactive, hinputs, rfl⟩
  · rintro ⟨epoch, parentDelta, active, inputs, hread, hactive, hinputs, rfl⟩
    refine run_bind_ok_iff.2 ⟨c, c, rfl, run_bind_ok_iff.2 ⟨(epoch, parentDelta), c, ?_, ?_⟩⟩
    · rw [run_mk_pure, hread]
    · refine run_bind_ok_iff.2 ⟨active, c', hactive, run_bind_ok_iff.2 ⟨inputs, c', ?_, rfl⟩⟩
      rw [run_mk_pure, hinputs]

end Coordinator

end EpochSeal
