import EpochSeal.Proofs.DeltaBasis

/-! When the active set that a coordinator remembers is the one in effect. The history of sets changes
from a block on that ends an epoch, until that block has been handed over: what was looked up meanwhile
may be outdated, and is forgotten when the block is taken in.

A call of the coordinator is one event: calls follow each other, and the history may change between
two calls but not within one. A lookup takes the lock of the cache twice, once to read it and once to
fill it, so this leaves out calls that overlap. -/
namespace EpochSeal
open Outcome

namespace Coordinator

variable {β : Type} {chain : Chain} {store : Store} {parent : Header} {builder : Option β}
  {context : RoundContext} {c : Coordinator}

/-- A set that is remembered rightly is the set that would be looked up. -/
theorem activeSet_outcome (chain : Chain) (parent : Header) (c : Coordinator)
    (hright : ∀ active, c.cached = some (parent.number, active) →
      chain.validatorsAt parent.number = .ok active) :
    ((activeSet chain parent).run c).1 =
      (chain.validatorsAt parent.number).mapError (.backend "failed to get validators") := by
  by_cases hcached : ∃ active, c.cached = some (parent.number, active)
  · obtain ⟨active, hcached⟩ := hcached
    rw [activeSet_of_cached hcached, hright active hcached]
    rfl
  · obtain ⟨hfailed, hfound⟩ := activeSet_of_fresh (not_exists.1 hcached)
    cases hhistory : chain.validatorsAt parent.number with
    | error cause =>
        rw [hfailed cause hhistory]
        rfl
    | ok active =>
        rw [hfound active hhistory]
        rfl

/-- What preparing a round depends on, of all that a coordinator remembers, is the active set. -/
theorem createRound_outcome (c : Coordinator) :
    ((createRound chain store parent builder context).run c).1 = do
      let (epoch, parentDelta) ← readParent c.config parent
      let active ← ((activeSet chain parent).run c).1
      let inputs ← completeInputs c.ledger chain store parentDelta
        (RoundInputs.plain c.config parent active epoch context)
      return Round.ofInputs inputs builder := by
  rw [createRound, run_bind_ok (run_get c)]
  cases hread : readParent c.config parent with
  | error cause => rfl
  | ok announced =>
      obtain ⟨epoch, parentDelta⟩ := announced
      have hstep : (ExceptT.mk (pure (.ok (epoch, parentDelta))) :
          Coordinating (UInt64 × Option SetDelta)).run c = (.ok (epoch, parentDelta), c) := rfl
      rw [run_bind_ok hstep]
      cases hactive : (activeSet chain parent).run c with
      | mk outcome c' =>
          cases outcome with
          | error cause =>
              rw [run_bind_error hactive]
              rfl
          | ok active =>
              rw [run_bind_ok hactive]
              change _ = completeInputs c.ledger chain store parentDelta
                (RoundInputs.plain c.config parent active epoch context) >>= fun inputs =>
                  pure (Round.ofInputs inputs builder)
              dsimp only
              cases completeInputs c.ledger chain store parentDelta
                (RoundInputs.plain c.config parent active epoch context) <;> rfl

/-- Preparing a round leaves the coordinator as it is, or with a set that it has looked up. -/
theorem run_createRound_cases (chain : Chain) (store : Store) (parent : Header) (builder : Option β)
    (context : RoundContext) (c : Coordinator) :
    ((createRound chain store parent builder context).run c).2 = c ∨
      ∃ active, chain.validatorsAt parent.number = .ok active ∧
        ((createRound chain store parent builder context).run c).2 =
          { c with cached := some (parent.number, active) } := by
  refine keeps_createRound (p := fun c' => c' = c ∨ ∃ active, chain.validatorsAt parent.number = .ok active ∧
    c' = { c with cached := some (parent.number, active) }) ?_ store builder context c (.inl rfl)
  rintro c' hc'
  rcases run_activeSet_cases chain parent c' with hsame | ⟨active, hactive, hlooked⟩
  · rw [hsame]
    exact hc'
  · rw [hlooked]
    rcases hc' with rfl | ⟨_, _, rfl⟩ <;> exact .inr ⟨active, hactive, rfl⟩

theorem config_afterBlock (c : Coordinator) (height : UInt64) : (c.afterBlock height).config = c.config := by
  unfold afterBlock
  split <;> rfl

theorem cached_afterBlock {height : UInt64} (hends : c.config.endsEpoch height = true) :
    (c.afterBlock height).cached = none := by
  rw [afterBlock, if_pos hends]

theorem cached_of_afterBlock {height : UInt64} {entry : UInt64 × ValidatorSet}
    (hcached : (c.afterBlock height).cached = some entry) : c.cached = some entry := by
  unfold afterBlock at hcached
  split at hcached
  · cases hcached
  · exact hcached

end Coordinator

/-- A node, what it consults at the moment, and the blocks that end an epoch and have been committed, but
not handed to the node yet. -/
structure Surroundings where
  node : Follower
  chain : Chain
  awaited : List ExecutedBlock

/-- What happens at a node and around it. -/
inductive NodeEvent (β : Type) where
  | committed (block : ExecutedBlock)
  /-- The node finds another chain, another history of sets or another record of stakes. -/
  | moved (chain : Chain) (store : Store)
  | asked (parent : Header)
  | created (parent : Header) (builder : Option β) (context : RoundContext)
  | inserted (block : ExecutedBlock)

namespace NodeEvent

variable {β : Type}

/-- The history of sets changes only at and above the height of a block that is awaited. -/
def Permitted (s : Surroundings) : NodeEvent β → Prop
  | .moved chain _ => ∀ number, chain.validatorsAt number = s.chain.validatorsAt number ∨
    ∃ b ∈ s.awaited, b.block.header.number ≤ number
  | _ => True

def step (s : Surroundings) : NodeEvent β → Surroundings
  | .committed block =>
    if s.node.coordinator.config.endsEpoch block.block.header.number then
      { s with awaited := block :: s.awaited }
    else s
  | .moved chain store => { s with chain, node := { s.node with store } }
  | .asked parent =>
    let (_, coordinator) := (Coordinator.activeSet s.chain parent).run s.node.coordinator
    { s with node := { s.node with coordinator } }
  | .created parent builder context =>
    let (_, coordinator) :=
      (Coordinator.createRound s.chain s.node.store parent builder context).run s.node.coordinator
    { s with node := { s.node with coordinator } }
  | .inserted block =>
    match s.node.coordinator.onInserted s.chain s.node.store block with
    | .ok (coordinator, store) =>
      { s with node := ⟨coordinator, store⟩, awaited := s.awaited.filter (· ≠ block) }
    | .error _ => s

def after (s : Surroundings) (events : List (NodeEvent β)) : Surroundings := events.foldl step s

/-- Each event of a run is permitted where it happens. -/
def Legal : Surroundings → List (NodeEvent β) → Prop
  | _, [] => True
  | s, e :: rest => e.Permitted s ∧ Legal (e.step s) rest

end NodeEvent

namespace Surroundings

/-- What is remembered is right for a height below all blocks that are awaited, and these end epochs. -/
structure UpToDate (s : Surroundings) : Prop where
  ends : ∀ b ∈ s.awaited, s.node.coordinator.config.endsEpoch b.block.header.number = true
  right : ∀ number active, s.node.coordinator.cached = some (number, active) →
    (∀ b ∈ s.awaited, number < b.block.header.number) → s.chain.validatorsAt number = .ok active

variable {β : Type} {s : Surroundings}

theorem UpToDate.lookedUp (h : s.UpToDate) {parent : Header} {c : Coordinator}
    (hc : c = s.node.coordinator ∨ ∃ active, s.chain.validatorsAt parent.number = .ok active ∧
      c = { s.node.coordinator with cached := some (parent.number, active) }) :
    UpToDate { s with node := { s.node with coordinator := c } } := by
  rcases hc with rfl | ⟨active, hactive, rfl⟩
  · exact h
  · refine ⟨h.ends, ?_⟩
    intro number found hcached _
    cases hcached
    exact hactive

theorem UpToDate.step (h : s.UpToDate) {e : NodeEvent β} (hpermitted : e.Permitted s) :
    (e.step s).UpToDate := by
  cases e with
  | committed block =>
      simp only [NodeEvent.step]
      split
      · next hends =>
          refine ⟨List.forall_mem_cons.2 ⟨hends, h.ends⟩, ?_⟩
          intro number active hcached hbelow
          exact h.right number active hcached (List.forall_mem_cons.1 hbelow).2
      · exact h
  | moved chain store =>
      refine ⟨h.ends, ?_⟩
      intro number active hcached hbelow
      rcases hpermitted number with hsame | ⟨b, hb, hle⟩
      · exact hsame.trans (h.right number active hcached hbelow)
      · exact absurd hle (UInt64.not_le.2 (hbelow b hb))
  | asked parent => exact h.lookedUp (Coordinator.run_activeSet_cases _ _ _)
  | created parent builder context => exact h.lookedUp (Coordinator.run_createRound_cases _ _ _ _ _ _)
  | inserted block =>
      simp only [NodeEvent.step]
      split
      · next hinserted =>
          obtain ⟨rfl, -⟩ := Coordinator.onInserted_ok_iff.1 hinserted
          constructor
          · intro b hb
            rw [Coordinator.config_afterBlock]
            exact h.ends b (List.mem_of_mem_filter hb)
          · intro number active hcached hbelow
            have hkept := Coordinator.cached_of_afterBlock hcached
            apply h.right number active hkept
            intro b hb
            -- a block that was awaited ends an epoch, and would have made the node forget
            have hother : b ≠ block := by
              rintro rfl
              rw [Coordinator.cached_afterBlock (h.ends b hb)] at hcached
              cases hcached
            exact hbelow b (List.mem_filter.2 ⟨hb, decide_eq_true hother⟩)
      · exact h

theorem UpToDate.after (h : s.UpToDate) {events : List (NodeEvent β)} (hlegal : NodeEvent.Legal s events) :
    (NodeEvent.after s events).UpToDate := by
  induction events generalizing s with
  | nil => exact h
  | cons e rest ih =>
      obtain ⟨hpermitted, hrest⟩ := hlegal
      exact ih (h.step hpermitted) hrest

end Surroundings

namespace NodeEvent

/-- Whatever was remembered before, a call for a parent below all awaited blocks takes the set that the
history gives for that parent now; while no block is awaited, that is every call. A node that remembers
nothing would do the same. -/
theorem never_outdated {β : Type} {config : Config} {l : Ledger} {c : Coordinator} {chain : Chain}
    {store : Store} {events : List (NodeEvent β)} {s : Surroundings} (parent : Header)
    (hmake : Coordinator.make config l = .ok c) (hlegal : Legal ⟨⟨c, store⟩, chain, []⟩ events)
    (hafter : after ⟨⟨c, store⟩, chain, []⟩ events = s)
    (hbelow : ∀ b ∈ s.awaited, parent.number < b.block.header.number) :
    ((Coordinator.activeSet s.chain parent).run s.node.coordinator).1 =
      (s.chain.validatorsAt parent.number).mapError (.backend "failed to get validators") ∧
    ∀ (builder : Option β) (context : RoundContext),
      ((Coordinator.createRound s.chain s.node.store parent builder context).run s.node.coordinator).1 =
        ((Coordinator.createRound s.chain s.node.store parent builder context).run
          { s.node.coordinator with cached := none }).1 ∧
      ∀ r c', (Coordinator.createRound s.chain s.node.store parent builder context).run
        s.node.coordinator = (.ok r, c') → s.chain.validatorsAt parent.number = .ok r.inputs.validators := by
  have hstart : Surroundings.UpToDate ⟨⟨c, store⟩, chain, []⟩ := by
    constructor
    · intro b hb
      cases hb
    · intro number active hcached _
      exact Coordinator.remembers_make chain hmake number active hcached
  have huptodate := hstart.after hlegal
  rw [hafter] at huptodate
  have hactive := Coordinator.activeSet_outcome s.chain parent s.node.coordinator
    fun active hcached => huptodate.right parent.number active hcached hbelow
  have hfresh := Coordinator.activeSet_outcome s.chain parent { s.node.coordinator with cached := none }
    fun active hcached => by cases hcached
  refine ⟨hactive, ?_⟩
  intro builder context
  constructor
  · rw [Coordinator.createRound_outcome, Coordinator.createRound_outcome, hactive, hfresh]
  · intro r c' hcreate
    obtain ⟨epoch, parentDelta, active, inputs, -, hlooked, hcomplete, rfl⟩ :=
      Coordinator.createRound_ok_iff.1 hcreate
    rw [hlooked] at hactive
    have hvalidators := (Coordinator.completeInputs_extends hcomplete).validators
    change s.chain.validatorsAt parent.number = .ok inputs.validators
    rw [hvalidators]
    exact mapError_ok_iff.1 hactive.symm

section renewal
open LedgerCall FollowerCall

/-- The first of two validators alone. -/
def renewedSet : ValidatorSet := ⟨[Validator.ofStake (Address.ofLow 1) none 5]⟩

/-- From block 1 on another set is in effect. -/
def renewedChain : Chain :=
  { recordedChain 1 with validatorsAt := fun n => .ok (if 1 ≤ n then renewedSet else pairSet) }

def shortEpochs : Coordinator := ⟨{ Config.default with epochSize := 1 }, stakingLedger, none⟩

def beforeRenewal : Surroundings := ⟨⟨shortEpochs, Store.empty⟩, recordedChain 1, []⟩

/-- Block 1 ends an epoch. The node asks for the set on top of it before the history changes, once more
before it is handed the block, and then is handed the block. -/
def untilRenewal : List (NodeEvent Unit) :=
  [.asked (recordedWithdrawal.header 1), .committed quietBlock, .moved renewedChain Store.empty,
    .asked (recordedWithdrawal.header 1)]

def outdated : Surroundings :=
  ⟨⟨{ shortEpochs with cached := some (1, pairSet) }, Store.empty⟩, renewedChain, [quietBlock]⟩

def renewedStore : Store := ((LedgerCall.finalized renewedChain quietBlock 0).run stakingLedger Store.empty).2

def renewed : Surroundings := ⟨⟨shortEpochs, renewedStore⟩, renewedChain, []⟩

theorem onInserted_outdated : outdated.node.coordinator.onInserted renewedChain Store.empty quietBlock =
    .ok (shortEpochs, renewedStore) := by
  have hledger : ((LedgerCall.finalized renewedChain quietBlock 0).run stakingLedger
      Store.empty).1 = .ok () := toOption_eq_some_iff.1 (by decide)
  have hends : outdated.node.coordinator.config.endsEpoch quietBlock.block.header.number = true := by
    decide
  exact Coordinator.onInserted_ok_iff.2
    ⟨(if_pos hends).symm, _, _, decode_recordedWithdrawal 1, rfl, Prod.ext hledger rfl⟩

theorem after_renewal : after beforeRenewal (untilRenewal ++ [.inserted quietBlock]) = renewed := by
  have huntil : after beforeRenewal untilRenewal = outdated := rfl
  rw [after, List.foldl_append, List.foldl_cons, List.foldl_nil, ← after, huntil]
  simp only [step]
  split
  · next hinserted =>
      cases onInserted_outdated.symm.trans hinserted
      simp [outdated, renewed]
  · next hfailed => cases onInserted_outdated.symm.trans hfailed

theorem legal_renewal : Legal beforeRenewal (untilRenewal ++ [.inserted quietBlock]) := by
  refine ⟨trivial, trivial, ?_, trivial, trivial, trivial⟩
  intro number
  by_cases hnumber : 1 ≤ number
  · exact .inr ⟨quietBlock, List.mem_singleton_self _, hnumber⟩
  · exact .inl (congrArg Except.ok (if_neg hnumber))

/-- Until block 1 is taken in, the node goes by the set that it looked up too early, and then no more. -/
theorem never_outdated_renewed :
    ((Coordinator.activeSet outdated.chain (recordedWithdrawal.header 1)).run
      outdated.node.coordinator).1 = .ok pairSet ∧
    outdated.chain.validatorsAt 1 = .ok renewedSet ∧ pairSet ≠ renewedSet ∧
    Legal beforeRenewal (untilRenewal ++ [.inserted quietBlock]) ∧
    after beforeRenewal (untilRenewal ++ [.inserted quietBlock]) = renewed ∧ renewed.awaited = [] ∧
    ((Coordinator.activeSet renewed.chain (recordedWithdrawal.header 1)).run
      renewed.node.coordinator).1 = .ok renewedSet := by
  have hmake : Coordinator.make shortEpochs.config stakingLedger = .ok shortEpochs := rfl
  obtain ⟨hactive, -⟩ := never_outdated (recordedWithdrawal.header 1) hmake legal_renewal after_renewal
    fun b hb => absurd hb List.not_mem_nil
  exact ⟨rfl, rfl, by decide, legal_renewal, after_renewal, rfl, hactive⟩

end renewal

end NodeEvent

end EpochSeal
