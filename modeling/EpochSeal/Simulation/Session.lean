import EpochSeal.Coordinator
import EpochSeal.Round.Proposal
import EpochSeal.Round.Sealing
import EpochSeal.Round.Validation
import EpochSeal.Simulation.Builder

/-!
A node on a simulated chain. Its rounds have names, under which the proposals that they built and the
blocks that they committed are kept.
-/
namespace EpochSeal.Simulation

/-- The state of the node and of the world around it. Of two entries with one name the first counts. -/
structure Session where
  config : Config
  world : World
  store : Store
  coordinator : Option Coordinator
  rounds : List (String × Round Builder)
  proposals : List (String × Bytes)
  blocks : List (String × ExecutedBlock)

/-- Steps of a session. There is no outcome if something that they name does not exist. -/
abbrev Scripted := StateT Session Option

/-- The transaction that a step of the ledger runs in: its own, or one that the caller opened and then
commits or aborts, whatever became of the step. -/
inductive Enclosing where
  | own
  | committed
  | aborted
  deriving DecidableEq, Repr

namespace Session

/-- A session without a coordinator on a world, with a store that may hold a record. -/
def start (config : Config) (world : World) (record : Option Bytes) : Session :=
  { config
    world
    store := ⟨record⟩
    coordinator := none
    rounds := []
    proposals := []
    blocks := [] }

def ledger (s : Session) : Ledger := Ledger.ofConfig s.config

def chain (s : Session) : Chain := s.world.chain

def round (name : String) : Scripted (Round Builder) := do (← get).rounds.lookup name

def proposal (name : String) : Scripted Bytes := do (← get).proposals.lookup name

def block (name : String) : Scripted ExecutedBlock := do (← get).blocks.lookup name

def keepRound (name : String) (r : Round Builder) : Scripted Unit :=
  modify fun s => { s with rounds := (name, r) :: s.rounds }

/-- Runs a step of the ledger; gives its outcome and the store as the enclosing transaction sees it
afterwards. -/
def runLedger (enclosing : Enclosing) (step : Ledger → Chain → Transactional LedgerError Unit) :
    Scripted (Except LedgerError Unit × Store) := do
  let s ← get
  let work := step s.ledger s.chain
  let (outcome, written) := work.run s.store
  match enclosing with
  | .own =>
    let (outcome, store) := Transactional.runOwn work s.store
    set { s with store }
    return (outcome, store)
  | .committed =>
    set { s with store := written }
    return (outcome, written)
  | .aborted => return (outcome, written)

def coordinate {α : Type} (steps : Session → Coordinating α) :
    Scripted (Except CoordinatorError α) := do
  let s ← get
  let (outcome, c) := (steps s).run (← s.coordinator)
  set { s with coordinator := some c }
  return outcome

def configure (config : Config) : Scripted (Except CoordinatorError Config) := do
  let s ← get
  match Coordinator.make config s.ledger with
  | .error e => return .error e
  | .ok c =>
    set { s with coordinator := some c }
    return .ok c.config

/-- The set that seals the block after a parent. -/
def activeSet (parent : Header) : Scripted (Except CoordinatorError ValidatorSet) :=
  coordinate fun s => Coordinator.activeSet s.chain parent

def createRound (name : String) (parent : Header) (builder : Option Builder) (context : RoundContext) :
    Scripted (Except CoordinatorError (Round Builder)) := do
  let outcome ← coordinate fun s => Coordinator.createRound s.chain s.store parent builder context
  if let .ok r := outcome then keepRound name r
  return outcome

def build (name : String) (number : UInt64) : Scripted (Except RoundError Bytes × Round Builder) := do
  let r ← round name
  let faults := (← get).world.faults
  let ready := { r with builder := r.builder.map (Builder.withFaults faults) }
  let (outcome, r) := ready.buildProposal number
  keepRound name r
  if let .ok p := outcome then modify fun s => { s with proposals := (name, p) :: s.proposals }
  return (outcome, r)

def validate (name : String) (now : UInt64) (proposal : Bytes) :
    Scripted (Except RoundError Unit × Round Builder) := do
  let r ← round name
  match r.validate (← get).chain now proposal with
  | .error e => return (.error e, r)
  | .ok r =>
    keepRound name r
    return (.ok (), r)

/-- Commits the block of a round, which the world then has. -/
def insert (name : String) (proposal : Bytes) (seals : List CommittedSeal) :
    Scripted (Except RoundError ExecutedBlock × Round Builder) := do
  let r ← round name
  match r.insert (← get).chain proposal seals with
  | .error e => return (.error e, r)
  | .ok (b, r) =>
    keepRound name r
    modify fun s => { s with world := s.world.commit b, blocks := (name, b) :: s.blocks }
    return (.ok b, r)

/-- Tells the coordinator of a committed block. -/
def notify (b : ExecutedBlock) : Scripted (Except CoordinatorError Unit) := do
  let s ← get
  match (← s.coordinator).onInserted s.chain s.store b with
  | .error e => return .error e
  | .ok (c, store) =>
    set { s with coordinator := some c, store }
    return .ok ()

end Session

end EpochSeal.Simulation
