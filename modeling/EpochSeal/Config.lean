import EpochSeal.Checkpoint
import EpochSeal.SystemCall
import EpochSeal.Toml.Document

/-!
The parameters of consensus: how heights fall into epochs and sprints, how far clocks may differ,
and whether a bridge takes part. They are read from a TOML document, in which every key may be left
out.
-/
namespace EpochSeal

/-- The bridge, if it takes part: the contract that its commitments are sent to. -/
structure Bridge where
  receiver : Address
  deriving DecidableEq

structure Config where
  chainId : UInt64
  /-- How many blocks an epoch has. -/
  epochSize : UInt64
  /-- How many blocks a sprint has. -/
  sprintSize : UInt64
  /-- How many seconds the timestamp of a block may run ahead of the local clock. -/
  blockTimeDrift : UInt64
  maxSetSize : UInt64
  /-- The contract whose events change voting power. -/
  stakingContract : Address
  /-- The balance that the reward wallet is topped up to at the end of an epoch. -/
  rewardWalletTarget : Word
  bridge : Option Bridge
  deriving DecidableEq

/-- Why there is no usable configuration. -/
inductive ConfigError where
  | unreadable
  | malformed
  | zeroEpochSize
  | zeroSprintSize
  | zeroSetSize
  deriving DecidableEq, Repr

namespace ConfigError

/-- The text of the error, with `<io>` and `<toml>` for what the file system and the TOML reader say. -/
def message : ConfigError → String
  | .unreadable => "failed to read config: <io>"
  | .malformed => "failed to parse config: <toml>"
  | .zeroEpochSize => "invalid config: epoch_size must be greater than zero"
  | .zeroSprintSize => "invalid config: sprint_size must be greater than zero"
  | .zeroSetSize => "invalid config: max_validator_set_size must be greater than zero"

def code : ConfigError → String
  | .unreadable => "Io"
  | .malformed => "Parse"
  | .zeroEpochSize | .zeroSprintSize | .zeroSetSize => "Invalid"

instance : Failure ConfigError where
  name e := "Config." ++ e.code
  message := message

end ConfigError

def twoThirdsOfMax : Word := Word.max / 3 * 2

namespace Config

def default : Config :=
  { chainId := 100
    epochSize := 10
    sprintSize := 5
    blockTimeDrift := 10
    maxSetSize := 100
    stakingContract := Contract.staking
    rewardWalletTarget := twoThirdsOfMax
    bridge := none }

def validate (c : Config) : Except ConfigError Unit :=
  if c.epochSize = 0 then .error .zeroEpochSize
  else if c.sprintSize = 0 then .error .zeroSprintSize
  else if c.maxSetSize = 0 then .error .zeroSetSize
  else .ok ()

/-- Where bridge commitments are sent, if the bridge takes part. -/
def bridgeReceiver? (c : Config) : Option Address := c.bridge.map (·.receiver)

def endsEpoch (c : Config) (height : UInt64) : Bool := height % c.epochSize = 0

def startsEpoch (c : Config) (height : UInt64) : Bool :=
  0 < height && (height - 1) % c.epochSize = 0

def endsSprint (c : Config) (height : UInt64) : Bool := height % c.sprintSize = 0

/-- Whether heights fall into epochs and sprints at all. Neither size may be zero. -/
def hasPeriods (c : Config) : Bool := c.epochSize ≠ 0 && c.sprintSize ≠ 0

/-- The epoch of the block at a height whose parent stands in `parentEpoch`. -/
def epochAt (c : Config) (parentEpoch height : UInt64) : UInt64 :=
  Checkpoint.epochAfter parentEpoch (c.startsEpoch height)

/-- The epoch at a height, if it has one: without epochs only height zero has, which starts none. -/
def epochAt? (c : Config) (parentEpoch height : UInt64) : Option UInt64 :=
  if c.epochSize = 0 ∧ height ≠ 0 then none else some (c.epochAt parentEpoch height)

/-- Where a height lies: whether it ends an epoch, starts one and ends a sprint. -/
structure Place where
  endsEpoch : Bool
  startsEpoch : Bool
  endsSprint : Bool
  deriving DecidableEq, Repr

def placeOf? (c : Config) (height : UInt64) : Option Place :=
  if c.hasPeriods then some ⟨c.endsEpoch height, c.startsEpoch height, c.endsSprint height⟩ else none

def number (key : String) (default : UInt64) (entries : Toml.Entries) : Except ConfigError UInt64 :=
  match entries.find? key with
  | none => .ok default
  | some (.integer n) => if 0 ≤ n then .ok (UInt64.ofNat n.toNat) else .error .malformed
  | some _ => .error .malformed

def addressOf : Toml.Item → Except ConfigError Address
  | .text value => (Address.parse value.toUTF8.toList).mapError fun _ => .malformed
  | _ => .error .malformed

def byteOf : Toml.Item → Except ConfigError UInt8
  | .integer n => if 0 ≤ n ∧ n < 256 then .ok (UInt8.ofNat n.toNat) else .error .malformed
  | _ => .error .malformed

/-- A word is written as hexadecimal text or as a list of bytes. -/
def wordOf : Toml.Item → Except ConfigError Word
  | .text value => (Word.parse value.toUTF8.toList).mapError fun _ => .malformed
  | .array items => do
    let bytes ← items.mapM byteOf
    if 0 < bytes.length ∧ bytes.length ≤ 32 then return Word.ofBytes bytes else throw .malformed
  | _ => .error .malformed

/-- The bridge that an item describes: by the keys of a table, or by the fields of a list in their
order. Nothing has to be given. -/
def bridgeOf (item : Toml.Item) : Except ConfigError Bridge :=
  let receiver (given : Option Toml.Item) : Except ConfigError Bridge :=
    match given with
    | none => .ok ⟨Contract.stateReceiver⟩
    | some item => (addressOf item).map Bridge.mk
  match item with
  | .table _ entries | .inlineTable entries => receiver (Toml.Entries.find? "state_receiver" entries)
  | .array items => receiver items.head?
  | .moment => receiver none
  | _ => .error .malformed

/-- The configuration that a document describes; other keys than its own are ignored. -/
def ofEntries (entries : Toml.Entries) : Except ConfigError Config := do
  let chainId ← number "chain_id" default.chainId entries
  let epochSize ← number "epoch_size" default.epochSize entries
  let sprintSize ← number "sprint_size" default.sprintSize entries
  let blockTimeDrift ← number "block_time_drift" default.blockTimeDrift entries
  let maxSetSize ← number "max_validator_set_size" default.maxSetSize entries
  let stakingContract ← match entries.find? "staking_contract" with
    | none => .ok default.stakingContract
    | some item => addressOf item
  let rewardWalletTarget ← match entries.find? "reward_wallet_target" with
    | none => .ok default.rewardWalletTarget
    | some item => wordOf item
  let bridge ← match entries.find? "bridge" with
    | none => .ok none
    | some item => (bridgeOf item).map some
  return { chainId, epochSize, sprintSize, blockTimeDrift, maxSetSize, stakingContract,
           rewardWalletTarget, bridge }

/-- Reads and validates the configuration in a file, given by its bytes if it can be read. -/
def load (file : Option Bytes) : Except ConfigError Config := do
  let some bytes := file | throw .unreadable
  let some document := String.fromUTF8? bytes.toByteArray | throw .unreadable
  let some entries := Toml.parse document | throw .malformed
  let config ← ofEntries entries
  config.validate
  return config

end Config

end EpochSeal
