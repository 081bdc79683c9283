import EpochSeal.Abi
import EpochSeal.Block

/-!
The contracts that the protocol itself talks to: where they live, the calls it sends them and the
event it reads. A call is four bytes that select the function, then the arguments.
-/
namespace EpochSeal

namespace Contract

/-- Keeps the validators and the epochs, and pays the DAO incentive. -/
def registry : Address := Address.ofLow 0x101

/-- Verifies aggregate signatures. -/
def blsVerifier : Address := Address.ofLow 0x102

/-- Keeps the stakes and announces their changes. -/
def staking : Address := Address.ofLow 0x104

/-- Pays out rewards. -/
def rewardWallet : Address := Address.ofLow 0x110

/-- Receives bridge commitments. -/
def stateReceiver : Address := Address.ofLow 0x1001

/-- The sender of every state transaction. -/
def systemCaller : Address := ⟨List.replicate 19 0xff ++ [0xfe], rfl⟩

end Contract

/-- Why the input of a call cannot be read. -/
inductive PayloadError where
  | abi
  | shape (field : String)
  | overflow (field : String)
  deriving DecidableEq, Repr

namespace PayloadError

def message : PayloadError → String
  | .abi => "abi: <abi>"
  | .shape field => "unexpected shape for field " ++ field
  | .overflow field => s!"value of field {field} does not fit"

def code : PayloadError → String
  | .abi => "Abi"
  | .shape _ => "Shape"
  | .overflow _ => "Overflow"

instance : Failure PayloadError where
  name e := "Payload." ++ e.code
  message := message

end PayloadError

/-- The blocks of an epoch. -/
structure EpochRange where
  start : UInt64
  finish : UInt64
  root : Digest
  deriving DecidableEq

/-- How many blocks of an epoch a validator sealed. -/
structure Uptime where
  validator : Address
  signed : UInt64
  deriving DecidableEq

/-- The power that a validator has from now on. -/
structure PowerUpdate where
  validator : Address
  power : UInt64
  deriving DecidableEq

/-- Closes an epoch. -/
structure EpochCommit where
  id : UInt64
  range : EpochRange
  epochSize : UInt64
  uptime : List Uptime
  deriving DecidableEq

/-- Pays the rewards of an epoch. -/
structure RewardDistribution where
  epochId : UInt64
  uptime : List Uptime
  epochSize : UInt64
  deriving DecidableEq

/-- Announces the powers that changed with the last epoch. -/
structure PowerSync where
  powers : List PowerUpdate
  deriving DecidableEq

namespace Payload

/-- The word whose last bytes are an address. -/
def addressWord (a : Address) : Word := Word.ofBytes a.bytes

/-- The address in the last bytes of a word. -/
def wordAddress (w : Word) : Address := Address.ofRight w.toBytes

def digestWord (d : Digest) : Word := Word.ofBytes d.bytes

def wordDigest (w : Word) : Digest := ⟨w.toBytes, Bytes.length_bigEndian 32 w.toNat⟩

def number (n : UInt64) : Abi.Value := .word (Word.ofUInt64 n)

/-- The number of 64 bits in a word. -/
def toNumber (field : String) (w : Word) : Except PayloadError UInt64 :=
  match w.toUInt64? with
  | some n => .ok n
  | none => .error (.overflow field)

/-- The arguments of a call with the given selector. -/
def arguments (selector : Bytes) (shapes : List Abi.Shape) (input : Bytes) :
    Except PayloadError (List Abi.Value) :=
  if input.take 4 = selector then
    match Abi.decode shapes (input.drop 4) with
    | some values => .ok values
    | none => .error .abi
  else .error .abi

/-- The shape of a list of pairs of an address and a number. -/
def pairs : Abi.Shape := .rows [160, 256]

def pairRows {α : Type} (items : List α) (key : α → Address) (count : α → UInt64) : Abi.Value :=
  .rows (items.map fun item => [addressWord (key item), Word.ofUInt64 (count item)])

/-- Reads a row of an address and a number. -/
def pairOfRow {α : Type} (field : String) (make : Address → UInt64 → α) :
    List Word → Except PayloadError α
  | [key, count] => (toNumber field count).map (make (wordAddress key))
  | _ => .error .abi

end Payload

namespace EpochCommit
open Payload

def selector : Bytes := [0x22, 0xd0, 0x89, 0x31]

def shapes : List Abi.Shape :=
  [.word 256, .word 256, .word 256, .word 256, .word 256, pairs]

def encode (c : EpochCommit) : Bytes :=
  selector ++ Abi.encode
    [number c.id, number c.range.start, number c.range.finish, .word (digestWord c.range.root),
     number c.epochSize, pairRows c.uptime Uptime.validator Uptime.signed]

def decode (input : Bytes) : Except PayloadError EpochCommit := do
  match ← arguments selector shapes input with
  | [.word id, .word start, .word finish, .word root, .word epochSize, .rows uptime] =>
    let id ← toNumber "id" id
    let start ← toNumber "epoch.startBlock" start
    let finish ← toNumber "epoch.endBlock" finish
    let epochSize ← toNumber "epochSize" epochSize
    let uptime ← uptime.mapM (pairOfRow "uptime.signedBlocks" Uptime.mk)
    return { id, range := ⟨start, finish, wordDigest root⟩, epochSize, uptime }
  | _ => throw .abi

end EpochCommit

namespace RewardDistribution
open Payload

def selector : Bytes := [0x84, 0xbc, 0xe1, 0xa4]

def shapes : List Abi.Shape := [.word 256, pairs, .word 256]

def encode (d : RewardDistribution) : Bytes :=
  selector ++ Abi.encode
    [number d.epochId, pairRows d.uptime Uptime.validator Uptime.signed, number d.epochSize]

def decode (input : Bytes) : Except PayloadError RewardDistribution := do
  match ← arguments selector shapes input with
  | [.word epochId, .rows uptime, .word epochSize] =>
    let epochId ← toNumber "epochId" epochId
    let uptime ← uptime.mapM (pairOfRow "uptime.signedBlocks" Uptime.mk)
    let epochSize ← toNumber "epochSize" epochSize
    return { epochId, uptime, epochSize }
  | _ => throw .abi

end RewardDistribution

namespace PowerSync
open Payload

def selector : Bytes := [0x8d, 0xca, 0x84, 0xb4]

def encode (s : PowerSync) : Bytes :=
  selector ++ Abi.encode [pairRows s.powers PowerUpdate.validator PowerUpdate.power]

def decode (input : Bytes) : Except PayloadError PowerSync := do
  match ← arguments selector [pairs] input with
  | [.rows powers] =>
    return ⟨← powers.mapM (pairOfRow "validatorsPower.votingPower" PowerUpdate.mk)⟩
  | _ => throw .abi

end PowerSync

/-- A call without arguments that the protocol sends: it tops up the reward wallet by the value of
the transaction, or pays the DAO incentive. -/
inductive PlainCall where
  | fundRewardWallet
  | distributeDaoIncentive
  deriving DecidableEq

namespace PlainCall

def selector : PlainCall → Bytes
  | .fundRewardWallet => [0xb6, 0x0d, 0x42, 0x88]
  | .distributeDaoIncentive => [0xff, 0xd6, 0x0f, 0xd1]

def encode (c : PlainCall) : Bytes := c.selector

def decode (c : PlainCall) (input : Bytes) : Except PayloadError Unit :=
  (Payload.arguments c.selector [] input).map fun _ => ()

end PlainCall

/-- A range of bridged events and the root over them. -/
structure Commitment where
  startId : UInt64
  endId : UInt64
  root : Digest
  deriving DecidableEq

/-- A commitment with the validators' aggregate signature. -/
structure SignedCommitment where
  message : Commitment
  signature : Bytes
  signers : Bitmap
  deriving DecidableEq

namespace Commitment
open Payload

def values (c : Commitment) : List Abi.Value :=
  [number c.startId, number c.endId, .word (digestWord c.root)]

/-- What validators sign to commit to the range. -/
def digest (c : Commitment) : Digest := Digest.ofMessage (Abi.encode c.values)

end Commitment

namespace SignedCommitment
open Payload

def selector : Bytes := [0xc6, 0xdf, 0x46, 0x17]

def encode (c : SignedCommitment) : Bytes :=
  selector ++ Abi.encode (c.message.values ++ [.bytes c.signature, .bytes c.signers.bytes])

def decode (input : Bytes) : Except PayloadError SignedCommitment := do
  match ← arguments selector [.word 256, .word 256, .word 256, .bytes, .bytes] input with
  | [.word startId, .word endId, .word root, .bytes signature, .bytes signers] =>
    let startId ← toNumber "startId" startId
    let endId ← toNumber "endId" endId
    return { message := ⟨startId, endId, wordDigest root⟩, signature, signers := ⟨signers⟩ }
  | _ => throw .abi

end SignedCommitment

/-- The stake of an account has changed. -/
structure BalanceChanged where
  account : Address
  balance : Word
  deriving DecidableEq

namespace BalanceChanged
open Payload

/-- The first topic of the event. -/
def topic : Digest := Digest.ofMessage (Bytes.ofAscii "BalanceChanged(address,uint256)")

/-- Reads a log; a log of another event gives `none`. The account is in the last bytes of the second
topic, whatever its first bytes are. -/
def ofLog (log : Log) : Except PayloadError (Option BalanceChanged) :=
  match log.topics with
  | [] => .ok none
  | first :: rest =>
    if first ≠ topic then .ok none
    else
      match rest with
      | [account] =>
        match Abi.decode [.word 256] log.data with
        | some [.word balance] => .ok (some ⟨Address.ofRight account.bytes, balance⟩)
        | _ => .error .abi
      | _ => .error (.shape "account")

/-- The log that a contract emits for the event. -/
def toLog (e : BalanceChanged) (emitter : Address) : Log :=
  { address := emitter
    topics := [topic, wordDigest (addressWord e.account)]
    data := Abi.encode [.word e.balance] }

end BalanceChanged

end EpochSeal
