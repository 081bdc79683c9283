import EpochSeal.SystemCall
import EpochSeal.Validator
import EpochSeal.VotingPower

/-!
What consensus reads from the system contracts at a fixed header: the answers as a record, the calls
that ask for them, and the record that a way of making calls gives rise to.
-/
namespace EpochSeal

/-- Why a system contract gave no answer. -/
inductive SystemStateError where
  | call (function cause : String)
  | decode (function : String)
  | overflow (field : String)
  | zeroDenominator
  | invalidBlsKey (cause : CryptoError)
  deriving DecidableEq

namespace SystemStateError

def message : SystemStateError → String
  | .call function cause => s!"failed to call {function}: {cause}"
  | .decode function => s!"failed to decode {function} output: <abi>"
  | .overflow field => field ++ " does not fit into 64 bits"
  | .zeroDenominator => "voting power exponent has a zero denominator"
  | .invalidBlsKey cause => "failed to unmarshal BLS public key: " ++ cause.message

def code : SystemStateError → String
  | .call .. => "Call"
  | .decode _ => "Decode"
  | .overflow _ => "Overflow"
  | .zeroDenominator => "ZeroDenominator"
  | .invalidBlsKey cause => "InvalidBlsKey." ++ cause.code

instance : Failure SystemStateError where
  name e := "SystemState." ++ e.code
  message := message

end SystemStateError

/-- The answers of the system contracts. -/
structure SystemState where
  epoch : Except SystemStateError UInt64
  /-- The first bridged event that is not committed yet. -/
  nextCommittedIndex : Except SystemStateError UInt64
  exponent : Except SystemStateError Exponent
  blsKey : Address → Except SystemStateError PublicKey
  status : Address → Except SystemStateError ValidatorStatus

/-- A question to a system contract. -/
inductive ContractQuery where
  | currentEpochId
  | lastCommittedId
  | getExponent
  | getValidator (address : Address)

namespace ContractQuery

def function : ContractQuery → String
  | .currentEpochId => "currentEpochId()"
  | .lastCommittedId => "lastCommittedId()"
  | .getExponent => "getExponent()"
  | .getValidator _ => "getValidator(address)"

def target : ContractQuery → Address
  | .lastCommittedId => Contract.stateReceiver
  | _ => Contract.registry

def input : ContractQuery → Bytes
  | .currentEpochId => [0xea, 0xcd, 0xc5, 0xff]
  | .lastCommittedId => [0xad, 0x24, 0x0c, 0x2a]
  | .getExponent => [0x0d, 0xad, 0x13, 0xda]
  | .getValidator address =>
    [0x19, 0x04, 0xbb, 0x2e] ++ Abi.encode [.word (Payload.addressWord address)]

def outputs : ContractQuery → List Abi.Shape
  | .currentEpochId | .lastCommittedId => [.word 256]
  | .getExponent => [.word 256, .word 256]
  | .getValidator _ => [.bytes, .word 256, .word 8]

end ContractQuery

namespace SystemState

def toNumber (field : String) (w : Word) : Except SystemStateError UInt64 :=
  match w.toUInt64? with
  | some n => .ok n
  | none => .error (.overflow field)

/-- The answers that a way of calling contracts gives. -/
def ofCalls (call : Address → Bytes → Except String Bytes) : SystemState :=
  let ask (query : ContractQuery) : Except SystemStateError (List Abi.Value) := do
    let output ← (call query.target query.input).mapError (.call query.function)
    match Abi.decode query.outputs output with
    | some values => return values
    | none => throw (.decode query.function)
  { epoch := do
      match ← ask .currentEpochId with
      | [.word id] => toNumber "epoch" id
      | _ => throw (.decode ContractQuery.currentEpochId.function)
    nextCommittedIndex := do
      match ← ask .lastCommittedId with
      | [.word id] =>
        let last ← toNumber "next committed index" id
        if last.toNat + 1 < 2 ^ 64 then return last + 1
        throw (.overflow "next committed index")
      | _ => throw (.decode ContractQuery.lastCommittedId.function)
    exponent := do
      match ← ask .getExponent with
      | [.word numerator, .word denominator] =>
        if denominator = 0 then throw .zeroDenominator
        let numerator ← toNumber "exponent numerator" numerator
        let denominator ← toNumber "exponent denominator" denominator
        return { numerator, denominator }
      | _ => throw (.decode ContractQuery.getExponent.function)
    blsKey := fun address => do
      match ← ask (.getValidator address) with
      | [.bytes key, .word _, .word _] => (PublicKey.ofBytes key).mapError .invalidBlsKey
      | _ => throw (.decode (ContractQuery.getValidator address).function)
    status := fun address => do
      match ← ask (.getValidator address) with
      | [.bytes _, .word _, .word status] => return ValidatorStatus.ofCode status.toNat
      | _ => throw (.decode (ContractQuery.getValidator address).function) }

end SystemState

end EpochSeal
