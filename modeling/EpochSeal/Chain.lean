import EpochSeal.Block
import EpochSeal.SystemState

/-!
What a node consults outside of consensus: the stored chain, the engine that executes blocks, the
history of validator sets and, on the node that proposes, a block builder. Each may fail, with a
text that says why.
-/
namespace EpochSeal

/-- The chain, the execution engine and the validator history as they are at one moment. -/
structure Chain where
  /-- The header of the highest stored block. -/
  head : Header
  header? : UInt64 → Option Header
  /-- The receipts of the block with a digest. -/
  receipts : Digest → Except String (List Receipt)
  /-- The system contracts after a block. -/
  systemState : Header → Except String SystemState
  /-- The balance of an account after a block. -/
  balance : Header → Address → Except String Word
  /-- Executes a block on top of its parent. -/
  execute : Header → Block → Except String ExecutedBlock
  /-- Stores an executed block; the outcome says whether it was stored. -/
  commit : ExecutedBlock → Except String Unit
  /-- The set in effect after a block, which seals the next one. -/
  validatorsAt : UInt64 → Except String ValidatorSet

/-- A builder of blocks, whose state changes with every step that it takes. -/
class BlockBuilder (β : Type) where
  /-- Starts a new block. -/
  reset : β → Except String Unit × β
  /-- Adds a transaction. -/
  write : Transaction → β → Except String Unit × β
  /-- Adds what users have sent. -/
  fill : β → β
  /-- Finishes the block; the header is passed through a function before its digest is taken. -/
  build : (Header → Header) → β → Except String ExecutedBlock × β

end EpochSeal
