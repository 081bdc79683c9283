import EpochSeal.StateCall
import EpochSeal.Proofs.Outcome
import EpochSeal.Proofs.WordText
import Mathlib.Data.List.Forall2

/-! The arguments of contract calls are read back from what was written, and with them the calls
that the protocol sends. Offsets and counts are words, so the encoding has to be shorter than a word
can say. -/
namespace EpochSeal

namespace Word

theorem toBytes_ofBytes (bytes : Bytes) (h : bytes.length ≤ 32) :
    (ofBytes bytes).toBytes = List.replicate (32 - bytes.length) 0 ++ bytes := by
  have hzeros : ∀ count, Bytes.ofBigEndian (List.replicate count 0 ++ bytes) =
      Bytes.ofBigEndian bytes := by
    intro count
    induction count with
    | zero => rfl
    | succ count ih => rw [List.replicate_succ, List.cons_append, Bytes.ofBigEndian_zero_cons, ih]
  have hlen : (List.replicate (32 - bytes.length) 0 ++ bytes).length = 32 := by
    rw [List.length_append, List.length_replicate]
    omega
  have hlt : Bytes.ofBigEndian bytes < 2 ^ 256 := by
    have hlt := Bytes.ofBigEndian_lt (List.replicate (32 - bytes.length) 0 ++ bytes)
    rw [hzeros, hlen] at hlt
    exact hlt
  have hback := Bytes.bigEndian_ofBigEndian (List.replicate (32 - bytes.length) 0 ++ bytes)
  rw [hzeros, hlen] at hback
  rw [toBytes, ofBytes, BitVec.toNat_ofNat, Nat.mod_eq_of_lt hlt, hback]

@[simp] theorem length_toBytes (w : Word) : w.toBytes.length = 32 := Bytes.length_bigEndian 32 w.toNat

@[simp] theorem toUInt64?_ofUInt64 (n : UInt64) : (ofUInt64 n).toUInt64? = some n := by
  have hlt := n.toNat_lt
  have hnat : (ofUInt64 n).toNat = n.toNat := by
    rw [ofUInt64, BitVec.toNat_ofNat]
    omega
  simp [toUInt64?, hnat, hlt]

end Word

namespace Abi

/-- A value of the given shape. Rows are never empty. -/
def Value.HasShape : Value → Shape → Prop
  | .word w, .word bits => w.toNat < 2 ^ bits
  | .bytes _, .bytes => True
  | .rows table, .rows columns => columns ≠ [] ∧ ∀ row ∈ table, fits columns row = true
  | _, _ => False

/-- The head of a value whose tail, if it has one, stands at `offset`. -/
def Value.head (offset : Nat) : Value → Word
  | .word w => w
  | _ => BitVec.ofNat 256 offset

def headWords (offset : Nat) : List Value → List Word
  | [] => []
  | value :: rest => value.head offset :: headWords (offset + value.tail.length) rest

@[simp] theorem length_headWords (offset : Nat) (values : List Value) :
    (headWords offset values).length = values.length := by
  induction values generalizing offset with
  | nil => rfl
  | cons value rest ih => rw [headWords, List.length_cons, List.length_cons, ih]

theorem toBytes_ofNat (n : Nat) (h : n < 2 ^ 256) : Word.toBytes (BitVec.ofNat 256 n) = writeNat n := by
  rw [Word.toBytes, BitVec.toNat_ofNat, Nat.mod_eq_of_lt h, writeNat]

theorem heads_eq (offset : Nat) (values : List Value)
    (h : offset + (values.flatMap Value.tail).length < 2 ^ 256) :
    heads offset values = (headWords offset values).flatMap Word.toBytes := by
  induction values generalizing offset with
  | nil => rfl
  | cons value rest ih =>
      rw [List.flatMap_cons, List.length_append] at h
      have hrest := ih (offset + value.tail.length) (by omega)
      have hoffset := toBytes_ofNat offset (by omega)
      rw [headWords, List.flatMap_cons, ← hrest]
      cases value with
      | word w => rfl
      | bytes _ | rows _ => exact congrArg (· ++ heads _ rest) hoffset.symm

@[simp] theorem length_heads (offset : Nat) (values : List Value) :
    (heads offset values).length = 32 * values.length := by
  induction values generalizing offset with
  | nil => rfl
  | cons value rest ih => cases value <;> simp [heads, writeNat, ih] <;> omega

theorem readWord_append (w : Word) (rest : Bytes) : readWord (w.toBytes ++ rest) = some (w, rest) := by
  have htake : (w.toBytes ++ rest).take 32 = w.toBytes := List.take_left' w.length_toBytes
  have hdrop : (w.toBytes ++ rest).drop 32 = rest := List.drop_left' w.length_toBytes
  simp [readWord, htake, hdrop]

theorem readWord_writeNat (n : Nat) (h : n < 2 ^ 256) (rest : Bytes) :
    readWord (writeNat n ++ rest) = some (BitVec.ofNat 256 n, rest) := by
  rw [← toBytes_ofNat n h]
  exact readWord_append _ rest

theorem readWords_append (words : List Word) (rest : Bytes) :
    readWords words.length (words.flatMap Word.toBytes ++ rest) = some (words, rest) := by
  induction words with
  | nil => rfl
  | cons w words ih =>
      rw [List.flatMap_cons, List.append_assoc, List.length_cons, readWords, readWord_append]
      simp [ih]

theorem length_of_fits {columns : List Nat} {row : List Word} (h : fits columns row = true) :
    row.length = columns.length := by
  simp only [fits, Bool.and_eq_true, decide_eq_true_eq] at h
  exact h.1.symm

theorem readRows_append (columns : List Nat) (table : List (List Word)) (rest : Bytes)
    (h : ∀ row ∈ table, fits columns row = true) :
    readRows columns table.length (table.flatMap (·.flatMap Word.toBytes) ++ rest) =
      some (table, rest) := by
  induction table with
  | nil => rfl
  | cons row table ih =>
      have hrow := h row List.mem_cons_self
      have hrest := ih fun other hother => h other (List.mem_cons_of_mem row hother)
      rw [List.flatMap_cons, List.append_assoc, List.length_cons, readRows, ← length_of_fits hrow,
        readWords_append]
      simp [hrow, hrest]

theorem length_row (row : List Word) : (row.flatMap Word.toBytes).length = 32 * row.length := by
  induction row with
  | nil => rfl
  | cons w row ih =>
      rw [List.flatMap_cons, List.length_append, Word.length_toBytes, ih, List.length_cons]
      omega

theorem length_table (columns : List Nat) (table : List (List Word))
    (h : ∀ row ∈ table, fits columns row = true) :
    (table.flatMap (·.flatMap Word.toBytes)).length = table.length * (32 * columns.length) := by
  induction table with
  | nil => simp
  | cons row table ih =>
      have hrow := length_of_fits (h row List.mem_cons_self)
      have hrest := ih fun other hother => h other (List.mem_cons_of_mem row hother)
      rw [List.flatMap_cons, List.length_append, length_row, hrow, hrest, List.length_cons,
        Nat.succ_mul table.length, Nat.add_comm]

theorem readValue_append (value : Value) (shape : Shape) (offset : Nat) (rest : Bytes)
    (hshape : value.HasShape shape) (h : offset + value.tail.length < 2 ^ 256) :
    readValue offset (value.head offset) (value.tail ++ rest) shape = some (value, rest) := by
  have hhead : (BitVec.ofNat 256 offset).toNat = offset := by
    rw [BitVec.toNat_ofNat, Nat.mod_eq_of_lt (by omega)]
  cases value with
  | word w =>
      cases shape with
      | word bits => exact if_pos hshape
      | bytes | rows _ => exact hshape.elim
  | bytes b =>
      cases shape with
      | word _ | rows _ => exact hshape.elim
      | bytes =>
          have hlen : b.length < 2 ^ 256 := by
            simp only [Value.tail, List.length_append] at h
            omega
          have hcount : (BitVec.ofNat 256 b.length).toNat = b.length := by
            rw [BitVec.toNat_ofNat, Nat.mod_eq_of_lt hlen]
          have hlong : ¬ (b ++ (List.replicate (padding b.length) 0 ++ rest)).length <
              b.length + padding b.length := by
            simp only [List.length_append, List.length_replicate]
            omega
          have hdrop : (b ++ (List.replicate (padding b.length) 0 ++ rest)).drop
              (b.length + padding b.length) = rest := by
            rw [← List.append_assoc]
            exact List.drop_left' (by rw [List.length_append, List.length_replicate])
          have hzeros : (List.replicate (padding b.length) (0 : UInt8) ++ rest).take
              (padding b.length) = List.replicate (padding b.length) 0 :=
            List.take_left' List.length_replicate
          simp only [readValue, Value.head, Value.tail, List.append_assoc, hhead, ne_eq,
            not_true_eq_false, if_false, readWord_writeNat _ hlen, Option.bind_eq_bind,
            Option.bind_some, hcount, hlong, List.drop_left, List.take_left, hzeros, hdrop]
          simp
  | rows table =>
      cases shape with
      | word _ | bytes => exact hshape.elim
      | rows columns =>
          obtain ⟨hcolumns, hrows⟩ := hshape
          have htable := length_table columns table hrows
          have hlen : table.length < 2 ^ 256 := by
            have hpos := List.length_pos_iff.2 hcolumns
            have hle := Nat.le_mul_of_pos_right table.length (show 0 < 32 * columns.length by omega)
            simp only [Value.tail, List.length_append] at h
            omega
          have hcount : (BitVec.ofNat 256 table.length).toNat = table.length := by
            rw [BitVec.toNat_ofNat, Nat.mod_eq_of_lt hlen]
          have hlong : ¬ (table.flatMap (·.flatMap Word.toBytes) ++ rest).length <
              table.length * (32 * columns.length) := by
            rw [List.length_append, htable]
            omega
          simp only [readValue, Value.head, Value.tail, List.append_assoc, hhead, ne_eq,
            not_true_eq_false, if_false, readWord_writeNat _ hlen, Option.bind_eq_bind,
            Option.bind_some, hcount, hlong, readRows_append columns table rest hrows]
          rfl

theorem readValues_append (values : List Value) (shapes : List Shape) (offset : Nat)
    (hshapes : List.Forall₂ Value.HasShape values shapes)
    (h : offset + (values.flatMap Value.tail).length < 2 ^ 256) :
    readValues offset (values.flatMap Value.tail) (shapes.zip (headWords offset values)) =
      some (values, []) := by
  -- the head of each value points behind the tails of those in front of it, so the offset moves along
  induction hshapes generalizing offset with
  | nil => rfl
  | @cons value shape values shapes hshape _ ih =>
      rw [List.flatMap_cons, List.length_append] at h
      have hvalue := readValue_append value shape offset (values.flatMap Value.tail) hshape (by omega)
      have hrest := ih (offset + value.tail.length) (by omega)
      simp only [headWords, List.zip_cons_cons, readValues, List.flatMap_cons, hvalue, hrest,
        Option.bind_eq_bind, Option.bind_some]
      rfl

theorem decode_encode (values : List Value) (shapes : List Shape)
    (hshapes : List.Forall₂ Value.HasShape values shapes)
    (h : (encode values).length < 2 ^ 256) : decode shapes (encode values) = some values := by
  have hbound : 32 * values.length + (values.flatMap Value.tail).length < 2 ^ 256 := by
    rwa [encode, List.length_append, length_heads] at h
  have hwords := readWords_append (headWords (32 * values.length) values)
    (values.flatMap Value.tail)
  have hvalues := readValues_append values shapes (32 * values.length) hshapes hbound
  rw [length_headWords] at hwords
  rw [encode, heads_eq _ _ hbound, decode, ← hshapes.length_eq, hwords]
  simp [hvalues]

end Abi

namespace Payload

@[simp] theorem toNumber_ofUInt64 (field : String) (n : UInt64) :
    toNumber field (Word.ofUInt64 n) = .ok n := by
  simp [toNumber]

@[simp] theorem wordDigest_digestWord (d : Digest) : wordDigest (digestWord d) = d := by
  have hbytes := Word.toBytes_ofBytes d.bytes (Nat.le_of_eq d.length_eq)
  rw [d.length_eq] at hbytes
  cases d
  simp only [wordDigest, digestWord, hbytes]
  rfl

@[simp] theorem wordAddress_addressWord (a : Address) : wordAddress (addressWord a) = a := by
  have hbytes := Word.toBytes_ofBytes a.bytes (by rw [a.length_eq]; omega)
  have hdrop : (List.replicate 20 0 ++ (Word.ofBytes a.bytes).toBytes).drop 32 = a.bytes := by
    rw [hbytes, ← List.append_assoc]
    exact List.drop_left' (by simp [a.length_eq])
  cases a
  simp only [wordAddress, addressWord, Address.ofRight, Word.length_toBytes, hdrop]

theorem addressWord_lt (a : Address) : (addressWord a).toNat < 2 ^ 160 := by
  have hlt := Bytes.ofBigEndian_lt a.bytes
  rw [a.length_eq] at hlt
  rw [addressWord, Word.ofBytes, BitVec.toNat_ofNat]
  exact Nat.lt_of_le_of_lt (Nat.mod_le _ _) hlt

theorem arguments_encode {selector : Bytes} (values : List Abi.Value) (shapes : List Abi.Shape)
    (hselector : selector.length = 4) (hshapes : List.Forall₂ Abi.Value.HasShape values shapes)
    (h : (selector ++ Abi.encode values).length < 2 ^ 256) :
    arguments selector shapes (selector ++ Abi.encode values) = .ok values := by
  rw [List.length_append] at h
  have hdecode := Abi.decode_encode values shapes hshapes (by omega)
  rw [arguments, List.take_left' hselector, List.drop_left' hselector, if_pos rfl, hdecode]

section pairs

variable {α : Type} (items : List α) (key : α → Address) (count : α → UInt64)

theorem hasShape_pairRows : (pairRows items key count).HasShape pairs := by
  refine ⟨by simp, ?_⟩
  simp only [List.forall_mem_map]
  intro item _
  have hkey := decide_eq_true (addressWord_lt (key item))
  have hcount := decide_eq_true (Word.ofUInt64 (count item)).isLt
  simp only [Abi.fits, List.length_cons, List.length_nil, List.zip_cons_cons, List.zip_nil_right,
    List.all_cons, List.all_nil, hkey, hcount, decide_true, Bool.and_self]

theorem length_tail_pairRows : (pairRows items key count).tail.length = 32 + 64 * items.length := by
  have htable := Abi.length_table [160, 256] _ (hasShape_pairRows items key count).2
  rw [List.length_map] at htable
  rw [pairRows, Abi.Value.tail, List.length_append, htable, Abi.writeNat, Bytes.length_bigEndian]
  simp only [List.length_cons, List.length_nil]
  omega

theorem mapM_pairOfRow (field : String) (make : Address → UInt64 → α)
    (hmake : ∀ item, make (key item) (count item) = item) :
    (items.map fun item => [addressWord (key item), Word.ofUInt64 (count item)]).mapM
      (pairOfRow field make) = .ok items := by
  induction items with
  | nil => rfl
  | cons item items ih =>
      rw [List.map_cons, List.mapM_cons, ih]
      simp [pairOfRow, Except.map, hmake, bind, Except.bind, pure, Except.pure]

end pairs

theorem tail_word (w : Word) : (Abi.Value.word w).tail = [] := rfl

theorem hasShape_word (w : Word) : (Abi.Value.word w).HasShape (.word 256) := w.isLt

theorem hasShape_bytes (b : Bytes) : (Abi.Value.bytes b).HasShape .bytes := trivial

theorem hasShape_number (n : UInt64) : (number n).HasShape (.word 256) := hasShape_word _

end Payload

open Payload

theorem EpochCommit.length_encode (c : EpochCommit) :
    c.encode.length = 228 + 64 * c.uptime.length := by
  have huptime := length_tail_pairRows c.uptime Uptime.validator Uptime.signed
  rw [EpochCommit.encode, List.length_append, Abi.encode, List.length_append, Abi.length_heads]
  simp only [List.flatMap_cons, List.flatMap_nil, number, tail_word, List.nil_append,
    List.append_nil, huptime, List.length_cons, List.length_nil, EpochCommit.selector]
  omega

theorem RewardDistribution.length_encode (d : RewardDistribution) :
    d.encode.length = 132 + 64 * d.uptime.length := by
  have huptime := length_tail_pairRows d.uptime Uptime.validator Uptime.signed
  rw [RewardDistribution.encode, List.length_append, Abi.encode, List.length_append,
    Abi.length_heads]
  simp only [List.flatMap_cons, List.flatMap_nil, number, tail_word, List.nil_append,
    List.append_nil, huptime, List.length_cons, List.length_nil, RewardDistribution.selector]
  omega

theorem EpochCommit.decode_encode (c : EpochCommit) (h : c.encode.length < 2 ^ 256) :
    EpochCommit.decode c.encode = .ok c := by
  have harguments := arguments_encode _ EpochCommit.shapes rfl
    (.cons (hasShape_number c.id) <| .cons (hasShape_number c.range.start) <|
      .cons (hasShape_number c.range.finish) <| .cons (hasShape_word (digestWord c.range.root)) <|
      .cons (hasShape_number c.epochSize) <|
      .cons (hasShape_pairRows c.uptime Uptime.validator Uptime.signed) .nil) h
  have huptime := mapM_pairOfRow c.uptime Uptime.validator Uptime.signed "uptime.signedBlocks"
    Uptime.mk fun _ => rfl
  refine Outcome.bind_ok_iff.2 ⟨_, harguments, ?_⟩
  simp [number, pairRows, huptime]

theorem RewardDistribution.decode_encode (d : RewardDistribution) (h : d.encode.length < 2 ^ 256) :
    RewardDistribution.decode d.encode = .ok d := by
  have harguments := arguments_encode _ RewardDistribution.shapes rfl
    (.cons (hasShape_number d.epochId) <|
      .cons (hasShape_pairRows d.uptime Uptime.validator Uptime.signed) <|
      .cons (hasShape_number d.epochSize) .nil) h
  have huptime := mapM_pairOfRow d.uptime Uptime.validator Uptime.signed "uptime.signedBlocks"
    Uptime.mk fun _ => rfl
  refine Outcome.bind_ok_iff.2 ⟨_, harguments, ?_⟩
  simp [number, pairRows, huptime]

theorem PowerSync.decode_encode (s : PowerSync) (h : s.encode.length < 2 ^ 256) :
    PowerSync.decode s.encode = .ok s := by
  have harguments := arguments_encode _ [pairs] rfl
    (.cons (hasShape_pairRows s.powers PowerUpdate.validator PowerUpdate.power) .nil) h
  have hpowers := mapM_pairOfRow s.powers PowerUpdate.validator PowerUpdate.power
    "validatorsPower.votingPower" PowerUpdate.mk fun _ => rfl
  refine Outcome.bind_ok_iff.2 ⟨_, harguments, ?_⟩
  simp [pairRows, hpowers]

theorem PlainCall.decode_encode (c : PlainCall) : c.decode c.encode = .ok () := by
  cases c <;> rfl

theorem SignedCommitment.decode_encode (c : SignedCommitment) (h : c.encode.length < 2 ^ 256) :
    SignedCommitment.decode c.encode = .ok c := by
  have harguments := arguments_encode _ [.word 256, .word 256, .word 256, .bytes, .bytes] rfl
    (.cons (hasShape_number c.message.startId) <| .cons (hasShape_number c.message.endId) <|
      .cons (hasShape_word (digestWord c.message.root)) <| .cons (hasShape_bytes c.signature) <|
      .cons (hasShape_bytes c.signers.bytes) .nil) h
  refine Outcome.bind_ok_iff.2 ⟨_, harguments, ?_⟩
  simp [number]

/-- What the input of a call starts with. -/
def StateCallKind.selector : StateCallKind → Bytes
  | .commitEpoch => EpochCommit.selector
  | .fundRewardWallet => PlainCall.fundRewardWallet.selector
  | .distributeRewards => RewardDistribution.selector
  | .distributeDaoIncentive => PlainCall.distributeDaoIncentive.selector
  | .syncPowers => PowerSync.selector

namespace StateCall

theorem take_encode (c : StateCall) : c.encode.take 4 = c.kind.selector := by
  cases c with
  | commitEpoch _ | distributeRewards _ | syncPowers _ => exact List.take_left' rfl
  | fundRewardWallet | distributeDaoIncentive => rfl

theorem decode_of_selector {selector arguments : Bytes} (h : selector.length = 4) :
    decode (selector ++ arguments) = decodeFor selector (selector ++ arguments) := by
  have hlong : ¬ (selector ++ arguments).length < 4 := by
    rw [List.length_append]
    omega
  rw [decode, if_neg hlong, List.take_left' h]

/-- Every call starts with the selector of its kind, and no two kinds share one. -/
theorem decode_encode (c : StateCall) (h : c.encode.length < 2 ^ 256) :
    decode c.encode = .ok c := by
  cases c with
  | commitEpoch call =>
      have hselect : decode call.encode =
          ((EpochCommit.decode call.encode).map commitEpoch).mapError .malformed :=
        decode_of_selector rfl
      rw [encode, hselect, call.decode_encode h]
      rfl
  | fundRewardWallet => rfl
  | distributeRewards call =>
      have hselect : decode call.encode =
          ((RewardDistribution.decode call.encode).map distributeRewards).mapError .malformed :=
        decode_of_selector rfl
      rw [encode, hselect, call.decode_encode h]
      rfl
  | distributeDaoIncentive => rfl
  | syncPowers call =>
      have hselect : decode call.encode =
          ((PowerSync.decode call.encode).map syncPowers).mapError .malformed :=
        decode_of_selector rfl
      rw [encode, hselect, call.decode_encode h]
      rfl

end StateCall

end EpochSeal
