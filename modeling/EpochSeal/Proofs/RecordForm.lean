import EpochSeal.Proofs.WireForm

/-! The records of a proposal are read back from their binary form: validators and the changes of
their set, seals, checkpoints, extensions, transactions, headers and whole blocks. -/
namespace EpochSeal

namespace LawfulWire

theorem length_append_pos {last : Bytes} (front : Bytes) (h : 0 < last.length) :
    0 < (front ++ last).length := by
  rw [List.length_append]
  omega

instance : LawfulWire PublicKey where
  length_pos key := length_pos key.bytes
  reads key := (reads key.bytes).last PublicKey.mk

instance : LawfulWire Validator where
  length_pos v := length_append_pos _ (length_pos v.active)
  reads v := by
    change Wire.Reads _ (_ ++ _ ++ _ ++ _) _
    simp only [List.append_assoc]
    exact (reads v.address).bind <| (reads v.blsKey).bind <| (reads v.power).bind <|
      (reads v.active).last _

instance : LawfulWire SetDelta where
  length_pos d := length_append_pos _ (length_pos d.removed)
  reads d := by
    change Wire.Reads _ (_ ++ _ ++ _) _
    simp only [List.append_assoc]
    exact (reads d.added).bind <| (reads d.updated).bind <| (reads d.removed).last _

instance : LawfulWire Seal where
  length_pos s := length_append_pos _ (length_pos s.signers)
  reads s := (reads s.signature).bind <| (reads s.signers).last _

instance : LawfulWire Checkpoint where
  length_pos c := length_append_pos _ (length_pos c.eventRoot)
  reads c := by
    change Wire.Reads _ (_ ++ _ ++ _ ++ _ ++ _) _
    simp only [List.append_assoc]
    exact (reads c.round).bind <| (reads c.epoch).bind <| (reads c.currentSet).bind <|
      (reads c.nextSet).bind <| (reads c.eventRoot).last _

instance : LawfulWire Extension where
  length_pos e := length_append_pos _ (length_pos e.checkpoint)
  reads e := by
    change Wire.Reads _ (_ ++ _ ++ _ ++ _) _
    simp only [List.append_assoc]
    exact (reads e.parentSeal).bind <| (reads e.committedSeal).bind <| (reads e.delta).bind <|
      (reads e.checkpoint).last _

instance : LawfulWire TransactionKind where
  length_pos kind := by cases kind <;> simp [Wire.encode]
  reads kind := by
    cases kind with
    | legacy => exact (Wire.reads_number 4 0 (by decide)).bind (Wire.Reads.pure TransactionKind.legacy)
    | state => exact (Wire.reads_number 4 1 (by decide)).bind (Wire.Reads.pure TransactionKind.state)

instance : LawfulWire Transaction where
  length_pos t := length_append_pos _ (length_pos t.digest)
  reads t := by
    change Wire.Reads _ (_ ++ _ ++ _ ++ _ ++ _ ++ _ ++ _ ++ _ ++ _) _
    simp only [List.append_assoc]
    exact (reads t.nonce).bind <| (reads t.sender).bind <| (reads t.recipient).bind <|
      (reads t.value).bind <| (reads t.gas).bind <| (reads t.gasPrice).bind <|
      (reads t.input).bind <| (reads t.kind).bind <| (reads t.digest).last _

instance : LawfulWire Header where
  length_pos h := length_append_pos _ (length_pos h.digest)
  reads h := by
    change Wire.Reads _ (_ ++ _ ++ _ ++ _ ++ _ ++ _ ++ _ ++ _ ++ _ ++ _ ++ _ ++ _ ++ _ ++ _) _
    simp only [List.append_assoc]
    exact (reads h.parentDigest).bind <| (reads h.miner).bind <| (reads h.stateRoot).bind <|
      (reads h.transactionRoot).bind <| (reads h.receiptRoot).bind <| (reads h.difficulty).bind <|
      (reads h.number).bind <| (reads h.gasLimit).bind <| (reads h.gasUsed).bind <|
      (reads h.timestamp).bind <| (reads h.extraData).bind <| (reads h.mixDigest).bind <|
      (reads h.nonce).bind <| (reads h.digest).last _

instance : LawfulWire Block where
  length_pos b := length_append_pos _ (length_pos b.transactions)
  reads b := (reads b.header).bind <| (reads b.transactions).last _

end LawfulWire

namespace Wire

@[simp]
theorem length_encode_nil {α : Type} [Wire α] : (encode ([] : List α)).length = 8 := by
  rfl

@[simp]
theorem length_encode_cons {α : Type} [Wire α] (a : α) (items : List α) :
    (encode (a :: items)).length = (encode a).length + (encode items).length := by
  change (Bytes.littleEndian 8 (items.length + 1) ++ (encode a ++ items.flatMap encode)).length =
    (encode a).length + (Bytes.littleEndian 8 items.length ++ items.flatMap encode).length
  simp only [List.length_append, Bytes.length_littleEndian]
  omega

theorem length_encode_le_of_mem {α : Type} [Wire α] {a : α} {items : List α} (h : a ∈ items) :
    (encode a).length ≤ (encode items).length := by
  have hflat : (encode a).length ≤ (items.flatMap encode).length :=
    (List.sublist_flatten_of_mem (List.mem_map_of_mem h)).length_le
  change _ ≤ (Bytes.littleEndian 8 items.length ++ items.flatMap encode).length
  rw [List.length_append]
  omega

theorem Finds.read {α : Type} [Wire α] {form : Bytes} {a : α} (h : Finds decode form a) (rest : Bytes) :
    Wire.read (form ++ rest) = .ok a := by
  rw [Wire.read, h rest]

theorem read_encode {α : Type} [Wire α] [LawfulWire α] (a : α)
    (hlen : (encode a).length < 2 ^ 64) : read (encode a) = .ok a := by
  have hread := Finds.read (LawfulWire.reads a hlen).1 []
  rwa [List.append_nil] at hread

/-- A form that is cut off behind is no form at all. -/
theorem read_cut {α : Type} [Wire α] [LawfulWire α] (a : α) {front back : Bytes}
    (hlen : (encode a).length < 2 ^ 64) (hback : back ≠ []) (h : encode a = front ++ back) :
    ∃ e, (read front : Except WireError α) = .error e := by
  obtain ⟨e, he⟩ := (LawfulWire.reads a hlen).2 front back hback h
  exact ⟨e, by rw [read, he]⟩

end Wire

theorem Transaction.length_input_le (t : Transaction) : t.input.length ≤ (Wire.encode t).length := by
  have hinput := LawfulWire.length_le_flatMap t.input
  simp only [Wire.encode, Transaction.encodeBody, List.length_append] at hinput ⊢
  omega

theorem Block.length_encode (b : Block) :
    b.encode.length = (Wire.encode b.header).length + (Wire.encode b.transactions).length :=
  List.length_append

theorem Block.length_encode_le (h : Header) (ts : List Transaction) :
    (Block.mk h []).encode.length ≤ (Block.mk h ts).encode.length := by
  have hlist : (Wire.encode ([] : List Transaction)).length ≤ (Wire.encode ts).length := by
    simp [Wire.encode]
  rw [length_encode, length_encode]
  exact Nat.add_le_add_left hlist _

theorem Block.length_input_le {b : Block} {t : Transaction} (h : t ∈ b.transactions) :
    t.input.length ≤ b.encode.length := by
  have hinput := t.length_input_le
  have hmem := Wire.length_encode_le_of_mem h
  rw [Block.length_encode]
  omega

@[simp] theorem Header.length_encode (h : Header) :
    (Wire.encode h).length = 550 + h.extraData.length := by
  have hlength : (Wire.encode h).length = h.encodeFront.length + (Wire.encode h.extraData).length +
      (Wire.encode h.mixDigest).length + (Wire.encode h.nonce).length +
      (Wire.encode h.digest).length := by
    simp only [← List.length_append]
    rfl
  rw [hlength]
  simp [Header.encodeFront]
  omega

theorem Block.decode_encode (b : Block) (hlen : b.encode.length < 2 ^ 64) :
    Block.decode b.encode = .ok b := Wire.read_encode b hlen

@[simp] theorem Checkpoint.length_encode (c : Checkpoint) : (Wire.encode c).length = 238 := by
  have hlength : (Wire.encode c).length = (Wire.encode c.round).length +
      (Wire.encode c.epoch).length + (Wire.encode c.currentSet).length +
      (Wire.encode c.nextSet).length + (Wire.encode c.eventRoot).length := by
    simp only [← List.length_append]
    rfl
  simp [hlength]

@[simp] theorem Seal.length_encode (s : Seal) :
    (Wire.encode s).length = 16 + s.signature.length + s.signers.bytes.length := by
  have hlength : (Wire.encode s).length =
      (Wire.encode s.signature).length + (Wire.encode s.signers.bytes).length := by
    rw [← List.length_append]
    rfl
  rw [hlength, Wire.length_encode_bytes, Wire.length_encode_bytes]
  omega

@[simp] theorem Validator.length_encode (v : Validator) :
    (Wire.encode v).length = 59 + (Wire.encode v.blsKey).length := by
  have hlength : (Wire.encode v).length = (Wire.encode v.address).length +
      (Wire.encode v.blsKey).length + (Wire.encode v.power).length + (Wire.encode v.active).length := by
    simp only [← List.length_append]
    rfl
  have hactive : (Wire.encode v.active).length = 1 := rfl
  rw [hlength, Wire.length_encode_address, Wire.length_encode_uint64, hactive]
  omega

@[simp] theorem SetDelta.length_encode (d : SetDelta) :
    (Wire.encode d).length = (Wire.encode d.added).length + (Wire.encode d.updated).length + 8 +
      d.removed.bytes.length := by
  have hlength : (Wire.encode d).length = (Wire.encode d.added).length +
      (Wire.encode d.updated).length + (Wire.encode d.removed.bytes).length := by
    simp only [← List.length_append]
    rfl
  rw [hlength, Wire.length_encode_bytes]
  omega

namespace Extension

theorem length_encode (e : Extension) :
    e.encode.length = vanityLength + ((Wire.encode e.parentSeal).length +
      (Wire.encode e.committedSeal).length + (Wire.encode e.delta).length +
      (Wire.encode e.checkpoint).length) := by
  rw [encode, List.length_append, List.length_replicate]
  simp only [← List.length_append]
  rfl

theorem length_encode_checkpoint (c : Checkpoint) :
    (Extension.encode ⟨Option.none, Option.none, Option.none, some c⟩).length = 274 := by
  simp [length_encode, vanityLength]

/-- Behind the bytes that stand for nothing an extension is a record like the others. -/
theorem decode_append {vanity record : Bytes} (h : vanity.length = vanityLength) :
    decode (vanity ++ record) = (Wire.read record).mapError .decode := by
  have hlong : ¬ (vanity ++ record).length < vanityLength := by
    rw [List.length_append]
    omega
  rw [decode, if_neg hlong, List.drop_left' h]
  cases (Wire.read record : Except WireError Extension) <;> rfl

theorem decode_encode (e : Extension) (hlen : e.encode.length < 2 ^ 64) :
    decode e.encode = .ok e := by
  have hlength : e.encode.length = vanityLength + (Wire.encode e).length := by
    rw [encode, List.length_append, List.length_replicate]
  rw [encode, decode_append List.length_replicate, Wire.read_encode e (by omega)]
  rfl

end Extension

end EpochSeal
