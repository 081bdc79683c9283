import EpochSeal.Proofs.RecordForm

/-! What the digest of a transaction is taken of says everything about the transaction but the digest
that it declares, and of a state transaction also the height. The input of a transaction may be of any
length: what stands behind it is short, even though it is longer in a state transaction. -/
namespace EpochSeal

/-- Two different messages have one digest. -/
def Digest.Collide (a b : Bytes) : Prop := a ≠ b ∧ Digest.ofMessage a = Digest.ofMessage b

theorem Digest.ofMessage_eq_iff {a b : Bytes} : ofMessage a = ofMessage b ↔ a = b ∨ Collide a b := by
  constructor
  · intro h
    by_cases hsame : a = b
    · exact .inl hsame
    · exact .inr ⟨hsame, h⟩
  · rintro (rfl | hcollide)
    · rfl
    · exact hcollide.2

namespace Wire

/-- Forms say where they end, so equal bytes start with one value. -/
theorem append_inj {α : Type} [Wire α] [LawfulWire α] {a b : α} {rest rest' : Bytes}
    (ha : (encode a).length < 2 ^ 64) (hb : (encode b).length < 2 ^ 64)
    (h : encode a ++ rest = encode b ++ rest') : a = b ∧ rest = rest' := by
  have hread := (LawfulWire.reads a ha).1 rest
  rw [h, (LawfulWire.reads b hb).1 rest'] at hread
  cases hread
  exact ⟨rfl, rfl⟩

theorem encode_inj {α : Type} [Wire α] [LawfulWire α] {a b : α} (hlen : (encode a).length < 2 ^ 64)
    (h : encode a = encode b) : a = b := by
  have hwhole : encode a ++ [] = encode b ++ [] := by rw [h]
  exact (append_inj hlen (by rwa [← h]) hwhole).1

/-- A byte string says where it ends as long as little stands behind it, whatever its own length: its count
is taken modulo 2 ^ 64, and two lengths that differ by less than that have different counts. -/
theorem encode_bytes_append_inj {bytes bytes' rest rest' : Bytes} (hrest : rest.length < 2 ^ 64)
    (hrest' : rest'.length < 2 ^ 64) (h : encode bytes ++ rest = encode bytes' ++ rest') :
    bytes = bytes' ∧ rest = rest' := by
  rw [encode_bytes, encode_bytes, List.append_assoc, List.append_assoc] at h
  obtain ⟨hcount, h⟩ := List.append_inj h (by simp)
  have hmod := congrArg Bytes.ofLittleEndian hcount
  rw [Bytes.ofLittleEndian_littleEndian, Bytes.ofLittleEndian_littleEndian] at hmod
  have hlength := congrArg List.length h
  rw [List.length_append, List.length_append] at hlength
  exact List.append_inj h (by omega)

theorem encode_bytes_inj {bytes bytes' : Bytes} (h : encode bytes = encode bytes') :
    bytes = bytes' := by
  have hwhole : encode bytes ++ [] = encode bytes' ++ [] := by rw [h]
  exact (encode_bytes_append_inj (by simp) (by simp) hwhole).1

theorem length_encode_word_lt (w : Word) : (encode w).length < 2 ^ 64 := by
  have hdigits := (Word.length_digits w).2
  simp only [encode, writeText, Word.text, List.length_append, Bytes.length_littleEndian,
    List.length_cons]
  omega

theorem length_encode_recipient_lt (recipient : Option Address) :
    (encode recipient).length < 2 ^ 64 := by
  cases recipient <;> simp

theorem length_encode_kind (kind : TransactionKind) : (encode kind).length = 4 := by
  cases kind <;> exact Bytes.length_littleEndian 4 _

end Wire

namespace Transaction

/-- Two transactions differ at most in the digest that they declare. -/
structure SameContent (t u : Transaction) : Prop where
  nonce : t.nonce = u.nonce
  sender : t.sender = u.sender
  recipient : t.recipient = u.recipient
  value : t.value = u.value
  gas : t.gas = u.gas
  gasPrice : t.gasPrice = u.gasPrice
  input : t.input = u.input
  kind : t.kind = u.kind

theorem SameContent.eq {t u : Transaction} (h : t.SameContent u) : { t with digest := u.digest } = u := by
  obtain ⟨hnonce, hsender, hrecipient, hvalue, hgas, hprice, hinput, hkind⟩ := h
  cases t
  cases u
  simp_all

/-- What stands behind the body may have one length or another, but not just any. -/
theorem sameContent_of_encodeBody_append_eq {t u : Transaction} {rest rest' : Bytes}
    (hrest : rest.length ≤ 8) (hrest' : rest'.length ≤ 8)
    (h : t.encodeBody ++ rest = u.encodeBody ++ rest') : t.SameContent u ∧ rest = rest' := by
  have hnumber (n : UInt64) : (Wire.encode n).length < 2 ^ 64 := by simp
  have haddress (a : Address) : (Wire.encode a).length < 2 ^ 64 := by simp
  have hkind (kind : TransactionKind) : (Wire.encode kind).length < 2 ^ 64 := by
    rw [Wire.length_encode_kind]
    omega
  have htail {rest : Bytes} (kind : TransactionKind) (h : rest.length ≤ 8) :
      (Wire.encode kind ++ rest).length < 2 ^ 64 := by
    rw [List.length_append, Wire.length_encode_kind]
    omega
  simp only [encodeBody, List.append_assoc] at h
  obtain ⟨hnonce, h⟩ := Wire.append_inj (hnumber _) (hnumber _) h
  obtain ⟨hsender, h⟩ := Wire.append_inj (haddress _) (haddress _) h
  obtain ⟨hrecipient, h⟩ := Wire.append_inj (Wire.length_encode_recipient_lt _)
    (Wire.length_encode_recipient_lt _) h
  obtain ⟨hvalue, h⟩ := Wire.append_inj (Wire.length_encode_word_lt _) (Wire.length_encode_word_lt _) h
  obtain ⟨hgas, h⟩ := Wire.append_inj (hnumber _) (hnumber _) h
  obtain ⟨hprice, h⟩ := Wire.append_inj (Wire.length_encode_word_lt _) (Wire.length_encode_word_lt _) h
  obtain ⟨hinput, h⟩ := Wire.encode_bytes_append_inj (htail _ hrest) (htail _ hrest') h
  obtain ⟨hkinds, h⟩ := Wire.append_inj (hkind _) (hkind _) h
  exact ⟨⟨hnonce, hsender, hrecipient, hvalue, hgas, hprice, hinput, hkinds⟩, h⟩

/-- What a digest at a height covers behind the body. -/
def heightMark (kind : TransactionKind) (height : UInt64) : Bytes :=
  match kind with
  | .state => Bytes.bigEndian 8 height.toNat
  | .legacy => []

theorem digestInput_eq_append (t : Transaction) (height : UInt64) :
    t.digestInput height = t.encodeBody ++ heightMark t.kind height := by
  unfold digestInput heightMark
  cases t.kind with
  | legacy => exact (List.append_nil _).symm
  | state => rfl

theorem length_heightMark_le (kind : TransactionKind) (height : UInt64) :
    (heightMark kind height).length ≤ 8 := by
  cases kind <;> simp [heightMark]

theorem heightMark_eq_iff {kind : TransactionKind} {height height' : UInt64} :
    heightMark kind height = heightMark kind height' ↔ (kind = .state → height = height') := by
  cases kind with
  | legacy => simp [heightMark]
  | state =>
      constructor
      · intro h _
        have hnumber := congrArg Bytes.ofBigEndian h
        have hlt := height.toNat_lt
        have hlt' := height'.toNat_lt
        simp only [heightMark, Bytes.ofBigEndian_bigEndian] at hnumber
        exact UInt64.toNat_inj.1 (by omega)
      · intro h
        rw [h rfl]

theorem SameContent.encodeBody_eq {t u : Transaction} (h : t.SameContent u) : t.encodeBody = u.encodeBody := by
  rw [← h.eq]
  rfl

theorem SameContent.computeDigest_eq {t u : Transaction} (h : t.SameContent u) (height : UInt64) :
    t.computeDigest height = u.computeDigest height := by
  rw [← h.eq]
  rfl

/-- One digest input says of two transactions that they have one content and, if the protocol made them,
that they are named for one height. -/
theorem sameContent_of_digestInput_eq {t u : Transaction} {height height' : UInt64}
    (h : t.digestInput height = u.digestInput height') :
    t.SameContent u ∧ (t.kind = .state → height = height') := by
  rw [digestInput_eq_append, digestInput_eq_append] at h
  obtain ⟨hcontent, hmark⟩ := sameContent_of_encodeBody_append_eq (length_heightMark_le _ _)
    (length_heightMark_le _ _) h
  rw [← hcontent.kind] at hmark
  exact ⟨hcontent, heightMark_eq_iff.1 hmark⟩

theorem digestInput_eq_iff {t u : Transaction} {height height' : UInt64} :
    t.digestInput height = u.digestInput height' ↔
      t.SameContent u ∧ (t.kind = .state → height = height') := by
  constructor
  · exact sameContent_of_digestInput_eq
  · rintro ⟨hcontent, hheight⟩
    rw [digestInput_eq_append, digestInput_eq_append, hcontent.encodeBody_eq, ← hcontent.kind,
      heightMark_eq_iff.2 hheight]

theorem computeDigest_eq_iff {t u : Transaction} {height height' : UInt64} :
    t.computeDigest height = u.computeDigest height' ↔ t.digestInput height = u.digestInput height' ∨
      Digest.Collide (t.digestInput height) (u.digestInput height') := by
  rw [computeDigest_eq, computeDigest_eq, Digest.ofMessage_eq_iff]

/-- The digest of a transaction is taken of one content only, at one height only if the protocol made the
transaction, and what a user sends is never named like what the protocol makes. So equal digests say that
content and height are the same, unless two digest inputs collide. -/
theorem content_binding (t u : Transaction) (height height' : UInt64) :
    t.computeDigest height = Digest.ofMessage (t.digestInput height) ∧
    (t.digestInput height = u.digestInput height' ↔
      t.SameContent u ∧ (t.kind = .state → height = height')) ∧
    (t.computeDigest height = u.computeDigest height' ↔
      t.SameContent u ∧ (t.kind = .state → height = height') ∨
        Digest.Collide (t.digestInput height) (u.digestInput height')) ∧
    ¬ (t.kind = .legacy ∧ u.kind = .state ∧ t.digestInput height = u.digestInput height') := by
  refine ⟨computeDigest_eq t height, digestInput_eq_iff, ?_, ?_⟩
  · rw [computeDigest_eq_iff, digestInput_eq_iff]
  · rintro ⟨hlegacy, hstate, h⟩
    have hkind := (sameContent_of_digestInput_eq h).1.kind
    rw [hlegacy, hstate] at hkind
    cases hkind

end Transaction

end EpochSeal
