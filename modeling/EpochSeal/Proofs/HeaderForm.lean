import EpochSeal.Proofs.TransactionForm

/-! What the digest of a header is taken of says everything about the header but the digest that it
declares and the block's own seal. -/
namespace EpochSeal

/-- The digest covers the extension without the block's own seal, whichever it is. -/
theorem Extension.stripSeal_encode (e : Extension) (hlen : e.encode.length < 2 ^ 64) :
    stripSeal e.encode = { e with committedSeal := Option.none }.encode := by
  rw [stripSeal, decode_encode e hlen]
  obtain ⟨parentSeal, committedSeal, delta, checkpoint⟩ := e
  cases committedSeal with
  | none => rfl
  | some _ => rfl

/-- What is covered of an extension that can be read has the form that writing gives it, unless the
bytes hold no seal of the block's own and are covered as they are. -/
theorem Extension.stripSeal_eq_iff {extraData : Bytes} {e : Extension}
    (h : decode extraData = .ok e) :
    stripSeal extraData = { e with committedSeal := Option.none }.encode ↔
      e.committedSeal.isSome ∨ extraData = e.encode := by
  rw [stripSeal, h]
  obtain ⟨parentSeal, committedSeal, delta, checkpoint⟩ := e
  cases committedSeal with
  | none => simp
  | some _ => simp

namespace Header

/-- The fields before the extension have forms of known length. -/
theorem eq_of_encodeFront_append_eq {h h' : Header} {rest rest' : Bytes}
    (heq : h.encodeFront ++ rest = h'.encodeFront ++ rest') :
    { h with
      extraData := h'.extraData, mixDigest := h'.mixDigest, nonce := h'.nonce, digest := h'.digest } = h' ∧
      rest = rest' := by
  have hnumber (n : UInt64) : (Wire.encode n).length < 2 ^ 64 := by simp
  have hdigest (d : Digest) : (Wire.encode d).length < 2 ^ 64 := by simp
  have haddress (a : Address) : (Wire.encode a).length < 2 ^ 64 := by simp
  simp only [encodeFront, List.append_assoc] at heq
  obtain ⟨hparent, heq⟩ := Wire.append_inj (hdigest _) (hdigest _) heq
  obtain ⟨hminer, heq⟩ := Wire.append_inj (haddress _) (haddress _) heq
  obtain ⟨hstate, heq⟩ := Wire.append_inj (hdigest _) (hdigest _) heq
  obtain ⟨htransactions, heq⟩ := Wire.append_inj (hdigest _) (hdigest _) heq
  obtain ⟨hreceipts, heq⟩ := Wire.append_inj (hdigest _) (hdigest _) heq
  obtain ⟨hdifficulty, heq⟩ := Wire.append_inj (hnumber _) (hnumber _) heq
  obtain ⟨hheight, heq⟩ := Wire.append_inj (hnumber _) (hnumber _) heq
  obtain ⟨hlimit, heq⟩ := Wire.append_inj (hnumber _) (hnumber _) heq
  obtain ⟨hused, heq⟩ := Wire.append_inj (hnumber _) (hnumber _) heq
  obtain ⟨htime, hrest⟩ := Wire.append_inj (hnumber _) (hnumber _) heq
  cases h
  cases h'
  simp_all

/-- Headers with one digest input differ at most in the declared digest and in what is not covered of
the extension. The extension may be of any length, because what stands behind it is not. -/
theorem eq_of_digestInput_eq {h h' : Header} (heq : h.digestInput = h'.digestInput) :
    { h with extraData := h'.extraData, digest := h'.digest } = h' ∧
      Extension.stripSeal h.extraData = Extension.stripSeal h'.extraData := by
  have hmixes : (Wire.encode h.mixDigest).length = (Wire.encode h'.mixDigest).length := by simp
  have hnonces : (Wire.encode h.nonce).length = (Wire.encode h'.nonce).length := by simp
  obtain ⟨heq, hnonce⟩ := List.append_inj' heq hnonces
  obtain ⟨heq, hmix⟩ := List.append_inj' heq hmixes
  obtain ⟨hfront, hextension⟩ := eq_of_encodeFront_append_eq heq
  have hnonce : h.nonce = h'.nonce := Wire.encode_inj (by simp) hnonce
  have hmix : h.mixDigest = h'.mixDigest := Wire.encode_inj (by simp) hmix
  refine ⟨?_, Wire.encode_bytes_inj hextension⟩
  rw [← hfront]
  cases h
  cases h'
  simp_all

theorem computeDigest_eq_iff {h h' : Header} : h.computeDigest = h'.computeDigest ↔
    h.digestInput = h'.digestInput ∨ Digest.Collide h.digestInput h'.digestInput := by
  rw [computeDigest_eq, computeDigest_eq, Digest.ofMessage_eq_iff]

/-- Other extra data leave the digest input as it is if they are the same without the own seal. -/
theorem digestInput_eq_iff (h : Header) (extraData : Bytes) :
    h.digestInput = { h with extraData }.digestInput ↔
      Extension.stripSeal h.extraData = Extension.stripSeal extraData := by
  constructor
  · intro heq
    exact (eq_of_digestInput_eq heq).2
  · intro heq
    simp only [digestInput, encodeFront, heq]

end Header

end EpochSeal
