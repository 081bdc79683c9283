import EpochSeal.Word

/-! Reading the text of a word gives the word back, although leading zeros are dropped from it. -/
namespace EpochSeal

namespace Bytes

theorem ofLittleEndian_append (low high : Bytes) :
    ofLittleEndian (low ++ high) = ofLittleEndian low + 256 ^ low.length * ofLittleEndian high := by
  induction low with
  | nil => simp [ofLittleEndian]
  | cons b low ih =>
      simp only [List.cons_append, ofLittleEndian, ih, List.length_cons, Nat.pow_succ']
      rw [Nat.mul_add, Nat.mul_assoc, Nat.add_assoc]

theorem ofBigEndian_zero_cons (bytes : Bytes) : ofBigEndian (0 :: bytes) = ofBigEndian bytes := by
  simp [ofBigEndian, ofLittleEndian_append, ofLittleEndian]

end Bytes

namespace Hex

theorem digit_eq_zero_iff (n : UInt8) (h : n < 16) : digit n = 48 ↔ n = 0 := by
  have all : ∀ n : Fin 256, UInt8.ofFin n < 16 → (digit (UInt8.ofFin n) = 48 ↔ UInt8.ofFin n = 0) := by
    decide +kernel
  exact all n.toFin h

end Hex

namespace Word

@[simp] theorem ofBytes_toBytes (w : Word) : ofBytes w.toBytes = w := by
  have hlt : w.toNat < 256 ^ 32 := w.isLt
  rw [ofBytes, toBytes, Bytes.ofBigEndian_bigEndian, Nat.mod_eq_of_lt hlt, BitVec.ofNat_toNat,
    BitVec.setWidth_eq]

/-- Two digits fill the buffer, whatever it held. -/
theorem buffer_two_digits (buffer high low : UInt8) :
    (buffer <<< 4 ||| high) <<< 4 ||| low = high <<< 4 ||| low := by
  have hover : buffer <<< 4 <<< 4 = 0 := by
    have all : ∀ n : Fin 256, UInt8.ofFin n <<< 4 <<< 4 = 0 := by decide +kernel
    exact all buffer.toFin
  rw [UInt8.shiftLeft_or, hover]
  simp

theorem readDigits_encode (index : Nat) (buffer : UInt8) (bytes : Bytes) :
    readDigits index false buffer (Hex.encode bytes) = .ok bytes := by
  induction bytes generalizing index buffer with
  | nil => rfl
  | cons b rest ih =>
      obtain ⟨hhigh, hlow, hb⟩ := Hex.nibbles b
      simp only [Hex.encode, readDigits, Hex.value?_digit _ hhigh, Hex.value?_digit _ hlow, ih,
        buffer_two_digits, hb, Bool.false_eq_true, if_false, if_true]

/-- The digits of a byte string less the zeros in front. -/
def significant (bytes : Bytes) : Bytes := (Hex.encode bytes).dropWhile (· = 48)

theorem length_significant_le (bytes : Bytes) : (significant bytes).length ≤ 2 * bytes.length := by
  rw [← Hex.length_encode]
  exact (List.dropWhile_sublist _).length_le

/-- The digits that remain stand for the same number. An odd count of them starts with the low half
of a byte whose high half was dropped. -/
theorem readDigits_significant (index : Nat) (bytes : Bytes) :
    ∃ found, readDigits index ((significant bytes).length % 2 = 1) 0 (significant bytes) = .ok found ∧
      Bytes.ofBigEndian found = Bytes.ofBigEndian bytes := by
  induction bytes with
  | nil => exact ⟨[], rfl, rfl⟩
  | cons b rest ih =>
      obtain ⟨hhigh, hlow, hb⟩ := Hex.nibbles b
      by_cases hhigh0 : b >>> 4 = 0
      · by_cases hlow0 : b &&& 15 = 0
        · have hb0 : b = 0 := by rw [← hb, hhigh0, hlow0]; rfl
          have hdrop : significant (b :: rest) = significant rest := by
            simp [significant, Hex.encode, hhigh0, hlow0, Hex.digit]
          rw [hdrop, hb0, Bytes.ofBigEndian_zero_cons]
          exact ih
        · have hdrop : significant (b :: rest) = Hex.digit (b &&& 15) :: Hex.encode rest := by
            have hne : Hex.digit (b &&& 15) ≠ 48 := mt (Hex.digit_eq_zero_iff _ hlow).1 hlow0
            simp [significant, Hex.encode, hhigh0, Hex.digit_eq_zero_iff, hne]
          have hodd : (Hex.digit (b &&& 15) :: Hex.encode rest).length % 2 = 1 := by
            simp only [List.length_cons, Hex.length_encode]
            omega
          have hbyte : (0 : UInt8) <<< 4 ||| (b &&& 15) = b := by
            rw [hhigh0] at hb
            exact hb
          refine ⟨b :: rest, ?_, rfl⟩
          simp only [hdrop, hodd, decide_true, readDigits, Hex.value?_digit _ hlow, if_true, hbyte,
            readDigits_encode]
      · have hdrop : significant (b :: rest) = Hex.encode (b :: rest) := by
          have hne : Hex.digit (b >>> 4) ≠ 48 := mt (Hex.digit_eq_zero_iff _ hhigh).1 hhigh0
          simp [significant, Hex.encode, hne]
        have heven : ¬ (Hex.encode (b :: rest)).length % 2 = 1 := by
          rw [Hex.length_encode]
          omega
        refine ⟨b :: rest, ?_, rfl⟩
        simp only [hdrop, heven, decide_false, readDigits_encode]

theorem digits_eq (w : Word) :
    w.digits = if significant w.toBytes = [] then [48] else significant w.toBytes := by
  unfold digits significant
  split
  · next h => rw [h, if_pos rfl]
  · next h => rw [if_neg h]

theorem length_digits (w : Word) : 0 < w.digits.length ∧ w.digits.length ≤ 64 := by
  rw [digits_eq]
  split
  · simp
  · next h =>
      have hle := length_significant_le w.toBytes
      simp only [toBytes, Bytes.length_bigEndian] at hle ⊢
      exact ⟨List.length_pos_iff.2 h, hle⟩

theorem readDigits_digits (index : Nat) (w : Word) :
    ∃ found, readDigits index (w.digits.length % 2 = 1) 0 w.digits = .ok found ∧ ofBytes found = w := by
  obtain ⟨found, hread, hvalue⟩ := readDigits_significant index w.toBytes
  have hw : ofBytes found = w := by
    rw [ofBytes, hvalue]
    exact ofBytes_toBytes w
  rw [digits_eq]
  split
  · next h =>
      rw [h] at hread
      cases hread
      exact ⟨[0], rfl, hw⟩
  · exact ⟨found, hread, hw⟩

@[simp] theorem parse_text (w : Word) : parse w.text = .ok w := by
  obtain ⟨found, hread, hw⟩ := readDigits_digits 2 w
  simp only [parse, text, length_digits w, and_self, if_true, hread, hw]

end Word

end EpochSeal
