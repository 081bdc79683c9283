import EpochSeal.Proofs.HonestProposal
import EpochSeal.Proofs.StakeRecord

/-! Blocks, extensions and the snapshot of the stakes are recovered from the bytes that they are
written in. Anything may stand behind these bytes, but none of them can be missing. -/
namespace EpochSeal

/-- A value is read from its form whatever stands behind it, and nothing is read from a form that is
cut off. -/
structure Recovers {α ε : Type} (read : Bytes → Except ε α) (form : Bytes) (a : α) : Prop where
  followed : ∀ rest, read (form ++ rest) = .ok a
  cut : ∀ front, front <+: form → front ≠ form → ∃ cause, read front = .error cause

theorem Wire.recovers {α : Type} [Wire α] [LawfulWire α] {a : α} (hlen : (encode a).length < 2 ^ 64) :
    Recovers read (encode a) a := by
  constructor
  · exact Finds.read (LawfulWire.reads a hlen).1
  · rintro front ⟨back, h⟩ hne
    have hback : back ≠ [] := by
      rintro rfl
      rw [List.append_nil] at h
      exact hne h
    exact read_cut a hlen hback h.symm

namespace Extension

theorem decode_of_short {bytes : Bytes} (h : bytes.length < vanityLength) :
    decode bytes = .error (.tooShort bytes.length) := if_pos h

theorem recovers {e : Extension} (hlen : e.encode.length < 2 ^ 64) : Recovers decode e.encode e := by
  have hvanity : (List.replicate vanityLength (0 : UInt8)).length = vanityLength := List.length_replicate
  have hrecord : Recovers Wire.read (Wire.encode e) e := by
    rw [encode, List.length_append] at hlen
    exact Wire.recovers (by omega)
  constructor
  · intro rest
    rw [encode, List.append_assoc, decode_append hvanity, hrecord.followed]
    rfl
  · intro front hfront hne
    by_cases hshort : front.length < vanityLength
    · exact ⟨_, decode_of_short hshort⟩
    · -- the cut is behind the first 32 bytes, so it goes through the record
      obtain ⟨record, rfl⟩ : List.replicate vanityLength 0 <+: front :=
        List.prefix_of_prefix_length_le (List.prefix_append _ _) hfront (by rw [hvanity]; omega)
      have hcut : record <+: Wire.encode e := (List.prefix_append_right_inj _).1 hfront
      have hpart : record ≠ Wire.encode e := by
        rintro rfl
        exact hne rfl
      obtain ⟨cause, hcause⟩ := hrecord.cut record hcut hpart
      refine ⟨.decode cause, ?_⟩
      rw [decode_append hvanity, hcause]
      rfl

end Extension

namespace Store

def readRecord (record : Bytes) : Except StoreError (Option Snapshot) := (Store.mk (some record)).snapshot

theorem readRecord_eq (record : Bytes) :
    readRecord record = ((Wire.read record).map some).mapError .codec := by
  unfold readRecord snapshot
  dsimp only
  cases (Wire.read record : Except WireError Snapshot) <;> rfl

theorem recovers {s : Snapshot} (hlen : (Wire.encode s).length < 2 ^ 64) :
    Recovers readRecord (Wire.encode s) (some s) := by
  have hrecord := Wire.recovers hlen
  constructor
  · intro rest
    rw [readRecord_eq, hrecord.followed]
    rfl
  · intro front hfront hne
    obtain ⟨cause, hcause⟩ := hrecord.cut front hfront hne
    refine ⟨.codec cause, ?_⟩
    rw [readRecord_eq, hcause]
    rfl

end Store

/-- Whatever is sent as a block, put into a header or stored of the stakes is read back as it was, also
with other bytes behind it, and is refused if bytes of it are missing. No memory holds a form of 2 ^ 64
bytes. -/
theorem forms_recovered :
    (∀ b : Block, b.encode.length < 2 ^ 64 → Recovers Block.decode b.encode b) ∧
    (∀ e : Extension, e.encode.length < 2 ^ 64 → Recovers Extension.decode e.encode e ∧
      ∀ front, front <+: e.encode → front.length < 32 →
        Extension.decode front = .error (.tooShort front.length)) ∧
    ∀ s : Snapshot, ∃ record, (Store.put s).record = some record ∧
      (record.length < 2 ^ 64 → Recovers Store.readRecord record (some s)) := by
  refine ⟨fun b hlen => Wire.recovers hlen, ?_, ?_⟩
  · intro e hlen
    refine ⟨Extension.recovers hlen, ?_⟩
    intro front _ hshort
    exact Extension.decode_of_short hshort
  · intro s
    exact ⟨_, rfl, Store.recovers⟩

section first
open Round

/-- A validator with a key that no one has checked. -/
def uncheckedValidator : Validator := ⟨Address.zero, some ⟨[1, 2, 3]⟩, 5, true⟩

/-- Its bitmaps end in bytes that select nothing. -/
def paddedExtension : Extension :=
  ⟨none, some ⟨[7], ⟨[4, 0]⟩⟩, some ⟨[uncheckedValidator], [], ⟨[0]⟩⟩, none⟩

def uncheckedSnapshot : Snapshot :=
  ⟨7, 1, 5, StakeTable.empty.insert Address.zero uncheckedValidator⟩

/-- A block in front of another byte and without its last one, an extension cut within its first 32 bytes
and a record that has a byte left over behind it. -/
theorem forms_recovered_first :
    Block.decode (firstBlock.encode ++ [9]) = .ok firstBlock ∧
    (∃ cause, Block.decode firstBlock.encode.dropLast = .error cause) ∧
    Extension.decode (paddedExtension.encode ++ [9]) = .ok paddedExtension ∧
    Extension.decode (paddedExtension.encode.take 31) = .error (.tooShort 31) ∧
    (Store.mk (some (Wire.encode uncheckedSnapshot ++ [9]))).snapshot = .ok (some uncheckedSnapshot) := by
  obtain ⟨hblocks, hextensions, hsnapshots⟩ := forms_recovered
  have hblock := hblocks firstBlock length_firstBlock_lt
  obtain ⟨hextension, hshort⟩ := hextensions paddedExtension (by decide +kernel)
  obtain ⟨record, hrecord, hsnapshot⟩ := hsnapshots uncheckedSnapshot
  cases hrecord
  refine ⟨hblock.followed [9], ?_, hextension.followed [9], ?_,
    (hsnapshot (by decide +kernel)).followed [9]⟩
  · refine hblock.cut _ (List.dropLast_prefix _) ?_
    intro hsame
    have hlength := congrArg List.length hsame
    rw [List.length_dropLast, Block.length_encode, Header.length_encode] at hlength
    omega
  · exact hshort _ (List.take_prefix 31 _) (by decide)

end first

end EpochSeal
