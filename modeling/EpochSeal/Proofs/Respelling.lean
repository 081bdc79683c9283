import EpochSeal.Proofs.RecordForm

/-! Whatever was read, in which spelling ever, is read again from the form that writing gives it. This
form may be longer than the bytes that were read; but the counts in it were read themselves, so they fit
into their 64 bits without a bound on the whole. -/
namespace EpochSeal

namespace Wire

variable {α β : Type}

theorem Reads.finds {x : Reader α} {form : Bytes} {a : α} (h : Reads x form a)
    (hlen : form.length < 2 ^ 64) : Finds x form a := (h hlen).1

theorem bind_ok_iff {x : Reader α} {f : α → Reader β} {input rest : Bytes} {b : β} :
    (x >>= f) input = .ok (b, rest) ↔
      ∃ a middle, x input = .ok (a, middle) ∧ f a middle = .ok (b, rest) := by
  constructor
  · intro h
    cases hx : x input with
    | error e =>
        rw [bind_of_error hx] at h
        cases h
    | ok result => exact ⟨result.1, result.2, rfl, by rwa [bind_of_ok hx] at h⟩
  · rintro ⟨a, middle, hx, hf⟩
    rw [bind_of_ok hx, hf]

theorem pure_ok_iff {a b : α} {input rest : Bytes} :
    (Pure.pure a : Reader α) input = .ok (b, rest) ↔ a = b ∧ input = rest := by
  constructor
  · intro h
    cases h
    exact ⟨rfl, rfl⟩
  · rintro ⟨rfl, rfl⟩
    rfl

/-- A number that was read fits into the bytes that it was read from. -/
theorem lt_of_number {width n : Nat} {input rest : Bytes} (h : number width input = .ok (n, rest)) :
    n < 256 ^ width := by
  obtain ⟨bytes, middle, htake, h⟩ := bind_ok_iff.1 h
  obtain ⟨rfl, -⟩ := pure_ok_iff.1 h
  simp only [take] at htake
  split at htake
  · next hlength =>
      cases htake
      have hlt := Bytes.ofLittleEndian_lt (input.take width)
      rwa [hlength] at hlt
  · cases htake

theorem read_ok_iff [Wire α] {bytes : Bytes} {a : α} :
    read bytes = .ok a ↔ ∃ rest, (decode : Reader α) bytes = .ok (a, rest) := by
  unfold read
  split
  · next found rest hdecode => simp [hdecode]
  · next e hdecode => simp [hdecode]

theorem repeated_ok {item : Reader α} {count : Nat} {input rest : Bytes} {items : List α}
    (h : repeated item count input = .ok (items, rest)) :
    items.length = count ∧ ∀ a ∈ items, ∃ before behind, item before = .ok (a, behind) := by
  induction count generalizing input rest items with
  | zero =>
      obtain ⟨rfl, -⟩ := pure_ok_iff.1 h
      exact ⟨rfl, fun a ha => absurd ha List.not_mem_nil⟩
  | succ count ih =>
      obtain ⟨a, middle, ha, h⟩ := bind_ok_iff.1 h
      obtain ⟨others, _, hothers, h⟩ := bind_ok_iff.1 h
      obtain ⟨rfl, -⟩ := pure_ok_iff.1 h
      obtain ⟨hlength, hread⟩ := ih hothers
      refine ⟨congrArg Nat.succ hlength, ?_⟩
      intro b hb
      rcases List.mem_cons.1 hb with rfl | hb
      · exact ⟨input, middle, ha⟩
      · exact hread b hb

end Wire

/-- A value of the type that was read is read again from its own form. -/
class StableWire (α : Type) [Wire α] : Prop where
  finds : ∀ {input rest : Bytes} {a : α}, (Wire.decode : Reader α) input = .ok (a, rest) →
    Wire.Finds Wire.decode (Wire.encode a) a

namespace StableWire
open Wire

theorem of_short {α : Type} [Wire α] [LawfulWire α] (h : ∀ a : α, (Wire.encode a).length < 2 ^ 64) :
    StableWire α where
  finds := fun {_ _ a} _ => (LawfulWire.reads a).finds (h a)

instance : StableWire UInt8 := of_short fun _ => by simp [Wire.encode]
instance : StableWire UInt64 := of_short fun _ => by simp
instance : StableWire Bool := of_short fun _ => by simp [Wire.encode]
instance : StableWire Address := of_short fun _ => by simp
instance : StableWire Digest := of_short fun _ => by simp
instance : StableWire Checkpoint := of_short fun _ => by simp

instance {α : Type} [Wire α] [StableWire α] : StableWire (Option α) where
  finds h := by
    obtain ⟨tag, middle, htag, h⟩ := bind_ok_iff.1 h
    split at h
    · obtain ⟨rfl, -⟩ := pure_ok_iff.1 h
      exact ((reads_number 1 0 (by decide)).finds (by decide)).bind (.pure none)
    · obtain ⟨a, _, ha, h⟩ := bind_ok_iff.1 h
      obtain ⟨rfl, -⟩ := pure_ok_iff.1 h
      exact ((reads_number 1 1 (by decide)).finds (by decide)).bind ((finds ha).last some)
    · cases h

instance {α : Type} [Wire α] [StableWire α] : StableWire (List α) where
  finds := fun {_ _ items} h => by
    obtain ⟨count, middle, hcount, h⟩ := bind_ok_iff.1 h
    obtain ⟨rfl, hitems⟩ := repeated_ok h
    -- the count was read from eight bytes, so it is written in eight however long the items are
    have hnumber := (reads_number 8 items.length (lt_of_number hcount)).finds (by simp)
    refine hnumber.bind (Finds.repeated items ?_)
    intro a ha
    obtain ⟨_, _, hread⟩ := hitems a ha
    exact finds hread

instance : StableWire Bitmap where
  finds h := by
    obtain ⟨bytes, _, hbytes, h⟩ := bind_ok_iff.1 h
    obtain ⟨rfl, -⟩ := pure_ok_iff.1 h
    exact (finds hbytes).last Bitmap.mk

instance : StableWire PublicKey where
  finds h := by
    obtain ⟨bytes, _, hbytes, h⟩ := bind_ok_iff.1 h
    obtain ⟨rfl, -⟩ := pure_ok_iff.1 h
    exact (finds hbytes).last PublicKey.mk

instance : StableWire Validator where
  finds h := by
    obtain ⟨address, _, haddress, h⟩ := bind_ok_iff.1 h
    obtain ⟨key, _, hkey, h⟩ := bind_ok_iff.1 h
    obtain ⟨power, _, hpower, h⟩ := bind_ok_iff.1 h
    obtain ⟨active, _, hactive, h⟩ := bind_ok_iff.1 h
    obtain ⟨rfl, -⟩ := pure_ok_iff.1 h
    change Finds _ (_ ++ _ ++ _ ++ _) _
    simp only [List.append_assoc]
    exact (finds haddress).bind <| (finds hkey).bind <| (finds hpower).bind <| (finds hactive).last _

instance : StableWire SetDelta where
  finds h := by
    obtain ⟨added, _, hadded, h⟩ := bind_ok_iff.1 h
    obtain ⟨updated, _, hupdated, h⟩ := bind_ok_iff.1 h
    obtain ⟨removed, _, hremoved, h⟩ := bind_ok_iff.1 h
    obtain ⟨rfl, -⟩ := pure_ok_iff.1 h
    change Finds _ (_ ++ _ ++ _) _
    simp only [List.append_assoc]
    exact (finds hadded).bind <| (finds hupdated).bind <| (finds hremoved).last _

instance : StableWire Seal where
  finds h := by
    obtain ⟨signature, _, hsignature, h⟩ := bind_ok_iff.1 h
    obtain ⟨signers, _, hsigners, h⟩ := bind_ok_iff.1 h
    obtain ⟨rfl, -⟩ := pure_ok_iff.1 h
    exact (finds hsignature).bind <| (finds hsigners).last _

end StableWire

namespace Extension
open Wire StableWire

/-- The extension without the block's own seal. -/
def bare (e : Extension) : Extension := { e with committedSeal := Option.none }

/-- An extension that was read is read again from its form, also without the block's own seal. -/
theorem finds_bare {input rest : Bytes} {e : Extension}
    (h : (Wire.decode : Reader Extension) input = .ok (e, rest)) :
    Finds Wire.decode (Wire.encode e.bare) e.bare := by
  obtain ⟨parentSeal, _, hparent, h⟩ := bind_ok_iff.1 h
  obtain ⟨committedSeal, _, -, h⟩ := bind_ok_iff.1 h
  obtain ⟨delta, _, hdelta, h⟩ := bind_ok_iff.1 h
  obtain ⟨checkpoint, _, hcheckpoint, h⟩ := bind_ok_iff.1 h
  obtain ⟨rfl, -⟩ := pure_ok_iff.1 h
  -- the seal that was read plays no part: the absent one stands in its place
  have hnone := (LawfulWire.reads (Option.none : Option Seal)).finds (by simp)
  change Finds _ (_ ++ _ ++ _ ++ _) _
  simp only [List.append_assoc]
  exact (finds hparent).bind <| hnone.bind <| (finds hdelta).bind <| (finds hcheckpoint).last _

theorem decode_bare {extraData : Bytes} {e : Extension} (h : decode extraData = .ok e) :
    decode e.bare.encode = .ok e.bare := by
  unfold decode at h
  split at h
  · cases h
  · split at h
    · next read hread =>
        cases h
        obtain ⟨rest, hdecode⟩ := read_ok_iff.1 hread
        have hform := (finds_bare hdecode).read []
        rw [List.append_nil] at hform
        rw [encode, decode_append List.length_replicate, hform]
        rfl
    · cases h

end Extension

end EpochSeal
