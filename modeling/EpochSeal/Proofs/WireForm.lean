import EpochSeal.Block
import EpochSeal.Proofs.WordText

/-! Records are read back from their binary form, whatever stands behind it, and from nothing
shorter. Lists and texts are counted in 64 bits, so a form has to have fewer bytes than such a count
can say; no memory holds more. -/
namespace EpochSeal.Wire

variable {α β : Type}

theorem bind_of_ok {x : Reader α} {f : α → Reader β} {input rest : Bytes} {a : α}
    (h : x input = .ok (a, rest)) : (x >>= f) input = f a rest := by
  change StateT.bind x f input = _
  unfold StateT.bind
  rw [h]
  rfl

theorem bind_of_error {x : Reader α} {f : α → Reader β} {input : Bytes} {e : WireError}
    (h : x input = .error e) : (x >>= f) input = .error e := by
  change StateT.bind x f input = _
  unfold StateT.bind
  rw [h]
  rfl

/-- A reader finds a value in some bytes and leaves alone what follows them. -/
def Finds (x : Reader α) (form : Bytes) (a : α) : Prop := ∀ rest, x (form ++ rest) = .ok (a, rest)

namespace Finds

theorem pure (a : α) : Finds (Pure.pure a) [] a := fun _ => rfl

theorem bind {x : Reader α} {f : α → Reader β} {first second : Bytes} {a : α} {b : β}
    (hx : Finds x first a) (hf : Finds (f a) second b) : Finds (x >>= f) (first ++ second) b := by
  intro rest
  rw [List.append_assoc, bind_of_ok (hx (second ++ rest)), hf]

theorem last {x : Reader α} {form : Bytes} {a : α} (f : α → β) (h : Finds x form a) :
    Finds (x >>= fun a => Pure.pure (f a)) form (f a) := by
  have hbind := Finds.bind (f := fun a => Pure.pure (f a)) h (Finds.pure (f a))
  rwa [List.append_nil] at hbind

theorem repeated {item : Reader α} {form : α → Bytes} (items : List α)
    (h : ∀ a ∈ items, Finds item (form a) a) :
    Finds (Wire.repeated item items.length) (items.flatMap form) items := by
  induction items with
  | nil => exact Finds.pure []
  | cons a items ih =>
      have hrest := ih fun b hb => h b (List.mem_cons_of_mem a hb)
      exact (h a List.mem_cons_self).bind (hrest.last (a :: ·))

end Finds

/-- A reader finds a value in some bytes, leaves alone what follows them, and fails on any part of
them that is cut off behind. -/
def Reads (x : Reader α) (bytes : Bytes) (a : α) : Prop :=
  bytes.length < 2 ^ 64 → (∀ rest, x (bytes ++ rest) = .ok (a, rest)) ∧
    ∀ front back, back ≠ [] → bytes = front ++ back → ∃ e, x front = .error e

namespace Reads

theorem pure (a : α) : Reads (Pure.pure a) [] a := by
  refine fun _ => ⟨fun rest => rfl, ?_⟩
  intro front back hback h
  exact absurd (List.append_eq_nil_iff.1 h.symm).2 hback

theorem bind {x : Reader α} {f : α → Reader β} {first second : Bytes} {a : α} {b : β}
    (hx : Reads x first a) (hf : Reads (f a) second b) : Reads (x >>= f) (first ++ second) b := by
  intro hlen
  rw [List.length_append] at hlen
  obtain ⟨hxwhole, hxcut⟩ := hx (by omega)
  obtain ⟨hfwhole, hfcut⟩ := hf (by omega)
  refine ⟨Finds.bind hxwhole hfwhole, fun front back hback h => ?_⟩
  rcases List.append_eq_append_iff.1 h with ⟨middle, hfront, hsecond⟩ | ⟨middle, hfirst, hback'⟩
  · -- the first form is whole and the second one is cut
    obtain ⟨e, he⟩ := hfcut middle back hback hsecond
    exact ⟨e, by rw [hfront, bind_of_ok (hxwhole middle), he]⟩
  · by_cases hmiddle : middle = []
    · obtain ⟨e, he⟩ := hfcut [] second (by simpa [hback', hmiddle] using hback) rfl
      have hfront : first = front := by simpa [hmiddle] using hfirst
      refine ⟨e, ?_⟩
      rw [← hfront, ← List.append_nil first, bind_of_ok (hxwhole []), he]
    · obtain ⟨e, he⟩ := hxcut front middle hmiddle hfirst
      exact ⟨e, bind_of_error he⟩

theorem last {x : Reader α} {bytes : Bytes} {a : α} (f : α → β) (h : Reads x bytes a) :
    Reads (x >>= fun a => Pure.pure (f a)) bytes (f a) := by
  have hbind := Reads.bind (f := fun a => Pure.pure (f a)) h (Reads.pure (f a))
  rwa [List.append_nil] at hbind

end Reads

theorem reads_take (bytes : Bytes) : Reads (take bytes.length) bytes bytes := by
  refine fun _ => ⟨fun rest => by simp [take], ?_⟩
  intro front back hback h
  have hlen := congrArg List.length h
  have hpos := List.length_pos_iff.2 hback
  rw [List.length_append] at hlen
  have hmin : min bytes.length front.length ≠ bytes.length := by omega
  exact ⟨.endOfInput, by simp [take, hmin]⟩

theorem reads_number (width n : Nat) (h : n < 256 ^ width) :
    Reads (number width) (Bytes.littleEndian width n) n := by
  have htake := reads_take (Bytes.littleEndian width n)
  rw [Bytes.length_littleEndian] at htake
  have hread := htake.last Bytes.ofLittleEndian
  rwa [Bytes.ofLittleEndian_littleEndian, Nat.mod_eq_of_lt h] at hread

theorem reads_repeated {item : Reader α} {form : α → Bytes} (items : List α)
    (h : ∀ a ∈ items, Reads item (form a) a) :
    Reads (repeated item items.length) (items.flatMap form) items := by
  induction items with
  | nil => exact Reads.pure []
  | cons a items ih =>
      have hrest := ih fun b hb => h b (List.mem_cons_of_mem a hb)
      exact (h a List.mem_cons_self).bind (hrest.last (a :: ·))

end Wire

/-- Values of the type are read back from their binary form, which is never empty. -/
class LawfulWire (α : Type) [Wire α] : Prop where
  length_pos : ∀ a : α, 0 < (Wire.encode a).length
  reads : ∀ a : α, Wire.Reads Wire.decode (Wire.encode a) a

namespace Wire

theorem isUtf8_of_ascii (text : Bytes) (h : ∀ b ∈ text, b < 0x80) : isUtf8 text = true := by
  induction text with
  | nil => rfl
  | cons b rest ih =>
      have hb := h b List.mem_cons_self
      have hhead : isUtf8 (b :: rest) = isUtf8 rest := by
        match rest with
        | [] => simp [isUtf8, hb]
        | [_] | [_, _] | _ :: _ :: _ :: _ => rw [isUtf8, if_pos hb]
      rw [hhead]
      exact ih fun c hc => h c (List.mem_cons_of_mem b hc)

theorem reads_text (text : Bytes) (h : ∀ b ∈ text, b < 0x80) :
    Reads readText (writeText text) text := by
  intro hlen
  have hcount : text.length < 256 ^ 8 := by
    rw [writeText, List.length_append] at hlen
    omega
  have hbytes : Reads (take text.length >>= fun bytes =>
      if isUtf8 bytes then return bytes else throw .invalidUtf8) text text := by
    have hbind := Reads.bind (f := fun bytes =>
      if isUtf8 bytes then return bytes else throw .invalidUtf8) (reads_take text)
      (by rw [if_pos (isUtf8_of_ascii text h)]; exact Reads.pure text)
    rwa [List.append_nil] at hbind
  exact (reads_number 8 text.length hcount).bind hbytes hlen

/-- A record is read from its text by a parser that knows it. -/
theorem reads_parsed {ε : Type} {wrap : ε → WireError} {parse : Bytes → Except ε α} {text : Bytes}
    {a : α} (h : ∀ b ∈ text, b < 0x80) (hparse : parse text = .ok a) :
    Reads (readText >>= fun text => lift wrap (parse text)) (writeText text) a := by
  have hbind := Reads.bind (f := fun text => lift wrap (parse text)) (reads_text text h)
    (by rw [hparse]; exact Reads.pure a)
  rwa [List.append_nil] at hbind

end Wire

namespace Hex

theorem digit_ascii (n : UInt8) (h : n < 16) : digit n < 0x80 := by
  have all : ∀ n : Fin 256, UInt8.ofFin n < 16 → digit (UInt8.ofFin n) < 0x80 := by decide +kernel
  exact all n.toFin h

theorem encode_ascii (bytes : Bytes) : ∀ b ∈ encode bytes, b < 0x80 := by
  induction bytes with
  | nil => simp [encode]
  | cons b rest ih =>
      obtain ⟨hhigh, hlow, _⟩ := nibbles b
      simp only [encode, List.forall_mem_cons]
      exact ⟨digit_ascii _ hhigh, digit_ascii _ hlow, ih⟩

theorem marked_ascii (bytes : Bytes) : ∀ b ∈ marked bytes, b < 0x80 := by
  simp only [marked, marker, List.cons_append, List.nil_append, List.forall_mem_cons]
  exact ⟨by decide, by decide, encode_ascii bytes⟩

end Hex

theorem Word.text_ascii (w : Word) : ∀ b ∈ w.text, b < 0x80 := by
  simp only [Word.text, List.forall_mem_cons]
  refine ⟨by decide, by decide, ?_⟩
  rw [Word.digits_eq]
  split
  · simp
  · intro b hb
    exact Hex.encode_ascii _ b ((List.dropWhile_sublist _).subset hb)

namespace LawfulWire

theorem length_writeText_pos (text : Bytes) : 0 < (Wire.writeText text).length := by
  rw [Wire.writeText, List.length_append, Bytes.length_littleEndian]
  omega

instance : LawfulWire UInt64 where
  length_pos n := by simp [Wire.encode]
  reads n := by
    have h := (Wire.reads_number 8 n.toNat n.toNat_lt).last UInt64.ofNat
    rwa [UInt64.ofNat_toNat] at h

instance : LawfulWire UInt8 where
  length_pos n := by simp [Wire.encode]
  reads n := by
    have h := (Wire.reads_number 1 n.toNat n.toNat_lt).last UInt8.ofNat
    have hbytes : Bytes.littleEndian 1 n.toNat = [n] := by simp [Bytes.littleEndian]
    rwa [UInt8.ofNat_toNat, hbytes] at h

instance : LawfulWire Bool where
  length_pos b := by simp [Wire.encode]
  reads b := by
    cases b with
    | false => exact (Wire.reads_number 1 0 (by decide)).bind (Wire.Reads.pure false)
    | true => exact (Wire.reads_number 1 1 (by decide)).bind (Wire.Reads.pure true)

instance {α : Type} [Wire α] [LawfulWire α] : LawfulWire (Option α) where
  length_pos a := by cases a <;> simp [Wire.encode]
  reads a := by
    cases a with
    | none => exact (Wire.reads_number 1 0 (by decide)).bind (Wire.Reads.pure none)
    | some a => exact (Wire.reads_number 1 1 (by decide)).bind ((reads a).last some)

theorem length_le_flatMap {α : Type} [Wire α] [LawfulWire α] (items : List α) :
    items.length ≤ (items.flatMap Wire.encode).length := by
  induction items with
  | nil => exact Nat.zero_le _
  | cons a items ih =>
      have hpos := length_pos a
      rw [List.flatMap_cons, List.length_append, List.length_cons]
      omega

instance {α : Type} [Wire α] [LawfulWire α] : LawfulWire (List α) where
  length_pos items := by
    simp only [Wire.encode, List.length_append, Bytes.length_littleEndian]
    omega
  reads items := by
    intro hlen
    -- the count fits because every item takes at least one byte
    have hcount : items.length < 256 ^ 8 := by
      have hitems := length_le_flatMap items
      change (Bytes.littleEndian 8 items.length ++ items.flatMap Wire.encode).length < _ at hlen
      rw [List.length_append] at hlen
      omega
    exact (Wire.reads_number 8 items.length hcount).bind
      (Wire.reads_repeated items fun a _ => reads a) hlen

instance {α β : Type} [Wire α] [Wire β] [LawfulWire α] [LawfulWire β] : LawfulWire (α × β) where
  length_pos pair := by
    have hpos := length_pos pair.1
    simp only [Wire.encode, List.length_append]
    omega
  reads pair := (reads pair.1).bind ((reads pair.2).last (pair.1, ·))

instance {n : Nat} : LawfulWire (FixedBytes (n + 1)) where
  length_pos b := by simp [Wire.encode, b.length_eq]
  reads b := by
    refine fun _ => ⟨fun rest => ?_, fun front back hback h => ?_⟩
    · simp [Wire.decode, Wire.takeFixed, Wire.encode, b.length_eq]
    · have hlen := congrArg List.length h
      have hpos := List.length_pos_iff.2 hback
      have hb := b.length_eq
      simp only [Wire.encode, List.length_append] at hlen
      have hmin : min (n + 1) front.length ≠ n + 1 := by omega
      exact ⟨.endOfInput, by simp [Wire.decode, Wire.takeFixed, hmin]⟩

instance : LawfulWire Bitmap where
  length_pos b := length_pos b.bytes
  reads b := (reads b.bytes).last Bitmap.mk

instance : LawfulWire Address where
  length_pos a := length_writeText_pos a.text
  reads a := Wire.reads_parsed (Hex.marked_ascii a.bytes) (Address.parse_text a)

instance : LawfulWire Digest where
  length_pos d := length_writeText_pos d.text
  reads d := Wire.reads_parsed (Hex.marked_ascii d.bytes) (Digest.parse_text d)

instance : LawfulWire Word where
  length_pos w := length_writeText_pos w.text
  reads w := Wire.reads_parsed (Word.text_ascii w) (Word.parse_text w)

end LawfulWire

namespace Wire

@[simp] theorem length_encode_uint64 (n : UInt64) : (encode n).length = 8 :=
  Bytes.length_littleEndian 8 n.toNat

theorem encode_bytes (bytes : Bytes) : encode bytes = Bytes.littleEndian 8 bytes.length ++ bytes := by
  have hflat : bytes.flatMap encode = bytes := by
    induction bytes with
    | nil => rfl
    | cons b rest ih => exact congrArg (b :: ·) ih
  change Bytes.littleEndian 8 bytes.length ++ bytes.flatMap encode = _
  rw [hflat]

@[simp] theorem length_encode_bytes (bytes : Bytes) : (encode bytes).length = 8 + bytes.length := by
  rw [encode_bytes, List.length_append, Bytes.length_littleEndian]

@[simp] theorem length_encode_address (a : Address) : (encode a).length = 50 := by
  simp [encode, writeText, Address.text, Hex.marked, Hex.marker, Hex.length_encode, a.length_eq]

@[simp] theorem length_encode_digest (d : Digest) : (encode d).length = 74 := by
  simp [encode, writeText, Digest.text, Hex.marked, Hex.marker, Hex.length_encode, d.length_eq]

@[simp] theorem length_encode_none {α : Type} [Wire α] : (encode (none : Option α)).length = 1 := rfl

@[simp] theorem length_encode_some {α : Type} [Wire α] (a : α) :
    (encode (some a)).length = (encode a).length + 1 := rfl

@[simp] theorem length_encode_fixed {n : Nat} (b : FixedBytes n) : (encode b).length = n := b.length_eq

end Wire

end EpochSeal
