import EpochSeal.Proofs.CallForm

/-! Only what writing produces is read: whenever bytes are read as a call, the call is written as
these bytes. -/
namespace EpochSeal

/-- The low bytes of a number are those of its remainder, the high ones those of its quotient. -/
theorem Bytes.littleEndian_add (low high n : Nat) :
    littleEndian (low + high) n = littleEndian low n ++ littleEndian high (n / 256 ^ low) := by
  induction low generalizing n with
  | zero => simp [littleEndian]
  | succ low ih =>
      rw [Nat.succ_add, littleEndian, littleEndian, ih, Nat.div_div_eq_div_mul, Nat.pow_succ',
        List.cons_append]

namespace Abi

variable {input rest : Bytes}

theorem readWord_some {w : Word} (h : readWord input = some (w, rest)) : input = w.toBytes ++ rest := by
  simp only [readWord] at h
  split at h
  · next hlen =>
      cases h
      have hfront := Word.toBytes_ofBytes (input.take 32) (Nat.le_of_eq hlen)
      rw [hlen, Nat.sub_self, List.replicate_zero, List.nil_append] at hfront
      rw [hfront, List.take_append_drop]
  · cases h

theorem readWords_some {count : Nat} {words : List Word}
    (h : readWords count input = some (words, rest)) :
    words.length = count ∧ input = words.flatMap Word.toBytes ++ rest := by
  induction count generalizing input words with
  | zero =>
      cases h
      exact ⟨rfl, rfl⟩
  | succ count ih =>
      simp only [readWords, Option.bind_eq_bind, Option.bind_eq_some_iff, Prod.exists] at h
      obtain ⟨first, input', hfirst, words', rest', hwords, hpure⟩ := h
      cases hpure
      obtain ⟨hlen, hinput⟩ := ih hwords
      refine ⟨congrArg Nat.succ hlen, ?_⟩
      rw [readWord_some hfirst, hinput, List.flatMap_cons, List.append_assoc]

theorem readRows_some {columns : List Nat} {count : Nat} {table : List (List Word)}
    (h : readRows columns count input = some (table, rest)) :
    table.length = count ∧ (∀ row ∈ table, fits columns row = true) ∧
      input = table.flatMap (·.flatMap Word.toBytes) ++ rest := by
  induction count generalizing input table with
  | zero =>
      cases h
      exact ⟨rfl, List.forall_mem_nil _, rfl⟩
  | succ count ih =>
      simp only [readRows, Option.bind_eq_bind, Option.bind_eq_some_iff, Prod.exists,
        Option.bind_none, Option.ite_none_left_eq_some, Bool.not_eq_true', Bool.not_eq_false] at h
      obtain ⟨row, input', hrow, hfits, table', rest', htable, hpure⟩ := h
      cases hpure
      obtain ⟨hlen, hall, hinput⟩ := ih htable
      refine ⟨congrArg Nat.succ hlen, List.forall_mem_cons.2 ⟨hfits, hall⟩, ?_⟩
      rw [(readWords_some hrow).2, hinput, List.flatMap_cons, List.append_assoc]

theorem heads_cons (offset : Nat) (value : Value) (values : List Value) :
    heads offset (value :: values) =
      heads offset [value] ++ heads (offset + value.tail.length) values := by
  cases value <;> simp [heads, Value.tail]

theorem writeNat_toNat (w : Word) : writeNat w.toNat = w.toBytes := rfl

theorem take_zeros {count : Nat} {bytes : Bytes} (hlen : count ≤ bytes.length)
    (h : (bytes.take count).all (· = 0) = true) : bytes.take count = List.replicate count 0 := by
  refine List.eq_replicate_iff.2 ⟨List.length_take_of_le hlen, ?_⟩
  intro b hb
  exact of_decide_eq_true (List.all_eq_true.1 h b hb)

/-- Rows without columns take no bytes, so their count would say nothing about the input. -/
theorem readValue_some {offset : Nat} {head : Word} {shape : Shape} {value : Value}
    (hshape : shape ≠ .rows []) (h : readValue offset head input shape = some (value, rest)) :
    value.HasShape shape ∧ heads offset [value] = head.toBytes ∧ input = value.tail ++ rest := by
  cases shape with
  | word bits =>
      simp only [readValue, Option.ite_none_right_eq_some, Option.some.injEq, Prod.mk.injEq] at h
      obtain ⟨hfits, rfl, rfl⟩ := h
      exact ⟨hfits, List.append_nil _, rfl⟩
  | bytes =>
      simp only [readValue, Option.bind_eq_bind, Option.bind_eq_some_iff, Prod.exists,
        Option.bind_none, Option.ite_none_left_eq_some, Option.ite_none_right_eq_some] at h
      obtain ⟨hoffset, count, body, hcount, hlong, hzeros, hpure⟩ := h
      cases hpure
      have hhead : heads offset [.bytes (body.take count.toNat)] = head.toBytes := by
        rw [← not_not.1 hoffset]
        exact List.append_nil _
      have hlen : (body.take count.toNat).length = count.toNat :=
        List.length_take_of_le (by omega)
      have hpad := take_zeros (by rw [List.length_drop]; omega) hzeros
      refine ⟨trivial, hhead, ?_⟩
      rw [Value.tail, hlen, ← hpad, readWord_some hcount, writeNat_toNat, List.append_assoc,
        List.append_assoc, ← List.drop_drop, List.take_append_drop, List.take_append_drop]
  | rows columns =>
      simp only [readValue, Option.bind_eq_bind, Option.bind_eq_some_iff, Prod.exists,
        Option.bind_none, Option.ite_none_left_eq_some] at h
      obtain ⟨hoffset, count, body, hcount, _, table, rest', htable, hpure⟩ := h
      cases hpure
      obtain ⟨hlen, hfits, hbody⟩ := readRows_some htable
      have hhead : heads offset [.rows table] = head.toBytes := by
        rw [← not_not.1 hoffset]
        exact List.append_nil _
      refine ⟨⟨?_, hfits⟩, hhead, ?_⟩
      · rintro rfl
        exact hshape rfl
      · rw [Value.tail, hlen, readWord_some hcount, hbody, writeNat_toNat, List.append_assoc]

theorem readValues_some {offset : Nat} {fields : List (Shape × Word)} {values : List Value}
    (hshapes : ∀ field ∈ fields, field.1 ≠ .rows [])
    (h : readValues offset input fields = some (values, rest)) :
    List.Forall₂ Value.HasShape values (fields.map Prod.fst) ∧
      heads offset values = (fields.map Prod.snd).flatMap Word.toBytes ∧
      input = values.flatMap Value.tail ++ rest := by
  induction fields generalizing offset input values with
  | nil =>
      cases h
      exact ⟨.nil, rfl, rfl⟩
  | cons field fields ih =>
      obtain ⟨shape, head⟩ := field
      simp only [readValues, Option.bind_eq_bind, Option.bind_eq_some_iff, Prod.exists] at h
      obtain ⟨value, input', hvalue, values', rest', hvalues, hpure⟩ := h
      cases hpure
      obtain ⟨hshape, hhead, hinput⟩ := readValue_some (hshapes _ List.mem_cons_self) hvalue
      obtain ⟨hrest, hheads, hinput'⟩ :=
        ih (fun other hother => hshapes other (List.mem_cons_of_mem _ hother)) hvalues
      refine ⟨.cons hshape hrest, ?_, ?_⟩
      · rw [heads_cons, hhead, hheads, List.map_cons, List.flatMap_cons]
      · rw [hinput, hinput', List.flatMap_cons, List.append_assoc]

theorem eq_encode_of_decode {shapes : List Shape} {values : List Value}
    (hshapes : .rows [] ∉ shapes) (h : decode shapes input = some values) :
    List.Forall₂ Value.HasShape values shapes ∧ input = encode values := by
  simp only [decode, Option.bind_eq_bind, Option.bind_eq_some_iff, Prod.exists,
    Option.ite_none_right_eq_some, List.isEmpty_iff] at h
  obtain ⟨words, tails, hwords, values', rest, hvalues, rfl, hpure⟩ := h
  cases hpure
  obtain ⟨hlen, hinput⟩ := readWords_some hwords
  have hfields : ∀ field ∈ shapes.zip words, field.1 ≠ .rows [] := by
    intro field hfield heq
    exact hshapes (heq ▸ (List.of_mem_zip hfield).1)
  obtain ⟨hvalues, hheads, htails⟩ := readValues_some hfields hvalues
  rw [List.map_fst_zip (Nat.le_of_eq hlen.symm)] at hvalues
  rw [List.map_snd_zip (Nat.le_of_eq hlen)] at hheads
  refine ⟨hvalues, ?_⟩
  rw [encode, hvalues.length_eq, hheads, hinput, htails, List.append_nil]

end Abi

namespace Payload

theorem addressWord_wordAddress {w : Word} (h : w.toNat < 2 ^ 160) :
    addressWord (wordAddress w) = w := by
  have hsplit : w.toBytes =
      Bytes.bigEndian 12 (w.toNat / 256 ^ 20) ++ Bytes.bigEndian 20 w.toNat := by
    rw [Word.toBytes, Bytes.bigEndian, Bytes.littleEndian_add 20 12, List.reverse_append]
    rfl
  have hlow : (wordAddress w).bytes = Bytes.bigEndian 20 w.toNat := by
    change (List.replicate 20 0 ++ w.toBytes).drop w.toBytes.length = _
    rw [hsplit, ← List.append_assoc]
    exact List.drop_left' (by simp)
  rw [addressWord, Word.ofBytes, hlow, Bytes.ofBigEndian_bigEndian, Nat.mod_eq_of_lt h,
    BitVec.ofNat_toNat, BitVec.setWidth_eq]

theorem digestWord_wordDigest (w : Word) : digestWord (wordDigest w) = w := w.ofBytes_toBytes

theorem toNumber_ok_iff {field : String} {w : Word} {n : UInt64} :
    toNumber field w = .ok n ↔ w = Word.ofUInt64 n := by
  constructor
  · intro h
    simp only [toNumber, Word.toUInt64?] at h
    split at h
    · next m hm =>
        cases h
        split at hm
        · next hlt =>
            cases hm
            rw [Word.ofUInt64, UInt64.toNat_ofNat_of_lt' hlt, BitVec.ofNat_toNat,
              BitVec.setWidth_eq]
        · cases hm
    · cases h
  · rintro rfl
    exact toNumber_ofUInt64 field n

theorem arguments_ok {selector input : Bytes} {shapes : List Abi.Shape} {values : List Abi.Value}
    (hshapes : .rows [] ∉ shapes) (h : arguments selector shapes input = .ok values) :
    List.Forall₂ Abi.Value.HasShape values shapes ∧ input = selector ++ Abi.encode values := by
  simp only [arguments] at h
  split at h
  · next hselector =>
      split at h
      · next values' hdecode =>
          cases h
          obtain ⟨hvalues, hinput⟩ := Abi.eq_encode_of_decode hshapes hdecode
          refine ⟨hvalues, ?_⟩
          rw [← hinput, ← hselector, List.take_append_drop]
      · cases h
  · cases h

section pairs

variable {α : Type} (key : α → Address) (count : α → UInt64) {make : Address → UInt64 → α}

theorem pairOfRow_ok {field : String} {row : List Word} {item : α}
    (hkey : ∀ a n, key (make a n) = a) (hcount : ∀ a n, count (make a n) = n)
    (hfits : Abi.fits [160, 256] row = true) (h : pairOfRow field make row = .ok item) :
    row = [addressWord (key item), Word.ofUInt64 (count item)] := by
  obtain ⟨w, n, rfl⟩ := List.length_eq_two.1 (Abi.length_of_fits hfits)
  obtain ⟨m, hm, rfl⟩ := Outcome.map_ok_iff.1 h
  have hw : w.toNat < 2 ^ 160 := by
    simp only [Abi.fits, List.zip_cons_cons, List.all_cons, Bool.and_eq_true,
      decide_eq_true_eq] at hfits
    exact hfits.2.1
  rw [hkey, hcount, addressWord_wordAddress hw, toNumber_ok_iff.1 hm]

theorem rows_eq_pairRows {field : String} {table : List (List Word)} {items : List α}
    (hkey : ∀ a n, key (make a n) = a) (hcount : ∀ a n, count (make a n) = n)
    (hshape : (Abi.Value.rows table).HasShape pairs)
    (h : table.mapM (pairOfRow field make) = .ok items) :
    .rows table = pairRows items key count := by
  refine congrArg Abi.Value.rows ?_
  have hfits := hshape.2
  induction table generalizing items with
  | nil =>
      cases h
      rfl
  | cons row table ih =>
      simp only [List.mapM_cons, Outcome.bind_ok_iff, Outcome.pure_ok_iff] at h
      obtain ⟨item, hitem, items', hitems, rfl⟩ := h
      obtain ⟨hrow, hrest⟩ := List.forall_mem_cons.1 hfits
      rw [List.map_cons, ← ih ⟨hshape.1, hrest⟩ hitems hrest,
        ← pairOfRow_ok key count hkey hcount hrow hitem]

end pairs

end Payload

open Payload

variable {input : Bytes}

theorem EpochCommit.eq_encode_of_decode {c : EpochCommit} (h : EpochCommit.decode input = .ok c) :
    input = c.encode := by
  obtain ⟨values, harguments, hread⟩ := Outcome.bind_ok_iff.1 h
  obtain ⟨hshapes, hinput⟩ := arguments_ok (by decide) harguments
  split at hread
  · next uptime =>
      simp only [Outcome.bind_ok_iff, Outcome.pure_ok_iff, toNumber_ok_iff] at hread
      obtain ⟨id, rfl, start, rfl, finish, rfl, epochSize, rfl, uptime', huptime, rfl⟩ := hread
      simp only [EpochCommit.shapes, List.forall₂_cons] at hshapes
      obtain ⟨-, -, -, -, -, hrows, -⟩ := hshapes
      rw [hinput, EpochCommit.encode, digestWord_wordDigest,
        rows_eq_pairRows Uptime.validator Uptime.signed (fun _ _ => rfl) (fun _ _ => rfl) hrows
          huptime]
      rfl
  · cases hread

theorem RewardDistribution.eq_encode_of_decode {d : RewardDistribution}
    (h : RewardDistribution.decode input = .ok d) : input = d.encode := by
  obtain ⟨values, harguments, hread⟩ := Outcome.bind_ok_iff.1 h
  obtain ⟨hshapes, hinput⟩ := arguments_ok (by decide) harguments
  split at hread
  · next uptime epochSize =>
      simp only [Outcome.bind_ok_iff, Outcome.pure_ok_iff, toNumber_ok_iff] at hread
      obtain ⟨epochId, rfl, uptime', huptime, epochSize, rfl, rfl⟩ := hread
      simp only [RewardDistribution.shapes, List.forall₂_cons] at hshapes
      obtain ⟨-, hrows, -⟩ := hshapes
      rw [hinput, rows_eq_pairRows Uptime.validator Uptime.signed (fun _ _ => rfl) (fun _ _ => rfl) hrows
          huptime]
      rfl
  · cases hread

theorem PowerSync.eq_encode_of_decode {s : PowerSync} (h : PowerSync.decode input = .ok s) :
    input = s.encode := by
  obtain ⟨values, harguments, hread⟩ := Outcome.bind_ok_iff.1 h
  obtain ⟨hshapes, hinput⟩ := arguments_ok (by decide) harguments
  split at hread
  · simp only [Outcome.bind_ok_iff, Outcome.pure_ok_iff] at hread
    obtain ⟨powers, hpowers, rfl⟩ := hread
    simp only [List.forall₂_cons] at hshapes
    obtain ⟨hrows, -⟩ := hshapes
    rw [hinput, rows_eq_pairRows PowerUpdate.validator PowerUpdate.power (fun _ _ => rfl) (fun _ _ => rfl) hrows
          hpowers]
    rfl
  · cases hread

theorem PlainCall.eq_encode_of_decode {c : PlainCall} (h : c.decode input = .ok ()) :
    input = c.encode := by
  obtain ⟨values, harguments, _⟩ := Outcome.map_ok_iff.1 h
  obtain ⟨hshapes, hinput⟩ := arguments_ok List.not_mem_nil harguments
  rw [List.forall₂_nil_right_iff.1 hshapes] at hinput
  exact hinput.trans (List.append_nil _)

theorem SignedCommitment.eq_encode_of_decode {c : SignedCommitment}
    (h : SignedCommitment.decode input = .ok c) : input = c.encode := by
  obtain ⟨values, harguments, hread⟩ := Outcome.bind_ok_iff.1 h
  obtain ⟨-, hinput⟩ := arguments_ok (by decide) harguments
  split at hread
  · simp only [Outcome.bind_ok_iff, Outcome.pure_ok_iff, toNumber_ok_iff] at hread
    obtain ⟨startId, rfl, endId, rfl, rfl⟩ := hread
    rw [hinput, SignedCommitment.encode, Commitment.values, digestWord_wordDigest]
    rfl
  · cases hread

/-- Whatever call the selector leads to, its own reader has read the whole input. -/
theorem StateCall.eq_encode_of_decode {c : StateCall} (h : StateCall.decode input = .ok c) :
    input = c.encode := by
  obtain ⟨-, hread⟩ := Outcome.ite_error_ok_iff.1 h
  unfold StateCall.decodeFor at hread
  split_ifs at hread
  · obtain ⟨call, hcall, rfl⟩ := Outcome.map_ok_iff.1 (Outcome.mapError_ok_iff.1 hread)
    exact EpochCommit.eq_encode_of_decode hcall
  · obtain ⟨_, hcall, rfl⟩ := Outcome.map_ok_iff.1 (Outcome.mapError_ok_iff.1 hread)
    exact PlainCall.eq_encode_of_decode hcall
  · obtain ⟨call, hcall, rfl⟩ := Outcome.map_ok_iff.1 (Outcome.mapError_ok_iff.1 hread)
    exact RewardDistribution.eq_encode_of_decode hcall
  · obtain ⟨_, hcall, rfl⟩ := Outcome.map_ok_iff.1 (Outcome.mapError_ok_iff.1 hread)
    exact PlainCall.eq_encode_of_decode hcall
  · obtain ⟨call, hcall, rfl⟩ := Outcome.map_ok_iff.1 (Outcome.mapError_ok_iff.1 hread)
    exact PowerSync.eq_encode_of_decode hcall

theorem BalanceChanged.ofLog_toLog (e : BalanceChanged) (emitter : Address) :
    BalanceChanged.ofLog (e.toLog emitter) = .ok (some e) := by
  have hdecode := Abi.decode_encode [.word e.balance] [.word 256] (.cons (hasShape_word _) .nil)
    (by simp [Abi.encode, Abi.Value.tail])
  have haccount : Address.ofRight (wordDigest (addressWord e.account)).bytes = e.account :=
    wordAddress_addressWord e.account
  simp only [BalanceChanged.ofLog, BalanceChanged.toLog, ne_eq, not_true_eq_false, if_false,
    hdecode, haccount]

/-- Calls, commitments and events have one form each: bytes are read as a call exactly if they are
the call as it is written. Lengths are words of 256 bits, which says more than any memory holds. -/
theorem StateCall.one_form (input : Bytes) (h : input.length < 2 ^ 256) :
    (∀ c, StateCall.decode input = .ok c ↔ input = c.encode) ∧
      (∀ c, SignedCommitment.decode input = .ok c ↔ input = c.encode) ∧
      ∀ (e : BalanceChanged) (emitter : Address),
        BalanceChanged.ofLog (e.toLog emitter) = .ok (some e) := by
  refine ⟨?_, ?_, BalanceChanged.ofLog_toLog⟩
  · intro c
    constructor
    · intro hread
      exact StateCall.eq_encode_of_decode hread
    · rintro rfl
      exact c.decode_encode h
  · intro c
    constructor
    · intro hread
      exact SignedCommitment.eq_encode_of_decode hread
    · rintro rfl
      exact c.decode_encode h

theorem StateCall.one_form_powerSync :
    (StateCall.syncPowers ⟨[⟨Contract.registry, 5⟩]⟩).encode.length < 2 ^ 256 ∧
      StateCall.decode (StateCall.syncPowers ⟨[⟨Contract.registry, 5⟩]⟩).encode =
        .ok (.syncPowers ⟨[⟨Contract.registry, 5⟩]⟩) := by
  have hlen : (StateCall.syncPowers ⟨[⟨Contract.registry, 5⟩]⟩).encode.length < 2 ^ 256 := by
    decide +kernel
  exact ⟨hlen, ((StateCall.one_form _ hlen).1 _).2 rfl⟩

end EpochSeal
