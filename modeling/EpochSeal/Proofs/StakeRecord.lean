import EpochSeal.Ledger
import EpochSeal.Proofs.Ranking
import EpochSeal.Proofs.RecordForm

/-! What is looked up in the table of stakes after a step, and the record that the table is kept in:
reading it gives the very snapshot that was written. -/
namespace EpochSeal

theorem VotingPower.ofBalance_zero (exponent : Exponent) : ofBalance 0 exponent = 0 := if_pos rfl

namespace StakeTable

theorem eq_of_entries {t u : StakeTable} (h : t.entries = u.entries) : t = u := by
  cases t
  cases u
  cases h
  rfl

theorem insertEntry_last {a : Address} {v : Validator} {entries : List (Address × Validator)}
    (h : ∀ e ∈ entries, e.1 < a) : insertEntry a v entries = entries ++ [(a, v)] := by
  induction entries with
  | nil => rfl
  | cons entry rest ih =>
      have hfirst := h entry List.mem_cons_self
      have hnot : ¬ a < entry.1 := fun hlt => Address.lt_irrefl a (Address.lt_trans hlt hfirst)
      have hne : a ≠ entry.1 := fun heq => Address.lt_irrefl a (by rwa [← heq] at hfirst)
      rw [insertEntry, if_neg hnot, if_neg hne, ih fun e he => h e (List.mem_cons_of_mem entry he),
        List.cons_append]

/-- Entries that come behind those of a table in their order are put there one after the other. -/
theorem entries_foldl_insert (entries : List (Address × Validator)) (t : StakeTable)
    (h : (t.entries ++ entries).Pairwise fun a b => a.1 < b.1) :
    (entries.foldl (fun t e => t.insert e.1 e.2) t).entries = t.entries ++ entries := by
  induction entries generalizing t with
  | nil => exact (List.append_nil _).symm
  | cons entry rest ih =>
      have hlast : (t.insert entry.1 entry.2).entries = t.entries ++ [entry] :=
        insertEntry_last fun e he => (List.pairwise_append.1 h).2.2 e he entry List.mem_cons_self
      have happend : t.entries ++ entry :: rest = (t.insert entry.1 entry.2).entries ++ rest := by
        rw [hlast, List.append_assoc, List.singleton_append]
      rw [happend] at h ⊢
      exact ih _ h

theorem ofList_entries (t : StakeTable) : ofList t.entries = t :=
  eq_of_entries (entries_foldl_insert t.entries empty t.sorted)

theorem find?_insert (t : StakeTable) (a : Address) (v : Validator) (b : Address) :
    (t.insert a v).find? b = if b = a then some v else t.find? b := by
  change (insertEntry a v t.entries).lookup b = if b = a then some v else t.entries.lookup b
  have hother (w : Validator) (rest : List (Address × Validator)) (hne : b ≠ a) :
      List.lookup b ((a, w) :: rest) = rest.lookup b := by
    rw [List.lookup_cons, beq_eq_false_iff_ne.2 hne]
  induction t.entries with
  | nil =>
      by_cases hb : b = a
      · simp [insertEntry, hb]
      · rw [insertEntry, hother v [] hb, if_neg hb]
  | cons entry rest ih =>
      obtain ⟨key, w⟩ := entry
      simp only [insertEntry]
      split
      · by_cases hb : b = a
        · simp [hb]
        · rw [hother v _ hb, if_neg hb]
      · split
        · next hkey =>
            by_cases hb : b = a
            · simp [hb]
            · rw [hother v _ hb, if_neg hb, ← hkey, hother w _ hb]
        · next hkey =>
            by_cases hb : b = key
            · simp [hb, Ne.symm hkey]
            · rw [List.lookup_cons, List.lookup_cons, beq_eq_false_iff_ne.2 hb]
              exact ih

theorem find?_foldl_insert (entries : List (Address × Validator)) (t : StakeTable) (a : Address)
    (h : (entries.map (·.1)).Nodup) :
    (entries.foldl (fun t e => t.insert e.1 e.2) t).find? a = (entries.lookup a).or (t.find? a) := by
  induction entries generalizing t with
  | nil => rfl
  | cons entry rest ih =>
      obtain ⟨key, v⟩ := entry
      obtain ⟨hnew, hrest⟩ := List.nodup_cons.1 h
      rw [List.foldl_cons, ih _ hrest, find?_insert]
      by_cases ha : a = key
      · have hnone : rest.lookup key = none :=
          List.lookup_eq_none_iff.2 fun e he => bne_iff_ne.2 fun heq =>
            hnew (List.mem_map.2 ⟨e, he, heq.symm⟩)
        rw [ha, hnone, if_pos rfl, List.lookup_cons_self]
        rfl
      · rw [if_neg ha, List.lookup_cons, beq_eq_false_iff_ne.2 ha]

theorem find?_mapValidators (t : StakeTable) (f : Address → Validator → Validator) (a : Address) :
    (t.mapValidators f).find? a = (t.find? a).map (f a) := by
  change (t.entries.map fun e => (e.1, f e.1 e.2)).lookup a = (t.entries.lookup a).map (f a)
  induction t.entries with
  | nil => rfl
  | cons entry rest ih =>
      obtain ⟨key, v⟩ := entry
      by_cases ha : a = key
      · simp [ha]
      · rw [List.map_cons, List.lookup_cons, List.lookup_cons, beq_eq_false_iff_ne.2 ha]
        exact ih

theorem keyed_iff {t : StakeTable} : t.Keyed ↔ ∀ a v, t.find? a = some v → v.address = a := by
  simp only [find?_eq_some_iff_mem]
  exact ⟨fun h a v hmem => h (a, v) hmem, fun h e he => h e.1 e.2 he⟩

theorem Keyed.insert {t : StakeTable} (h : t.Keyed) (v : Validator) : (t.insert v.address v).Keyed := by
  refine keyed_iff.2 fun a w hw => ?_
  rw [find?_insert] at hw
  split at hw
  · next ha =>
      cases hw
      exact ha.symm
  · exact keyed_iff.1 h a w hw

theorem keyed_foldl_insert {entries : List (Address × Validator)} {t : StakeTable} (ht : t.Keyed)
    (h : ∀ e ∈ entries, e.2.address = e.1) :
    (entries.foldl (fun t e => t.insert e.1 e.2) t).Keyed := by
  induction entries generalizing t with
  | nil => exact ht
  | cons entry rest ih =>
      rw [List.foldl_cons, ← h entry List.mem_cons_self]
      exact ih (ht.insert entry.2) fun e he => h e (List.mem_cons_of_mem entry he)

theorem keyed_ofMembers (s : ValidatorSet) :
    (ofList (s.members.map fun v => (v.address, v))).Keyed := by
  refine keyed_foldl_insert (fun e he => absurd he List.not_mem_nil) fun e he => ?_
  obtain ⟨v, _, rfl⟩ := List.mem_map.1 he
  rfl

theorem find?_ofMembers {s : ValidatorSet} (h : s.addresses.Nodup) (a : Address) :
    (ofList (s.members.map fun v => (v.address, v))).find? a = s.find? a := by
  have hkeys : ((s.members.map fun v => (v.address, v)).map (·.1)).Nodup := by
    rw [List.map_map]
    exact h
  have hlookup : (s.members.map fun v => (v.address, v)).lookup a = s.find? a := by
    unfold ValidatorSet.find?
    induction s.members with
    | nil => rfl
    | cons v rest ih =>
        rw [List.map_cons, List.lookup_cons, List.find?_cons, ih]
        by_cases ha : v.address = a
        · simp [ha]
        · simp [ha, beq_eq_false_iff_ne.2 (Ne.symm ha)]
  have hempty : empty.find? a = none := rfl
  rw [ofList, find?_foldl_insert _ _ a hkeys, hlookup, hempty, Option.or_none]

def power? (t : StakeTable) (a : Address) : Option UInt64 := (t.find? a).map (·.power)

theorem Keyed.setStake {t : StakeTable} (h : t.Keyed) (a : Address) (balance : Word)
    (exponent : Exponent) : (t.setStake a balance exponent).Keyed := by
  have haddress : ((t.find? a).getD (Validator.ofStake a none 0)).address = a := by
    cases hfind : t.find? a with
    | none => rfl
    | some v => exact keyed_iff.1 h a v hfind
  refine keyed_iff.2 fun b w hw => ?_
  rw [StakeTable.setStake, find?_insert] at hw
  split at hw
  · next hb =>
      cases hw
      rw [hb]
      exact haddress
  · exact keyed_iff.1 h b w hw

theorem power?_setStake (t : StakeTable) (a : Address) (balance : Word) (exponent : Exponent)
    (b : Address) : (t.setStake a balance exponent).power? b =
      if b = a then some (VotingPower.ofBalance balance exponent) else t.power? b := by
  rw [power?, StakeTable.setStake, find?_insert]
  split <;> rfl

end StakeTable

namespace LawfulWire

instance : LawfulWire StakeTable where
  length_pos t := length_pos t.entries
  reads t := by
    have hread := (reads t.entries).last StakeTable.ofList
    rwa [StakeTable.ofList_entries] at hread

instance : LawfulWire Snapshot where
  length_pos s := length_append_pos _ (length_pos s.stakes)
  reads s := by
    change Wire.Reads _ (_ ++ _ ++ _ ++ _) _
    simp only [List.append_assoc]
    exact (reads s.block).bind <| (reads s.epoch).bind <| (reads s.updatedAt).bind <|
      (reads s.stakes).last _

end LawfulWire

namespace Store

/-- What the store holds is counted in 64 bits. -/
def Fits (s : Store) : Prop := ∀ bytes ∈ s.record, bytes.length < 2 ^ 64

theorem snapshot_put {s : Snapshot} (h : (put s).Fits) : (put s).snapshot = .ok (some s) := by
  have hread := (LawfulWire.reads s (h _ rfl)).1 []
  rw [List.append_nil] at hread
  simp only [snapshot, put, Wire.read, hread]

end Store

end EpochSeal
