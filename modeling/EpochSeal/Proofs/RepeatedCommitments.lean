import EpochSeal.Proofs.Envelope

/-! How many bridge commitments a block may hold. Each of them has to continue the range that is committed
in the parent's state, but a scan that has let one through lets the next one through as well. -/
namespace EpochSeal.RoundInputs
open Outcome

variable {r : RoundInputs} {chain : Chain} {index : Nat} {seen last : List StateCallKind}
  {ts front back commitments : List Transaction} {t : Transaction}

def commitmentsOf (r : RoundInputs) (ts : List Transaction) : List Transaction :=
  ts.filter fun t => t.isState && r.isCommitment t

theorem mem_commitmentsOf :
    t ∈ r.commitmentsOf ts ↔ t ∈ ts ∧ t.isState = true ∧ r.isCommitment t = true := by
  rw [commitmentsOf, List.mem_filter, Bool.and_eq_true]

theorem checkFrom_append_ok_iff : r.checkFrom chain index seen (front ++ back) = .ok last ↔
    ∃ middle, r.checkFrom chain index seen front = .ok middle ∧
      r.checkFrom chain (index + front.length) middle back = .ok last := by
  induction front generalizing index seen with
  | nil =>
      constructor
      · intro h
        exact ⟨seen, rfl, h⟩
      · rintro ⟨_, hfront, h⟩
        cases hfront
        exact h
  | cons t front ih =>
      have hshift : index + (t :: front).length = index + 1 + front.length := by
        rw [List.length_cons]
        omega
      simp only [List.cons_append, checkFrom, bind_ok_iff, ih, hshift]
      constructor
      · rintro ⟨next, hnext, middle, hfront, hback⟩
        exact ⟨middle, ⟨next, hnext, hfront⟩, hback⟩
      · rintro ⟨middle, ⟨next, hnext, hfront⟩, hback⟩
        exact ⟨next, hnext, middle, hfront, hback⟩

theorem checkFrom_commitments_ok_iff (h : ∀ t ∈ ts, t.isState = true ∧ r.isCommitment t = true) :
    r.checkFrom chain index seen ts = .ok last ↔
      (∀ t ∈ ts, r.checkCommitment chain t = .ok ()) ∧ seen = last := by
  induction ts generalizing index seen with
  | nil => simp [checkFrom]
  | cons t rest ih =>
      obtain ⟨hfirst, hrest⟩ := List.forall_mem_cons.1 h
      simp only [checkFrom, bind_ok_iff, checkTransaction_commitment_iff hfirst.1 hfirst.2, ih hrest,
        List.forall_mem_cons]
      constructor
      · rintro ⟨_, ⟨ht, rfl⟩, hall, hlast⟩
        exact ⟨⟨ht, hall⟩, hlast⟩
      · rintro ⟨⟨ht, hall⟩, hlast⟩
        exact ⟨seen, ⟨ht, rfl⟩, hall, hlast⟩

/-- Behind the first place, no place is better than another. -/
theorem placed_behind_iff {index' : Nat} (hindex : 0 < index) (hindex' : 0 < index')
    {kind : StateCallKind} : r.Placed index seen kind ↔ r.Placed index' seen kind := by
  have hne : index ≠ 0 := Nat.pos_iff_ne_zero.1 hindex
  have hne' : index' ≠ 0 := Nat.pos_iff_ne_zero.1 hindex'
  cases kind <;> simp [Placed, hne, hne']

theorem Permits.behind {index' : Nat} (h : r.Permits chain index seen t) (hindex : 0 < index)
    (hindex' : 0 < index') : r.Permits chain index' seen t where
  commitment := h.commitment
  call hstate hbridge := by
    obtain ⟨kind, hown, hnew, hplace⟩ := h.call hstate hbridge
    exact ⟨kind, hown, hnew, (placed_behind_iff hindex hindex').1 hplace⟩

theorem checkFrom_behind_iff {index' : Nat} (hindex : 0 < index) (hindex' : 0 < index') :
    r.checkFrom chain index seen ts = .ok last ↔ r.checkFrom chain index' seen ts = .ok last := by
  induction ts generalizing index index' seen with
  | nil => rfl
  | cons t rest ih =>
      have hpermits : r.Permits chain index seen t ↔ r.Permits chain index' seen t :=
        ⟨fun h => h.behind hindex hindex', fun h => h.behind hindex' hindex⟩
      simp only [checkFrom, bind_ok_iff, checkTransaction_ok_iff, hpermits,
        ih (Nat.succ_pos index) (Nat.succ_pos index')]

theorem checkFrom_insert_iff (hfront : front ≠ [])
    (h : ∀ t ∈ commitments, t.isState = true ∧ r.isCommitment t = true) :
    r.checkFrom chain 0 seen (front ++ commitments ++ back) = .ok last ↔
      (∀ t ∈ commitments, r.checkCommitment chain t = .ok ()) ∧
        r.checkFrom chain 0 seen (front ++ back) = .ok last := by
  have hlength : 0 < front.length := List.length_pos_iff.2 hfront
  -- what follows the commitments only moves to a place further behind
  have hback (middle : List StateCallKind) :
      r.checkFrom chain (0 + (front ++ commitments).length) middle back = .ok last ↔
        r.checkFrom chain (0 + front.length) middle back = .ok last := by
    apply checkFrom_behind_iff
    · rw [List.length_append]
      omega
    · omega
  simp only [checkFrom_append_ok_iff, checkFrom_commitments_ok_iff h, hback]
  constructor
  · rintro ⟨middle, ⟨_, hscan, hall, rfl⟩, hrest⟩
    exact ⟨hall, _, hscan, hrest⟩
  · rintro ⟨hall, middle, hscan, hrest⟩
    exact ⟨middle, ⟨middle, hscan, hall, rfl⟩, hrest⟩

theorem checkTransactions_insert_iff (hfront : front ≠ [])
    (h : ∀ t ∈ commitments, t.isState = true ∧ r.isCommitment t = true) :
    r.checkTransactions chain (front ++ commitments ++ back) = .ok () ↔
      (∀ t ∈ commitments, r.checkCommitment chain t = .ok ()) ∧
        r.checkTransactions chain (front ++ back) = .ok () := by
  simp only [checkTransactions, bind_ok_iff, checkFrom_insert_iff hfront h]
  constructor
  · rintro ⟨seen, ⟨hall, hscan⟩, hneeded⟩
    exact ⟨hall, seen, hscan, hneeded⟩
  · rintro ⟨hall, seen, hscan, hneeded⟩
    exact ⟨seen, ⟨hall, hscan⟩, hneeded⟩

theorem checkTransactions_append_iff
    (h : ∀ t ∈ commitments, t.isState = true ∧ r.isCommitment t = true) :
    r.checkTransactions chain (front ++ commitments) = .ok () ↔
      (∀ t ∈ commitments, r.checkCommitment chain t = .ok ()) ∧ r.checkTransactions chain front = .ok () := by
  simp only [checkTransactions, bind_ok_iff, checkFrom_append_ok_iff, checkFrom_commitments_ok_iff h]
  constructor
  · rintro ⟨_, ⟨seen, hscan, hall, rfl⟩, hneeded⟩
    exact ⟨hall, seen, hscan, hneeded⟩
  · rintro ⟨hall, seen, hscan, hneeded⟩
    exact ⟨seen, ⟨seen, hscan, hall, rfl⟩, hneeded⟩

theorem checkCommitment_of_accepted (h : r.checkTransactions chain ts = .ok ())
    (ht : t ∈ r.commitmentsOf ts) : r.checkCommitment chain t = .ok () := by
  obtain ⟨hmem, hstate, hbridge⟩ := mem_commitmentsOf.1 ht
  obtain ⟨_, _, hpermits⟩ := permits_of_accepted h hmem
  exact hpermits.commitment hstate hbridge

/-- A commitment that passes by itself passes any number of times. -/
theorem accepted_of_passing (h : r.checkTransactions chain ts = .ok ()) (hstate : t.isState = true)
    (hbridge : r.isCommitment t = true) (hcheck : r.checkCommitment chain t = .ok ()) (n : Nat) :
    ∃ ts', r.checkTransactions chain ts' = .ok () ∧ n < (r.commitmentsOf ts').length := by
  have hcopies : ∀ u ∈ List.replicate (n + 1) t, u = t := by
    intro u hu
    exact List.eq_of_mem_replicate hu
  refine ⟨ts ++ List.replicate (n + 1) t, (checkTransactions_append_iff ?_).2 ⟨?_, h⟩, ?_⟩
  · intro u hu
    rw [hcopies u hu]
    exact ⟨hstate, hbridge⟩
  · intro u hu
    rw [hcopies u hu]
    exact hcheck
  · have hall : r.commitmentsOf (List.replicate (n + 1) t) = List.replicate (n + 1) t := by
      apply List.filter_eq_self.2
      intro u hu
      rw [hcopies u hu, hstate, hbridge]
      rfl
    rw [commitmentsOf, List.filter_append, List.length_append]
    change n < (r.commitmentsOf ts).length + (r.commitmentsOf (List.replicate (n + 1) t)).length
    rw [hall, List.length_replicate]
    omega

/-- Every commitment in an accepted block starts where the parent's state ends, so any two of them commit
the same first event. Behind the first transaction, commitments that pass by themselves can be put in and
taken out at will. A block with more than one of them, and with more than any number, is accepted exactly
if a block is accepted at all and one commitment passes by itself. -/
theorem commitments_repeat (r : RoundInputs) (chain : Chain) :
    (∀ ts, r.checkTransactions chain ts = .ok () → ∀ t ∈ r.commitmentsOf ts, ∃ signed state,
      SignedCommitment.decode t.input = .ok signed ∧ chain.systemState r.parent = .ok state ∧
      state.nextCommittedIndex = .ok signed.message.startId) ∧
    (∀ front commitments back, front ≠ [] →
      (∀ t ∈ commitments, t.isState = true ∧ r.isCommitment t = true) →
      (r.checkTransactions chain (front ++ commitments ++ back) = .ok () ↔
        (∀ t ∈ commitments, r.checkCommitment chain t = .ok ()) ∧
          r.checkTransactions chain (front ++ back) = .ok ())) ∧
    ∀ n, (∃ ts, r.checkTransactions chain ts = .ok () ∧ n < (r.commitmentsOf ts).length) ↔
      (∃ ts, r.checkTransactions chain ts = .ok ()) ∧
        ∃ t, t.isState = true ∧ r.isCommitment t = true ∧ r.checkCommitment chain t = .ok () := by
  refine ⟨?_, ?_, ?_⟩
  · intro ts haccepted t ht
    obtain ⟨signed, state, hdecode, hread, hstart, -⟩ :=
      checkCommitment_ok_iff.1 (checkCommitment_of_accepted haccepted ht)
    exact ⟨signed, state, hdecode, hread, hstart⟩
  · intro front commitments back hfront hcommits
    exact checkTransactions_insert_iff hfront hcommits
  · intro n
    constructor
    · rintro ⟨ts, haccepted, hmany⟩
      obtain ⟨t, ht⟩ := List.exists_mem_of_length_pos (Nat.zero_lt_of_lt hmany)
      obtain ⟨-, hstate, hbridge⟩ := mem_commitmentsOf.1 ht
      exact ⟨⟨ts, haccepted⟩, t, hstate, hbridge, checkCommitment_of_accepted haccepted ht⟩
    · rintro ⟨⟨ts, haccepted⟩, t, hstate, hbridge, hcheck⟩
      exact accepted_of_passing haccepted hstate hbridge hcheck n

end EpochSeal.RoundInputs
