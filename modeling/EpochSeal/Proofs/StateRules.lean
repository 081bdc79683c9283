import EpochSeal.Proofs.Outcome
import EpochSeal.Round.StateRules
import Mathlib.Tactic.ByContra
import Mathlib.Tactic.Tauto

/-! What a scan over the state transactions of a block accepts, said by positions in the block
instead of by the kinds that the scan has seen. -/
namespace EpochSeal.RoundInputs
open Outcome

/-- The transaction of a kind that this node makes itself, if it has what that takes. -/
def ownCall? (r : RoundInputs) : StateCallKind → Option Transaction
  | .commitEpoch => r.commitEpochTransaction.toOption
  | .fundRewardWallet => some r.fundTransaction
  | .distributeRewards => r.rewardsTransaction.toOption
  | .distributeDaoIncentive => some r.incentiveTransaction
  | .syncPowers => r.syncTransaction?

/-- The kind of call that a transaction makes; commitments and what users send make none. -/
def callKind? (r : RoundInputs) (t : Transaction) : Option StateCallKind :=
  if t.isState && !r.isCommitment t then (StateCall.decode t.input).toOption.map StateCall.kind
  else none

/-- The transaction at an index of a block makes a call of the given kind. -/
def CallAt (r : RoundInputs) (ts : List Transaction) (index : Nat) (kind : StateCallKind) : Prop :=
  ∃ t, ts[index]? = some t ∧ r.callKind? t = some kind

/-- A transaction is a call that can be read, and its digest is that of the call of its kind that
this node makes itself. -/
def OwnCall (r : RoundInputs) (t : Transaction) (kind : StateCallKind) : Prop :=
  ∃ call own, StateCall.decode t.input = .ok call ∧ call.kind = kind ∧
    r.ownCall? kind = some own ∧ t.computeDigest r.height = own.digest

/-- The blocks that the rules mean to let through. -/
structure Intended (r : RoundInputs) (chain : Chain) (ts : List Transaction) : Prop where
  commitments : ∀ t ∈ ts, t.isState → r.isCommitment t → r.checkCommitment chain t = .ok ()
  own : ∀ t ∈ ts, t.isState → ¬ r.isCommitment t → ∃ kind, r.OwnCall t kind
  once : ∀ i j kind, r.CallAt ts i kind → r.CallAt ts j kind → i = j
  /-- A block that ends an epoch commits it first and pays rewards and incentive. -/
  ending : r.endsEpoch → r.CallAt ts 0 .commitEpoch ∧ (∃ i, r.CallAt ts i .distributeRewards) ∧
    ∃ i, r.CallAt ts i .distributeDaoIncentive
  /-- If the reward wallet lacks something, it is topped up before either is paid. -/
  funding : r.endsEpoch → r.fundAmount ≠ 0 → ∃ i, r.CallAt ts i .fundRewardWallet ∧
    (∀ j, r.CallAt ts j .distributeRewards → i < j) ∧
    ∀ j, r.CallAt ts j .distributeDaoIncentive → i < j
  notEnding : ¬ r.endsEpoch → ∀ i kind, r.CallAt ts i kind → kind = .syncPowers
  sync : (∃ i, r.CallAt ts i .syncPowers) ↔ r.startsEpoch ∧ r.powerSync.isSome
  syncFirst : ∀ i, r.CallAt ts i .syncPowers → i = 0

/-- Where a kind of call may stand, after the kinds that were seen before it. -/
def Placed (r : RoundInputs) (index : Nat) (seen : List StateCallKind) : StateCallKind → Prop
  | .commitEpoch => r.endsEpoch ∧ index = 0
  | .fundRewardWallet => r.endsEpoch
  | .distributeRewards | .distributeDaoIncentive =>
    r.endsEpoch ∧ (r.fundAmount ≠ 0 → .fundRewardWallet ∈ seen)
  | .syncPowers => r.startsEpoch ∧ index = 0

/-- What the scan asks of one transaction. -/
structure Permits (r : RoundInputs) (chain : Chain) (index : Nat) (seen : List StateCallKind)
    (t : Transaction) : Prop where
  commitment : t.isState → r.isCommitment t → r.checkCommitment chain t = .ok ()
  call : t.isState → ¬ r.isCommitment t →
    ∃ kind, r.OwnCall t kind ∧ kind ∉ seen ∧ r.Placed index seen kind

theorem compare_ok_iff {r : RoundInputs} {kind : StateCallKind} {actual expected : Transaction} :
    r.compare kind actual expected = .ok () ↔ actual.computeDigest r.height = expected.digest := by
  simp only [compare]
  split <;> simp_all

theorem checkFirst_ok_iff {kind : StateCallKind} {seen : List StateCallKind} :
    checkFirst kind seen = .ok () ↔ kind ∉ seen := by
  unfold checkFirst
  split <;> simp_all

theorem checkEnding_ok_iff {r : RoundInputs} {kind : StateCallKind} {seen : List StateCallKind} :
    r.checkEnding kind seen = .ok () ↔ r.endsEpoch ∧ kind ∉ seen := by
  unfold checkEnding
  split <;> simp_all [checkFirst_ok_iff]

theorem checkIndex_ok_iff {index : Nat} : checkIndex index = .ok () ↔ index = 0 := by
  unfold checkIndex
  split <;> simp_all

theorem checkFunded_ok_iff {r : RoundInputs} {seen : List StateCallKind} :
    r.checkFunded seen = .ok () ↔ (r.fundAmount ≠ 0 → .fundRewardWallet ∈ seen) := by
  unfold checkFunded fundRequired
  split <;> simp_all

theorem checkCall_ok_iff {r : RoundInputs} {index : Nat} {seen : List StateCallKind}
    {t : Transaction} {kind : StateCallKind} :
    r.checkCall index seen t kind = .ok () ↔
      (∃ own, r.ownCall? kind = some own ∧ t.computeDigest r.height = own.digest) ∧
        kind ∉ seen ∧ r.Placed index seen kind := by
  cases kind with
  | commitEpoch =>
      simp only [checkCall, bind_ok_iff, exists_unit, checkEnding_ok_iff, checkIndex_ok_iff,
        compare_ok_iff, ownCall?, toOption_eq_some_iff, Placed]
      tauto
  | fundRewardWallet =>
      simp only [checkCall, bind_ok_iff, exists_unit, checkEnding_ok_iff, compare_ok_iff, ownCall?, Placed,
        Option.some.injEq, exists_eq_left']
      tauto
  | distributeRewards =>
      simp only [checkCall, bind_ok_iff, exists_unit, checkEnding_ok_iff, checkFunded_ok_iff,
        compare_ok_iff, ownCall?, toOption_eq_some_iff, Placed]
      tauto
  | distributeDaoIncentive =>
      simp only [checkCall, bind_ok_iff, exists_unit, checkEnding_ok_iff, checkFunded_ok_iff, compare_ok_iff,
        ownCall?, Placed, Option.some.injEq, exists_eq_left']
      tauto
  | syncPowers =>
      simp only [checkCall, ownCall?, Placed]
      cases r.syncTransaction? with
      | none => simp
      | some own =>
          cases r.startsEpoch with
          | false => simp
          | true =>
              simp only [Bool.not_true, Bool.false_eq_true, if_false, bind_ok_iff, exists_unit,
                checkFirst_ok_iff, checkIndex_ok_iff, compare_ok_iff, Option.some.injEq,
                exists_eq_left']
              tauto

theorem callKind?_eq_some_iff {r : RoundInputs} {t : Transaction} {kind : StateCallKind} :
    r.callKind? t = some kind ↔ t.isState ∧ ¬ r.isCommitment t ∧
      ∃ call, StateCall.decode t.input = .ok call ∧ call.kind = kind := by
  unfold callKind?
  split
  · next h => simp_all [toOption_eq_some_iff]
  · next h =>
      simp only [Bool.and_eq_true, Bool.not_eq_true', not_and] at h
      simp_all

/-- Whatever a transaction of the block is, it either adds its kind to those seen or none. -/
theorem checkTransaction_ok_iff {r : RoundInputs} {chain : Chain} {index : Nat}
    {seen seen' : List StateCallKind} {t : Transaction} :
    r.checkTransaction chain index seen t = .ok seen' ↔
      r.Permits chain index seen t ∧ (r.callKind? t).toList ++ seen = seen' := by
  by_cases hstate : t.isState
  · by_cases hbridge : r.isCommitment t
    · have hkind : r.callKind? t = none := by simp [callKind?, hbridge]
      have hpermits : r.Permits chain index seen t ↔ r.checkCommitment chain t = .ok () :=
        ⟨fun h => h.commitment hstate hbridge, fun h => ⟨fun _ _ => h, fun _ hn => absurd hbridge hn⟩⟩
      simp only [checkTransaction, hstate, hbridge, hkind, hpermits, Bool.not_true,
        Bool.false_eq_true, if_false, if_true, bind_ok_iff, exists_unit, pure_ok_iff,
        Option.toList_none, List.nil_append]
    · simp only [checkTransaction, hstate, hbridge, Bool.not_true, Bool.false_eq_true, if_false,
        bind_ok_iff, exists_unit, mapError_ok_iff, pure_ok_iff, checkCall_ok_iff]
      constructor
      · rintro ⟨call, hcall, ⟨⟨own, hown, hdigest⟩, hnew, hplace⟩, hseen⟩
        have hkind : r.callKind? t = some call.kind :=
          callKind?_eq_some_iff.2 ⟨hstate, hbridge, call, hcall, rfl⟩
        refine ⟨⟨fun _ hb => absurd hb hbridge, fun _ _ => ⟨call.kind, ?_, hnew, hplace⟩⟩, ?_⟩
        · exact ⟨call, own, hcall, rfl, hown, hdigest⟩
        · rw [← hseen, hkind]
          rfl
      · rintro ⟨hpermits, hseen⟩
        obtain ⟨kind, ⟨call, own, hcall, rfl, hown, hdigest⟩, hnew, hplace⟩ :=
          hpermits.call hstate hbridge
        have hkind : r.callKind? t = some call.kind :=
          callKind?_eq_some_iff.2 ⟨hstate, hbridge, call, hcall, rfl⟩
        refine ⟨call, hcall, ⟨⟨own, hown, hdigest⟩, hnew, hplace⟩, ?_⟩
        rw [← hseen, hkind]
        rfl
  · have hkind : r.callKind? t = none := by simp [callKind?, hstate]
    have hpermits : r.Permits chain index seen t :=
      ⟨fun h => absurd h hstate, fun h => absurd h hstate⟩
    simp only [checkTransaction, hstate, hkind, hpermits, Bool.not_false, if_true, pure_ok_iff,
      Option.toList_none, List.nil_append, true_and]

def kindsOf (r : RoundInputs) (ts : List Transaction) : List StateCallKind :=
  (ts.filterMap r.callKind?).reverse

theorem kindsOf_cons (r : RoundInputs) (t : Transaction) (rest : List Transaction) :
    r.kindsOf (t :: rest) = r.kindsOf rest ++ (r.callKind? t).toList := by
  unfold kindsOf
  cases h : r.callKind? t <;> simp [h]

theorem mem_kindsOf {r : RoundInputs} {ts : List Transaction} {kind : StateCallKind} :
    kind ∈ r.kindsOf ts ↔ ∃ i, r.CallAt ts i kind := by
  simp only [kindsOf, List.mem_reverse, List.mem_filterMap, CallAt]
  constructor
  · rintro ⟨t, ht, hkind⟩
    obtain ⟨i, hi⟩ := List.mem_iff_getElem?.1 ht
    exact ⟨i, t, hi, hkind⟩
  · rintro ⟨i, t, hi, hkind⟩
    exact ⟨t, List.mem_iff_getElem?.2 ⟨i, hi⟩, hkind⟩

theorem mem_kindsOf_take {r : RoundInputs} {ts : List Transaction} {j : Nat}
    {kind : StateCallKind} :
    kind ∈ r.kindsOf (ts.take j) ↔ ∃ i, i < j ∧ r.CallAt ts i kind := by
  simp only [mem_kindsOf, CallAt, List.getElem?_take]
  refine exists_congr fun i => ?_
  by_cases h : i < j <;> simp [h]

/-- The scan from an index on accepts exactly if every transaction is permitted after the kinds of
the calls in front of it. -/
theorem checkFrom_ok_iff {r : RoundInputs} {chain : Chain} {index : Nat}
    {seen seen' : List StateCallKind} {ts : List Transaction} :
    r.checkFrom chain index seen ts = .ok seen' ↔
      (∀ i t, ts[i]? = some t → r.Permits chain (index + i) (r.kindsOf (ts.take i) ++ seen) t) ∧
        r.kindsOf ts ++ seen = seen' := by
  -- the kinds seen so far grow with every call, so the induction is over all of them at once
  induction ts generalizing index seen with
  | nil => simp [checkFrom, kindsOf]
  | cons t rest ih =>
      simp only [checkFrom, bind_ok_iff, checkTransaction_ok_iff, ih]
      have hshift : ∀ i, index + 1 + i = index + (i + 1) := by omega
      constructor
      · rintro ⟨_, ⟨hfirst, rfl⟩, hrest, hseen⟩
        refine ⟨fun i u hu => ?_, by rw [← hseen, kindsOf_cons, List.append_assoc]⟩
        cases i with
        | zero =>
            cases hu
            exact hfirst
        | succ i =>
            have h := hrest i u hu
            rwa [hshift, ← List.append_assoc, ← kindsOf_cons] at h
      · rintro ⟨hall, hseen⟩
        refine ⟨_, ⟨hall 0 t rfl, rfl⟩, fun i u hu => ?_, ?_⟩
        · have h := hall (i + 1) u hu
          rwa [List.take_succ_cons, kindsOf_cons, List.append_assoc, ← hshift] at h
        · rw [← hseen, kindsOf_cons, List.append_assoc]

/-- The whole scan, by what is permitted at each place and what must not be missing. -/
theorem checkTransactions_ok_iff {r : RoundInputs} {chain : Chain} {ts : List Transaction} :
    r.checkTransactions chain ts = .ok () ↔
      (∀ i t, ts[i]? = some t → r.Permits chain i (r.kindsOf (ts.take i)) t) ∧
        ∀ kind ∈ r.neededKinds, ∃ i, r.CallAt ts i kind := by
  simp only [checkTransactions, bind_ok_iff, checkFrom_ok_iff, Nat.zero_add, List.append_nil,
    ← mem_kindsOf]
  constructor
  · rintro ⟨_, ⟨hall, rfl⟩, h⟩
    refine ⟨hall, ?_⟩
    split at h
    · cases h
    · next hnone => simpa using hnone
  · rintro ⟨hall, hneeded⟩
    refine ⟨_, ⟨hall, rfl⟩, ?_⟩
    have hnone : (r.neededKinds.find? fun kind => decide (kind ∉ r.kindsOf ts)) = none := by
      simpa using hneeded
    rw [hnone]
    rfl

theorem mem_neededKinds {r : RoundInputs} {kind : StateCallKind} :
    kind ∈ r.neededKinds ↔
      (r.endsEpoch ∧ (kind = .commitEpoch ∨ kind = .distributeRewards ∨
        kind = .distributeDaoIncentive ∨ (kind = .fundRewardWallet ∧ r.fundAmount ≠ 0))) ∨
      (kind = .syncPowers ∧ r.startsEpoch ∧ r.powerSync.isSome) := by
  unfold neededKinds fundRequired
  cases r.endsEpoch <;> cases r.startsEpoch <;> cases r.powerSync.isSome <;>
    by_cases h : r.fundAmount = 0 <;> simp [h] <;> tauto

theorem ownCall?_syncPowers {r : RoundInputs} :
    (∃ own, r.ownCall? .syncPowers = some own) ↔ r.powerSync.isSome := by
  simp only [ownCall?, syncTransaction?]
  cases r.powerSync <;> simp

theorem OwnCall.callAt {r : RoundInputs} {ts : List Transaction} {i : Nat} {t : Transaction}
    {kind : StateCallKind} (h : r.OwnCall t kind) (ht : ts[i]? = some t) (hstate : t.isState)
    (hbridge : ¬ r.isCommitment t) : r.CallAt ts i kind := by
  obtain ⟨call, _, hcall, hkind, _⟩ := h
  exact ⟨t, ht, callKind?_eq_some_iff.2 ⟨hstate, hbridge, call, hcall, hkind⟩⟩

/-- What an accepting scan knows of a call: it is the node's own, new at its place, and placed. -/
theorem CallAt.permitted {r : RoundInputs} {chain : Chain} {ts : List Transaction} {i : Nat}
    {kind : StateCallKind} (h : r.CallAt ts i kind)
    (hall : ∀ i t, ts[i]? = some t → r.Permits chain i (r.kindsOf (ts.take i)) t) :
    (∃ own, r.ownCall? kind = some own) ∧ kind ∉ r.kindsOf (ts.take i) ∧
      r.Placed i (r.kindsOf (ts.take i)) kind := by
  obtain ⟨t, ht, hkind⟩ := h
  obtain ⟨hstate, hbridge, call, hcall, rfl⟩ := callKind?_eq_some_iff.1 hkind
  obtain ⟨kind, ⟨call', own, hcall', rfl, hown, _⟩, hnew, hplace⟩ := (hall i t ht).call hstate hbridge
  cases hcall.symm.trans hcall'
  exact ⟨⟨own, hown⟩, hnew, hplace⟩

theorem CallAt.unique {r : RoundInputs} {chain : Chain} {ts : List Transaction} {i j : Nat}
    {kind : StateCallKind} (hi : r.CallAt ts i kind) (hj : r.CallAt ts j kind)
    (hall : ∀ i t, ts[i]? = some t → r.Permits chain i (r.kindsOf (ts.take i)) t) : i = j := by
  rcases Nat.lt_trichotomy i j with hlt | heq | hgt
  · exact absurd (mem_kindsOf_take.2 ⟨i, hlt, hi⟩) (hj.permitted hall).2.1
  · exact heq
  · exact absurd (mem_kindsOf_take.2 ⟨j, hgt, hj⟩) (hi.permitted hall).2.1

/-- What a scan lets through place by place, with nothing missing, is what the rules mean. -/
theorem intended_of_permits {r : RoundInputs} {chain : Chain} {ts : List Transaction}
    (hall : ∀ i t, ts[i]? = some t → r.Permits chain i (r.kindsOf (ts.take i)) t)
    (hneeded : ∀ kind ∈ r.neededKinds, ∃ i, r.CallAt ts i kind) : r.Intended chain ts where
  commitments t ht hstate hbridge := by
    obtain ⟨i, hi⟩ := List.mem_iff_getElem?.1 ht
    exact (hall i t hi).commitment hstate hbridge
  own t ht hstate hbridge := by
    obtain ⟨i, hi⟩ := List.mem_iff_getElem?.1 ht
    obtain ⟨kind, hown, _⟩ := (hall i t hi).call hstate hbridge
    exact ⟨kind, hown⟩
  once i j kind hi hj := hi.unique hj hall
  ending hends := by
    obtain ⟨i, hi⟩ := hneeded .commitEpoch (mem_neededKinds.2 (by simp [hends]))
    have hzero : i = 0 := (hi.permitted hall).2.2.2
    exact ⟨hzero ▸ hi, hneeded _ (mem_neededKinds.2 (by simp [hends])),
      hneeded _ (mem_neededKinds.2 (by simp [hends]))⟩
  funding hends hfund := by
    obtain ⟨i, hi⟩ := hneeded .fundRewardWallet (mem_neededKinds.2 (by simpa [hends] using hfund))
    -- the scan saw a top-up in front of a payment, and there is only the one
    have hbefore : ∀ j, .fundRewardWallet ∈ r.kindsOf (ts.take j) → i < j := by
      intro j hj
      obtain ⟨i', hlt, hi'⟩ := mem_kindsOf_take.1 hj
      rwa [hi.unique hi' hall]
    exact ⟨i, hi, fun j hj => hbefore j ((hj.permitted hall).2.2.2 hfund),
      fun j hj => hbefore j ((hj.permitted hall).2.2.2 hfund)⟩
  notEnding hends i kind hi := by
    have hplace := (hi.permitted hall).2.2
    cases kind with
    | syncPowers => rfl
    | fundRewardWallet => exact absurd hplace hends
    | commitEpoch => exact absurd hplace.1 hends
    | distributeRewards => exact absurd hplace.1 hends
    | distributeDaoIncentive => exact absurd hplace.1 hends
  sync := by
    constructor
    · rintro ⟨i, hi⟩
      obtain ⟨hown, _, hplace⟩ := hi.permitted hall
      exact ⟨hplace.1, ownCall?_syncPowers.1 hown⟩
    · intro h
      exact hneeded .syncPowers (mem_neededKinds.2 (.inr ⟨rfl, h⟩))
  syncFirst i hi := (hi.permitted hall).2.2.2

theorem Intended.endsEpoch {r : RoundInputs} {chain : Chain} {ts : List Transaction} {i : Nat}
    {kind : StateCallKind} (h : r.Intended chain ts) (hi : r.CallAt ts i kind)
    (hkind : kind ≠ .syncPowers) : r.endsEpoch := by
  by_contra hends
  exact hkind (h.notEnding hends i kind hi)

theorem Intended.placed {r : RoundInputs} {chain : Chain} {ts : List Transaction} {i : Nat}
    {kind : StateCallKind} (h : r.Intended chain ts) (hi : r.CallAt ts i kind) :
    r.Placed i (r.kindsOf (ts.take i)) kind := by
  cases kind with
  | commitEpoch =>
      have hends := h.endsEpoch hi (by decide)
      exact ⟨hends, h.once i 0 _ hi (h.ending hends).1⟩
  | fundRewardWallet => exact h.endsEpoch hi (by decide)
  | distributeRewards =>
      have hends := h.endsEpoch hi (by decide)
      refine ⟨hends, fun hfund => ?_⟩
      obtain ⟨j, hj, hrewards, _⟩ := h.funding hends hfund
      exact mem_kindsOf_take.2 ⟨j, hrewards i hi, hj⟩
  | distributeDaoIncentive =>
      have hends := h.endsEpoch hi (by decide)
      refine ⟨hends, fun hfund => ?_⟩
      obtain ⟨j, hj, _, hincentive⟩ := h.funding hends hfund
      exact mem_kindsOf_take.2 ⟨j, hincentive i hi, hj⟩
  | syncPowers => exact ⟨(h.sync.1 ⟨i, hi⟩).1, h.syncFirst i hi⟩

theorem Intended.permits {r : RoundInputs} {chain : Chain} {ts : List Transaction} {i : Nat}
    {t : Transaction} (h : r.Intended chain ts) (ht : ts[i]? = some t) :
    r.Permits chain i (r.kindsOf (ts.take i)) t where
  commitment := h.commitments t (List.mem_iff_getElem?.2 ⟨i, ht⟩)
  call hstate hbridge := by
    obtain ⟨kind, hown⟩ := h.own t (List.mem_iff_getElem?.2 ⟨i, ht⟩) hstate hbridge
    have hi := hown.callAt ht hstate hbridge
    refine ⟨kind, hown, fun hseen => ?_, h.placed hi⟩
    obtain ⟨j, hlt, hj⟩ := mem_kindsOf_take.1 hseen
    exact absurd (h.once j i kind hj hi) (by omega)

theorem Intended.complete {r : RoundInputs} {chain : Chain} {ts : List Transaction}
    (h : r.Intended chain ts) : ∀ kind ∈ r.neededKinds, ∃ i, r.CallAt ts i kind := by
  intro kind hkind
  rcases mem_neededKinds.1 hkind with ⟨hends, rfl | rfl | rfl | ⟨rfl, hfund⟩⟩ | ⟨rfl, hsync⟩
  · exact ⟨0, (h.ending hends).1⟩
  · exact (h.ending hends).2.1
  · exact (h.ending hends).2.2
  · obtain ⟨i, hi, _⟩ := h.funding hends hfund
    exact ⟨i, hi⟩
  · exact h.sync.2 hsync

/-- A block is let through exactly if the rules mean to let it through. -/
theorem checkTransactions_ok_iff_intended (r : RoundInputs) (chain : Chain)
    (ts : List Transaction) : r.checkTransactions chain ts = .ok () ↔ r.Intended chain ts := by
  rw [checkTransactions_ok_iff]
  constructor
  · rintro ⟨hall, hneeded⟩
    exact intended_of_permits hall hneeded
  · intro h
    exact ⟨fun _ _ ht => h.permits ht, h.complete⟩

end EpochSeal.RoundInputs
