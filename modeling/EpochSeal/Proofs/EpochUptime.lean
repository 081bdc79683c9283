import EpochSeal.Proofs.EpochAgreement
import EpochSeal.Proofs.EpochSequence

/-! The uptime that a node reports at the end of an epoch says of every member how many blocks of the epoch
it sealed. A block that cannot be counted is not left out: there is no round then. -/
namespace EpochSeal
open Outcome

def Header.ownSeal? (header : Header) : Option Seal :=
  (Extension.decode header.extraData).toOption.bind (·.committedSeal)

namespace Uptime

variable {chain : Chain} {parent : Header} {validators : ValidatorSet} {i : Nat} {v : Validator}

/-- Whether the seal of the block at a height selects the member at an index. -/
def sealedBy (chain : Chain) (parent : Header) (i : Nat) (number : UInt64) : Bool :=
  (headerAt chain parent number).toOption.any fun header =>
    header.ownSeal?.any (·.signers.contains i)

/-- The heights of an epoch below its last one, if that is the height above `parent`. -/
def heights (epochSize : UInt64) (parent : Header) : List UInt64 :=
  (List.range' (parent.number.toNat + 2 - epochSize.toNat) (epochSize.toNat - 1)).map UInt64.ofNat

/-- How many of these blocks the member at an index sealed. -/
def blocksSealed (chain : Chain) (epochSize : UInt64) (parent : Header) (i : Nat) : Nat :=
  (heights epochSize parent).countP (sealedBy chain parent i)

/-- The list says of every member that sealed a block of the epoch how many it sealed, in the order of
the set. -/
structure Tallies (chain : Chain) (epochSize : UInt64) (parent : Header) (validators : ValidatorSet)
    (uptime : List Uptime) : Prop where
  order : (uptime.map (·.validator)).Sublist validators.addresses
  distinct : (uptime.map (·.validator)).Nodup
  present : ∀ i v, validators.members[i]? = some v → (v.address ∈ uptime.map (·.validator) ↔
    ∃ number ∈ heights epochSize parent, sealedBy chain parent i number = true)
  signed : ∀ i v, validators.members[i]? = some v → ∀ u ∈ uptime, u.validator = v.address →
    u.signed.toNat = blocksSealed chain epochSize parent i
  bounds : ∀ u ∈ uptime, 1 ≤ u.signed.toNat ∧ u.signed.toNat ≤ epochSize.toNat - 1

/-- A bitmap selects every member once or not at all. -/
theorem countP_indices (hdistinct : validators.addresses.Nodup) (hv : validators.members[i]? = some v)
    (signers : Bitmap) :
    (signers.indices.countP fun j => validators.members[j]?.any fun w => w.address = v.address) =
      if signers.contains i then 1 else 0 := by
  -- no other member has this address, so the count is that of one index among distinct ones
  have hsame (j : Nat) : (validators.members[j]?.any fun w => w.address = v.address) = (j == i) := by
    have hplace := (ValidatorSet.indexOf?_eq_some_iff hdistinct).2 ⟨v, hv, rfl⟩
    have hother := ValidatorSet.indexOf?_eq_some_iff (i := j) hdistinct (a := v.address)
    rw [hplace, Option.some.injEq] at hother
    rw [Bool.eq_iff_iff, Option.any_eq_true, beq_iff_eq, eq_comm, hother]
    simp
  simp only [hsame]
  change signers.indices.count i = _
  rw [(Bitmap.nodup_indices signers).count]
  simp only [Bitmap.mem_indices]

theorem selections_eq (hdistinct : validators.addresses.Nodup) (hv : validators.members[i]? = some v)
    (header : Header) : selections validators header v.address =
      if header.ownSeal?.any (·.signers.contains i) then 1 else 0 := by
  unfold selections Header.ownSeal?
  cases Extension.decode header.extraData with
  | error _ => rfl
  | ok extension =>
      cases hseal : extension.committedSeal with
      | none => simp [hseal, Except.toOption]
      | some committed =>
          simp only [Except.toOption, Option.bind_some, hseal, Option.any_some]
          exact countP_indices hdistinct hv committed.signers

theorem selectionsFrom_eq (hdistinct : validators.addresses.Nodup)
    (hv : validators.members[i]? = some v) (first count : Nat) :
    selectionsFrom chain parent validators v.address (UInt64.ofNat first) count =
      ((List.range' first count).map UInt64.ofNat).countP (sealedBy chain parent i) := by
  induction count generalizing first with
  | zero => rfl
  | succ count ih =>
      have hnext : UInt64.ofNat first + 1 = UInt64.ofNat (first + 1) := (UInt64.ofNat_add first 1).symm
      rw [selectionsFrom, hnext, ih, List.range'_succ, List.map_cons, List.countP_cons, Nat.add_comm]
      congr 1
      unfold sealedBy
      cases headerAt chain parent (UInt64.ofNat first) with
      | error _ => rfl
      | ok header => exact selections_eq hdistinct hv header

section window

variable {epochSize : UInt64} {uptime : List Uptime}

/-- An epoch that ends with the block after `parent` lies above height zero, and the 64 bits are not used
up by its last height. -/
structure Fits (epochSize : UInt64) (parent : Header) : Prop where
  start : epochSize.toNat ≤ parent.number.toNat + 1
  next : parent.number.toNat + 2 < 2 ^ 64

theorem Fits.toNat_firstHeight (hfits : Fits epochSize parent) :
    (firstHeight epochSize parent).toNat = parent.number.toNat + 2 - epochSize.toNat := by
  have hstart := hfits.start
  have hheight := toNat_succ (Nat.lt_of_succ_lt hfits.next)
  have hbelow : (parent.number + 1).toNat + 1 < 2 ^ 64 := by
    rw [hheight]
    exact hfits.next
  rw [firstHeight, UInt64.toNat_max, toNat_epochStart epochSize hbelow, hheight, UInt64.toNat_one]
  omega

theorem Fits.window (hfits : Fits epochSize parent) :
    firstHeight epochSize parent = UInt64.ofNat (parent.number.toNat + 2 - epochSize.toNat) ∧
      parent.number.toNat + 1 - (firstHeight epochSize parent).toNat = epochSize.toNat - 1 := by
  have hstart := hfits.start
  rw [← hfits.toNat_firstHeight, UInt64.ofNat_toNat, hfits.toNat_firstHeight]
  exact ⟨rfl, by omega⟩

theorem blocksSealed_le (chain : Chain) (epochSize : UInt64) (parent : Header) (i : Nat) :
    blocksSealed chain epochSize parent i ≤ epochSize.toNat - 1 := by
  have hlength : (heights epochSize parent).length = epochSize.toNat - 1 := by
    rw [heights, List.length_map, List.length_range']
  rw [← hlength]
  exact List.countP_le_length

theorem toNat_timesSealed (hfits : Fits epochSize parent)
    (hdistinct : validators.addresses.Nodup) (hv : validators.members[i]? = some v) :
    (timesSealed chain epochSize parent validators v.address).toNat =
      blocksSealed chain epochSize parent i := by
  obtain ⟨hfirst, hcount⟩ := hfits.window
  have hle := blocksSealed_le chain epochSize parent i
  have hlt := epochSize.toNat_lt
  simp only [timesSealed, hcount]
  rw [hfirst, selectionsFrom_eq hdistinct hv]
  exact UInt64.toNat_ofNat_of_lt' (show blocksSealed chain epochSize parent i < 2 ^ 64 by omega)

theorem order_withCounts (validators : ValidatorSet) (signed : Address → UInt64) :
    ((withCounts validators signed).map (·.validator)).Sublist validators.addresses := by
  have hall : (validators.members.map fun v => Uptime.mk v.address (signed v.address)).map
      (·.validator) = validators.addresses := List.map_map
  rw [← hall]
  exact List.filter_sublist.map _

/-- Who is listed is a member, and its count is that of the blocks that it sealed. -/
theorem signed_of_mem (hfits : Fits epochSize parent)
    (hdistinct : validators.addresses.Nodup) (hv : validators.members[i]? = some v) {n : UInt64} :
    ⟨v.address, n⟩ ∈ withCounts validators (timesSealed chain epochSize parent validators) ↔
      n.toNat = blocksSealed chain epochSize parent i ∧ 0 < n.toNat := by
  have hmem : v.address ∈ validators.addresses := List.mem_map_of_mem (List.mem_of_getElem? hv)
  rw [mem_withCounts, ← toNat_timesSealed hfits hdistinct hv, UInt64.lt_iff_toNat_lt, UInt64.toNat_inj]
  constructor
  · rintro ⟨-, rfl, hpos⟩
    exact ⟨rfl, hpos⟩
  · rintro ⟨rfl, hpos⟩
    exact ⟨hmem, rfl, hpos⟩

theorem present_iff (hfits : Fits epochSize parent)
    (hdistinct : validators.addresses.Nodup) (hv : validators.members[i]? = some v) :
    v.address ∈ (withCounts validators (timesSealed chain epochSize parent validators)).map
        (·.validator) ↔
      ∃ number ∈ heights epochSize parent, sealedBy chain parent i number = true := by
  have hpos : 0 < blocksSealed chain epochSize parent i ↔
      ∃ number ∈ heights epochSize parent, sealedBy chain parent i number = true := List.countP_pos_iff
  rw [← hpos, List.mem_map]
  constructor
  · rintro ⟨⟨a, n⟩, hu, rfl⟩
    obtain ⟨hn, hpos⟩ := (signed_of_mem hfits hdistinct hv).1 hu
    rwa [← hn]
  · intro hpos
    have htimes : _ = blocksSealed chain epochSize parent i := toNat_timesSealed hfits hdistinct hv
    rw [← htimes] at hpos
    exact ⟨⟨v.address, _⟩, (signed_of_mem hfits hdistinct hv).2 ⟨htimes, hpos⟩, rfl⟩

theorem tallies_ofEpoch (hfits : Fits epochSize parent)
    (hdistinct : validators.addresses.Nodup)
    (h : ofEpoch chain epochSize parent validators = .ok uptime) :
    Tallies chain epochSize parent validators uptime := by
  have horder := order_withCounts validators (timesSealed chain epochSize parent validators)
  rw [ofEpoch_ok h]
  refine ⟨horder, horder.nodup hdistinct, fun i v hv => present_iff hfits hdistinct hv, ?_, ?_⟩
  · rintro i v hv ⟨a, n⟩ hu rfl
    exact ((signed_of_mem hfits hdistinct hv).1 hu).1
  · rintro ⟨a, n⟩ hu
    -- only members are listed, so the entry is that of some index
    obtain ⟨v, hv, rfl⟩ := List.mem_map.1 (horder.subset (List.mem_map_of_mem hu))
    obtain ⟨i, hi⟩ := List.mem_iff_getElem?.1 hv
    obtain ⟨hn, hpos⟩ := (signed_of_mem hfits hdistinct hi).1 hu
    refine ⟨hpos, ?_⟩
    rw [hn]
    exact blocksSealed_le chain epochSize parent i

/-- A count that succeeds has read every block of the epoch. -/
theorem sealers_of_ofEpoch (hfits : Fits epochSize parent)
    (h : ofEpoch chain epochSize parent validators = .ok uptime) {number : UInt64}
    (hnumber : number ∈ heights epochSize parent) :
    ∃ header now, headerAt chain parent number = .ok header ∧ sealersOf validators header = .ok now := by
  obtain ⟨sealers, hsealers, -⟩ := functor_map_ok_iff.1 h
  obtain ⟨hfirst, hcount⟩ := hfits.window
  rw [hcount, hfirst] at hsealers
  exact sealersFrom_exists_iff.1 ⟨sealers, hsealers⟩ number hnumber

theorem lt_size_of_sealersOf {header : Header} {sealers : List Address}
    (h : sealersOf validators header = .ok sealers)
    (hi : header.ownSeal?.any (·.signers.contains i) = true) : i < validators.size := by
  simp only [sealersOf, bind_ok_iff, mapError_ok_iff] at h
  obtain ⟨extension, hextension, h⟩ := h
  simp only [Header.ownSeal?, hextension, Except.toOption, Option.bind_some] at hi
  cases hcommitted : extension.committedSeal with
  | none =>
      rw [hcommitted] at hi
      cases hi
  | some committed =>
      simp only [hcommitted, bind_ok_iff, mapError_ok_iff] at h hi
      obtain ⟨selected, hselected, -⟩ := h
      exact ValidatorSet.lt_size_of_select hselected hi

end window

end Uptime

namespace Coordinator

variable {β : Type} {chain : Chain} {store : Store} {parent : Header} {builder : Option β}
  {context : RoundContext} {c c' : Coordinator} {active : ValidatorSet}

theorem fits_of_endsEpoch (config : Config) (hends : config.endsEpoch (parent.number + 1) = true)
    (hnext : parent.number.toNat + 2 < 2 ^ 64) : Uptime.Fits config.epochSize parent := by
  have hdvd := (config.endsEpoch_iff _).1 hends
  rw [toNat_succ (Nat.lt_of_succ_lt hnext)] at hdvd
  exact ⟨Nat.le_of_dvd (Nat.succ_pos _) hdvd, hnext⟩

/-- A round that ends an epoch carries one count twice. -/
theorem uptime_of_createRound {round : Round β} (hends : c.config.endsEpoch (parent.number + 1) = true)
    (h : (createRound chain store parent builder context).run c = (.ok round, c')) :
    ∃ active commit rewards, (activeSet chain parent).run c = (.ok active, c') ∧
      round.inputs.epochCommit = some commit ∧ round.inputs.rewards = some rewards ∧
      rewards.uptime = commit.uptime ∧
      Uptime.ofEpoch chain c.config.epochSize parent active = .ok commit.uptime := by
  obtain ⟨epoch, parentDelta, active, inputs, -, hactive, hcomplete, rfl⟩ := createRound_ok_iff.1 h
  have hplain : (RoundInputs.plain c.config parent active epoch context).endsEpoch = true := hends
  rw [completeInputs, if_pos hplain] at hcomplete
  obtain ⟨uptime, _, _, huptime, _, _, rfl⟩ := RoundInputs.endingEpoch_ok_iff.1 hcomplete
  exact ⟨active, _, _, hactive, rfl, rfl, rfl, huptime⟩

/-- No round ends an epoch whose blocks cannot be counted. -/
theorem createRound_fails (hends : c.config.endsEpoch (parent.number + 1) = true)
    (hactive : (activeSet chain parent).run c = (.ok active, c'))
    (hcount : ∀ uptime, Uptime.ofEpoch chain c.config.epochSize parent active ≠ .ok uptime)
    (store : Store) (builder : Option β) (context : RoundContext) :
    ∃ cause, ((createRound chain store parent builder context).run c).1 = .error cause := by
  cases hrun : (createRound chain store parent builder context).run c with
  | mk result c₁ =>
      cases result with
      | error cause => exact ⟨cause, rfl⟩
      | ok round =>
          obtain ⟨found, commit, _, hfound, _, _, _, huptime⟩ := uptime_of_createRound hends hrun
          cases hfound.symm.trans hactive
          exact absurd huptime (hcount commit.uptime)

/-- A round that ends an epoch reports to both calls, in the order of the active set, who sealed how many
of the epoch's blocks before it. If one of them is not stored, or its seal selects nobody, the round fails.
The blocks are counted back from the height after the round's. -/
theorem uptime_of_epoch (hends : c.config.endsEpoch (parent.number + 1) = true)
    (hnext : parent.number.toNat + 2 < 2 ^ 64)
    (hactive : (activeSet chain parent).run c = (.ok active, c')) (hdistinct : active.addresses.Nodup) :
    (∀ round c₁, (createRound chain store parent builder context).run c = (.ok round, c₁) →
      ∃ commit rewards, round.inputs.epochCommit = some commit ∧ round.inputs.rewards = some rewards ∧
        rewards.uptime = commit.uptime ∧
        Uptime.Tallies chain c.config.epochSize parent active commit.uptime) ∧
    (∀ number ∈ Uptime.heights c.config.epochSize parent, number < parent.number →
      chain.header? number = none →
      ∃ cause, ((createRound chain store parent builder context).run c).1 = .error cause) ∧
    ∀ number ∈ Uptime.heights c.config.epochSize parent, ∀ i,
      Uptime.sealedBy chain parent i number = true → active.size ≤ i →
      ∃ cause, ((createRound chain store parent builder context).run c).1 = .error cause := by
  have hfits := fits_of_endsEpoch c.config hends hnext
  refine ⟨?_, ?_, ?_⟩
  · intro round c₁ hrun
    obtain ⟨found, commit, rewards, hfound, hcommit, hrewards, hsame, huptime⟩ :=
      uptime_of_createRound hends hrun
    cases hfound.symm.trans hactive
    exact ⟨commit, rewards, hcommit, hrewards, hsame, Uptime.tallies_ofEpoch hfits hdistinct huptime⟩
  · intro number hnumber hlow hmissing
    refine createRound_fails hends hactive ?_ store builder context
    intro uptime huptime
    obtain ⟨header, -, hheader, -⟩ := Uptime.sealers_of_ofEpoch hfits huptime hnumber
    rw [Uptime.headerAt, if_neg (UInt64.ne_of_lt hlow), hmissing] at hheader
    cases hheader
  · intro number hnumber i hsealed hout
    refine createRound_fails hends hactive ?_ store builder context
    intro uptime huptime
    obtain ⟨header, sealers, hheader, hsealers⟩ := Uptime.sealers_of_ofEpoch hfits huptime hnumber
    rw [Uptime.sealedBy, hheader] at hsealed
    exact absurd (Uptime.lt_size_of_sealersOf hsealers hsealed) (Nat.not_lt.2 hout)

theorem run_of_round {n : Node} {round : Round β} (h : n.round builder context = .ok round) :
    ∃ c', (createRound n.chain n.store n.parent builder context).run n.coordinator = (.ok round, c') :=
  ⟨_, Prod.ext h rfl⟩

/-- A node before the last of three blocks, which four validators sealed. -/
def beforeThird : Node := .ofSeals Node.lowSigners Node.highSigners

/-- The same chain without its stored headers. -/
def emptiedChain : Chain := { beforeThird.chain with header? := fun _ => none }

/-- Before the third block, the first two are counted. Without the first of them there is no round. -/
theorem uptime_of_epoch_three :
    (∃ round commit,
      beforeThird.round (none : Option Simulation.Builder) ⟨Digest.zero, none⟩ = .ok round ∧
      round.inputs.epochCommit = some commit ∧
      Uptime.Tallies beforeThird.chain 3 beforeThird.parent Node.fourSet commit.uptime) ∧
    ∃ cause, ((createRound emptiedChain beforeThird.store beforeThird.parent
      (none : Option Simulation.Builder) ⟨Digest.zero, none⟩).run beforeThird.coordinator).1 =
        .error cause := by
  have hends : beforeThird.coordinator.config.endsEpoch (beforeThird.parent.number + 1) = true := rfl
  have hnext : beforeThird.parent.number.toNat + 2 < 2 ^ 64 := by
    change 2 + 2 < 2 ^ 64
    decide
  have hfirst : (1 : UInt64) ∈ Uptime.heights beforeThird.coordinator.config.epochSize
      beforeThird.parent := by
    change (1 : UInt64) ∈ (List.range' 1 2).map UInt64.ofNat
    decide
  have hlow : (1 : UInt64) < beforeThird.parent.number := by
    change (1 : UInt64) < 2
    decide
  obtain ⟨round, hround, -⟩ := Node.round_ofSeals Node.quorate_lowSigners Node.quorate_highSigners
    (none : Option Simulation.Builder) ⟨Digest.zero, none⟩
  obtain ⟨c, hrun⟩ := run_of_round hround
  obtain ⟨commit, -, hcommit, -, -, htallies⟩ := (uptime_of_epoch hends hnext rfl (by decide)).1 round c hrun
  have hactive : (activeSet emptiedChain beforeThird.parent).run beforeThird.coordinator =
      (.ok Node.fourSet, _) := rfl
  exact ⟨⟨round, commit, hround, hcommit, htallies⟩,
    (uptime_of_epoch hends hnext hactive (by decide)).2.1 1 hfirst hlow rfl⟩

end Coordinator

end EpochSeal
