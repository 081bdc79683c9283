import EpochSeal.Proofs.Acceptance
import EpochSeal.Proofs.HonestProposal
import EpochSeal.Proofs.QuorumOverlap
import EpochSeal.Proofs.Selection

/-! The seal that a round commits is the one that the next round checks: its bitmap selects the
signers again, and what they signed is what is checked. -/
namespace EpochSeal
open Outcome

theorem Bitmap.contains_foldl_insert (numbers : List Nat) (b : Bitmap) (i : Nat) :
    (numbers.foldl insert b).contains i = (b.contains i || decide (i ∈ numbers)) := by
  induction numbers generalizing b with
  | nil => simp
  | cons n numbers ih =>
      rw [List.foldl_cons, ih, contains_insert, Bool.or_assoc]
      simp [eq_comm]

namespace Round

theorem readSeal_ok_iff {validators : ValidatorSet} {given : CommittedSeal} {i : Nat}
    {signature : SealSignature} : readSeal validators given = .ok (i, signature) ↔
      validators.indexOf? given.signer = some i ∧
        SealSignature.ofBytes given.signature = .ok signature := by
  unfold readSeal
  cases validators.indexOf? given.signer with
  | none => simp [throw, throwThe, MonadExceptOf.throw]
  | some index => simp [and_comm]

theorem mapM_readSeal_ok {validators : ValidatorSet} {seals : List CommittedSeal}
    {read : List (Nat × SealSignature)} (h : seals.mapM (readSeal validators) = .ok read) :
    seals.map (fun given => validators.indexOf? given.signer) = read.map fun s => some s.1 := by
  apply map_eq_of_mapM h
  intro given s hgiven
  exact (readSeal_ok_iff.1 hgiven).1

/-- The bitmap of an aggregate selects the members that gave a seal, and every seal is from one. -/
theorem select_aggregateSeals {validators : ValidatorSet} {seals : List CommittedSeal}
    {committed : Seal} (hdistinct : validators.addresses.Nodup)
    (h : aggregateSeals validators seals = .ok committed) :
    validators.select committed.signers =
        .ok ⟨validators.members.filter fun v => decide (v.address ∈ seals.map (·.signer))⟩ ∧
      ∀ given ∈ seals, given.signer ∈ validators.addresses := by
  simp only [aggregateSeals, bind_ok_iff, mapError_ok_iff, pure_ok_iff] at h
  obtain ⟨read, hread, sum, -, rfl⟩ := h
  have hplaces := mapM_readSeal_ok hread
  constructor
  · refine ValidatorSet.select_of_contains ?_
    intro i
    have hmem : i ∈ read.map (·.1) ↔ ∃ given ∈ seals, validators.indexOf? given.signer = some i := by
      have hsome : some i ∈ read.map (fun s => some s.1) ↔ i ∈ read.map (·.1) := by simp
      rw [← hsome, ← hplaces, List.mem_map]
    rw [← List.foldl_map, Bitmap.contains_foldl_insert, Bitmap.contains_empty, Bool.false_or,
      Bool.eq_iff_iff, decide_eq_true_iff, hmem]
    simp only [ValidatorSet.indexOf?_eq_some_iff hdistinct]
    cases validators.members[i]? with
    | none => simp
    | some v => simp [eq_comm]
  · intro given hgiven
    have hplace := List.mem_map_of_mem (f := fun given => validators.indexOf? given.signer) hgiven
    rw [hplaces] at hplace
    obtain ⟨s, -, hs⟩ := List.mem_map.1 hplace
    obtain ⟨v, hv, ha⟩ := (ValidatorSet.indexOf?_eq_some_iff hdistinct).1 hs.symm
    exact List.mem_map.2 ⟨v, List.mem_of_getElem? hv, ha⟩

variable {β : Type} {r r' : Round β} {chain : Chain} {proposal : Bytes} {seals : List CommittedSeal}
  {b : ExecutedBlock} {p : Digest}

theorem proposalDigest_ok_iff : r.proposalDigest = .ok p ↔
    ∃ target e c, r.target = some target ∧ target.block.header.Carries e c ∧
      p = c.digest r.inputs.config.chainId target.block.header.number target.block.header.digest := by
  constructor
  · intro h
    unfold proposalDigest at h
    split at h
    · next target htarget =>
        simp only [bind_ok_iff, mapError_ok_iff] at h
        obtain ⟨e, hextension, h⟩ := h
        split at h
        · next c hcheckpoint =>
            cases h
            exact ⟨target, e, c, htarget, ⟨hextension, hcheckpoint⟩, rfl⟩
        · cases h
    · cases h
  · rintro ⟨target, e, c, htarget, ⟨hextension, hcheckpoint⟩, rfl⟩
    exact proposalDigest_of_target htarget hextension hcheckpoint

end Round

/-- Behind the first block, a parent seal holds exactly if it is a seal of the parent's checkpoint. -/
theorem Extension.validateParentSeal_ok_iff {child e : Extension} {height chainId : UInt64}
    {parent : Header} {validators : ValidatorSet} {domain : Digest} {given : Seal} {c : Checkpoint}
    (hheight : 1 < height) (hgiven : child.parentSeal = some given) (hc : e.checkpoint = some c) :
    child.validateParentSeal height parent e validators chainId domain = .ok () ↔
      given.verify (c.digest chainId parent.number parent.digest) validators domain = .ok () := by
  rw [validateParentSeal, if_neg (UInt64.not_le.2 hheight), hgiven, hc]
  dsimp only
  split
  · next hverify => simp [hverify]
  · next hverify => simp [hverify]

namespace Round

variable {β : Type} {r r' : Round β} {chain : Chain} {proposal : Bytes} {seals : List CommittedSeal}
  {b : ExecutedBlock} {p : Digest}

/-- A committed block hands its seal on: the bitmap selects the members that gave a seal, in the order
of the set, and the next block's check of this seal asks for exactly what they signed. -/
theorem seal_handover (hdistinct : r.inputs.validators.addresses.Nodup)
    (hdigest : r.proposalDigest = .ok p) (hinsert : r.insert chain proposal seals = .ok (b, r'))
    (hnumber : 1 ≤ b.block.header.number) (hshort : b.block.header.extraData.length < 2 ^ 64) :
    ∃ e committed, Extension.decode b.block.header.extraData = .ok e ∧
      e.committedSeal = some committed ∧
      r.inputs.validators.select committed.signers =
        .ok ⟨r.inputs.validators.members.filter fun v => decide (v.address ∈ seals.map (·.signer))⟩ ∧
      (∀ given ∈ seals, given.signer ∈ r.inputs.validators.addresses) ∧
      ∀ (child : Extension) (height : UInt64), child.parentSeal = some committed →
        height.toNat = b.block.header.number.toNat + 1 →
        (child.validateParentSeal height b.block.header e r.inputs.validators
            r.inputs.config.chainId checkpointDomain = .ok () ↔
          committed.verify p r.inputs.validators checkpointDomain = .ok ()) := by
  obtain ⟨target, e, c, htarget, hcarries, rfl⟩ := proposalDigest_ok_iff.1 hdigest
  obtain ⟨-, hsealed, -, -⟩ := insert_ok_iff.1 hinsert
  obtain ⟨_, target', committed, -, htarget', -, haggregate, hwith⟩ := sealedTarget_ok_iff.1 hsealed
  cases htarget.symm.trans htarget'
  obtain ⟨hselect, hmembers⟩ := select_aggregateSeals hdistinct haggregate
  obtain ⟨hextension, hcheckpoint⟩ := carries_withSeal hwith hcarries hshort
  refine ⟨_, committed, hextension, rfl, hselect, hmembers, ?_⟩
  intro child height hchild hheight
  have hlate : 1 < height := by
    rw [UInt64.lt_iff_toNat_lt, hheight]
    exact Nat.lt_succ_of_le (UInt64.le_iff_toNat_le.1 hnumber)
  rw [Extension.validateParentSeal_ok_iff hlate hchild hcheckpoint]
  -- sealing keeps the number and the declared digest, which is all of the header that is signed
  obtain ⟨_, -, rfl⟩ := withSeal_ok_iff.1 hwith
  rfl

section uneven
open Simulation Seal

/-- What a node prepares for the first block, which three validators are to seal. -/
def unevenInputs : RoundInputs :=
  RoundInputs.plain Config.default (genesisHeader unevenSet) unevenSet 1 ⟨Digest.zero, none⟩

def unevenChain : Chain := (World.ofGenesis (genesisHeader unevenSet) unevenSet).chain

def unevenExtension : Extension := unevenInputs.proposed 0 (genesisExtension unevenSet) none unevenSet

def unevenBlock : Block :=
  ⟨Builder.header (genesisHeader unevenSet) [] unevenExtension.encode, []⟩

def validatedUneven : Round Builder :=
  { ofInputs unevenInputs none with target := some ⟨unevenBlock, []⟩, phase := .validated }

/-- The seals of the third and the first validator for it. The second one gives none. -/
def unevenSeals : List CommittedSeal :=
  [⟨Address.ofLow 3, Bytes.bigEndian 96
      0x91fa06c60753cac715b52b82eaabba4aa101636e4afe8f16435cb60c6cc77bf77169b8b829663996b39212703ce95f9b01aa6f675749d510113b2429d192b6637789f9a8fc7deed34c1cbf44275d4932202b889934a43d60bfc343db312b30c6⟩,
   ⟨Address.ofLow 1, Bytes.bigEndian 96
      0xb14c18716ea3fd4a4d28b666fd028d4a0712e081d7039a1e824fb448e074bbf02f59ba94727e338ec2b30a4f04155db512ddacf758975c6cec5515211d1399bf0adb6ac607564b48a6c821727c0d467e36b1a260235c0c0406740f9007849519⟩]

/-- Their sum. -/
def unevenSum : Seal :=
  ⟨Bytes.bigEndian 96
    0xadfacf45d208b41a5786b3c6185ceb697c45b41777ba30e4890885c3f9eea14e47d6b16a0c5ffded7ad8585c2689c0e317ae76b086e26649b3f654ebe7c3e817e7cf69f90dd9f45fabf051a6d4d4816cbe3e0705b728487f87d941e8e9ff7405,
   ⟨[5]⟩⟩

def committedUneven : Extension := { unevenExtension with committedSeal := some unevenSum }

def storedUneven : ExecutedBlock :=
  ⟨{ unevenBlock with header := { unevenBlock.header with extraData := committedUneven.encode } }, []⟩

theorem length_unevenExtension : unevenExtension.encode.length = 274 :=
  Extension.length_encode_checkpoint _

theorem decode_unevenBlock : Block.decode unevenBlock.encode = .ok unevenBlock := by
  have hextra : unevenBlock.header.extraData.length = 274 := length_unevenExtension
  have hempty : (Wire.encode unevenBlock.transactions).length = 8 := by decide
  have hlength : unevenBlock.encode.length < 2 ^ 64 := by
    rw [Block.length_encode, Header.length_encode, hextra, hempty]
    omega
  exact Block.decode_encode _ hlength

theorem decode_unevenExtension :
    Extension.decode unevenBlock.header.extraData = .ok unevenExtension :=
  Extension.decode_encode _ (by rw [length_unevenExtension]; omega)

theorem length_committedUneven : committedUneven.encode.length < 2 ^ 64 := by
  have hsignature : unevenSum.signature.length = 96 := Bytes.length_bigEndian _ _
  have hsigners : unevenSum.signers.bytes.length = 1 := rfl
  simp [Extension.length_encode, Extension.vanityLength, committedUneven, unevenExtension,
    RoundInputs.proposed, genesisExtension, Extension.none, hsignature, hsigners]

theorem validate_unevenBlock : (ofInputs unevenInputs none : Round Builder).validate unevenChain 1700000000
    unevenBlock.encode = .ok validatedUneven := by
  have hends : unevenInputs.endsEpoch = false := by decide
  have hnext : unevenInputs.nextSet = .ok (none, unevenSet) := by
    rw [RoundInputs.nextSet, hends]
    rfl
  have hshort : unevenExtension.encode.length < 2 ^ 64 := by
    rw [length_unevenExtension]
    omega
  have hcheck : unevenInputs.checkBlock unevenChain 1700000000 unevenBlock = .ok () :=
    RoundInputs.checkBlock_plain (favorable_onGenesis rfl rfl rfl) 0 decode_genesisHeader rfl rfl hnext
      rfl hshort
  exact validate_ok_iff.2 ⟨rfl, ⟨unevenBlock, []⟩,
    RoundInputs.accept_ok_iff.2 ⟨_, decode_unevenBlock, hcheck, rfl⟩, rfl⟩

theorem insert_unevenBlock : validatedUneven.insert unevenChain unevenBlock.encode unevenSeals =
    .ok (storedUneven, { validatedUneven with phase := .committed }) := by
  have haggregate : aggregateSeals unevenSet unevenSeals = .ok unevenSum :=
    toOption_eq_some_iff.1 (by decide +kernel)
  have hseal : withSeal ⟨unevenBlock, []⟩ unevenSum = .ok storedUneven :=
    withSeal_ok_iff.2 ⟨unevenExtension, decode_unevenExtension, rfl⟩
  refine insert_ok_iff.2 ⟨.inr rfl, ?_, rfl, rfl⟩
  exact sealedTarget_ok_iff.2 ⟨_, _, _, decode_unevenBlock, rfl, rfl, haggregate, hseal⟩

/-- Two of three validators have sealed the first block, in the other order, and the second block hands on
their seal. -/
theorem seal_handover_uneven : unevenSet.addresses.Nodup ∧
    1 ≤ storedUneven.block.header.number ∧
    (ofInputs unevenInputs none : Round Builder).validate unevenChain 1700000000 unevenBlock.encode =
      .ok validatedUneven ∧
    validatedUneven.insert unevenChain unevenBlock.encode unevenSeals =
      .ok (storedUneven, { validatedUneven with phase := .committed }) ∧
    ∃ p e, validatedUneven.proposalDigest = .ok p ∧
      Extension.decode storedUneven.block.header.extraData = .ok e ∧
      e.committedSeal = some unevenSum ∧
      unevenSet.select unevenSum.signers =
        .ok ⟨[.ofStake (Address.ofLow 1) unevenKeys[0]? 1, .ofStake (Address.ofLow 3) unevenKeys[2]? 2]⟩ ∧
      ({ unevenExtension with parentSeal := some unevenSum }.validateParentSeal 2
          storedUneven.block.header e unevenSet Config.default.chainId checkpointDomain = .ok () ↔
        unevenSum.verify p unevenSet checkpointDomain = .ok ()) := by
  have hdistinct : unevenSet.addresses.Nodup := by decide
  have hnumber : 1 ≤ storedUneven.block.header.number := by decide
  have hcarries : unevenBlock.header.Carries unevenExtension _ := ⟨decode_unevenExtension, rfl⟩
  have hdigest := (proposalDigest_ok_iff (r := validatedUneven)).2 ⟨_, _, _, rfl, hcarries, rfl⟩
  obtain ⟨e, committed, hextension, hcommitted, hselect, -, hverify⟩ :=
    seal_handover hdistinct hdigest insert_unevenBlock hnumber length_committedUneven
  cases (Extension.decode_encode committedUneven length_committedUneven).symm.trans hextension
  cases hcommitted
  have hsealers : ValidatorSet.mk (unevenSet.members.filter fun v =>
      decide (v.address ∈ unevenSeals.map (·.signer))) = ⟨[.ofStake (Address.ofLow 1) unevenKeys[0]? 1,
        .ofStake (Address.ofLow 3) unevenKeys[2]? 2]⟩ := by decide
  exact ⟨hdistinct, hnumber, validate_unevenBlock, insert_unevenBlock, _, _, hdigest, hextension, rfl,
    hselect.trans (congrArg Except.ok hsealers), hverify _ 2 rfl rfl⟩

end uneven

end Round

end EpochSeal
