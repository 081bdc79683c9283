import EpochSeal.Proofs.SealedDigest

/-! What the digest that validators seal says about the transactions of the block. It says which root
the header declares. Whether the body has that root is not among the checks of a round, so that this is
up to the engine that executes the block. -/
namespace EpochSeal
open Outcome

theorem Digest.eq_of_bytes_eq {a b : Digest} (h : a.bytes = b.bytes) : a = b := by
  cases a
  cases b
  cases h
  rfl

/-- All digests have one length, so a concatenation can be cut in one way only. -/
theorem Transaction.digests_eq_of_flatMap_eq {ts us : List Transaction}
    (h : ts.flatMap (·.digest.bytes) = us.flatMap (·.digest.bytes)) :
    ts.map (·.digest) = us.map (·.digest) := by
  have hpos (d : Digest) (rest : Bytes) : d.bytes ++ rest ≠ [] := by
    intro hempty
    have hlength := d.length_eq
    rw [(List.append_eq_nil_iff.1 hempty).1] at hlength
    cases hlength
  induction ts generalizing us with
  | nil =>
      cases us with
      | nil => rfl
      | cons u us => exact absurd h.symm (hpos _ _)
  | cons t ts ih =>
      cases us with
      | nil => exact absurd h (hpos _ _)
      | cons u us =>
          have hlengths : t.digest.bytes.length = u.digest.bytes.length := by
            rw [t.digest.length_eq, u.digest.length_eq]
          obtain ⟨hhead, htail⟩ := List.append_inj h hlengths
          rw [List.map_cons, List.map_cons, Digest.eq_of_bytes_eq hhead, ih htail]

theorem Block.digests_eq_of_transactionRoot_eq {ts us : List Transaction}
    (h : transactionRoot ts = transactionRoot us) :
    ts.map (·.digest) = us.map (·.digest) ∨
      Digest.Collide (ts.flatMap (·.digest.bytes)) (us.flatMap (·.digest.bytes)) := by
  rcases Digest.ofMessage_eq_iff.1 h with hsame | hcollide
  · exact .inl (Transaction.digests_eq_of_flatMap_eq hsame)
  · exact .inr hcollide

/-- The words of a checkpoint's message stand in fixed places. -/
theorem Checkpoint.block_eq_of_digestInput_eq {c c' : Checkpoint}
    {chainId chainId' number number' : UInt64} {block block' : Digest}
    (h : c.digestInput chainId number block = c'.digestInput chainId' number' block') : block = block' := by
  simp only [digestInput, List.append_assoc] at h
  obtain ⟨-, h⟩ := List.append_inj h (by simp)
  obtain ⟨-, h⟩ := List.append_inj h (by simp)
  obtain ⟨hblock, -⟩ := List.append_inj h (by rw [block.length_eq, block'.length_eq])
  exact Digest.eq_of_bytes_eq hblock

theorem Header.transactionRoot_eq_of_digestInput_eq {h h' : Header} (heq : h.digestInput = h'.digestInput) :
    h.transactionRoot = h'.transactionRoot := by
  have hfields := congrArg Header.transactionRoot (eq_of_digestInput_eq heq).1
  exact hfields

/-- The transactions of a block that is accepted may be replaced by any that pass their own check. -/
theorem RoundInputs.checkBlock_body_iff {r : RoundInputs} {chain : Chain} {now : UInt64} {block : Block}
    (h : r.checkBlock chain now block = .ok ()) (ts : List Transaction) :
    r.checkBlock chain now ⟨block.header, ts⟩ = .ok () ↔ r.checkTransactions chain ts = .ok () := by
  obtain ⟨hheader, e, c, parentExtension, parentCheckpoint, next, hcarries, hparent, hseal, -, hnext,
    hvalid⟩ := checkBlock_ok_iff.1 h
  constructor
  · intro hbody
    obtain ⟨-, _, _, _, _, _, -, -, -, htransactions, -⟩ := checkBlock_ok_iff.1 hbody
    exact htransactions
  · intro htransactions
    apply checkBlock_ok_iff.2
    exact ⟨hheader, e, c, parentExtension, parentCheckpoint, next, hcarries, hparent, hseal, htransactions,
      hnext, hvalid⟩

namespace Round

variable {β γ : Type} {r validated other : Round β} {r' validated' : Round γ} {chain chain' : Chain}
  {now now' : UInt64} {proposal proposal' : Bytes} {block block' : Block} {c c' : Checkpoint}

/-- What the digest that validators seal is taken of. -/
def sealedInput (r : Round β) (block : Block) (c : Checkpoint) : Bytes :=
  c.digestInput r.inputs.config.chainId block.header.number block.header.digest

/-- The block of a proposal is the target of a round, and its checkpoint is what validators seal. -/
structure Targets (r : Round β) (proposal : Bytes) (block : Block) (c : Checkpoint) : Prop where
  decoded : Block.decode proposal = .ok block
  target : ∃ receipts, r.target = some ⟨block, receipts⟩
  checkpoint : ∃ e, block.header.Carries e c
  digest : block.header.digest = block.header.computeDigest
  proposalDigest : r.proposalDigest = .ok (Digest.ofMessage (r.sealedInput block c))

theorem targets_of_validate (hvalidate : r.validate chain now proposal = .ok validated)
    (hexecute : ∀ block executed, chain.execute r.inputs.parent block = .ok executed →
      executed.block = block) :
    ∃ block c, r.inputs.checkBlock chain now block = .ok () ∧ validated.Targets proposal block c := by
  obtain ⟨block, receipts, e, c, hdecode, hcheck, hcarries, hdigest, rfl⟩ :=
    target_of_validate hvalidate hexecute
  have hsealed := proposalDigest_of_target
    (r := { r with target := some ⟨block, receipts⟩, phase := .validated }) rfl hcarries.1 hcarries.2
  exact ⟨block, c, hcheck, hdecode, ⟨receipts, rfl⟩, ⟨e, hcarries⟩, hdigest, hsealed⟩

theorem Targets.proposalDigest_eq (h : validated.Targets proposal block c)
    (h' : other.Targets proposal' block' c') (hinputs : other.inputs = validated.inputs)
    (hheader : block'.header = block.header) : other.proposalDigest = validated.proposalDigest := by
  obtain ⟨e, hcarries⟩ := h.checkpoint
  obtain ⟨e', hcarries'⟩ := h'.checkpoint
  rw [hheader] at hcarries'
  obtain ⟨-, rfl⟩ := hcarries.unique hcarries'
  rw [h.proposalDigest, h'.proposalDigest, sealedInput, sealedInput, hinputs, hheader]

theorem Targets.digest_eq (h : validated.Targets proposal block c)
    (h' : validated'.Targets proposal' block' c')
    (hsame : validated.proposalDigest = validated'.proposalDigest) :
    block.header.digest = block'.header.digest ∨
      Digest.Collide (validated.sealedInput block c) (validated'.sealedInput block' c') := by
  rw [h.proposalDigest, h'.proposalDigest] at hsame
  rcases Digest.ofMessage_eq_iff.1 (Except.ok.inj hsame) with heq | hcollide
  · exact .inl (Checkpoint.block_eq_of_digestInput_eq heq)
  · exact .inr hcollide

theorem Targets.transactionRoot_eq (h : validated.Targets proposal block c)
    (h' : validated'.Targets proposal' block' c')
    (hsame : block.header.digest = block'.header.digest) :
    block.header.transactionRoot = block'.header.transactionRoot ∨
      Digest.Collide block.header.digestInput block'.header.digestInput := by
  rw [h.digest, h'.digest] at hsame
  rcases Header.computeDigest_eq_iff.1 hsame with heq | hcollide
  · exact .inl (Header.transactionRoot_eq_of_digestInput_eq heq)
  · exact .inr hcollide

/-- A round that accepts a block accepts others with the same header as well. -/
theorem validate_body_iff (hphase : r.phase = .waiting)
    (hcheck : r.inputs.checkBlock chain now block = .ok ()) {ts : List Transaction}
    (hshort : (Block.mk block.header ts).encode.length < 2 ^ 64) :
    (∃ other, r.validate chain now (Block.mk block.header ts).encode = .ok other) ↔
      r.inputs.checkTransactions chain ts = .ok () ∧
        ∃ executed, chain.execute r.inputs.parent ⟨block.header, ts⟩ = .ok executed := by
  have hdecode := Block.decode_encode _ hshort
  constructor
  · rintro ⟨other, hother⟩
    obtain ⟨-, target, haccept, -⟩ := validate_ok_iff.1 hother
    obtain ⟨block', hdecode', hcheck', hrun⟩ := RoundInputs.accept_ok_iff.1 haccept
    cases hdecode.symm.trans hdecode'
    exact ⟨(RoundInputs.checkBlock_body_iff hcheck ts).1 hcheck', target, hrun⟩
  · rintro ⟨htransactions, target, hrun⟩
    have hcheck' := (RoundInputs.checkBlock_body_iff hcheck ts).2 htransactions
    have haccept := RoundInputs.accept_ok_iff.2 ⟨_, hdecode, hcheck', hrun⟩
    exact ⟨_, validate_ok_iff.2 ⟨hphase, target, haccept, rfl⟩⟩

theorem inputs_of_validate (h : r.validate chain now proposal = .ok validated) :
    validated.inputs = r.inputs := by
  obtain ⟨-, _, -, rfl⟩ := validate_ok_iff.1 h
  rfl

/-- Whatever transactions stand under an accepted header, the round accepts them if they pass their own
check and the engine executes the block, and the digest to seal is the same. It is the root that binds
them: if both headers declare the roots of their bodies, one digest to seal means one block digest and
this one list of transaction digests, unless two messages collide. -/
theorem body_binding (hvalidate : r.validate chain now proposal = .ok validated)
    (hvalidate' : r'.validate chain' now' proposal' = .ok validated')
    (hexecute : ∀ block executed, chain.execute r.inputs.parent block = .ok executed →
      executed.block = block)
    (hexecute' : ∀ block executed, chain'.execute r'.inputs.parent block = .ok executed →
      executed.block = block) :
    ∃ block c block' c', validated.Targets proposal block c ∧ validated'.Targets proposal' block' c' ∧
      (∀ ts, (Block.mk block.header ts).encode.length < 2 ^ 64 →
        ((∃ other, r.validate chain now (Block.mk block.header ts).encode = .ok other) ↔
          r.inputs.checkTransactions chain ts = .ok () ∧
            ∃ executed, chain.execute r.inputs.parent ⟨block.header, ts⟩ = .ok executed) ∧
        ∀ other, r.validate chain now (Block.mk block.header ts).encode = .ok other →
          (∃ receipts, other.target = some ⟨⟨block.header, ts⟩, receipts⟩) ∧
            other.proposalDigest = validated.proposalDigest) ∧
      (validated.proposalDigest = validated'.proposalDigest →
        block.header.digest = block'.header.digest ∨
          Digest.Collide (validated.sealedInput block c) (validated'.sealedInput block' c')) ∧
      (block.header.digest = block'.header.digest →
        block.header.transactionRoot = Block.transactionRoot block.transactions →
        block'.header.transactionRoot = Block.transactionRoot block'.transactions →
        block.transactions.map (·.digest) = block'.transactions.map (·.digest) ∨
          Digest.Collide block.header.digestInput block'.header.digestInput ∨
          Digest.Collide (block.transactions.flatMap (·.digest.bytes))
            (block'.transactions.flatMap (·.digest.bytes))) := by
  obtain ⟨block, c, hcheck, htargets⟩ := targets_of_validate hvalidate hexecute
  obtain ⟨block', c', -, htargets'⟩ := targets_of_validate hvalidate' hexecute'
  refine ⟨block, c, block', c', htargets, htargets', ?_, htargets.digest_eq htargets', ?_⟩
  · intro ts hshort
    refine ⟨validate_body_iff (validate_ok_iff.1 hvalidate).1 hcheck hshort, ?_⟩
    intro other hother
    obtain ⟨block'', c'', -, htargets''⟩ := targets_of_validate hother hexecute
    cases (Block.decode_encode _ hshort).symm.trans htargets''.decoded
    have hinputs := (inputs_of_validate hother).trans (inputs_of_validate hvalidate).symm
    exact ⟨htargets''.target, htargets.proposalDigest_eq htargets'' hinputs rfl⟩
  · intro hdigest hroot hroot'
    rcases htargets.transactionRoot_eq htargets' hdigest with hroots | hcollide
    · rw [hroot, hroot'] at hroots
      rcases Block.digests_eq_of_transactionRoot_eq hroots with hsame | hcollide
      · exact .inl hsame
      · exact .inr (.inr hcollide)
    · exact .inr (.inl hcollide)

section first
open Simulation AcceptedChain

def emptiedFirst : Block := ⟨firstBlock.header, []⟩

theorem length_emptiedFirst_lt : emptiedFirst.encode.length < 2 ^ 64 :=
  Nat.lt_of_le_of_lt (Block.length_encode_le firstBlock.header firstBlock.transactions) length_firstBlock_lt

theorem validate_emptiedFirst : (ofInputs firstInputs none : Round Builder).validate firstChain
    1700000000 emptiedFirst.encode = .ok { ofInputs firstInputs none with
      target := some ⟨emptiedFirst, []⟩
      phase := .validated } := by
  have hcheck := (RoundInputs.checkBlock_body_iff checkBlock_firstBlock []).2 rfl
  apply validate_ok_iff.2
  refine ⟨rfl, ⟨emptiedFirst, []⟩, ?_, rfl⟩
  exact RoundInputs.accept_ok_iff.2 ⟨_, Block.decode_encode _ length_emptiedFirst_lt, hcheck, rfl⟩

theorem transactionRoot_emptiedFirst :
    emptiedFirst.header.transactionRoot ≠ Block.transactionRoot emptiedFirst.transactions := by
  have hdeclared : emptiedFirst.header.transactionRoot = Block.transactionRoot [idleTransaction] := rfl
  rw [hdeclared]
  decide +kernel

/-- One round accepts the first block and the same header without the transaction, under one digest to
seal, though the roots of the two bodies are different. -/
theorem not_body_bound :
    (∀ parent block executed, firstChain.execute parent block = .ok executed → executed.block = block) ∧
    ∃ validated other : Round Builder,
      (ofInputs firstInputs none).validate firstChain 1700000000 firstBlock.encode = .ok validated ∧
      (ofInputs firstInputs none).validate firstChain 1700000000 emptiedFirst.encode = .ok other ∧
      validated.target = some ⟨firstBlock, []⟩ ∧ other.target = some ⟨emptiedFirst, []⟩ ∧
      firstBlock.header = emptiedFirst.header ∧
      (∃ digest, validated.proposalDigest = .ok digest ∧ other.proposalDigest = .ok digest) ∧
      emptiedFirst.header.transactionRoot ≠ Block.transactionRoot emptiedFirst.transactions ∧
      firstBlock.transactions.map (·.digest) ≠ emptiedFirst.transactions.map (·.digest) ∧
      ¬ Digest.Collide (firstBlock.transactions.flatMap (·.digest.bytes))
        (emptiedFirst.transactions.flatMap (·.digest.bytes)) := by
  have hvalidate := (validate_ok_iff (r := (ofInputs firstInputs none : Round Builder))).2
    ⟨rfl, _, accept_firstBlock, rfl⟩
  obtain ⟨block, c, -, htargets⟩ := targets_of_validate hvalidate fun _ _ => execute_firstChain_ok
  obtain ⟨block', c', -, htargets'⟩ :=
    targets_of_validate validate_emptiedFirst fun _ _ => execute_firstChain_ok
  cases (Block.decode_encode _ length_firstBlock_lt).symm.trans htargets.decoded
  cases (Block.decode_encode _ length_emptiedFirst_lt).symm.trans htargets'.decoded
  have hsame := htargets.proposalDigest_eq htargets' rfl rfl
  refine ⟨fun _ _ _ => execute_firstChain_ok, _, _, hvalidate, validate_emptiedFirst, rfl, rfl, rfl, ?_,
    transactionRoot_emptiedFirst, ?_, ?_⟩
  · exact ⟨_, htargets.proposalDigest, hsame.trans htargets.proposalDigest⟩
  · intro hsame
    cases hsame
  · intro hcollide
    exact transactionRoot_emptiedFirst hcollide.2

/-- The other body of the first header is accepted because it is empty, which the check of the
transactions lets through. -/
theorem body_binding_first :
    ∃ validated other : Round Builder,
      (ofInputs firstInputs none).validate firstChain 1700000000 firstBlock.encode = .ok validated ∧
      (ofInputs firstInputs none).validate firstChain 1700000000 emptiedFirst.encode = .ok other ∧
      other.proposalDigest = validated.proposalDigest := by
  have hvalidate := (validate_ok_iff (r := (ofInputs firstInputs none : Round Builder))).2
    ⟨rfl, _, accept_firstBlock, rfl⟩
  obtain ⟨block, c, _, _, htargets, -, hbody, -⟩ := body_binding hvalidate hvalidate
    (fun _ _ => execute_firstChain_ok) (fun _ _ => execute_firstChain_ok)
  cases (Block.decode_encode _ length_firstBlock_lt).symm.trans htargets.decoded
  obtain ⟨haccepted, hsame⟩ := hbody [] length_emptiedFirst_lt
  obtain ⟨other, hother⟩ := haccepted.2 ⟨rfl, _, rfl⟩
  exact ⟨_, other, hvalidate, hother, (hsame other hother).2⟩

end first

end Round

end EpochSeal
