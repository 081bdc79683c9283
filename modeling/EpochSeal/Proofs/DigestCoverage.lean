import EpochSeal.Proofs.EpochSequence
import EpochSeal.Proofs.HeaderForm
import EpochSeal.Proofs.Respelling

/-! What the digest of a header covers. It covers every field but the declared digest, and of the
extension all that can be read from it but the block's own seal: two spellings of what cannot be read, of
an extension without that seal or of one with it are never covered alike unless they say the same. -/
namespace EpochSeal

namespace Extension

variable {extraData extraData' : Bytes} {e : Extension}

theorem stripSeal_of_error {cause : ExtensionError} (h : decode extraData = .error cause) :
    stripSeal extraData = extraData := by
  rw [stripSeal, h]

theorem stripSeal_of_unsealed (h : decode extraData = .ok e) (hnone : e.committedSeal = Option.none) :
    stripSeal extraData = extraData := by
  simp only [stripSeal, h, hnone]

theorem stripSeal_of_sealed {committed : Seal} (h : decode extraData = .ok e)
    (hsome : e.committedSeal = some committed) : stripSeal extraData = e.bare.encode := by
  simp only [stripSeal, h, hsome]
  rfl

/-- What is covered reads as the whole does, except that it holds no seal of the block's own. -/
theorem decode_stripSeal (extraData : Bytes) :
    decode (stripSeal extraData) = (decode extraData).map bare := by
  cases h : decode extraData with
  | error cause =>
      rw [stripSeal_of_error h, h]
      rfl
  | ok e =>
      cases hcommitted : e.committedSeal with
      | none =>
          have hbare : e.bare = e := by
            rw [bare, ← hcommitted]
          rw [stripSeal_of_unsealed h hcommitted, h, Except.map, hbare]
      | some committed =>
          rw [stripSeal_of_sealed h hcommitted, decode_bare h]
          rfl

theorem stripSeal_stripSeal (extraData : Bytes) : stripSeal (stripSeal extraData) = stripSeal extraData := by
  have hcovered := decode_stripSeal extraData
  cases h : decode extraData with
  | error cause => rw [stripSeal_of_error h, stripSeal_of_error h]
  | ok e =>
      rw [h] at hcovered
      exact stripSeal_of_unsealed hcovered rfl

/-- Bytes that are covered alike are the same bytes if they cannot be read, and otherwise differ at most
in the block's own seal. -/
theorem eq_or_bare_eq_of_stripSeal_eq (h : stripSeal extraData = stripSeal extraData') :
    (extraData = extraData' ∧ ∃ cause, decode extraData = .error cause) ∨
      ∃ e e', decode extraData = .ok e ∧ decode extraData' = .ok e' ∧ e.bare = e'.bare := by
  have hread : (decode extraData).map bare = (decode extraData').map bare := by
    rw [← decode_stripSeal, h, decode_stripSeal]
  -- what is covered tells whether the bytes could be read, so the mixed cases are excluded
  cases he : decode extraData with
  | error cause =>
      cases he' : decode extraData' with
      | error cause' =>
          rw [stripSeal_of_error he, stripSeal_of_error he'] at h
          exact .inl ⟨h, cause, rfl⟩
      | ok e' =>
          rw [he, he'] at hread
          cases hread
  | ok e =>
      cases he' : decode extraData' with
      | error cause' =>
          rw [he, he'] at hread
          cases hread
      | ok e' =>
          rw [he, he'] at hread
          exact .inr ⟨e, e', rfl, rfl, Except.ok.inj hread⟩

theorem stripSeal_withSeal (e : Extension) (committed : Seal)
    (hlen : (Extension.encode { e with committedSeal := some committed }).length < 2 ^ 64) :
    stripSeal (Extension.encode { e with committedSeal := Option.none }) =
      stripSeal (Extension.encode { e with committedSeal := some committed }) := by
  have hshorter : (Extension.encode { e with committedSeal := Option.none }).length < 2 ^ 64 := by
    rw [length_encode] at hlen ⊢
    simp only [Wire.length_encode_none, Wire.length_encode_some] at hlen ⊢
    omega
  rw [stripSeal_encode _ hlen, stripSeal_encode _ hshorter]

end Extension

/-- Headers agree in every field but the declared digest and the extra data; these are the same without the
block's own seal, and are the same bytes if they cannot be read, or else say the same but for that seal. -/
structure Header.CoveredAlike (h h' : Header) : Prop where
  fields : { h with extraData := h'.extraData, digest := h'.digest } = h'
  stripped : Extension.stripSeal h.extraData = Extension.stripSeal h'.extraData
  extension : (h.extraData = h'.extraData ∧ ∃ cause, Extension.decode h.extraData = .error cause) ∨
    ∃ e e', Extension.decode h.extraData = .ok e ∧ Extension.decode h'.extraData = .ok e' ∧
      e.parentSeal = e'.parentSeal ∧ e.delta = e'.delta ∧ e.checkpoint = e'.checkpoint

theorem Header.coveredAlike_of_digestInput_eq {h h' : Header} (heq : h.digestInput = h'.digestInput) :
    h.CoveredAlike h' := by
  obtain ⟨hfields, hcovered⟩ := eq_of_digestInput_eq heq
  refine ⟨hfields, hcovered, ?_⟩
  rcases Extension.eq_or_bare_eq_of_stripSeal_eq hcovered with hsame | ⟨e, e', he, he', hbare⟩
  · exact .inl hsame
  · obtain ⟨hparent, -, hdelta, hcheckpoint⟩ := Extension.mk.inj hbare
    exact .inr ⟨e, e', he, he', hparent, hdelta, hcheckpoint⟩

/-- The digest of a header is taken of everything in it but the declared digest and the block's own seal, so
headers with one digest are covered alike unless two digest inputs collide. Putting any such seal into an
extension leaves the digest as it is, and what is covered has no more of it to strip. -/
theorem digest_coverage :
    (∀ h : Header, h.computeDigest = Digest.ofMessage h.digestInput) ∧
    (∀ h h' : Header, h.digestInput = h'.digestInput → h.CoveredAlike h') ∧
    (∀ h h' : Header, h.computeDigest = h'.computeDigest →
      h.CoveredAlike h' ∨ Digest.Collide h.digestInput h'.digestInput) ∧
    (∀ (h : Header) (e : Extension) (committed : Seal),
      (Extension.encode { e with committedSeal := some committed }).length < 2 ^ 64 →
        Header.computeDigest { h with extraData := Extension.encode { e with committedSeal := none } } =
          Header.computeDigest
            { h with extraData := Extension.encode { e with committedSeal := some committed } }) ∧
    ∀ extraData, Extension.stripSeal (Extension.stripSeal extraData) = Extension.stripSeal extraData := by
  refine ⟨Header.computeDigest_eq, fun h h' => Header.coveredAlike_of_digestInput_eq, ?_, ?_,
    Extension.stripSeal_stripSeal⟩
  · intro h h' heq
    exact (Header.computeDigest_eq_iff.1 heq).imp_left Header.coveredAlike_of_digestInput_eq
  · intro h e committed hlen
    have hcovered := Extension.stripSeal_withSeal e committed hlen
    exact Header.computeDigest_eq_iff.2 (.inl ((Header.digestInput_eq_iff _ _).2 hcovered))

section first
open Round AcceptedChain

theorem digest_coverage_first :
    firstBlock.header.digestInput = sealedFirstHeader.digestInput ∧
    (∃ e e', Extension.decode firstBlock.header.extraData = .ok e ∧
      Extension.decode sealedFirstHeader.extraData = .ok e' ∧ e ≠ e' ∧
      e.parentSeal = e'.parentSeal ∧ e.delta = e'.delta ∧ e.checkpoint = e'.checkpoint) ∧
    firstBlock.header.computeDigest = sealedFirstHeader.computeDigest ∧
    Extension.stripSeal sealedFirstHeader.extraData = firstExtension.encode := by
  obtain ⟨-, hbinds, -, hseals, -⟩ := digest_coverage
  have hplain : Extension.decode firstBlock.header.extraData = .ok firstExtension :=
    Extension.decode_encode _ (by rw [length_firstExtension]; omega)
  have hsealed : Extension.decode sealedFirstHeader.extraData = .ok firstCommitted :=
    Extension.decode_encode _ length_firstCommitted
  have hinput : firstBlock.header.digestInput = sealedFirstHeader.digestInput :=
    (Header.digestInput_eq_iff firstBlock.header firstCommitted.encode).2
      (Extension.stripSeal_withSeal firstExtension _ length_firstCommitted)
  refine ⟨hinput, ?_, hseals firstBlock.header firstExtension _ length_firstCommitted, ?_⟩
  · rcases (hbinds _ _ hinput).extension with ⟨-, cause, hcause⟩ | ⟨e, e', he, he', hparts⟩
    · cases hplain.symm.trans hcause
    · cases hplain.symm.trans he
      cases hsealed.symm.trans he'
      refine ⟨_, _, hplain, hsealed, ?_, hparts⟩
      intro hsame
      cases congrArg Extension.committedSeal hsame
  · exact Extension.stripSeal_of_sealed hsealed rfl

end first

end EpochSeal
