import EpochSeal.Proofs.HonestProposal
import EpochSeal.Proofs.TransactionForm

/-! Who may send the state transactions of a block, with what gas and what value. A call has to be the
one that this node makes itself, all of it. Of a bridge commitment only the input is looked into. -/
namespace EpochSeal.RoundInputs
open Outcome

/-- A transaction is sent the way the protocol sends its calls. Only the top-up of the reward wallet
carries a value. -/
structure Enveloped (r : RoundInputs) (t : Transaction) : Prop where
  nonce : t.nonce = 0
  sender : t.sender = Contract.systemCaller
  gas : t.gas = Transaction.stateGas
  gasPrice : t.gasPrice = 0
  value : t.value = if r.callKind? t = some .fundRewardWallet then r.fundAmount else 0
  recipient : ∃ call, StateCall.decode t.input = .ok call ∧ t.recipient = some call.target

/-- What a call of this node's own carries. -/
def ownValue (r : RoundInputs) (kind : StateCallKind) : Word :=
  if kind = .fundRewardWallet then r.fundAmount else 0

theorem ownCall?_eq_some {r : RoundInputs} {kind : StateCallKind} {own : Transaction}
    (h : r.ownCall? kind = some own) :
    ∃ call : StateCall, call.kind = kind ∧ own = Transaction.ofCall r.height call (r.ownValue kind) := by
  cases kind with
  | commitEpoch =>
      obtain ⟨call, rfl⟩ := commitEpochTransaction_ok (toOption_eq_some_iff.1 h)
      exact ⟨.commitEpoch call, rfl, rfl⟩
  | fundRewardWallet =>
      cases h
      exact ⟨.fundRewardWallet, rfl, rfl⟩
  | distributeRewards =>
      obtain ⟨call, rfl⟩ := rewardsTransaction_ok (toOption_eq_some_iff.1 h)
      exact ⟨.distributeRewards call, rfl, rfl⟩
  | distributeDaoIncentive =>
      cases h
      exact ⟨.distributeDaoIncentive, rfl, rfl⟩
  | syncPowers =>
      obtain ⟨call, _, rfl⟩ := Option.map_eq_some_iff.1 h
      exact ⟨.syncPowers call, rfl, rfl⟩

theorem target_eq_of_kind_eq {call call' : StateCall} (h : call.kind = call'.kind) :
    call.target = call'.target := by
  cases call <;> cases call' <;> simp_all [StateCall.kind, StateCall.target]

/-- A call that is this node's own but for the declared digest is sent as the protocol sends it. -/
theorem enveloped_of_eq {r : RoundInputs} {t own : Transaction} {kind : StateCallKind}
    {call : StateCall} (hstate : t.isState) (hbridge : ¬ r.isCommitment t)
    (hdecode : StateCall.decode t.input = .ok call) (hkind : call.kind = kind)
    (hown : r.ownCall? kind = some own) (hsame : { t with digest := own.digest } = own) :
    r.Enveloped t := by
  obtain ⟨ownCall, hownKind, rfl⟩ := ownCall?_eq_some hown
  have hcall : r.callKind? t = some kind :=
    callKind?_eq_some_iff.2 ⟨hstate, hbridge, call, hdecode, hkind⟩
  have htarget : call.target = ownCall.target := target_eq_of_kind_eq (hkind.trans hownKind.symm)
  have hvalue : t.value = r.ownValue kind := congrArg Transaction.value hsame
  have hrecipient : t.recipient = some ownCall.target := congrArg Transaction.recipient hsame
  refine ⟨congrArg Transaction.nonce hsame, congrArg Transaction.sender hsame,
    congrArg Transaction.gas hsame, congrArg Transaction.gasPrice hsame, ?_, call, hdecode, ?_⟩
  · rw [hvalue, hcall, ownValue]
    simp
  · rw [hrecipient, htarget]

/-- The digest of a call of this node's own binds all of it, unless two messages collide. -/
theorem sameContent_ownCall {r : RoundInputs} {t own : Transaction} {kind : StateCallKind}
    (hown : r.ownCall? kind = some own) (hdigest : t.computeDigest r.height = own.digest) :
    t.SameContent own ∨ Digest.Collide (t.digestInput r.height) (own.digestInput r.height) := by
  have hdeclared : own.digest = own.computeDigest r.height := by
    obtain ⟨_, _, rfl⟩ := ownCall?_eq_some hown
    rfl
  rw [hdeclared] at hdigest
  rcases Transaction.computeDigest_eq_iff.1 hdigest with hsame | hcollide
  · exact .inl (Transaction.sameContent_of_digestInput_eq hsame).1
  · exact .inr hcollide

theorem OwnCall.enveloped {r : RoundInputs} {t : Transaction} {kind : StateCallKind}
    (h : r.OwnCall t kind) (hstate : t.isState) (hbridge : ¬ r.isCommitment t) :
    r.Enveloped t ∨ ∃ own, r.ownCall? kind = some own ∧
      Digest.Collide (t.digestInput r.height) (own.digestInput r.height) := by
  obtain ⟨call, own, hdecode, hkind, hown, hdigest⟩ := h
  rcases sameContent_ownCall hown hdigest with hcontent | hcollide
  · exact .inl (enveloped_of_eq hstate hbridge hdecode hkind hown hcontent.eq)
  · exact .inr ⟨own, hown, hcollide⟩

/-- A commitment passes by its input alone and leaves the kinds that were seen as they are. -/
theorem checkTransaction_commitment_iff {r : RoundInputs} {chain : Chain} {index : Nat}
    {seen seen' : List StateCallKind} {t : Transaction} (hstate : t.isState)
    (hbridge : r.isCommitment t) :
    r.checkTransaction chain index seen t = .ok seen' ↔
      r.checkCommitment chain t = .ok () ∧ seen = seen' := by
  simp only [checkTransaction, hstate, hbridge, Bool.not_true, Bool.false_eq_true, if_false, if_true,
    bind_ok_iff, exists_unit, pure_ok_iff]

theorem checkCommitment_ok_iff {r : RoundInputs} {chain : Chain} {t : Transaction} :
    r.checkCommitment chain t = .ok () ↔
      ∃ commitment state, SignedCommitment.decode t.input = .ok commitment ∧
        chain.systemState r.parent = .ok state ∧
        state.nextCommittedIndex = .ok commitment.message.startId ∧
        Seal.verify ⟨commitment.signature, commitment.signers⟩ commitment.message.digest r.validators
          bridgeDomain = .ok () := by
  simp only [checkCommitment, bind_ok_iff, mapError_ok_iff]
  constructor
  · rintro ⟨commitment, hdecode, state, hstate, expected, hexpected, h⟩
    split at h
    · simp at h
    · next hstart =>
        rw [← not_not.1 hstart] at hexpected
        exact ⟨commitment, state, hdecode, hstate, hexpected, by simpa using h⟩
  · rintro ⟨commitment, state, hdecode, hstate, hexpected, hverify⟩
    refine ⟨commitment, hdecode, state, hstate, _, hexpected, ?_⟩
    simpa using hverify

theorem permits_of_accepted {r : RoundInputs} {chain : Chain} {ts : List Transaction} {t : Transaction}
    (h : r.checkTransactions chain ts = .ok ()) (ht : t ∈ ts) :
    ∃ index seen, r.Permits chain index seen t := by
  obtain ⟨index, hindex⟩ := List.mem_iff_getElem?.1 ht
  exact ⟨index, _, (checkTransactions_ok_iff.1 h).1 index t hindex⟩

/-- Another transaction with the input and the recipient of an accepted commitment is accepted in its
place. -/
theorem checkFrom_set_commitment {r : RoundInputs} {chain : Chain} {index : Nat}
    {seen seen' : List StateCallKind} {ts : List Transaction} {i : Nat} {t forged : Transaction}
    (h : r.checkFrom chain index seen ts = .ok seen') (hi : ts[i]? = some t) (hstate : t.isState)
    (hbridge : r.isCommitment t) (hforged : forged.isState) (hrecipient : forged.recipient = t.recipient)
    (hinput : forged.input = t.input) : r.checkFrom chain index seen (ts.set i forged) = .ok seen' := by
  induction ts generalizing index seen i with
  | nil => cases hi
  | cons first rest ih =>
      obtain ⟨middle, hfirst, hrest⟩ := bind_ok_iff.1 h
      cases i with
      | zero =>
          cases hi
          have hforgedBridge : r.isCommitment forged := by
            rwa [isCommitment, hrecipient]
          have hcheck : r.checkCommitment chain forged = .ok () := by
            rw [checkCommitment_ok_iff, hinput]
            exact checkCommitment_ok_iff.1
              ((checkTransaction_commitment_iff hstate hbridge).1 hfirst).1
          have hforgedFirst : r.checkTransaction chain index seen forged = .ok middle :=
            (checkTransaction_commitment_iff hforged hforgedBridge).2
              ⟨hcheck, ((checkTransaction_commitment_iff hstate hbridge).1 hfirst).2⟩
          exact bind_ok_iff.2 ⟨middle, hforgedFirst, hrest⟩
      | succ i => exact bind_ok_iff.2 ⟨middle, hfirst, ih hrest hi⟩

/-- Every call in an accepted block is sent by the protocol, with its gas and its value, unless two
digest inputs collide. A commitment may be sent by anyone, with any nonce, gas, price and value. -/
theorem enveloped_of_accepted {r : RoundInputs} {chain : Chain} {ts : List Transaction}
    (h : r.checkTransactions chain ts = .ok ()) :
    (∀ t ∈ ts, t.isState → ¬ r.isCommitment t → r.Enveloped t ∨
      ∃ kind own, r.ownCall? kind = some own ∧
        Digest.Collide (t.digestInput r.height) (own.digestInput r.height)) ∧
    ∀ i t forged, ts[i]? = some t → t.isState → r.isCommitment t → forged.isState →
      forged.recipient = t.recipient → forged.input = t.input →
      r.checkTransactions chain (ts.set i forged) = .ok () := by
  constructor
  · intro t ht hstate hbridge
    obtain ⟨_, _, hpermits⟩ := permits_of_accepted h ht
    obtain ⟨kind, hown, -⟩ := hpermits.call hstate hbridge
    rcases hown.enveloped hstate hbridge with henveloped | ⟨own, hsome, hcollide⟩
    · exact .inl henveloped
    · exact .inr ⟨kind, own, hsome, hcollide⟩
  · intro i t forged hi hstate hbridge hforged hrecipient hinput
    obtain ⟨seen, hall, hneeded⟩ := bind_ok_iff.1 h
    exact bind_ok_iff.2 ⟨seen, checkFrom_set_commitment hall hi hstate hbridge hforged hrecipient hinput,
      hneeded⟩

/-- An epoch of one block ends, and the reward wallet lacks five. -/
def endingInputs : RoundInputs :=
  { Round.firstInputs with
    config := { Config.default with epochSize := 1 }
    epochCommit := some ⟨1, ⟨1, 1, Digest.zero⟩, 1, []⟩
    rewards := some ⟨1, [], 1⟩
    fundAmount := 5 }

theorem accepted_endingCalls : ∃ calls, endingInputs.callTransactions = .ok calls ∧ calls.length = 4 ∧
    endingInputs.checkTransactions Round.firstChain calls = .ok () := by
  have hapart : endingInputs.config.BridgeApart := by
    intro receiver hreceiver
    cases hreceiver
  obtain ⟨calls, hcalls⟩ : ∃ calls, endingInputs.callTransactions = .ok calls := ⟨_, rfl⟩
  have hreadable : Readable calls := by
    intro t ht
    cases hcalls
    revert t
    decide +kernel
  have hempty : ∀ t ∈ ([] : List Transaction), endingInputs.Passive Round.firstChain t := by simp
  have haccepted := checkTransactions_callTransactions hcalls hapart hreadable (fun _ => rfl) hempty
  rw [List.append_nil] at haccepted
  exact ⟨calls, hcalls, by cases hcalls; rfl, haccepted⟩

theorem enveloped_endingCalls : ∃ calls, endingInputs.callTransactions = .ok calls ∧ calls.length = 4 ∧
    endingInputs.checkTransactions Round.firstChain calls = .ok () ∧
    ∀ t ∈ calls, endingInputs.Enveloped t ∨ ∃ kind own, endingInputs.ownCall? kind = some own ∧
      Digest.Collide (t.digestInput endingInputs.height) (own.digestInput endingInputs.height) := by
  have hapart : endingInputs.config.BridgeApart := by
    intro receiver hreceiver
    cases hreceiver
  obtain ⟨calls, hcalls, hlength, haccepted⟩ := accepted_endingCalls
  refine ⟨calls, hcalls, hlength, haccepted, fun t ht => ?_⟩
  obtain ⟨call, value, rfl⟩ := mem_callTransactions hcalls ht
  exact (enveloped_of_accepted haccepted).1 _ ht rfl (not_isCommitment_ofCall hapart _ call value)

end EpochSeal.RoundInputs
