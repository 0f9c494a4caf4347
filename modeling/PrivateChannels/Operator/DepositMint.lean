import PrivateChannels.Operator.RemintAttempt
import PrivateChannels.Storage.Lifecycle

/-!
# Minting one deposit

The gates, `fire_and_store_task`, the confirmation poll, the JIT mint initialisation and
the recovery sweep. Each stands at a suspension point with its lease. Logging and alerting
are left out.
-/

namespace PrivateChannels.Operator

open Storage (Signature StoredSig Stamp Op)

/-- `MAX_RECOVERY_REQUEUE_ATTEMPTS`. -/
def maxRecoveryRequeueAttempts : ℕ := 3

/-- What a check of the journal says. -/
inductive DepositOutcome
  | landed (signature : Signature)
  | notLanded
  | live (reason : String)
  | ambiguous (reason : String)
  deriving DecidableEq, Repr

/-- What the sweep does with a row. -/
inductive RecoveryAction
  | complete (signature : Signature)
  | demote
  | noAction (reason : String)
  | quarantine (reason : String)
  deriving DecidableEq, Repr

/-- What the consumed set says about a claimed row. -/
inductive ConsumedLookup
  | miss
  | hit (consumed : ConsumedMint)
  | mismatch (reason : String)
  deriving DecidableEq, Repr

/-- `JitOutcome`, without the instruction a retry carries along. -/
inductive JitOutcome
  | retry
  | manualReview (reason : String)
  | transient (reason : String)
  deriving DecidableEq, Repr

/-- Where the work on a deposit stands, with the lease it presents. -/
inductive MintTask
  /-- Locked by the fetcher, not yet gated. -/
  | buffered (lease : Stamp)
  | gate (lease : Stamp) (journal : Except String (List PendingSig))
  | settle (lease : Stamp)
  | sign (lease : Stamp)
  | fence (lease : Stamp) (sig : StoredSig)
  | claim (lease : Stamp) (sig : StoredSig)
  | haltRead (lease : Stamp)
  | send (lease : Stamp) (sig : StoredSig)
  | poll (lease : Stamp) (sig : StoredSig) (attempts : ℕ)
  | jit (lease : Stamp)
  /-- Listed by the recovery sweep. -/
  | swept (lease : Stamp) (requeueAttempts : ℕ)
  | decide (lease : Stamp) (requeueAttempts : ℕ) (journal : Except String (List PendingSig))
  /-- A storage write, possibly retried. -/
  | write (op : Op)
  | done

/-- `check_deposit`: no recorded signature means nothing was broadcast. -/
def checkDeposit (journal : Except String (List PendingSig)) (finality : FinalityRpc) :
    DepositOutcome :=
  match journal with
  | .error reason => .ambiguous s!"could not verify mint landed ({reason})"
  | .ok [] => .notLanded
  | .ok pending =>
    match classifySignatures finality pending with
    | .landed signature => .landed signature
    | .dead => .notLanded
    | .live reason => .live reason
    | .uncertain reason => .ambiguous s!"could not verify mint landed ({reason})"

/-- A deposit is found not landed only on a journal that was read, and that is
empty or classified dead. -/
theorem checkDeposit_notLanded {journal : Except String (List PendingSig)} {finality : FinalityRpc}
    (h : checkDeposit journal finality = .notLanded) :
    ∃ pending, journal = .ok pending ∧
      (pending = [] ∨ classifySignatures finality pending = .dead) := by
  unfold checkDeposit at h
  split at h
  · cases h
  · exact ⟨[], rfl, .inl rfl⟩
  · next pending _ =>
    refine ⟨pending, rfl, .inr ?_⟩
    split at h
    · cases h
    · assumption
    · cases h
    · cases h

/-- It is found landed only on a journal that was read and classified so. -/
theorem checkDeposit_landed {journal : Except String (List PendingSig)} {finality : FinalityRpc}
    {signature : Signature} (h : checkDeposit journal finality = .landed signature) :
    ∃ pending, journal = .ok pending ∧ pending ≠ [] ∧
      classifySignatures finality pending = .landed signature := by
  unfold checkDeposit at h
  split at h
  · cases h
  · cases h
  · next pending hne =>
    refine ⟨pending, rfl, fun hnil => hne (by rw [hnil]), ?_⟩
    split at h
    · next hclass =>
      obtain rfl := DepositOutcome.landed.inj h
      exact hclass
    · cases h
    · cases h
    · cases h

/-- `gate_reopened_deposit`. -/
def onGate (lease : Stamp) : DepositOutcome → MintTask
  | .notLanded => .settle lease
  | .landed signature => .write (.tryCompleteProcessing lease (some signature) none)
  | .live _ | .ambiguous _ => .done

/-- `settle_if_consumed` and the build after it; an error ends the processor. -/
def onConsumed (lease : Stamp) : Except String ConsumedLookup → MintTask
  | .ok .miss => .sign lease
  | .ok (.hit consumed) => .write (.tryCompleteProcessing lease (some consumed.signature) none)
  | .ok (.mismatch _) => .write (.tryQuarantineProcessing lease none none)
  | .error _ => .done

/-- `build_and_sign` for a recoverable mint. -/
def onMintSigned (lease : Stamp) : Except String StoredSig → MintTask
  | .ok sig => .fence lease sig
  | .error _ => .done

/-- The fence check of `claim_and_persist_or_abort`, ahead of the claim. -/
def onFence (lease : Stamp) (sig : StoredSig) (isOpen : Bool) : MintTask :=
  if isOpen then .claim lease sig else .write (.requeueUnclaimed lease)

/-- A fence that tripped during the claim leaves the persisted signature unsent. -/
def onMintClaim (lease : Stamp) (sig : StoredSig) (isOpen : Bool) :
    Except String (Option Stamp) → MintTask
  | .ok (some owned) => if isOpen then .send owned sig else .done
  | .ok none => .haltRead lease
  | .error _ => .done

/-- After a refused claim: only an active halt returns the row. -/
def onHaltRead (lease : Stamp) : Except String Bool → MintTask
  | .ok true => .write (.requeueHaltedClaim lease)
  | _ => .done

/-- After `send_signed`; an error leaves the row to recovery. -/
def onMintSent (lease : Stamp) (sig : StoredSig) : Except String Unit → MintTask
  | .ok () => .poll lease sig 0
  | .error _ => .done

/-- `route_poll_results` for a persisted mint, whose policy never resends. -/
def onPoll (lease : Stamp) (sig : StoredSig) (attempts processedAt : ℕ)
    (status : Option PolledStatus) : MintTask :=
  match pollVerdict none .mint [isMintNotInitializedError] status with
  | some .confirmed =>
    .write (.updateTransactionStatus .completed (some sig.signature) processedAt none)
  | some .mintNotInitialized => .jit lease
  | some _ => .write (.tryFailProcessing lease)
  | none =>
    if attempts + 1 ≥ maxPollAttemptsConfirmation then .done else .poll lease sig (attempts + 1)

/-- Everything a poll can lead to. Only a result that finalized with an error
leads to the mint's initialisation. -/
theorem onPoll_cases (lease : Stamp) (sig : StoredSig) (attempts processedAt : ℕ)
    (status : Option PolledStatus) :
    (∃ op, onPoll lease sig attempts processedAt status = .write op ∧
      (op = .updateTransactionStatus .completed (some sig.signature) processedAt none ∨
        op = .tryFailProcessing lease)) ∨
    (onPoll lease sig attempts processedAt status = .jit lease ∧
      ∃ st, status = some st ∧ st.satisfied = true ∧ st.err.isNone = false) ∨
    onPoll lease sig attempts processedAt status = .done ∨
    onPoll lease sig attempts processedAt status = .poll lease sig (attempts + 1) := by
  unfold onPoll
  split
  · exact .inl ⟨_, rfl, .inl rfl⟩
  · next hverdict =>
    obtain ⟨st, hst, hsat, ⟨-, hresult⟩ | ⟨err, herr, -⟩⟩ := pollVerdict_eq_some hverdict
    · cases hresult
    · exact .inr (.inl ⟨rfl, st, hst, hsat, by rw [herr]; rfl⟩)
  · exact .inl ⟨_, rfl, .inr rfl⟩
  · split
    · exact .inr (.inr (.inl rfl))
    · exact .inr (.inr (.inr rfl))

/-- A poll completes the row only when it saw the mint succeed at the commitment. -/
theorem onPoll_completes {lease : Stamp} {sig : StoredSig} {attempts processedAt : ℕ}
    {status : Option PolledStatus} {op : Op} {counterpart : Option Signature}
    (h : onPoll lease sig attempts processedAt status = .write op)
    (hop : op.completion = some counterpart) :
    counterpart = some sig.signature ∧
      ∃ st, status = some st ∧ st.satisfied = true ∧ st.err.isNone = true := by
  unfold onPoll at h
  split at h
  · next hverdict =>
    obtain rfl := MintTask.write.inj h
    refine ⟨(Option.some.inj hop).symm, ?_⟩
    obtain ⟨st, hst, hsat, ⟨herr, -⟩ | ⟨err, -, hfailure⟩⟩ := pollVerdict_eq_some hverdict
    · exact ⟨st, hst, hsat, by rw [herr]; rfl⟩
    · cases hcheck : isMintNotInitializedError err with
      | none =>
        simp only [List.findSome?_cons, hcheck, List.findSome?_nil, Option.getD_none] at hfailure
        exact absurd hfailure (classifyFailure_ne_confirmed _ _ _ _)
      | some result =>
        simp only [List.findSome?_cons, hcheck, Option.getD_some] at hfailure
        subst hfailure
        unfold isMintNotInitializedError at hcheck
        split at hcheck <;> cases hcheck
  · cases h
  · obtain rfl := MintTask.write.inj h
    cases hop
  · split at h <;> cases h

/-- The JIT arm of `handle_confirmation_result`; a retry needs an in-flight slot. -/
def onJit (lease : Stamp) (hasPermit : Bool) : JitOutcome → MintTask
  | .retry => if hasPermit then .sign lease else .done
  | .manualReview _ => .write (.tryQuarantineProcessing lease none none)
  | .transient _ => .write (.tryRequeuePrebroadcast lease maxRecoveryRequeueAttempts)

/-- `decide_action` for a deposit. -/
def decideDeposit (requeueAttempts : ℕ) (outcome : DepositOutcome) : RecoveryAction :=
  match outcome with
  | .landed signature => .complete signature
  | .live reason => .noAction reason
  | .ambiguous reason => .quarantine reason
  | .notLanded =>
    if requeueAttempts ≥ maxRecoveryRequeueAttempts then
      .quarantine s!"exceeded {maxRecoveryRequeueAttempts} recovery requeues without progress"
    else .demote

/-- `route_outcome` for a deposit. -/
def onRecovery (lease : Stamp) : RecoveryAction → MintTask
  | .complete signature => .write (.tryCompleteProcessing lease (some signature) none)
  | .demote => .write (.tryRequeueProcessing lease)
  | .noAction _ => .done
  | .quarantine _ => .write (.tryQuarantineProcessing lease none none)

end PrivateChannels.Operator
