import PrivateChannels.Operator.DepositMint
import PrivateChannels.Operator.PendingRemints

/-!
# Releasing one withdrawal

The withdraw sender's work on one row, from submission to the refund queue. It stands at
one point at a time; a crash loses its `SenderMemory`.
-/

namespace PrivateChannels.Operator

open Escrow (Window)
open Storage (Signature StoredSig Stamp Op TransactionStatus)

/-- Where a nonce stands to the window. -/
inductive GenerationWindow
  | opened
  | notYetOpen
  | closed
  deriving DecidableEq, Repr

/-- `classify_generation`. -/
def classifyGeneration (w : Window) (nonce : UInt64) (chainGeneration : ℕ) : GenerationWindow :=
  if nonce.toNat / w.noncesPerGeneration = chainGeneration then .opened
  else if nonce.toNat / w.noncesPerGeneration > chainGeneration then .notYetOpen
  else .closed

/-- `release_window` when the cache does not already name the nonce's generation:
an unread bitmap refuses nothing. -/
def releaseWindow (w : Window) (nonce : UInt64) : Except String ℕ → GenerationWindow
  | .ok chainGeneration => classifyGeneration w nonce chainGeneration
  | .error _ => .opened

/-- `ProgramError::GenerationMismatch`, as it is printed. -/
def generationMismatch (w : Window) (nonce : UInt64) (chainGeneration : ℕ) : String :=
  let number := nonce.toNat
  let nonceGeneration := number / w.noncesPerGeneration
  s!"Transaction nonce {number} belongs to generation {nonceGeneration} but the bitmap is on "
    ++ s!"generation {chainGeneration}"

/-- What the sender holds for the row between two awaits. -/
structure SenderMemory where
  lease : Option Stamp
  /-- `pending_signatures` of the nonce. -/
  stash : List PendingSig
  /-- The nonce's `remint_cache` entry is present. -/
  remintInfo : Bool
  /-- The release waits in `rotation_retry_queue`. -/
  queued : Bool
  attempts : ℕ
  pendingRemints : List PendingRemint
  deriving DecidableEq, Repr

def SenderMemory.empty : SenderMemory := ⟨none, [], false, false, 0, []⟩

/-- A failure on its way to the refund queue, with the stash it took along. -/
structure Failure where
  error : String
  refused : Bool
  stashed : List PendingSig
  deriving DecidableEq, Repr

/-- Where the sender stands. -/
inductive SenderTask
  | idle
  /-- Building the release: which window is the nonce in? -/
  | window
  | park
  | sign
  | requeue (reasonAtCap : String)
  | fence (sig : StoredSig)
  | claim (sig : StoredSig)
  | haltRead
  | send (sig : StoredSig)
  | confirm (sig : StoredSig)
  /-- `handle_nonce_already_used`. -/
  | usedJournal
  | usedClassify (pending : List PendingSig)
  /-- `handle_nonce_outside_generation`. -/
  | generation (sig : Signature)
  | parkRefused (sig : Signature) (forget : Bool)
  | forget (sig : Signature)
  /-- `defer_remint_after_failure`. -/
  | deferJournal (failure : Failure)
  | handoff (failure : Failure) (pending : List PendingSig) (tries : ℕ)
  | handoffStatus (failure : Failure) (pending : List PendingSig)
  | handoffAgain (failure : Failure) (pending : List PendingSig)
  /-- `drain_rotation_retry_queue`. -/
  | drain
  | hold
  | unpark
  /-- `hydrate_pending_remints`, on a row it listed. -/
  | hydrate (attempts : ℕ) (refused : Bool)
  /-- `process_pending_remints_within`. -/
  | gate (task : GateTask)
  | remint (entry : PendingRemint) (task : RemintTask)
  /-- A storage write whose result the sender does not act on. -/
  | write (op : Op)

section

variable (w : Window) (nonce : UInt64) (mem : SenderMemory)

/-- `cleanup_failed_transaction`. -/
def cleanupFailedTransaction : SenderMemory := { mem with attempts := 0, remintInfo := false }

/-- `send_fenced_outcome`: under the lease if there is one, else by the writer. -/
def fencedOutcome (status : TransactionStatus) : SenderTask :=
  match mem.lease, status with
  | some lease, .failed => .write (.tryFailProcessing lease)
  | some lease, _ => .write (.tryQuarantineProcessing lease none none)
  | none, _ => .write (.updateTransactionStatus status none 0 none)

/-- `send_manual_review`; the stash is kept. -/
def sendManualReview : SenderMemory × SenderTask :=
  (cleanupFailedTransaction mem, fencedOutcome mem .manualReview)

/-- `defer_remint_after_failure` up to its journal read. Without refund material
the row is failed. -/
def deferRemintAfterFailure (error : String) (refused : Bool) : SenderMemory × SenderTask :=
  let cleared := { cleanupFailedTransaction mem with stash := [] }
  if mem.remintInfo then (cleared, .deferJournal ⟨error, refused, mem.stash⟩)
  else (cleared, fencedOutcome mem .failed)

/-- `restore_remint_material`. -/
def restoreRemintMaterial (failure : Failure) : SenderMemory × SenderTask :=
  ({ mem with remintInfo := true, stash := failure.stashed }, .idle)

/-- After the journal read of `defer_remint_after_failure`. -/
def onDeferJournal (failure : Failure) :
    Except String (List PendingSig) → SenderMemory × SenderTask
  | .error _ => restoreRemintMaterial mem failure
  | .ok [] => sendManualReview mem
  | .ok pending => (mem, .handoff failure pending 0)

/-- `queue_runtime_remint`. -/
def queueRuntimeRemint (failure : Failure) (pending : List PendingSig) :
    SenderMemory × SenderTask :=
  let entry : PendingRemint :=
    ⟨some nonce, pending, failure.error, 0, failure.refused, none, none, 0⟩
  ({ mem with pendingRemints := mem.pendingRemints ++ [entry] }, .idle)

/-- After a try of `set_pending_remint`. -/
def onHandoff (failure : Failure) (pending : List PendingSig) (tries : ℕ) :
    Except String Unit → SenderMemory × SenderTask
  | .ok () => queueRuntimeRemint nonce mem failure pending
  | .error _ =>
    if tries + 1 < storageAttempts then (mem, .handoff failure pending (tries + 1))
    else (mem, .handoffStatus failure pending)

/-- After reading the row back: its status says who owns the withdrawal now. -/
def onHandoffStatus (failure : Failure) (pending : List PendingSig) :
    Except String (Option TransactionStatus) → SenderMemory × SenderTask
  | .ok (some .pendingRemint) => queueRuntimeRemint nonce mem failure pending
  | .ok (some .processing) => restoreRemintMaterial mem failure
  | .ok (some _) => (mem, .idle)
  | .ok none | .error _ => (mem, .handoffAgain failure pending)

/-- After the last try, on a row that could not be read back. -/
def onHandoffAgain (failure : Failure) (pending : List PendingSig) :
    Except String Unit → SenderMemory × SenderTask
  | .ok () => queueRuntimeRemint nonce mem failure pending
  | .error _ => restoreRemintMaterial mem failure

/-- `handle_transaction_submission` arms the lease and caches the refund. -/
def submitRelease (lease : Stamp) : SenderMemory × SenderTask :=
  ({ mem with lease := some lease, remintInfo := true }, .window)

/-- The retry bound at the top of `send_and_confirm`. -/
def sendAndConfirm (retryMaxAttempts : ℕ) : SenderMemory × SenderTask :=
  if mem.attempts ≥ retryMaxAttempts then deferRemintAfterFailure mem "Max retries exceeded" false
  else ({ mem with attempts := mem.attempts + 1 }, .sign)

/-- After `release_window`; only a fresh read may refuse. -/
def onWindow (retryMaxAttempts : ℕ) (cached : Bool) (read : Except String ℕ) :
    SenderMemory × SenderTask :=
  if cached then sendAndConfirm mem retryMaxAttempts
  else
    match releaseWindow w nonce read with
    | .opened => sendAndConfirm mem retryMaxAttempts
    | .notYetOpen => (mem, .park)
    | .closed => deferRemintAfterFailure mem
        (generationMismatch w nonce (read.toOption.getD 0)) true

/-- After `park_release_for_rotation` of a release whose window is not open. -/
def onParked : Except String Bool → SenderMemory × SenderTask
  | .ok true => ({ mem with queued := true }, .idle)
  | _ => (mem, .idle)

/-- `PREBROADCAST_CAP_REACHED`. -/
def prebroadcastCapReached : String := "requeue cap reached before this attempt broadcast"

/-- Only a release with nothing stashed is requeued, and only one with a lease is claimed. -/
def onReleaseSigned : Except String StoredSig → SenderMemory × SenderTask
  | .ok sig => if mem.lease.isSome then (mem, .fence sig) else (mem, .idle)
  | .error e =>
    if mem.stash.isEmpty then
      (mem, .requeue (s!"{prebroadcastCapReached}, build/sign failed after "
        ++ s!"{maxRecoveryRequeueAttempts} requeues: {e}"))
    else deferRemintAfterFailure mem e false

/-- What `try_requeue_prebroadcast` reports. -/
inductive RequeueOutcome
  | requeued
  | atCap (lease : Stamp)
  | notProcessing
  deriving DecidableEq, Repr

/-- `requeue_or_fail_prebroadcast`, after its write. -/
def onRequeued (reasonAtCap : String) : Except String RequeueOutcome → SenderMemory × SenderTask
  | .ok (.atCap lease) => deferRemintAfterFailure { mem with lease := some lease } reasonAtCap false
  | .ok .requeued | .ok .notProcessing | .error _ => ({ mem with remintInfo := false }, .idle)

/-- The fence check ahead of the claim. -/
def onReleaseFence (sig : StoredSig) (isOpen : Bool) : SenderMemory × SenderTask :=
  if isOpen then (mem, .claim sig)
  else (mem, mem.lease.elim .idle fun lease => .write (.requeueUnclaimed lease))

/-- After `claim_and_persist_signature`, with the fence read again. -/
def onReleaseClaim (sig : StoredSig) (isOpen : Bool) :
    Except String (Option Stamp) → SenderMemory × SenderTask
  | .ok (some lease) =>
    if isOpen then ({ mem with lease := some lease }, .send sig) else (mem, .idle)
  | .ok none => (mem, .haltRead)
  | .error _ => (mem, .idle)

/-- After a refused claim. -/
def onReleaseHaltRead : Except String Bool → SenderMemory × SenderTask
  | .ok true => (mem, mem.lease.elim .idle fun lease => .write (.requeueHaltedClaim lease))
  | _ => (mem, .idle)

/-- After `send_signed`. -/
def onReleaseSent (sig : StoredSig) : Except String Unit → SenderMemory × SenderTask
  | .ok () => ({ mem with stash := mem.stash ++ [sig] }, .confirm sig)
  | .error e => deferRemintAfterFailure mem e false

/-- `handle_success` for a release: no status is written at confirmed. -/
def handleSuccess : SenderMemory × SenderTask :=
  ({ mem with lease := none, stash := [], remintInfo := false, attempts := 0 }, .idle)

/-- The `Debug` text of an optional escrow error. -/
def debugError : Option EscrowError → String
  | none => "None"
  | some e => "Some(" ++ e.debug ++ ")"

/-- `handle_confirmation_result` for a release. -/
def onReleaseConfirmation (retryMaxAttempts : ℕ) (sig : StoredSig) :
    Except String ConfirmationResult → SenderMemory × SenderTask
  | .ok .confirmed => handleSuccess mem
  | .ok (.failed (some .nonceAlreadyUsed) _) =>
    if mem.stash.isEmpty then (mem, .usedJournal) else (mem, .usedClassify mem.stash)
  | .ok (.failed (some .nonceOutsideCurrentGeneration) _) => (mem, .generation sig.signature)
  | .ok .mintNotInitialized => deferRemintAfterFailure mem "Unexpected mint error" false
  | .ok .retry => sendAndConfirm mem retryMaxAttempts
  | .ok (.failed (some .unexpectedGeneration) _) => (mem, .idle)
  | .ok (.failed error _) => deferRemintAfterFailure mem (debugError error) false
  | .error e => deferRemintAfterFailure mem e false

/-- After the journal read of `handle_nonce_already_used`. -/
def onUsedJournal : Except String (List PendingSig) → SenderMemory × SenderTask
  | .error _ => (cleanupFailedTransaction mem, .idle)
  | .ok [] => sendManualReview mem
  | .ok pending => (mem, .usedClassify pending)

/-- After classifying which broadcast consumed the nonce. -/
def onUsedFinality : SigFinality → SenderMemory × SenderTask
  | .landed _ => handleSuccess mem
  | .live reason | .uncertain reason => deferRemintAfterFailure mem
      s!"nonce already consumed on-chain; awaiting finality: {reason}" false
  | .dead => sendManualReview mem

/-- An unread generation keeps the refused signature in the journal. -/
def onGeneration (sig : Signature) : Except String ℕ → SenderMemory × SenderTask
  | .error _ => (mem, .parkRefused sig false)
  | .ok chainGeneration =>
    match classifyGeneration w nonce chainGeneration with
    | .closed => deferRemintAfterFailure mem (generationMismatch w nonce chainGeneration) true
    | _ => (mem, .parkRefused sig true)

/-- `forget_stashed_signature`. -/
def forgetStashedSignature (sig : Signature) : SenderMemory :=
  { mem with stash := mem.stash.filter (·.signature != sig) }

/-- After parking a refused release: the attempt is given back. -/
def onParkedRefused (sig : Signature) (forget : Bool) :
    Except String Bool → SenderMemory × SenderTask
  | .ok true =>
    let refunded := { forgetStashedSignature mem sig with attempts := mem.attempts - 1 }
    if forget then (refunded, .forget sig) else ({ refunded with queued := true }, .idle)
  | _ => (mem, .idle)

/-- After `delete_release_signature`, whose error is only logged. -/
def onForgotten : SenderMemory × SenderTask := ({ mem with queued := true }, .idle)

/-- A queued release at a tick; `none` is a generation that could not be used. -/
def onDrain : Option ℕ → SenderMemory × SenderTask
  | none => (mem, .hold)
  | some chainGeneration =>
    match classifyGeneration w nonce chainGeneration with
    | .opened => (mem, .unpark)
    | .notYetOpen => (mem, .hold)
    | .closed => ({ mem with queued := false }, .idle)

/-- After `try_unpark_to_processing`. -/
def onUnparked (retryMaxAttempts : ℕ) : Except String (Option Stamp) → SenderMemory × SenderTask
  | .ok (some lease) => sendAndConfirm { mem with lease := some lease, queued := false }
      retryMaxAttempts
  | .ok none => ({ mem with queued := false }, .idle)
  | .error _ => (mem, .idle)

/-- A gate's result: the next gate, the queue, a refund, or a status message. -/
def onGateTask : GateTask → SenderMemory × SenderTask
  | .requeue entry => ({ mem with pendingRemints := mem.pendingRemints ++ [entry] }, .idle)
  | .remint entry => (mem, .remint entry .lookup)
  | .resolved update counterpart =>
    (mem, if update.alertOnly then .idle
      else .write (.updateTransactionStatus update.status counterpart 0 none))
  | task => (mem, .gate task)

/-- After the journal read of `hydrate_pending_remints`. An empty journal cannot prove the
release dead. -/
def onHydrate (attempts : ℕ) (refused : Bool) :
    Except String (List PendingSig) → SenderMemory × SenderTask
  | .error _ => (mem, .idle)
  | .ok [] => onGateTask mem (.resolved (manualReview
      "recovery failed: no withdrawal signatures stored; cannot verify finality" false) none)
  | .ok pending =>
    let entry : PendingRemint :=
      ⟨some nonce, pending, "recovered from persistent storage", attempts, refused, none, none, 0⟩
    ({ mem with pendingRemints := mem.pendingRemints ++ [entry] }, .idle)

/-- The refund attempt moves on, or ends and is routed by the queue. -/
def onRemintTask (entry : PendingRemint) : RemintTask → SenderMemory × SenderTask
  | .done outcome update =>
    match onDeferredRemint entry outcome update with
    | none => (mem, .idle)
    | some task => onGateTask mem task
  | task => (mem, .remint entry task)

end

end PrivateChannels.Operator
