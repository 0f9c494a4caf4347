import PrivateChannels.Operator.Confirmation

/-!
# One remint attempt

`attempt_remint` and the recording around it: a task at one suspension point, and a
function per point. Journaled signatures are parsed values; the branch for an unparseable
one has no counterpart.
-/

namespace PrivateChannels.Operator

open Storage (Signature StoredSig RemintClaim TransactionStatus)

/-- A key, only compared. -/
structure Pubkey where
  id : ℕ
  deriving DecidableEq, Repr

/-- What a channel mint pays. -/
inductive ConsumedMintKind
  | deposit
  | remint
  deriving DecidableEq, Repr

/-- A channel mint the authority signed, with the fields it executed. -/
structure ConsumedMint where
  signature : Signature
  kind : ConsumedMintKind
  mint : Pubkey
  recipientAta : Pubkey
  tokenProgram : Pubkey
  amount : ℕ
  deriving DecidableEq, Repr

/-- What the attempt reads of its `PendingRemint` entry. -/
structure WithdrawalRemintInfo where
  transactionId : ℕ
  mint : Pubkey
  userAta : Pubkey
  amount : ℕ
  originalError : String
  deriving DecidableEq, Repr

/-- `MAX_REMINT_ATTEMPTS`. -/
def maxRemintAttempts : ℕ := 3

/-- `ATTEMPTS` of `with_storage_backoff`. -/
def storageAttempts : ℕ := 3

/-- The outcome of one `attempt_remint` call. -/
inductive RemintAttempt
  | confirmed (signature : Signature)
  | deferPreBroadcast (reason : String)
  | deferInFlight (reason : String)
  | failed (reason : String)
  | abandoned
  | releaseObserved (reason : String)
  deriving DecidableEq, Repr

/-- A message to the status writer; `alertOnly` ones are not written. -/
structure TransactionStatusUpdate where
  status : TransactionStatus
  errorMessage : String
  remintSignature : Option Signature
  remintAttempted : Bool
  alertOnly : Bool
  deriving DecidableEq, Repr

/-- How an attempt ended. -/
inductive DeferredRemintOutcome
  | resolved
  | deferPreBroadcast (reason : String)
  | deferInFlight (reason : String)
  deriving DecidableEq, Repr

/-- A failure ahead of the claim: of the builder, or of `build_and_sign`. -/
inductive BuildError
  | instructions (e : String)
  | signing (e : String)
  deriving DecidableEq, Repr

/-- Where the call stands. -/
inductive RemintTask
  | lookup
  | readJournal
  | classify (stored : List StoredSig)
  | countRejected (stored : List StoredSig)
  | sign (provenDead : List Signature)
  | claim (provenDead : List Signature) (sig : StoredSig)
  | send (sig : StoredSig)
  | confirm (sig : StoredSig)
  | record (signature : Signature) (attempt : ℕ)
  | readBack (signature : Signature) (attempt : ℕ) (persistError : String)
  | clear (signature : Signature)
  | done (outcome : DeferredRemintOutcome) (update : Option TransactionStatusUpdate)
  deriving DecidableEq, Repr

variable (info : WithdrawalRemintInfo)

/-- `send_manual_review`. -/
def manualReview (reason : String) (remintAttempted : Bool) : TransactionStatusUpdate :=
  ⟨.manualReview, reason, none, remintAttempted, false⟩

/-- `send_reminted_alert`. -/
def remintedAlert (signature : Signature) (errorMessage : String) : TransactionStatusUpdate :=
  ⟨.failedReminted, errorMessage, some signature, true, true⟩

/-- The match of `execute_deferred_remint` on the attempt's outcome. -/
def settleAttempt : RemintAttempt → RemintTask
  | .confirmed signature => .record signature 0
  | .deferPreBroadcast reason => .done (.deferPreBroadcast reason) none
  | .deferInFlight reason => .done (.deferInFlight reason) none
  | .abandoned => .done .resolved none
  | .releaseObserved reason =>
    .done .resolved (some (manualReview (info.originalError ++ " | " ++ reason) false))
  | .failed e =>
    .done .resolved (some (manualReview (info.originalError ++ " | remint failed: " ++ e) true))

/-- The consumed mint is the refund this entry would send. -/
def ConsumedMint.pays (consumed : ConsumedMint) (info : WithdrawalRemintInfo) : Bool :=
  consumed.kind == .remint && consumed.mint == info.mint &&
    consumed.recipientAta == info.userAta && consumed.amount == info.amount

/-- After `lookup_event`, or at once when no consumed set is configured. -/
def onLookup : Except String (Option ConsumedMint) → RemintTask
  | .ok none => .readJournal
  | .ok (some consumed) =>
    if consumed.pays info then settleAttempt info (.confirmed consumed.signature)
    else settleAttempt info (.failed (s!"channel mint {consumed.signature.id} carries transaction "
      ++ s!"{info.transactionId}'s remint marker but does not pay it; refusing to remint"))
  | .error reason => settleAttempt info (.deferInFlight
      s!"channel mint history unreadable for transaction {info.transactionId}: {reason}")

/-- After `get_remint_signatures`. -/
def onJournal : Except String (List StoredSig) → RemintTask
  | .error e => settleAttempt info (.deferInFlight
      (s!"stored remint-signature lookup failed for transaction {info.transactionId}: "
        ++ s!"{e}; will retry"))
  | .ok [] => .sign []
  | .ok stored => .classify stored

/-- After `classify_signatures` over the stored attempts. -/
def onFinality (stored : List StoredSig) : SigFinality → RemintTask
  | .landed signature => settleAttempt info (.confirmed signature)
  | .live reason => settleAttempt info (.deferInFlight
      s!"prior remint attempt still in flight: {reason}")
  | .uncertain reason => settleAttempt info (.failed
      (s!"remint idempotency classification unavailable for transaction {info.transactionId}: "
        ++ s!"{reason}; refusing to remint"))
  | .dead =>
    if stored.length ≥ maxRemintAttempts then .countRejected stored
    else .sign (stored.map (·.signature))

/-- After `count_rejected`. -/
def onRejected (stored : List StoredSig) : Except String ℕ → RemintTask
  | .ok rejected =>
    if rejected ≥ maxRemintAttempts then settleAttempt info (.failed
      (s!"remint attempt cap reached for transaction {info.transactionId}: the channel rejected "
        ++ s!"{rejected} of {stored.length} attempts on chain ("
        ++ String.intercalate ", " (stored.map fun s => toString s.signature.id)
        ++ "); refusing to send another"))
    else .sign (stored.map (·.signature))
  | .error e => settleAttempt info (.deferInFlight
      (s!"could not count rejected remint attempts for transaction {info.transactionId}: "
        ++ s!"{e}; will retry"))

/-- After building and signing. -/
def onSigned (provenDead : List Signature) : Except BuildError StoredSig → RemintTask
  | .ok sig => .claim provenDead sig
  | .error (.instructions e) => settleAttempt info (.deferPreBroadcast
      s!"failed to build remint instructions for transaction {info.transactionId}: {e}; will retry")
  | .error (.signing e) => settleAttempt info (.deferPreBroadcast
      s!"failed to build/sign remint for transaction {info.transactionId}: {e}; will retry")

/-- After `claim_remint_attempt`; an error leaves the commit unknown. -/
def onClaim (sig : StoredSig) : Except String RemintClaim → RemintTask
  | .ok .claimed => .send sig
  | .ok .rowMoved => settleAttempt info .abandoned
  | .ok .releaseObserved => settleAttempt info (.releaseObserved
      (s!"a release for transaction {info.transactionId} was recorded before the refund could be "
        ++ "claimed, so it already paid out"))
  | .ok .heldElsewhere => settleAttempt info (.deferInFlight
      s!"remint claim for transaction {info.transactionId} is held by another sender")
  | .error e => settleAttempt info (.deferPreBroadcast
      s!"pre-send remint claim failed for transaction {info.transactionId}: {e}; will retry")

/-- After `send_signed`. -/
def onSent (sig : StoredSig) : Except String Unit → RemintTask
  | .ok () => .confirm sig
  | .error e => settleAttempt info (.deferInFlight
      s!"remint send failed for transaction {info.transactionId}: {e}; will reclassify")

/-- After `check_transaction_status`. -/
def onConfirmation (sig : StoredSig) : Except String ConfirmationResult → RemintTask
  | .ok .confirmed => settleAttempt info (.confirmed sig.signature)
  | .ok other => settleAttempt info (.deferInFlight s!"remint not yet confirmed: {other.debug}")
  | .error e => settleAttempt info (.deferInFlight
      s!"remint confirmation failed for transaction {info.transactionId}: {e}; will reclassify")

/-- After `record_remint_result`, whose error also stands for a row that has
left `pending_remint`. -/
def onRecorded (signature : Signature) (attempt : ℕ) : Except String Unit → RemintTask
  | .ok () => .clear signature
  | .error e =>
    if attempt + 1 < storageAttempts then .record signature (attempt + 1)
    else .readBack signature 0 e

/-- The text of the outcome that keeps the journal and retries. -/
def recordingFailed (signature : Signature) (persistError : String) : RemintTask :=
  .done (.deferInFlight (s!"remint {signature.id} landed but recording it failed for transaction "
    ++ s!"{info.transactionId}: {persistError}")) none

/-- After reading the row's status back. -/
def onReadBack (signature : Signature) (attempt : ℕ) (persistError : String) :
    Except String TransactionStatus → RemintTask
  | .ok .failedReminted => .clear signature
  | .ok .pendingRemint => recordingFailed info signature persistError
  | .ok status => .done .resolved (some (remintedAlert signature (info.originalError
      ++ s!" | remint landed but the row is no longer pending_remint (Some({status.debug}))")))
  | .error _ =>
    if attempt + 1 < storageAttempts then .readBack signature (attempt + 1) persistError
    else recordingFailed info signature persistError

/-- After `delete_remint_signatures`, whose error is only logged. -/
def onCleared (signature : Signature) : RemintTask :=
  .done .resolved (some (remintedAlert signature info.originalError))

end PrivateChannels.Operator
