import PrivateChannels.Operator.ReleaseProof
import PrivateChannels.Operator.RemintAttempt

/-!
# The gates before a remint

`process_pending_remints_within` on one matured entry. Each gate is a read: a point the
sender stands at, and a function that says how the answer moves it on.
-/

namespace PrivateChannels.Operator

open Escrow (Window)
open Storage (Signature ObservedRelease)

/-- `MAX_FINALITY_CHECK_ATTEMPTS`. -/
def maxFinalityCheckAttempts : ℕ := 3

/-- `MAX_FREE_WAITS`. -/
def maxFreeWaits : ℕ := 20

/-- A queued refund. Its deadline only delays it and is not kept. -/
structure PendingRemint where
  nonce : Option UInt64
  signatures : List PendingSig
  originalError : String
  finalityCheckAttempts : ℕ
  releaseRefusedOnChain : Bool
  coverageSlot : Option ℕ
  coverageCheckpoint : Option ℕ
  freeWaits : ℕ
  deriving DecidableEq, Repr

/-- What the bitmap says of a release. -/
inductive BitmapVerdict
  | blocked (reason : String)
  | clear
  | unknown (reason : String)
  | unfinalized (reason : String)
  | pending (reason : String)
  deriving DecidableEq, Repr

/-- Whether the record covers a window. -/
inductive ReleaseCoverage
  | covered
  | catchingUp (reason : String)
  | unproven (reason : String)
  deriving DecidableEq, Repr

/-- What the record says of a payout. -/
inductive ReleaseRecord
  | found (reason : String)
  | provenAbsent
  | catchingUp (reason : String)
  | unproven (reason : String)
  deriving DecidableEq, Repr

/-- Where the work on a matured entry stands. -/
inductive GateTask
  | classify (entry : PendingRemint)
  | bitmap (entry : PendingRemint)
  | checkpoint (entry : PendingRemint) (pending : Bool)
  | observed (entry : PendingRemint) (coverage : ReleaseCoverage)
  /-- `execute_deferred_remint`. -/
  | remint (entry : PendingRemint)
  /-- Back in the queue as it is. -/
  | requeue (entry : PendingRemint)
  /-- `defer_or_escalate` has a counter to persist. -/
  | bump (entry : PendingRemint) (reason : String)
  /-- Out of the queue, with a message to the status writer. -/
  | resolved (update : TransactionStatusUpdate) (counterpart : Option Signature)
  deriving DecidableEq, Repr

/-- `send_manual_review` of the remint queue. -/
def PendingRemint.manualReview (entry : PendingRemint) (reason : String) : GateTask :=
  .resolved (Operator.manualReview (entry.originalError ++ " | " ++ reason) false) none

/-- `defer_or_escalate`, up to the write of the counter. -/
def deferOrEscalate (entry : PendingRemint) (reason : String) : GateTask :=
  let attempt := entry.finalityCheckAttempts + 1
  if attempt ≥ maxFinalityCheckAttempts then
    entry.manualReview s!"escalated to ManualReview after {attempt} attempts: {reason}"
  else .bump { entry with finalityCheckAttempts := attempt } reason

/-- After `bump_pending_remint_finality_attempt`: an unpersisted counter escalates. -/
def onBumped (entry : PendingRemint) : Except String Unit → GateTask
  | .ok () => .requeue entry
  | .error e =>
    entry.manualReview s!"counter persist failed at attempt {entry.finalityCheckAttempts}: {e}"

/-- `requeue_free_wait`. -/
def requeueFreeWait (entry : PendingRemint) : GateTask :=
  .requeue { entry with freeWaits := entry.freeWaits + 1 }

/-- An expected wait, free while the entry has free waits left. -/
def waitOrDefer (entry : PendingRemint) (reason : String) : GateTask :=
  if entry.freeWaits < maxFreeWaits then requeueFreeWait entry else deferOrEscalate entry reason

/-- After classifying the release signatures. -/
def onReleaseFinality (entry : PendingRemint) : SigFinality → GateTask
  | .landed signature => .resolved ⟨.completed, "", none, false, false⟩ (some signature)
  | .live reason => waitOrDefer entry reason
  | .uncertain reason => deferOrEscalate entry reason
  | .dead => .bitmap entry

/-- The finalized anchor, and the bitmap at confirmed, at or past it. -/
structure ConfirmedReads where
  anchor : Except String ℕ
  bitmap : ℕ → Except String BitmapState

/-- `release_seen_at_confirmed`. -/
def releaseSeenAtConfirmed (w : Window) (reads : ConfirmedReads) (nonce : UInt64) :
    Except String Bool :=
  match reads.anchor with
  | .error e => .error e
  | .ok anchor =>
    match reads.bitmap anchor with
    | .error e => .error s!"confirmed bitmap read failed: {e}"
    | .ok bitmap =>
      if bitmap.covers w nonce then .ok (bitmap.isConsumed w nonce)
      else .error (s!"the confirmed bitmap is on generation {bitmap.generation} and its bits say "
        ++ s!"nothing about nonce {nonce.toNat}")

/-- The highest last valid height of the entry's attempts. -/
def maxLastValid (signatures : List PendingSig) : ℕ :=
  signatures.foldl (fun m p => m.max p.lastValidBlockHeight) 0

/-- `bitmap_verdict`: the verdict, and the slot of the read that closed the window. -/
def bitmapVerdict (w : Window) (reads : ReleaseReads) (confirmed : ConfirmedReads)
    (entry : PendingRemint) : BitmapVerdict × Option ℕ :=
  match entry.nonce, reads.configured with
  | some nonce, true =>
    let (verdict, closedAt) := verifyReleaseLandedAt w reads nonce (maxLastValid entry.signatures)
    let number := nonce.toNat
    match verdict with
    | .landed generation => (.blocked (s!"nonce {number} is consumed on-chain in generation "
        ++ s!"{generation}, so the release landed despite every signature looking dead; "
        ++ "reminting would credit it twice"), closedAt)
    | .notLanded =>
      match releaseSeenAtConfirmed w confirmed nonce with
      | .ok false => (.clear, closedAt)
      | .ok true => (.unfinalized (s!"nonce {number} is consumed at confirmed but not yet "
          ++ "finalized, so a release may be landing; waiting for finality before reminting"),
          closedAt)
      | .error reason => (.unknown reason, closedAt)
    | .uncertain reason => (.unknown reason, closedAt)
    | .pending reason => (.pending reason, closedAt)
  | _, _ => (.clear, none)

/-- After `bitmap_verdict`. The first read that closed the window fixes the coverage bound. -/
def onBitmap (entry : PendingRemint) (answer : BitmapVerdict × Option ℕ) : GateTask :=
  let entry := { entry with coverageSlot := entry.coverageSlot.orElse fun _ => answer.2 }
  match answer.1 with
  | .blocked reason => entry.manualReview reason
  | .unfinalized reason => deferOrEscalate entry reason
  | .pending reason =>
    if entry.releaseRefusedOnChain then .checkpoint entry true else waitOrDefer entry reason
  | .unknown reason =>
    if entry.releaseRefusedOnChain then .checkpoint entry false else deferOrEscalate entry reason
  | .clear => .checkpoint entry false

/-- `release_coverage`, with the checkpoint it saw kept in the entry. -/
def releaseCoverage (entry : PendingRemint) (nonce : ℕ) (pending : Bool)
    (checkpoint : Except String (Option ℕ)) : ReleaseCoverage × PendingRemint :=
  match entry.coverageSlot with
  | none =>
    let reason := s!"no anchored bitmap read has closed the release window for nonce {nonce} yet, "
      ++ "so nothing bounds the slots the record has to cover"
    (if pending then .catchingUp reason else .unproven reason, entry)
  | some bound =>
    match checkpoint with
    | .ok (some reached) =>
      if reached ≥ bound then (.covered, entry)
      else
        let reason := s!"no release is on record for nonce {nonce}, but the indexer has only "
          ++ s!"reached slot {reached} of {bound}, so a release could still be unindexed"
        (if entry.coverageCheckpoint.all (· < reached) then .catchingUp reason
          else .unproven reason, { entry with coverageCheckpoint := some reached })
    | .ok none => (.unproven (s!"no release is on record for nonce {nonce} and the indexer has "
        ++ s!"committed no checkpoint, so nothing says the record covers slot {bound}"), entry)
    | .error e => (.unproven (s!"no release is on record for nonce {nonce} and the indexer "
        ++ s!"checkpoint could not be read ({e}), so its coverage is unknown"), entry)

/-- The first read of `release_record`; an entry without a nonce has no record. -/
def onCheckpoint (entry : PendingRemint) (pending : Bool)
    (checkpoint : Except String (Option ℕ)) : GateTask :=
  match entry.nonce with
  | none => .remint entry
  | some nonce =>
    let (coverage, entry) := releaseCoverage entry nonce.toNat pending checkpoint
    .observed entry coverage

/-- The rest of `release_record`. -/
def releaseRecord (nonce : ℕ) (coverage : ReleaseCoverage) :
    Except String (Option ObservedRelease) → ReleaseRecord
  | .ok (some release) => .found (s!"a release for nonce {nonce} is on record (slot "
      ++ s!"{release.slot}, signature {release.signature.id}), so it already paid out and "
      ++ "reminting would credit it twice")
  | .error e => .found (s!"the release record for nonce {nonce} could not be read ({e}), so a "
      ++ "payout cannot be ruled out")
  | .ok none =>
    match coverage with
    | .covered => .provenAbsent
    | .catchingUp reason => .catchingUp reason
    | .unproven reason => .unproven reason

/-- After `get_observed_release`. -/
def onObserved (entry : PendingRemint) (coverage : ReleaseCoverage)
    (answer : Except String (Option ObservedRelease)) : GateTask :=
  match releaseRecord (entry.nonce.elim 0 (·.toNat)) coverage answer with
  | .found reason => entry.manualReview reason
  | .catchingUp reason => waitOrDefer entry reason
  | .unproven reason => deferOrEscalate entry reason
  | .provenAbsent => .remint entry

/-- After `execute_deferred_remint`. -/
def onDeferredRemint (entry : PendingRemint) :
    DeferredRemintOutcome → Option TransactionStatusUpdate → Option GateTask
  | .resolved, update => update.map (.resolved · none)
  | .deferPreBroadcast reason, _ => some (deferOrEscalate entry reason)
  | .deferInFlight _, _ => some (.requeue entry)

end PrivateChannels.Operator
