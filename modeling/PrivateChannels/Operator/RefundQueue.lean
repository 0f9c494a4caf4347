import PrivateChannels.Operator.RemintSafety
import PrivateChannels.Operator.WithdrawSystem

/-!
# One row in the refund queue

`process_pending_remints` over any number of ticks and restarts, for one row. Every
message carries the answer it was decided on, which the code does not keep.
-/

namespace PrivateChannels.Operator

open Escrow (Window)
open Storage (Signature StoredSig Stamp Op Row TransactionStatus ObservedRelease)

/-- The release attempts journaled for the row, and the states the two chains may take. -/
structure RefundWorld extends RemintWorld where
  window : Window
  nonce : UInt64
  validSolana : Ledger.Chain Signature → Prop
  releases : List PendingSig
  releases_ne_nil : releases ≠ []
  admissible : ∀ sig ∈ releases, ∀ c, validSolana c → Admissible .solana sig c

/-- What the pass has read last. -/
inductive RefundAnswer
  /-- `classify_signatures` over the release's signatures. -/
  | release (verdict : SigFinality)
  | bitmap (verdict : BitmapVerdict)
  /-- `release_record`. -/
  | record (verdict : ReleaseRecord)
  /-- `lookup_event`. -/
  | mintHistory (answer : Except String (Option ConsumedMint))
  /-- `classify_signatures` over the journaled remints. -/
  | remints (stored : List StoredSig) (verdict : SigFinality)
  | other

/-- What a step of the attempt reads. -/
def RemintTask.read : RemintTask → RemintEvent → RefundAnswer
  | .lookup, .lookup _ answer => .mintHistory answer
  | .classify stored, .classify _ finality => .remints stored (classifySignatures finality stored)
  | _, _ => .other

/-- Where the process stands with the row's entry. -/
inductive RefundStage
  | idle
  | queued (entry : PendingRemint)
  | gate (task : GateTask) (answer : RefundAnswer)
  /-- `execute_deferred_remint`; the attempt is the system's task `0`. -/
  | attempt (entry : PendingRemint) (answer : RefundAnswer)

/-- A message to the status writer. -/
structure StatusMessage where
  update : TransactionStatusUpdate
  counterpart : Option Signature
  answer : RefundAnswer

/-- The row, both chains and the queue. -/
structure RefundSystem where
  core : RemintSystem
  solana : Ledger.Chain Signature
  /-- This process has hydrated the row. -/
  loaded : Bool
  stage : RefundStage
  outbox : List StatusMessage
  /-- The answer the row's `ManualReview` was decided on. -/
  reviewed : Option RefundAnswer

namespace RefundSystem

variable (s : RefundSystem)

/-- The row of the queue. -/
abbrev row : Row := s.core.store.row

/-- A storage operation on the row. -/
def run (op : Op) (now : Stamp) : RefundSystem :=
  { s with core := { s.core with store := (op.run s.core.store now).2 } }

/-- After the journal read of `hydrate_pending_remints`. -/
def hydrated (nonce : UInt64) : Except String (List PendingSig) → RefundSystem
  | .error _ => s
  | .ok [] => { s with
      loaded := true
      stage := .gate (.resolved (manualReview
        "recovery failed: no withdrawal signatures stored; cannot verify finality" false) none)
          .other }
  | .ok pending => { s with
      loaded := true
      stage := .queued ⟨some nonce, pending, "recovered from persistent storage",
        s.row.finalityCheckAttempts, s.row.releaseRefusedOnChain, none, none, 0⟩ }

/-- The attempt has ended, and the queue routes its outcome. -/
def finished (entry : PendingRemint) (answer : RefundAnswer) (outcome : DeferredRemintOutcome)
    (update : Option TransactionStatusUpdate) : RefundSystem :=
  { s with
    core := { s.core with tasks := Function.update s.core.tasks 0 none }
    stage := match onDeferredRemint entry outcome update with
      | none => .idle
      | some task => .gate task answer }

/-- `handle_update`: an alert is not written, and a write may find the row moved. -/
def written (message : StatusMessage) (rest : List StatusMessage) (now : Stamp) : RefundSystem :=
  if message.update.alertOnly then { s with outbox := rest }
  else
    let next := s.run (.updateTransactionStatus message.update.status message.counterpart now none)
      now
    { next with
      outbox := rest
      reviewed :=
        if next.row.status = .manualReview ∧ s.row.status ≠ .manualReview then some message.answer
        else s.reviewed }

def crashed : RefundSystem :=
  { s with
    core := { s.core with tasks := Function.update s.core.tasks 0 none }
    loaded := false
    stage := .idle
    outbox := [] }

/-- The row awaits its refund: just handed over, or found so by a new process. -/
structure Fresh (w : RefundWorld) : Prop where
  core : s.core.Fresh w.toRemintWorld
  solana : w.validSolana s.solana
  status : s.row.status = .pendingRemint
  releases : s.row.releaseJournal = w.releases
  outbox : s.outbox = []
  stage : s.stage = .idle ∨
    s.loaded = true ∧ ∃ entry, s.stage = .queued entry ∧ entry.signatures = w.releases

end RefundSystem

/-- The events of the attempt in progress. -/
def RemintEvent.ofAttempt : RemintEvent → Bool
  | .lookup i _ | .readJournal i _ | .classify i _ | .countRejected i _ | .sign i _
  | .claim i _ _ | .send i _ | .confirm i _ | .record i _ _ | .readBack i _ | .clear i => i == 0
  | _ => false

/-- What the indexer writes meanwhile. -/
def indexerOp : Op → Bool
  | .insertObservedRelease _ | .commitCheckpoint _ | .setHalted _ => true
  | _ => false

/-- The steps of the queue. -/
inductive RefundEvent
  | hydrate
  | mature
  | gate
  | begin
  | attempt (event : RemintEvent)
  | finish
  | requeue
  | resolve
  | write
  | crash
  | gc
  | indexer
  | channel
  | solana

/-- One step. The gates on the release may read anything but a false verdict on its
signatures. -/
inductive RefundStep (w : RefundWorld) : RefundSystem → RefundEvent → RefundSystem → Prop
  | hydrate {s : RefundSystem} {answer : Except String (List PendingSig)}
      (hidle : s.stage = .idle) (hfirst : s.loaded = false)
      (hlisted : s.row.status = .pendingRemint) (hread : ReleaseJournalRead s.row answer) :
      RefundStep w s .hydrate (s.hydrated w.nonce answer)
  | mature {s : RefundSystem} {entry : PendingRemint} (hat : s.stage = .queued entry) :
      RefundStep w s .mature { s with stage := .gate (.classify entry) .other }
  | classify {s : RefundSystem} {entry : PendingRemint} {last : RefundAnswer}
      {finality : FinalityRpc} (hat : s.stage = .gate (.classify entry) last)
      (hhonest : HonestSolana s.solana finality entry.signatures) :
      RefundStep w s .gate { s with
        stage := .gate (onReleaseFinality entry (classifySignatures finality entry.signatures))
          (.release (classifySignatures finality entry.signatures)) }
  | bitmap {s : RefundSystem} {entry : PendingRemint} {last : RefundAnswer} (reads : ReleaseReads)
      (confirmed : ConfirmedReads) (hat : s.stage = .gate (.bitmap entry) last) :
      RefundStep w s .gate { s with
        stage := .gate (onBitmap entry (bitmapVerdict w.window reads confirmed entry))
          (.bitmap (bitmapVerdict w.window reads confirmed entry).1) }
  | checkpoint {s : RefundSystem} {entry : PendingRemint} {pending : Bool} {last : RefundAnswer}
      (checkpoint : Except String (Option ℕ))
      (hat : s.stage = .gate (.checkpoint entry pending) last) :
      RefundStep w s .gate { s with stage := .gate (onCheckpoint entry pending checkpoint) last }
  | observed {s : RefundSystem} {entry : PendingRemint} {coverage : ReleaseCoverage}
      {last : RefundAnswer} (answer : Except String (Option ObservedRelease))
      (hat : s.stage = .gate (.observed entry coverage) last) :
      RefundStep w s .gate { s with
        stage := .gate (onObserved entry coverage answer)
          (.record (releaseRecord (entry.nonce.elim 0 (·.toNat)) coverage answer)) }
  /-- The counter is persisted; an error answer is a lost acknowledgement. -/
  | bump {s : RefundSystem} {entry : PendingRemint} {reason : String} {last : RefundAnswer}
      (deadline : ℕ) (now : Stamp) (answer : Except String Unit)
      (hat : s.stage = .gate (.bump entry reason) last) :
      RefundStep w s .gate { s.run (.bumpPendingRemintFinalityAttempt entry.finalityCheckAttempts
        deadline) now with stage := .gate (onBumped entry answer) last }
  | bumpFailed {s : RefundSystem} {entry : PendingRemint} {reason : String} {last : RefundAnswer}
      (e : String) (hat : s.stage = .gate (.bump entry reason) last) :
      RefundStep w s .gate { s with stage := .gate (onBumped entry (.error e)) last }
  | begin {s : RefundSystem} {entry : PendingRemint} {last : RefundAnswer}
      (hat : s.stage = .gate (.remint entry) last) :
      RefundStep w s .begin { s with
        core := s.core.resume 0 .lookup
        stage := .attempt entry last }
  | attempt {s : RefundSystem} {entry : PendingRemint} {last : RefundAnswer} {task : RemintTask}
      {event : RemintEvent} {core : RemintSystem} (hat : s.stage = .attempt entry last)
      (htask : s.core.tasks 0 = some task) (hevent : event.ofAttempt = true)
      (hstep : RemintStep w.toRemintWorld s.core event core) :
      RefundStep w s (.attempt event) { s with
        core := core
        stage := .attempt entry (task.read event) }
  | finish {s : RefundSystem} {entry : PendingRemint} {last : RefundAnswer}
      {outcome : DeferredRemintOutcome} {update : Option TransactionStatusUpdate}
      (hat : s.stage = .attempt entry last)
      (hdone : s.core.tasks 0 = some (.done outcome update)) :
      RefundStep w s .finish (s.finished entry last outcome update)
  | requeue {s : RefundSystem} {entry : PendingRemint} {last : RefundAnswer}
      (hat : s.stage = .gate (.requeue entry) last) :
      RefundStep w s .requeue { s with stage := .queued entry }
  | resolve {s : RefundSystem} {update : TransactionStatusUpdate} {counterpart : Option Signature}
      {last : RefundAnswer} (hat : s.stage = .gate (.resolved update counterpart) last) :
      RefundStep w s .resolve { s with
        stage := .idle
        outbox := s.outbox ++ [⟨update, counterpart, last⟩] }
  | write {s : RefundSystem} {message : StatusMessage} {rest : List StatusMessage} (now : Stamp)
      (hat : s.outbox = message :: rest) : RefundStep w s .write (s.written message rest now)
  /-- A failed status write is only logged. -/
  | writeFailed {s : RefundSystem} {message : StatusMessage} {rest : List StatusMessage}
      (hat : s.outbox = message :: rest) : RefundStep w s .write { s with outbox := rest }
  | crash {s : RefundSystem} : RefundStep w s .crash s.crashed
  | gc {s : RefundSystem} : RefundStep w s .gc { s with
      core := s.core.withRow (Storage.gcStaleRemintSignatures s.row) }
  | indexer {s : RefundSystem} {op : Op} (now : Stamp) (hop : indexerOp op = true) :
      RefundStep w s .indexer (s.run op now)
  | channel {s : RefundSystem} {c : Ledger.Chain Signature} (hext : c.Extends s.core.channel)
      (hvalid : w.valid c) (hlands : ∀ x, w.remint x → c.Landed x → x ∈ s.core.broadcast) :
      RefundStep w s .channel { s with core := { s.core with channel := c } }
  | solana {s : RefundSystem} {c : Ledger.Chain Signature} (hext : c.Extends s.solana)
      (hvalid : w.validSolana c) : RefundStep w s .solana { s with solana := c }

end PrivateChannels.Operator
