import PrivateChannels.Foundation.Outbox
import PrivateChannels.Operator.FinalitySound
import PrivateChannels.Operator.WithdrawRelease

/-!
# One withdrawal, its release and its refund

One sender task at a time, the recovery sweeps and every other writer act on one row. Both
chains are linear. The bitmap, the release record, the checkpoint and the generation may
be read as anything here: the exclusion does not rest on them.
-/

namespace PrivateChannels.Operator

open Escrow (Window)
open Storage

/-- Its nonce, the admitted states of the two chains, and which signatures are its releases and
its refunds. -/
structure WithdrawWorld where
  window : Window
  nonce : UInt64
  info : WithdrawalRemintInfo
  retryMaxAttempts : ℕ
  validSolana : Ledger.Chain Signature → Prop
  validChannel : Ledger.Chain Signature → Prop
  release : Signature → Prop
  remint : Signature → Prop

/-- A release of the nonce whose recorded window bounds its inclusion. -/
structure WithdrawWorld.SignedRelease (w : WithdrawWorld) (sig : StoredSig) : Prop where
  release : w.release sig.signature
  window : ∀ c, w.validSolana c → Admissible .solana sig c

/-- A sweep of the recovery worker over the row. -/
inductive SweepTask
  | swept (lease : Stamp) (requeueAttempts : ℕ) (expired : Bool)
  | classify (lease : Stamp) (requeueAttempts : ℕ) (expired : Bool) (pending : List PendingSig)
  | verify (lease : Stamp) (requeueAttempts : ℕ) (expired : Bool) (pending : List PendingSig)
  | quarantine (lease : Stamp)
  | write (op : Op)
  | done

/-- The database, the two chains, the sender and the sweeps. The last four fields are history:
claimed and broadcast, on each side. -/
structure WithdrawSystem where
  store : Store
  solana : Ledger.Chain Signature
  channel : Ledger.Chain Signature
  memory : SenderMemory
  sender : SenderTask
  sweeps : ℕ → Option SweepTask
  releaseClaims : List Signature
  releaseSent : List Signature
  remintClaims : List Signature
  remintSent : List Signature

namespace WithdrawSystem

/-- The sender moves to its next point. -/
def moveTo (s : WithdrawSystem) (next : SenderMemory × SenderTask) : WithdrawSystem :=
  { s with memory := next.1, sender := next.2 }

def withRow (s : WithdrawSystem) (row : Row) : WithdrawSystem :=
  { s with store := { s.store with row := row } }

def sweep (s : WithdrawSystem) (i : ℕ) (t : SweepTask) : WithdrawSystem :=
  { s with sweeps := Function.update s.sweeps i (some t) }

/-- A remint claim is noted only when it was granted. -/
def noteRemintClaim (s : WithdrawSystem) (sig : StoredSig) (claim : RemintClaim) :
    WithdrawSystem :=
  if claim = .claimed then { s with remintClaims := sig.signature :: s.remintClaims } else s

/-- Before any work on the row. -/
structure Fresh (w : WithdrawWorld) (s : WithdrawSystem) : Prop where
  solana : w.validSolana s.solana
  unreleased : ∀ x, w.release x → ¬ s.solana.Landed x
  unreminted : ∀ x, w.remint x → ¬ s.channel.Landed x
  journal : s.store.row.releaseJournal = []
  memory : s.memory = .empty
  sender : s.sender = .idle
  sweeps : ∀ i, s.sweeps i = none
  noReleaseClaims : s.releaseClaims = []
  noReleaseSent : s.releaseSent = []
  noRemintClaims : s.remintClaims = []
  noRemintSent : s.remintSent = []

end WithdrawSystem

/-- What the sweep does with a row. -/
inductive WithdrawalAction
  | complete (signature : Signature)
  | demote
  | leaveProcessing (reason : String)
  | quarantine (reason : String)
  deriving DecidableEq, Repr

/-- `STALE_THRESHOLD`, in seconds. -/
def staleThreshold : ℕ := 5 * 60

/-- `RELEASE_PROOF_ESCALATE_AFTER`, in seconds. -/
def releaseProofEscalateAfter : ℕ := 2 * staleThreshold

/-- `wait_or_escalate`. -/
def waitOrEscalate (expired : Bool) (reason : String) : WithdrawalAction :=
  if expired then
    .quarantine s!"release still unproven after {releaseProofEscalateAfter}s ({reason})"
  else .leaveProcessing reason

/-- `JournalError`: an unread journal, and one that reads back corrupt. -/
inductive JournalError
  | unavailable (reason : String)
  | corrupt (reason : String)
  deriving DecidableEq, Repr

/-- `check_withdrawal` up to its first chain read: the entries to judge by, or a
verdict already. -/
def checkWithdrawalJournal (nonce : Option UInt64) (configured expired : Bool) :
    Except JournalError (List PendingSig) → WithdrawalAction ⊕ List PendingSig
  | journal =>
    match nonce with
    | none => .inl (.quarantine "withdrawal row missing nonce")
    | some _ =>
      match journal with
      | .error (.corrupt reason) => .inl (.quarantine reason)
      | .error (.unavailable reason) => .inl (waitOrEscalate expired reason)
      | .ok [] =>
        if configured then .inr []
        else .inl (.quarantine ("no broadcast signatures recorded and no escrow instance "
          ++ "configured to verify the release against"))
      | .ok pending => .inr pending

/-- `check_withdrawal` on the classified entries; `none` asks the bitmap. -/
def checkWithdrawalFinality (nonce : UInt64) (configured : Bool) (pending : List PendingSig) :
    SigFinality → Option WithdrawalAction
  | .landed signature => some (.complete signature)
  | .dead =>
    if configured then none
    else some (.quarantine (s!"every recorded signature for nonce {nonce.toNat} is dead and there "
      ++ "is no escrow instance configured to verify the release against"))
  | .live reason => some (.leaveProcessing reason)
  | .uncertain reason => some (.quarantine (s!"could not verify release landed ({reason}); "
      ++ "signatures: "
      ++ String.intercalate "," (pending.map fun p => toString p.signature.id)))

/-- `check_withdrawal` on the bitmap's verdict. -/
def checkWithdrawalRelease (nonce : UInt64) (expired : Bool) (pending : List PendingSig) :
    ReleaseVerdict → WithdrawalAction
  | .notLanded => .demote
  | .landed generation =>
    let number := nonce.toNat
    if pending.isEmpty then
      .quarantine (s!"nonce {number} is consumed on-chain in generation {generation} with no "
        ++ "recorded broadcast signature")
    else
      .quarantine (s!"nonce {number} is consumed on-chain in generation {generation} but every "
        ++ "recorded signature is dead; the release landed under an unrecorded one")
  | .uncertain reason | .pending reason => waitOrEscalate expired reason

/-- `decide_action` and `route_outcome` for a withdrawal. A quarantine first
copies the journal onto the row. -/
def onWithdrawalAction (lease : Stamp) (requeueAttempts : ℕ) : WithdrawalAction → SweepTask
  | .complete signature => .write (.tryCompleteProcessing lease (some signature) none)
  | .demote =>
    if requeueAttempts ≥ maxRecoveryRequeueAttempts then .quarantine lease
    else .write (.tryRequeueProcessing lease)
  | .leaveProcessing _ => .done
  | .quarantine _ => .quarantine lease

/-- After `stored_release_signatures`: a failed read defers the quarantine. -/
def onStoredSignatures (lease : Stamp) : Except String (List StoredSig) → SweepTask
  | .error _ => .done
  | .ok [] => .write (.tryQuarantineProcessing lease none none)
  | .ok stored => .write (.tryQuarantineProcessing lease (some (stored.map (·.signature)))
      (some (stored.map (·.lastValidBlockHeight))))

/-- The writes of everyone but the sender: none of them claims, hands off or returns a closed
row. -/
def sharedOp : Op → Bool
  | .claimAndPersistSignature _ _ | .setPendingRemint _ _ _ _ | .claimRemintAttempt _ _ => false
  | .updateTransactionStatus status _ _ _ =>
    status == .completed || status == .failed || status == .manualReview
  | _ => true

/-- The steps on a withdrawal. -/
inductive WithdrawEvent
  | crash
  | sender
  | releaseClaim (now : Stamp)
  | releaseSend
  | handoff (now : Stamp)
  | forget
  | remintClaim (now : Stamp)
  | remintSend
  | sweep (i : ℕ)
  | other (op : Op) (now : Stamp)
  | gc
  | solana
  | channel

/-- The journal read answers with the current entries, or fails. -/
def ReleaseJournalRead (row : Row) (answer : Except String (List PendingSig)) : Prop :=
  ∀ pending, answer = .ok pending → pending = row.releaseJournal

/-- Both endpoints of a classification answer from Solana's history. -/
structure HonestSolana (c : Ledger.Chain Signature) (finality : FinalityRpc)
    (sigs : List PendingSig) : Prop where
  chain : finality.chain = .solana
  primary : finality.primary.Honest c c .solana sigs
  fallback : ∀ fb, finality.fallback = some fb → fb.Honest c c .solana sigs

/-- The moves of a refund attempt that neither claim nor send. -/
inductive RemintMove (info : WithdrawalRemintInfo) : RemintTask → RemintTask → Prop
  | lookup (answer : Except String (Option ConsumedMint)) :
      RemintMove info .lookup (onLookup info answer)
  | readJournal (answer : Except String (List StoredSig)) :
      RemintMove info .readJournal (onJournal info answer)
  | classify (stored : List StoredSig) (verdict : SigFinality) :
      RemintMove info (.classify stored) (onFinality info stored verdict)
  | countRejected (stored : List StoredSig) (answer : Except String ℕ) :
      RemintMove info (.countRejected stored) (onRejected info stored answer)
  | sign (dead : List Signature) (answer : Except BuildError StoredSig) :
      RemintMove info (.sign dead) (onSigned info dead answer)
  | claimFailed (dead : List Signature) (sig : StoredSig) (e : String) :
      RemintMove info (.claim dead sig) (onClaim info sig (.error e))
  | confirm (sig : StoredSig) (answer : Except String ConfirmationResult) :
      RemintMove info (.confirm sig) (onConfirmation info sig answer)
  | recordFailed (x : Signature) (attempt : ℕ) (e : String) :
      RemintMove info (.record x attempt) (onRecorded x attempt (.error e))
  | readBack (x : Signature) (attempt : ℕ) (e : String)
      (answer : Except String TransactionStatus) :
      RemintMove info (.readBack x attempt e) (onReadBack info x attempt e answer)
  | clear (x : Signature) : RemintMove info (.clear x) (onCleared info x)

open WithdrawSystem in
/-- The sender's moves that read, or wait, without writing the row. -/
inductive SenderMove (w : WithdrawWorld) (s : WithdrawSystem) :
    SenderTask → SenderMemory × SenderTask → Prop
  | submit (lease : Stamp) : SenderMove w s .idle (submitRelease s.memory lease)
  | window (cached : Bool) (read : Except String ℕ) :
      SenderMove w s .window (onWindow w.window w.nonce s.memory w.retryMaxAttempts cached read)
  | sign (answer : Except String StoredSig)
      (hsigned : ∀ sig, answer = .ok sig → w.SignedRelease sig) :
      SenderMove w s .sign (onReleaseSigned s.memory answer)
  /-- Without a lease the pre-broadcast requeue writes nothing. -/
  | requeueUnleased (reason : String) (hlease : s.memory.lease = none) :
      SenderMove w s (.requeue reason) ({ s.memory with remintInfo := false }, .idle)
  | fence (sig : StoredSig) (isOpen : Bool) :
      SenderMove w s (.fence sig) (onReleaseFence s.memory sig isOpen)
  /-- The claim matches no row, or fails without a commit. -/
  | claimRefused (sig : StoredSig) (isOpen : Bool) (answer : Except String (Option Stamp))
      (hnone : ∀ a, answer = .ok a → a = none) :
      SenderMove w s (.claim sig) (onReleaseClaim s.memory sig isOpen answer)
  | haltRead (answer : Except String Bool) :
      SenderMove w s .haltRead (onReleaseHaltRead s.memory answer)
  /-- A status at confirmed reports the signature's result. -/
  | confirm (sig : StoredSig) (failedInEscrow : Option Bool)
      (polls : ℕ → Except String (Option PolledStatus))
      (hseen : ∀ k status, polls k = .ok (some status) → status.satisfied = true →
        s.solana.Executed sig.signature status.err.isNone) :
      SenderMove w s (.confirm sig) (onReleaseConfirmation s.memory w.retryMaxAttempts sig
        (checkTransactionStatus failedInEscrow .releaseFunds [] polls))
  | usedJournal (answer : Except String (List PendingSig))
      (hread : ReleaseJournalRead s.store.row answer) :
      SenderMove w s .usedJournal (onUsedJournal s.memory answer)
  | usedClassify (pending : List PendingSig) (finality : FinalityRpc) :
      SenderMove w s (.usedClassify pending)
        (onUsedFinality s.memory (classifySignatures finality pending))
  | generation (sig : Signature) (read : Except String ℕ) :
      SenderMove w s (.generation sig) (onGeneration w.window w.nonce s.memory sig read)
  /-- The deletion of a refused signature fails. -/
  | forgetFailed (sig : Signature) : SenderMove w s (.forget sig) (onForgotten s.memory)
  | deferJournal (failure : Failure) (answer : Except String (List PendingSig))
      (hread : ReleaseJournalRead s.store.row answer) :
      SenderMove w s (.deferJournal failure) (onDeferJournal s.memory failure answer)
  | handoffFailed (failure : Failure) (pending : List PendingSig) (tries : ℕ) (e : String) :
      SenderMove w s (.handoff failure pending tries)
        (onHandoff w.nonce s.memory failure pending tries (.error e))
  | handoffStatus (failure : Failure) (pending : List PendingSig)
      (answer : Except String (Option TransactionStatus))
      (hread : ∀ status, answer = .ok (some status) → status = s.store.row.status) :
      SenderMove w s (.handoffStatus failure pending)
        (onHandoffStatus w.nonce s.memory failure pending answer)
  | handoffAgainFailed (failure : Failure) (pending : List PendingSig) (e : String) :
      SenderMove w s (.handoffAgain failure pending)
        (onHandoffAgain w.nonce s.memory failure pending (.error e))
  | beginDrain (hqueued : s.memory.queued = true) : SenderMove w s .idle (s.memory, .drain)
  | drain (read : Option ℕ) : SenderMove w s .drain (onDrain w.window w.nonce s.memory read)
  /-- Hydration lists the row while it awaits its refund. -/
  | beginHydrate (hlisted : s.store.row.status = .pendingRemint) :
      SenderMove w s .idle (s.memory,
        .hydrate s.store.row.finalityCheckAttempts s.store.row.releaseRefusedOnChain)
  | hydrate (attempts : ℕ) (refused : Bool) (answer : Except String (List PendingSig))
      (hread : ReleaseJournalRead s.store.row answer) :
      SenderMove w s (.hydrate attempts refused)
        (onHydrate w.nonce s.memory attempts refused answer)
  /-- A matured entry leaves the queue. -/
  | mature {entry : PendingRemint} (hqueued : entry ∈ s.memory.pendingRemints) :
      SenderMove w s .idle
        ({ s.memory with pendingRemints := s.memory.pendingRemints.erase entry },
          .gate (.classify entry))
  | gateClassify (entry : PendingRemint) {finality : FinalityRpc}
      (hhonest : HonestSolana s.solana finality entry.signatures) :
      SenderMove w s (.gate (.classify entry))
        (onGateTask s.memory
          (onReleaseFinality entry (classifySignatures finality entry.signatures)))
  | gateBitmap (entry : PendingRemint) (reads : ReleaseReads) (confirmed : ConfirmedReads) :
      SenderMove w s (.gate (.bitmap entry))
        (onGateTask s.memory (onBitmap entry (bitmapVerdict w.window reads confirmed entry)))
  | gateCheckpoint (entry : PendingRemint) (pending : Bool)
      (checkpoint : Except String (Option ℕ)) :
      SenderMove w s (.gate (.checkpoint entry pending))
        (onGateTask s.memory (onCheckpoint entry pending checkpoint))
  | gateObserved (entry : PendingRemint) (coverage : ReleaseCoverage)
      (answer : Except String (Option ObservedRelease)) :
      SenderMove w s (.gate (.observed entry coverage))
        (onGateTask s.memory (onObserved entry coverage answer))
  | gateBumpFailed (entry : PendingRemint) (reason e : String) :
      SenderMove w s (.gate (.bump entry reason)) (onGateTask s.memory (onBumped entry (.error e)))
  | remint (entry : PendingRemint) {task task' : RemintTask}
      (hmove : RemintMove w.info task task') :
      SenderMove w s (.remint entry task) (onRemintTask s.memory entry task')
  /-- A write whose result does not matter is lost. -/
  | writeFailed (op : Op) : SenderMove w s (.write op) (s.memory, .idle)

/-- The sender's other writes of the row. An error answer is a lost acknowledgement, or no
commit. -/
inductive SenderWrite (w : WithdrawWorld) (mem : SenderMemory) :
    SenderTask → Op → SenderMemory × SenderTask → Prop
  | park (answer : Except String Bool) :
      SenderWrite w mem .park .tryParkProcessing (onParked mem answer)
  | requeue {lease : Stamp} (hlease : mem.lease = some lease) (reason : String)
      (answer : Except String RequeueOutcome) :
      SenderWrite w mem (.requeue reason)
        (.tryRequeuePrebroadcast lease maxRecoveryRequeueAttempts) (onRequeued mem reason answer)
  | parkRefused (sig : Signature) (forget : Bool) (answer : Except String Bool) :
      SenderWrite w mem (.parkRefused sig forget) .tryParkProcessing
        (onParkedRefused mem sig forget answer)
  | hold : SenderWrite w mem .hold .tryParkProcessing (mem, .idle)
  | unpark (answer : Except String (Option Stamp)) :
      SenderWrite w mem .unpark .tryUnparkToProcessing (onUnparked mem w.retryMaxAttempts answer)
  | bump (entry : PendingRemint) (reason : String) (deadline : ℕ) :
      SenderWrite w mem (.gate (.bump entry reason))
        (.bumpPendingRemintFinalityAttempt entry.finalityCheckAttempts deadline)
        (onGateTask mem (onBumped entry (.ok ())))
  | record (entry : PendingRemint) (x : Signature) (attempt : ℕ) (answer : Except String Unit) :
      SenderWrite w mem (.remint entry (.record x attempt)) (.recordRemintResult x)
        (onRemintTask mem entry (onRecorded x attempt answer))
  | write (op : Op) : SenderWrite w mem (.write op) op (mem, .idle)

/-- The moves of a recovery sweep that do not write. -/
inductive SweepMove (w : WithdrawWorld) (row : Row) : SweepTask → SweepTask → Prop
  | journal {lease : Stamp} {attempts : ℕ} {expired configured : Bool}
      {answer : Except JournalError (List PendingSig)}
      (hread : ∀ pending, answer = .ok pending → pending = row.releaseJournal) :
      SweepMove w row (.swept lease attempts expired)
        (match checkWithdrawalJournal (some w.nonce) configured expired answer with
          | .inl action => onWithdrawalAction lease attempts action
          | .inr [] => .verify lease attempts expired []
          | .inr pending => .classify lease attempts expired pending)
  | classify {lease : Stamp} {attempts : ℕ} {expired configured : Bool}
      {pending : List PendingSig} (finality : FinalityRpc) :
      SweepMove w row (.classify lease attempts expired pending)
        (match checkWithdrawalFinality w.nonce configured pending
            (classifySignatures finality pending) with
          | some action => onWithdrawalAction lease attempts action
          | none => .verify lease attempts expired pending)
  | verify {lease : Stamp} {attempts : ℕ} {expired : Bool} {pending : List PendingSig}
      (reads : ReleaseReads) :
      SweepMove w row (.verify lease attempts expired pending)
        (onWithdrawalAction lease attempts (checkWithdrawalRelease w.nonce expired pending
          (verifyReleaseLandedAt w.window reads w.nonce (maxLastValid pending)).1))
  | quarantine {lease : Stamp} {answer : Except String (List StoredSig)}
      (hread : ∀ stored, answer = .ok stored → stored = row.releaseJournal) :
      SweepMove w row (.quarantine lease) (onStoredSignatures lease answer)
  | writeFailed (op : Op) : SweepMove w row (.write op) .done

open WithdrawSystem in
/-- One step of the system. -/
inductive WithdrawStep (w : WithdrawWorld) : WithdrawSystem → WithdrawEvent → WithdrawSystem → Prop
  /-- The process dies; a new sender starts with an empty memory. -/
  | crash {s : WithdrawSystem} :
      WithdrawStep w s .crash { s with memory := .empty, sender := .idle, sweeps := fun _ => none }
  | move {s : WithdrawSystem} {next : SenderMemory × SenderTask}
      (hmove : SenderMove w s s.sender next) : WithdrawStep w s .sender (s.moveTo next)
  | write {s : WithdrawSystem} {op : Op} {now : Stamp} {next : SenderMemory × SenderTask}
      (hwrite : SenderWrite w s.memory s.sender op next) :
      WithdrawStep w s .sender
        ({ s with store := (op.run s.store now).2 }.moveTo next)
  /-- The write does not commit, whatever its caller is told. -/
  | writeLost {s : WithdrawSystem} {op : Op} {next : SenderMemory × SenderTask}
      (hwrite : SenderWrite w s.memory s.sender op next) :
      WithdrawStep w s .sender (s.moveTo next)
  | releaseClaim {s : WithdrawSystem} {lease now : Stamp} {sig : StoredSig} {row : Row}
      (isOpen : Bool) (answer : Except String (Option Stamp)) (hat : s.sender = .claim sig)
      (hlease : s.memory.lease = some lease)
      (hcommit : claimAndPersistSignature s.store.halted lease sig now s.store.row =
        some row)
      (hack : ∀ a, answer = .ok a → a = some now) :
      WithdrawStep w s (.releaseClaim now)
        ({ s.withRow row with releaseClaims := sig.signature :: s.releaseClaims }.moveTo
          (onReleaseClaim s.memory sig isOpen answer))
  /-- The network may have the transaction whatever the answer. -/
  | releaseSend {s : WithdrawSystem} {sig : StoredSig} (answer : Except String Unit)
      (hat : s.sender = .send sig) :
      WithdrawStep w s .releaseSend
        ({ s with releaseSent := sig.signature :: s.releaseSent }.moveTo
          (onReleaseSent s.memory sig answer))
  /-- The handoff commits, acknowledged or not. -/
  | handoff {s : WithdrawSystem} {failure : Failure} {pending : List PendingSig}
      {tries : ℕ} {now : Stamp} {row : Row} (deadline : ℕ) (answer : Except String Unit)
      (hat : s.sender = .handoff failure pending tries)
      (hcommit : setPendingRemint (pending.map (·.signature))
        (pending.map (·.lastValidBlockHeight)) deadline failure.refused now s.store.row =
          some row) :
      WithdrawStep w s (.handoff now)
        ((s.withRow row).moveTo (onHandoff w.nonce s.memory failure pending tries answer))
  | handoffAgain {s : WithdrawSystem} {failure : Failure} {pending : List PendingSig}
      {now : Stamp} {row : Row} (deadline : ℕ) (answer : Except String Unit)
      (hat : s.sender = .handoffAgain failure pending)
      (hcommit : setPendingRemint (pending.map (·.signature))
        (pending.map (·.lastValidBlockHeight)) deadline failure.refused now s.store.row =
          some row) :
      WithdrawStep w s (.handoff now)
        ((s.withRow row).moveTo (onHandoffAgain w.nonce s.memory failure pending answer))
  /-- A refused signature leaves the journal. -/
  | forget {s : WithdrawSystem} {sig : Signature} (hat : s.sender = .forget sig) :
      WithdrawStep w s .forget
        ((s.withRow (deleteReleaseSignature sig s.store.row)).moveTo
          (onForgotten s.memory))
  | remintClaim {s : WithdrawSystem} {entry : PendingRemint} {dead : List Signature}
      {sig : StoredSig} {now : Stamp} {claim : RemintClaim} {row : Row}
      (answer : Except String RemintClaim) (hat : s.sender = .remint entry (.claim dead sig))
      (hcommit : claimRemintAttempt s.store.observedReleases sig dead now s.store.row =
        some (claim, row))
      (hack : ∀ c, answer = .ok c → c = claim) :
      WithdrawStep w s (.remintClaim now)
        (((s.withRow row).noteRemintClaim sig claim).moveTo
          (onRemintTask s.memory entry (onClaim w.info sig answer)))
  | remintSend {s : WithdrawSystem} {entry : PendingRemint} {sig : StoredSig}
      (answer : Except String Unit) (hat : s.sender = .remint entry (.send sig)) :
      WithdrawStep w s .remintSend
        ({ s with remintSent := sig.signature :: s.remintSent }.moveTo
          (onRemintTask s.memory entry (onSent w.info sig answer)))
  /-- The refund is recorded, so its journal goes. -/
  | remintClear {s : WithdrawSystem} {entry : PendingRemint} {x : Signature}
      (hat : s.sender = .remint entry (.clear x)) :
      WithdrawStep w s .sender
        ((s.withRow (deleteRemintSignatures s.store.row)).moveTo
          (onRemintTask s.memory entry (onCleared w.info x)))
  | sweep {s : WithdrawSystem} {i : ℕ} {expired : Bool} (hfree : s.sweeps i = none)
      (hstale : s.store.row.status = .processing) :
      WithdrawStep w s (.sweep i) (s.sweep i
        (.swept s.store.row.updatedAt s.store.row.recoveryRequeueAttempts expired))
  | sweepMove {s : WithdrawSystem} {i : ℕ} {task task' : SweepTask}
      (hat : s.sweeps i = some task) (hmove : SweepMove w s.store.row task task') :
      WithdrawStep w s (.sweep i) (s.sweep i task')
  | sweepWrite {s : WithdrawSystem} {i : ℕ} {op : Op} {now : Stamp}
      (hat : s.sweeps i = some (.write op)) :
      WithdrawStep w s (.sweep i) ({ s with store := (op.run s.store now).2 }.sweep i .done)
  /-- The fetcher, the promotion pass, boot reconcile, the status writer, parked
  sweeps, the indexer and the halt. -/
  | other {s : WithdrawSystem} {op : Op} {now : Stamp} (hop : sharedOp op = true) :
      WithdrawStep w s (.other op now) { s with store := (op.run s.store now).2 }
  | gc {s : WithdrawSystem} : WithdrawStep w s .gc (s.withRow
      (gcStaleRemintSignatures (gcStaleReleaseSignatures s.store.row)))
  | solana {s : WithdrawSystem} {c : Ledger.Chain Signature} (hext : c.Extends s.solana)
      (hvalid : w.validSolana c) (hlands : ∀ x, w.release x → c.Landed x → x ∈ s.releaseSent) :
      WithdrawStep w s .solana { s with solana := c }
  | channel {s : WithdrawSystem} {c : Ledger.Chain Signature} (hext : c.Extends s.channel)
      (hvalid : w.validChannel c) (hlands : ∀ x, w.remint x → c.Landed x → x ∈ s.remintSent) :
      WithdrawStep w s .channel { s with channel := c }

end PrivateChannels.Operator
