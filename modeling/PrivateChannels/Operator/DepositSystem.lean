import PrivateChannels.Foundation.Outbox
import PrivateChannels.Operator.DepositMint
import PrivateChannels.Operator.FinalitySound

/-!
# One deposit row under any interleaving

Fetchers, senders, polls and sweeps of any number of runs act on one row and one channel.
A crash drops a task, a commit may go unacknowledged, and a write may be retried.
-/

namespace PrivateChannels.Operator

open Storage

/-- The channel states its rules admit, and which signatures are the deposit's `MintTo`s. -/
structure DepositWorld where
  valid : Ledger.Chain Signature → Prop
  mint : Signature → Prop

/-- A mint of this deposit whose recorded window bounds its inclusion in every
admitted channel state. -/
structure DepositWorld.Signed (w : DepositWorld) (sig : StoredSig) : Prop where
  mint : w.mint sig.signature
  window : ∀ c, w.valid c → Admissible .channel sig c

/-- The database, the channel, the solvency fence and the work in progress. The last two fields
are history: signatures journaled, newest first, and signatures broadcast. -/
structure DepositSystem where
  store : Store
  stamps : List Stamp
  channel : Ledger.Chain Signature
  fenceOpen : Bool
  tasks : ℕ → Option MintTask
  claimed : List Signature
  broadcast : List Signature

namespace DepositSystem

/-- The task moves to its next suspension point. -/
def resume (s : DepositSystem) (i : ℕ) (t : MintTask) : DepositSystem :=
  { s with tasks := Function.update s.tasks i (some t) }

/-- A transaction at time `now` leaves this store. -/
def commit (s : DepositSystem) (store : Store) (now : Stamp) : DepositSystem :=
  { s with store := store, stamps := now :: s.stamps }

/-- The row is rewritten at time `now`. -/
def withRow (s : DepositSystem) (row : Row) (now : Stamp) : DepositSystem :=
  s.commit { s.store with row := row } now

/-- Before any work: nothing journaled, broadcast or landed. -/
structure Fresh (w : DepositWorld) (s : DepositSystem) : Prop where
  admitted : w.valid s.channel
  unlanded : ∀ x, w.mint x → ¬ s.channel.Landed x
  journal : s.store.row.releaseJournal = []
  carried : s.store.row.updatedAt ∈ s.stamps
  idle : ∀ i, s.tasks i = none
  unclaimed : s.claimed = []
  unsent : s.broadcast = []

end DepositSystem

/-- The writes that neither return a row to `pending` nor claim it. -/
def closingOp : Op → Bool
  | .tryCompleteProcessing _ _ _ | .tryFailProcessing _ | .tryQuarantineProcessing _ _ _
  | .insertObservedRelease _ | .setHalted _ | .commitCheckpoint _ => true
  | .updateTransactionStatus status _ _ _ =>
    status == .completed || status == .failed || status == .manualReview
  | _ => false

/-- The steps on a deposit row. -/
inductive DepositEvent
  | fetch (i : ℕ) (now : Stamp)
  | sweep (i : ℕ)
  | crash (i : ℕ)
  | readJournal (i : ℕ) (answer : Except String (List PendingSig))
  | gate (i : ℕ) (finality : FinalityRpc)
  | consumed (i : ℕ) (answer : Except String ConsumedLookup)
  | sign (i : ℕ) (answer : Except String StoredSig)
  | fence (i : ℕ)
  | claim (i : ℕ) (now : Stamp) (isOpen : Bool) (answer : Except String (Option Stamp))
  | haltRead (i : ℕ) (answer : Except String Bool)
  | send (i : ℕ) (answer : Except String Unit)
  | poll (i : ℕ) (status : Option PolledStatus) (processedAt : ℕ)
  | jit (i : ℕ) (hasPermit : Bool) (outcome : JitOutcome)
  | recover (i : ℕ) (finality : FinalityRpc)
  | write (i : ℕ) (now : Stamp) (again : Bool)
  | setFence (isOpen : Bool)
  | other (op : Op) (now : Stamp)
  | gc
  | advance

/-- The journal read answers with the current entries, or fails. -/
def JournalRead (row : Row) (answer : Except String (List PendingSig)) : Prop :=
  ∀ pending, answer = .ok pending → pending = row.releaseJournal

/-- Both endpoints of a classification answer from the channel. -/
structure HonestChannel (c : Ledger.Chain Signature) (finality : FinalityRpc)
    (sigs : List PendingSig) : Prop where
  chain : finality.chain = .channel
  primary : finality.primary.Honest c c .channel sigs
  fallback : ∀ fb, finality.fallback = some fb → fb.Honest c c .channel sigs

/-- One step of the system. -/
inductive DepositStep (w : DepositWorld) : DepositSystem → DepositEvent → DepositSystem → Prop
  /-- The fetcher locks the row; the new `updated_at` is the lease. -/
  | fetch {s : DepositSystem} {i : ℕ} {now : Stamp} {row : Row} (hfree : s.tasks i = none)
      (hnow : now ∉ s.stamps)
      (hcommit : getAndLockPending .deposit s.store.escrowCheckpoint now s.store.row =
        some row) :
      DepositStep w s (.fetch i now) ((s.withRow row now).resume i (.buffered now))
  /-- The sweep lists a stale `processing` row with the `updated_at` it has. -/
  | sweep {s : DepositSystem} {i : ℕ} (hfree : s.tasks i = none)
      (hstale : s.store.row.status = .processing) :
      DepositStep w s (.sweep i) (s.resume i
        (.swept s.store.row.updatedAt s.store.row.recoveryRequeueAttempts))
  | crash {s : DepositSystem} {i : ℕ} :
      DepositStep w s (.crash i) { s with tasks := Function.update s.tasks i none }
  | readGate {s : DepositSystem} {i : ℕ} {lease : Stamp} {answer : Except String (List PendingSig)}
      (hat : s.tasks i = some (.buffered lease)) (hread : JournalRead s.store.row answer) :
      DepositStep w s (.readJournal i answer) (s.resume i (.gate lease answer))
  | readSwept {s : DepositSystem} {i : ℕ} {lease : Stamp} {attempts : ℕ}
      {answer : Except String (List PendingSig)} (hat : s.tasks i = some (.swept lease attempts))
      (hread : JournalRead s.store.row answer) :
      DepositStep w s (.readJournal i answer) (s.resume i (.decide lease attempts answer))
  | gate {s : DepositSystem} {i : ℕ} {lease : Stamp} {journal : Except String (List PendingSig)}
      {finality : FinalityRpc} (hat : s.tasks i = some (.gate lease journal))
      (hhonest : ∀ pending, journal = .ok pending → HonestChannel s.channel finality pending) :
      DepositStep w s (.gate i finality) (s.resume i (onGate lease (checkDeposit journal finality)))
  | consumed {s : DepositSystem} {i : ℕ} {lease : Stamp} {answer : Except String ConsumedLookup}
      (hat : s.tasks i = some (.settle lease)) :
      DepositStep w s (.consumed i answer) (s.resume i (onConsumed lease answer))
  | sign {s : DepositSystem} {i : ℕ} {lease : Stamp} {answer : Except String StoredSig}
      (hat : s.tasks i = some (.sign lease))
      (hsigned : ∀ sig, answer = .ok sig → w.Signed sig) :
      DepositStep w s (.sign i answer) (s.resume i (onMintSigned lease answer))
  | fence {s : DepositSystem} {i : ℕ} {lease : Stamp} {sig : StoredSig}
      (hat : s.tasks i = some (.fence lease sig)) :
      DepositStep w s (.fence i) (s.resume i (onFence lease sig s.fenceOpen))
  /-- An error answer is a lost acknowledgement. The fence is read again once the answer is
  in. -/
  | claim {s : DepositSystem} {i : ℕ} {lease : Stamp} {sig : StoredSig} {now : Stamp} {row : Row}
      {isOpen : Bool} {answer : Except String (Option Stamp)}
      (hat : s.tasks i = some (.claim lease sig))
      (hnow : now ∉ s.stamps)
      (hcommit : claimAndPersistSignature s.store.halted lease sig now s.store.row =
        some row)
      (hack : ∀ a, answer = .ok a → a = some now) :
      DepositStep w s (.claim i now isOpen answer)
        ({ s.withRow row now with claimed := sig.signature :: s.claimed }.resume i
          (onMintClaim lease sig isOpen answer))
  /-- The claim matches no row, or fails without a commit. -/
  | claimRefused {s : DepositSystem} {i : ℕ} {lease : Stamp} {sig : StoredSig} {now : Stamp}
      {isOpen : Bool} {answer : Except String (Option Stamp)}
      (hat : s.tasks i = some (.claim lease sig))
      (hack : ∀ a, answer = .ok a → a = none ∧
        claimAndPersistSignature s.store.halted lease sig now s.store.row = none) :
      DepositStep w s (.claim i now isOpen answer)
        (s.resume i (onMintClaim lease sig isOpen answer))
  | haltRead {s : DepositSystem} {i : ℕ} {lease : Stamp} {answer : Except String Bool}
      (hat : s.tasks i = some (.haltRead lease))
      (hread : ∀ a, answer = .ok a → a = s.store.halted) :
      DepositStep w s (.haltRead i answer) (s.resume i (onHaltRead lease answer))
  /-- The network may have the transaction whatever the answer. -/
  | send {s : DepositSystem} {i : ℕ} {lease : Stamp} {sig : StoredSig}
      {answer : Except String Unit} (hat : s.tasks i = some (.send lease sig)) :
      DepositStep w s (.send i answer)
        ({ s with broadcast := sig.signature :: s.broadcast }.resume i
          (onMintSent lease sig answer))
  /-- A status that satisfies finalized commitment reports the signature's result. -/
  | poll {s : DepositSystem} {i : ℕ} {lease : Stamp} {sig : StoredSig} {attempts processedAt : ℕ}
      {status : Option PolledStatus} (hat : s.tasks i = some (.poll lease sig attempts))
      (hseen : ∀ st, status = some st → st.satisfied = true →
        s.channel.Executed sig.signature st.err.isNone) :
      DepositStep w s (.poll i status processedAt)
        (s.resume i (onPoll lease sig attempts processedAt status))
  | jit {s : DepositSystem} {i : ℕ} {lease : Stamp} {hasPermit : Bool} {outcome : JitOutcome}
      (hat : s.tasks i = some (.jit lease)) :
      DepositStep w s (.jit i hasPermit outcome) (s.resume i (onJit lease hasPermit outcome))
  | recover {s : DepositSystem} {i : ℕ} {lease : Stamp} {attempts : ℕ}
      {journal : Except String (List PendingSig)} {finality : FinalityRpc}
      (hat : s.tasks i = some (.decide lease attempts journal))
      (hhonest : ∀ pending, journal = .ok pending → HonestChannel s.channel finality pending) :
      DepositStep w s (.recover i finality)
        (s.resume i (onRecovery lease (decideDeposit attempts (checkDeposit journal finality))))
  /-- The write runs; it is tried again when its acknowledgement was lost. -/
  | write {s : DepositSystem} {i : ℕ} {op : Op} {now : Stamp} {again : Bool}
      (hat : s.tasks i = some (.write op)) (hnow : now ∉ s.stamps) :
      DepositStep w s (.write i now again)
        ((s.commit (op.run s.store now).2 now).resume i (if again then .write op else .done))
  | writeFailed {s : DepositSystem} {i : ℕ} {op : Op} {now : Stamp} {again : Bool}
      (hat : s.tasks i = some (.write op)) :
      DepositStep w s (.write i now again) (s.resume i (if again then .write op else .done))
  | setFence {s : DepositSystem} {isOpen : Bool} :
      DepositStep w s (.setFence isOpen) { s with fenceOpen := isOpen }
  /-- Any other writer of the row. -/
  | other {s : DepositSystem} {op : Op} {now : Stamp} (hop : closingOp op = true)
      (hnow : now ∉ s.stamps) :
      DepositStep w s (.other op now) (s.commit (op.run s.store now).2 now)
  | gc {s : DepositSystem} : DepositStep w s .gc
      { s with store := { s.store with row := gcStaleReleaseSignatures s.store.row } }
  /-- The channel only advances, and lands only what was broadcast. -/
  | advance {s : DepositSystem} {c : Ledger.Chain Signature} (hext : c.Extends s.channel)
      (hvalid : w.valid c) (hlands : ∀ x, w.mint x → c.Landed x → x ∈ s.broadcast) :
      DepositStep w s .advance { s with channel := c }

end PrivateChannels.Operator
