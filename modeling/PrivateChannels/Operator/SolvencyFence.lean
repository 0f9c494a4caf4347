import PrivateChannels.Operator.DepositMint
import PrivateChannels.Operator.Reconciliation

/-!
# The solvency fence between reconciliation and the claims

The fence is one shared cell. Reconciliation opens and trips it, and
`claim_and_persist_or_abort` reads it before and after its storage transaction. Everything
interleaves freely.
-/

namespace PrivateChannels.Operator

open Storage

/-- The fence's states. -/
inductive FenceState
  | closed
  | opened
  | tripped
  deriving DecidableEq, Repr

namespace FenceState

/-- Claims may pass. -/
def isOpen (f : FenceState) : Bool := f == .opened

/-- `open`: a compare-and-swap from closed, so a late open never undoes a trip. -/
def openFence : FenceState → FenceState
  | .closed => .opened
  | f => f

/-- Closed until a restart. -/
def trip (_ : FenceState) : FenceState := .tripped

end FenceState

/-- Where a claim stands. Between its commit and the second look at the fence it
holds the storage's answer. -/
inductive ClaimTask
  | work (task : MintTask)
  | recheck (lease : Stamp) (sig : StoredSig) (answer : Except String (Option Stamp))

/-- What happened to the fence and the claims. An opening carries its tick and the durable halt
at that moment. -/
inductive FenceMark (κ : Type*)
  | opened (record : TickRecord κ) (inForce : Option HaltInfo)
  | tripped
  | owned (attempt : ℕ)

/-- A claim that was written and then refused, with the lease its write left. -/
structure RefusedClaim where
  attempt : ℕ
  transactionId : ℕ
  lease : Stamp
  deriving DecidableEq, Repr

/-- The rows, the durable halt and one process; `pending` are the tick's effects still to come.
The last three fields are history: broadcast attempts, refused claims and the marks, newest
first. -/
structure FenceSystem (κ : Type*) where
  rows : ℕ → Row
  stamps : List Stamp
  halt : Option HaltInfo
  fence : FenceState
  memory : ReconciliationMemory κ
  pending : List (TickEffect κ)
  tasks : ℕ → Option (ℕ × ClaimTask)
  sent : List ℕ
  refused : List RefusedClaim
  marks : List (FenceMark κ)

variable {κ : Type*}

namespace FenceSystem

/-- The attempt moves to its next suspension point. -/
def resume (s : FenceSystem κ) (i id : ℕ) (t : ClaimTask) : FenceSystem κ :=
  { s with tasks := Function.update s.tasks i (some (id, t)) }

/-- One row is rewritten at time `now`. -/
def withRow (s : FenceSystem κ) (id : ℕ) (row : Row) (now : Stamp) : FenceSystem κ :=
  { s with rows := Function.update s.rows id row, stamps := now :: s.stamps }

/-- What one row's operations see of the database. -/
def storeOf (s : FenceSystem κ) (id : ℕ) (escrowCheckpoint : Option ℕ)
    (observedReleases : List ObservedRelease) : Store :=
  ⟨s.rows id, s.halt.isSome, escrowCheckpoint, observedReleases⟩

/-- The second look at the fence: only an acknowledged claim is decided by it. -/
def recheck (s : FenceSystem κ) (i id : ℕ) (lease : Stamp) (sig : StoredSig)
    (answer : Except String (Option Stamp)) : FenceSystem κ :=
  let next := s.resume i id (.work (onMintClaim lease sig s.fence.isOpen answer))
  match answer with
  | .ok (some owned) =>
    if s.fence.isOpen then { next with marks := .owned i :: s.marks }
    else { next with refused := ⟨i, id, owned⟩ :: s.refused }
  | _ => next

/-- The durable halt after a write that took effect. -/
def haltWritten (kind : HaltKind) (reason : String) (halt : Option HaltInfo) : Option HaltInfo :=
  match kind with
  | .insolvency => some ⟨reason, true⟩
  | .outage => if halt.any (·.insolvency) then halt else some ⟨reason, false⟩

/-- The answer fits the halt the write found. -/
def Answers (kind : HaltKind) (write : HaltWrite) (halt : Option HaltInfo) : Prop :=
  kind = .outage → ∀ written, write = .acknowledged written →
    (written = true ↔ halt.any (·.insolvency) = false)

/-- The effect of a halt write. -/
def writeHalt (s : FenceSystem κ) (kind : HaltKind) (reason : String) (write : HaltWrite) :
    FenceSystem κ :=
  match write with
  | .failed _ => s
  | .acknowledged _ | .lost _ => { s with halt := haltWritten kind reason s.halt }

/-- `quarantine_active_withdrawals` over every row. -/
def quarantine (s : FenceSystem κ) (landed : Bool) (now : Stamp) : FenceSystem κ :=
  if landed then
    { s with
      rows := fun id =>
        (quarantineActiveWithdrawals none none now (s.rows id)).getD (s.rows id)
      stamps := now :: s.stamps }
  else s

/-- Opening leaves a mark when it changed the fence. -/
def openFence (s : FenceSystem κ) (record : TickRecord κ) : FenceSystem κ :=
  { s with
    fence := s.fence.openFence
    marks := if s.fence = .closed then .opened record s.halt :: s.marks else s.marks }

/-- The process restarts: its tasks, fence, memory and marks are gone. -/
def restarted (s : FenceSystem κ) (flag : Except String (Option HaltInfo)) : FenceSystem κ :=
  { s with
    fence := .closed
    memory := .seeded flag
    pending := []
    tasks := fun i => (s.tasks i).map fun t => (t.1, .work .done)
    marks := [] }

/-- A read of the halt flag answers with the durable halt, or fails. -/
def ReadsHalt (s : FenceSystem κ) (flag : Except String (Option HaltInfo)) : Prop :=
  ∀ halt, flag = .ok halt → halt = s.halt

/-- A database with a halt or without one, and a process that has just started. -/
structure Fresh (s : FenceSystem κ) : Prop where
  fence : s.fence = .closed
  memory : ∃ flag, s.ReadsHalt flag ∧ s.memory = .seeded flag
  pending : s.pending = []
  tasks : ∀ i, s.tasks i = none
  sent : s.sent = []
  refused : s.refused = []
  marks : s.marks = []

end FenceSystem

/-- The steps around the fence. -/
inductive FenceEvent (κ : Type*)
  | arrive (i id : ℕ) (lease : Stamp) (sig : StoredSig)
  | check (i : ℕ)
  | claim (i : ℕ) (now : Stamp) (answer : Except String (Option Stamp))
  | recheck (i : ℕ)
  | haltRead (i : ℕ) (answer : Except String Bool)
  | requeue (i : ℕ) (now : Stamp)
  | send (i : ℕ) (answer : Except String Unit)
  | other (id : ℕ) (op : Op) (now : Stamp)
  | gc (id : ℕ)
  | tick (probe : Bool) (readings : TickReadings κ)
  | effect (now : Stamp)
  | setHalt (halt : Option HaltInfo)
  | restart (flag : Except String (Option HaltInfo))

/-- One step of the system. -/
inductive FenceStep [DecidableEq κ] [ToString κ] (toleranceBps : ℕ) :
    FenceSystem κ → FenceEvent κ → FenceSystem κ → Prop
  /-- A signed mint reaches its claim with the lease it was handed. -/
  | arrive {s : FenceSystem κ} {i id : ℕ} {lease : Stamp} {sig : StoredSig}
      (hfree : s.tasks i = none) :
      FenceStep toleranceBps s (.arrive i id lease sig) (s.resume i id (.work (.fence lease sig)))
  | check {s : FenceSystem κ} {i id : ℕ} {lease : Stamp} {sig : StoredSig}
      (hat : s.tasks i = some (id, .work (.fence lease sig))) :
      FenceStep toleranceBps s (.check i)
        (s.resume i id (.work (onFence lease sig s.fence.isOpen)))
  /-- The claim commits; an error answer is a lost acknowledgement. -/
  | claim {s : FenceSystem κ} {i id : ℕ} {lease : Stamp} {sig : StoredSig} {now : Stamp} {row : Row}
      {answer : Except String (Option Stamp)}
      (hat : s.tasks i = some (id, .work (.claim lease sig))) (hnow : now ∉ s.stamps)
      (hcommit : claimAndPersistSignature s.halt.isSome lease sig now (s.rows id) =
        some row)
      (hack : ∀ a, answer = .ok a → a = some now) :
      FenceStep toleranceBps s (.claim i now answer)
        ((s.withRow id row now).resume i id (.recheck lease sig answer))
  /-- The claim matches no row, or fails without a commit. -/
  | claimRefused {s : FenceSystem κ} {i id : ℕ} {lease : Stamp} {sig : StoredSig} {now : Stamp}
      {answer : Except String (Option Stamp)}
      (hat : s.tasks i = some (id, .work (.claim lease sig)))
      (hack : ∀ a, answer = .ok a → a = none ∧
        claimAndPersistSignature s.halt.isSome lease sig now (s.rows id) = none) :
      FenceStep toleranceBps s (.claim i now answer) (s.resume i id (.recheck lease sig answer))
  | recheck {s : FenceSystem κ} {i id : ℕ} {lease : Stamp} {sig : StoredSig}
      {answer : Except String (Option Stamp)}
      (hat : s.tasks i = some (id, .recheck lease sig answer)) :
      FenceStep toleranceBps s (.recheck i) (s.recheck i id lease sig answer)
  | haltRead {s : FenceSystem κ} {i id : ℕ} {lease : Stamp} {answer : Except String Bool}
      (hat : s.tasks i = some (id, .work (.haltRead lease)))
      (hread : ∀ a, answer = .ok a → a = s.halt.isSome) :
      FenceStep toleranceBps s (.haltRead i answer)
        (s.resume i id (.work (onHaltRead lease answer)))
  | requeue {s : FenceSystem κ} {i id : ℕ} {op : Op} {now : Stamp}
      (hat : s.tasks i = some (id, .work (.write op))) (hnow : now ∉ s.stamps) :
      FenceStep toleranceBps s (.requeue i now)
        ((s.withRow id (op.run (s.storeOf id none []) now).2.row now).resume i id (.work .done))
  | requeueFailed {s : FenceSystem κ} {i id : ℕ} {op : Op} {now : Stamp}
      (hat : s.tasks i = some (id, .work (.write op))) :
      FenceStep toleranceBps s (.requeue i now) (s.resume i id (.work .done))
  /-- The network may have the transaction whatever the answer. -/
  | send {s : FenceSystem κ} {i id : ℕ} {lease : Stamp} {sig : StoredSig}
      {answer : Except String Unit} (hat : s.tasks i = some (id, .work (.send lease sig))) :
      FenceStep toleranceBps s (.send i answer)
        ({ s with sent := i :: s.sent }.resume i id (.work (onMintSent lease sig answer)))
  /-- Any other writer of a row. -/
  | other {s : FenceSystem κ} {id : ℕ} {op : Op} {now : Stamp} {escrowCheckpoint : Option ℕ}
      {observedReleases : List ObservedRelease} (hnow : now ∉ s.stamps) :
      FenceStep toleranceBps s (.other id op now)
        (s.withRow id (op.run (s.storeOf id escrowCheckpoint observedReleases) now).2.row now)
  | gc {s : FenceSystem κ} {id : ℕ} :
      FenceStep toleranceBps s (.gc id)
        { s with rows :=
            Function.update s.rows id (gcStaleReleaseSignatures (s.rows id)) }
  /-- A tick starts once the last one has had its effects, a probe only while the fence is
  closed and no threshold is one tick away. -/
  | tick {s : FenceSystem κ} {probe : Bool} {readings : TickReadings κ}
      (hidle : s.pending = []) (hflag : s.ReadsHalt readings.haltFlag)
      (hprobe : probe = true → s.fence = .closed ∧ oneMoreTickIsSafe s.memory = true) :
      FenceStep toleranceBps s (.tick probe readings)
        { s with
          memory := (performReconciliationCheck toleranceBps probe s.memory readings).1
          pending := (performReconciliationCheck toleranceBps probe s.memory readings).2 }
  | trip {s : FenceSystem κ} {rest : List (TickEffect κ)} {now : Stamp}
      (hnext : s.pending = .trip :: rest) :
      FenceStep toleranceBps s (.effect now)
        { s with fence := s.fence.trip, pending := rest, marks := .tripped :: s.marks }
  /-- A page reaches nothing the claims depend on. -/
  | page {s : FenceSystem κ} {rest : List (TickEffect κ)} {page : Page κ} {now : Stamp}
      (hnext : s.pending = .page page :: rest) :
      FenceStep toleranceBps s (.effect now) { s with pending := rest }
  | writeHalt {s : FenceSystem κ} {rest : List (TickEffect κ)} {kind : HaltKind} {reason : String}
      {write : HaltWrite} {now : Stamp} (hnext : s.pending = .writeHalt kind reason write :: rest)
      (hanswer : FenceSystem.Answers kind write s.halt) :
      FenceStep toleranceBps s (.effect now) { s.writeHalt kind reason write with pending := rest }
  | quarantine {s : FenceSystem κ} {rest : List (TickEffect κ)} {landed : Bool} {now : Stamp}
      (hnext : s.pending = .quarantine landed :: rest) (hnow : now ∉ s.stamps) :
      FenceStep toleranceBps s (.effect now) { s.quarantine landed now with pending := rest }
  | openFence {s : FenceSystem κ} {rest : List (TickEffect κ)} {record : TickRecord κ} {now : Stamp}
      (hnext : s.pending = .openFence record :: rest) :
      FenceStep toleranceBps s (.effect now) { s.openFence record with pending := rest }
  /-- The halt is set or cleared by hand, or by another process. -/
  | setHalt {s : FenceSystem κ} {halt : Option HaltInfo} :
      FenceStep toleranceBps s (.setHalt halt) { s with halt := halt }
  | restart {s : FenceSystem κ} {flag : Except String (Option HaltInfo)}
      (hflag : s.ReadsHalt flag) :
      FenceStep toleranceBps s (.restart flag) (s.restarted flag)

end PrivateChannels.Operator
