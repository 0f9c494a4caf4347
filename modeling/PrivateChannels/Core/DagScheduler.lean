import Mathlib

/-!
# The dependency scheduler

`DAGScheduler` groups a list of transactions into batches that may run in parallel. A
transaction is what `extract_accounts` returns. A `HashSet` promises no order, so the
caller supplies one.
-/

namespace PrivateChannels.Core

/-- The keys a transaction locks, as `extract_accounts` lists them. -/
structure Transaction (κ : Type*) where
  readAccounts : List κ
  writeAccounts : List κ
  deriving DecidableEq, Repr

/-- A transaction and its place in the list. -/
structure TransactionWithIndex (κ : Type*) where
  transaction : Transaction κ
  index : ℕ
  deriving DecidableEq, Repr

/-- Who has locked an account so far. -/
structure AccountLocks where
  readLocks : Finset ℕ
  writeLock : Option ℕ

/-- The maps of the scheduler; an absent key reads as its default. -/
structure DependencyGraph (κ : Type*) where
  accountLocks : κ → AccountLocks
  transactionDependencies : ℕ → Finset ℕ
  transactionDependents : ℕ → Finset ℕ

variable {κ : Type*} [DecidableEq κ]

/-- The holder of the write lock, unless it is the transaction itself. -/
def waitForWriter (txIndex : ℕ) (locks : AccountLocks) (dependencies : Finset ℕ) : Finset ℕ :=
  match locks.writeLock with
  | some writeTx => if writeTx ≠ txIndex then insert writeTx dependencies else dependencies
  | none => dependencies

/-- One account of the write set. -/
def lockWrite (txIndex : ℕ) (state : (κ → AccountLocks) × Finset ℕ) (account : κ) :
    (κ → AccountLocks) × Finset ℕ :=
  let locks := state.1 account
  (Function.update state.1 account { locks with writeLock := some txIndex },
    waitForWriter txIndex locks (state.2 ∪ locks.readLocks))

/-- One account of the read set. -/
def lockRead (txIndex : ℕ) (state : (κ → AccountLocks) × Finset ℕ) (account : κ) :
    (κ → AccountLocks) × Finset ℕ :=
  let locks := state.1 account
  (Function.update state.1 account { locks with readLocks := insert txIndex locks.readLocks },
    waitForWriter txIndex locks state.2)

/-- The body of the loop of `build_dependency_graph`. -/
def addTransaction (graph : DependencyGraph κ) (entry : Transaction κ × ℕ) : DependencyGraph κ :=
  let written := entry.1.writeAccounts.foldl (lockWrite entry.2) (graph.accountLocks, ∅)
  let locked := entry.1.readAccounts.foldl (lockRead entry.2) written
  { accountLocks := locked.1
    transactionDependencies := Function.update graph.transactionDependencies entry.2 locked.2
    transactionDependents := fun dep =>
      if dep ∈ locked.2 then insert entry.2 (graph.transactionDependents dep)
      else graph.transactionDependents dep }

/-- The graph of a whole list. -/
def buildDependencyGraph (transactions : List (Transaction κ)) : DependencyGraph κ :=
  transactions.zipIdx.foldl addTransaction ⟨fun _ => ⟨∅, none⟩, fun _ => ∅, fun _ => ∅⟩

/-- The variables of one pass of the outer loop. -/
structure BatchState (κ : Type*) where
  currentBatch : List (TransactionWithIndex κ)
  batchReadAccounts : Finset κ
  batchWriteAccounts : Finset κ
  nextReady : List ℕ
  processed : Finset ℕ
  readyQueue : List ℕ

/-- Write-write, then write-read, then read-write. -/
def hasConflict (state : BatchState κ) (tx : Transaction κ) : Bool :=
  tx.writeAccounts.any (· ∈ state.batchWriteAccounts) ||
    tx.writeAccounts.any (· ∈ state.batchReadAccounts) ||
    tx.readAccounts.any (· ∈ state.batchWriteAccounts)

section Schedule

variable (graph : DependencyGraph κ) (order : ℕ → List ℕ) (transactions : List (Transaction κ))

/-- The transaction joins the batch, and those that waited for it only are ready. -/
def addToBatch (state : BatchState κ) (txIndex : ℕ) (tx : Transaction κ) : BatchState κ :=
  let processed := insert txIndex state.processed
  { currentBatch := state.currentBatch ++ [⟨tx, txIndex⟩]
    batchReadAccounts := state.batchReadAccounts ∪ tx.readAccounts.toFinset
    batchWriteAccounts := state.batchWriteAccounts ∪ tx.writeAccounts.toFinset
    nextReady := state.nextReady
    processed := processed
    readyQueue := state.readyQueue ++ (order txIndex).filter fun dependent =>
      graph.transactionDependencies dependent ⊆ processed ∧ dependent ∉ processed }

/-- The body of the inner loop; `none` is an index out of bounds. -/
def visitReady (state : BatchState κ) (txIndex : ℕ) : Option (BatchState κ) :=
  if txIndex ∈ state.processed then some state
  else
    match transactions[txIndex]? with
    | none => none
    | some tx =>
      if hasConflict state tx then some { state with nextReady := state.nextReady ++ [txIndex] }
      else some (addToBatch graph order state txIndex tx)

/-- The inner loop, for at most `fuel` pops. -/
def fillBatch : ℕ → BatchState κ → Option (BatchState κ)
  | 0, _ => none
  | fuel + 1, state =>
    match state.readyQueue with
    | [] => some state
    | txIndex :: rest =>
      match visitReady graph order transactions { state with readyQueue := rest } txIndex with
      | none => none
      | some next => fillBatch fuel next

/-- The variables of the outer loop. `fallbacks` counts the searches for ready transactions. -/
structure ScheduleState (κ : Type*) where
  batches : List (List (TransactionWithIndex κ))
  processed : Finset ℕ
  readyQueue : List ℕ
  fallbacks : ℕ

/-- The body of the outer loop; the flag is its `break`. -/
def nextBatch (fuel : ℕ) (state : ScheduleState κ) : Option (ScheduleState κ × Bool) :=
  match fillBatch graph order transactions fuel
      ⟨[], ∅, ∅, [], state.processed, state.readyQueue⟩ with
  | none => none
  | some filled =>
    let readyQueue := filled.nextReady.foldl (fun queue txIndex => txIndex :: queue)
      filled.readyQueue
    if !filled.currentBatch.isEmpty then
      some (⟨state.batches ++ [filled.currentBatch], filled.processed, readyQueue,
        state.fallbacks⟩, false)
    else if readyQueue.isEmpty && filled.processed.card < transactions.length then
      let ready := (List.range transactions.length).filter fun txIndex =>
        txIndex ∉ filled.processed ∧ graph.transactionDependencies txIndex ⊆ filled.processed
      some (⟨state.batches, filled.processed, ready, state.fallbacks + 1⟩, ready.isEmpty)
    else some (⟨state.batches, filled.processed, readyQueue, state.fallbacks⟩, false)

/-- The outer loop, for at most `fuel` passes. -/
def scheduleLoop : ℕ → ScheduleState κ → Option (ScheduleState κ)
  | 0, _ => none
  | fuel + 1, state =>
    if state.processed.card < transactions.length then
      match nextBatch graph order transactions (fuel + 1) state with
      | none => none
      | some (next, true) => some next
      | some (next, false) => scheduleLoop fuel next
    else some state

end Schedule

/-- `schedule`, with the number of times it fell back to a search. -/
def schedule (order : ℕ → List ℕ) (fuel : ℕ) (transactions : List (Transaction κ)) :
    Option (List (List (TransactionWithIndex κ)) × ℕ) :=
  if transactions.isEmpty then some ([], 0)
  else
    let graph := buildDependencyGraph transactions
    let ready := (List.range transactions.length).filter fun txIndex =>
      graph.transactionDependencies txIndex = ∅
    (scheduleLoop graph order transactions fuel ⟨[], ∅, ready, 0⟩).map fun state =>
      (state.batches, state.fallbacks)

end PrivateChannels.Core
