import Mathlib

/-!
# The `transactions` row and its storage operations

Every operation is one guarded `UPDATE`: a `WHERE` clause, a `SET` list, and the trigger
that stamps `updated_at`. A row carries its own entries of the two journals. The `CHECK`
on `failed_reminted` is not modelled: the guards keep it.
-/

namespace PrivateChannels.Storage

/-- A transaction signature, known only by its identity. -/
structure Signature where
  id : ℕ
  deriving DecidableEq, Repr

/-- A value of `updated_at`, which callers hold as a lease. -/
abbrev Stamp := ℕ

/-- The statuses of a row. -/
inductive TransactionStatus
  | pending
  | processing
  | parked
  | completed
  | failed
  | failedReminted
  | manualReview
  | pendingRemint
  deriving DecidableEq, Repr

/-- `TERMINAL_STATUSES`. -/
def TransactionStatus.terminal : TransactionStatus → Bool
  | .completed | .failed | .failedReminted => true
  | _ => false

/-- The statuses of a withdrawal that is still being released, which
`quarantine_active_withdrawals` takes. -/
def TransactionStatus.active : TransactionStatus → Bool
  | .pending | .processing | .parked => true
  | _ => false

/-- The `Debug` text of a status. -/
def TransactionStatus.debug : TransactionStatus → String
  | .pending => "Pending"
  | .processing => "Processing"
  | .parked => "Parked"
  | .completed => "Completed"
  | .failed => "Failed"
  | .failedReminted => "FailedReminted"
  | .manualReview => "ManualReview"
  | .pendingRemint => "PendingRemint"

/-- Deposits and withdrawals. -/
inductive TransactionType
  | deposit
  | withdrawal
  deriving DecidableEq, Repr

/-- A journaled broadcast. -/
structure StoredSig where
  signature : Signature
  lastValidBlockHeight : ℕ
  blockhashSlot : Option ℕ
  deriving DecidableEq, Repr

/-- An entry of `pending_remint_signatures`. -/
structure RemintEntry extends StoredSig where
  superseded : Bool
  deriving DecidableEq, Repr

/-- The columns the operations read or write, and the row's journal entries. -/
structure Row where
  id : ℕ
  transactionType : TransactionType
  slot : ℕ
  withdrawalNonce : Option ℕ
  status : TransactionStatus
  updatedAt : Stamp
  processedAt : Option ℕ
  counterpartSignature : Option Signature
  releaseSignatures : Option (List Signature)
  remintSignatures : Option (List Signature)
  remintLastValidBlockHeights : Option (List ℕ)
  pendingRemintDeadlineAt : Option ℕ
  finalityCheckAttempts : ℕ
  recoveryRequeueAttempts : ℕ
  landedRemintSignature : Option Signature
  releaseRefusedOnChain : Bool
  /-- `pending_release_signatures`, oldest first. -/
  releaseJournal : List StoredSig
  /-- `pending_remint_signatures`, oldest first. -/
  remintJournal : List RemintEntry
  deriving DecidableEq, Repr

/-- A row as the indexer inserts it. -/
def Row.new (id : ℕ) (transactionType : TransactionType) (slot : ℕ) (withdrawalNonce : Option ℕ)
    (createdAt : Stamp) : Row where
  id := id
  transactionType := transactionType
  slot := slot
  withdrawalNonce := withdrawalNonce
  status := .pending
  updatedAt := createdAt
  processedAt := none
  counterpartSignature := none
  releaseSignatures := none
  remintSignatures := none
  remintLastValidBlockHeights := none
  pendingRemintDeadlineAt := none
  finalityCheckAttempts := 0
  recoveryRequeueAttempts := 0
  landedRemintSignature := none
  releaseRefusedOnChain := false
  releaseJournal := []
  remintJournal := []

/-- A release the escrow indexer has recorded. -/
structure ObservedRelease where
  withdrawalNonce : ℕ
  signature : Signature
  slot : ℕ
  amount : ℕ
  deriving DecidableEq, Repr

/-- `UPDATE transactions SET .. WHERE ..` on one row, with the trigger's stamp;
`none` when no row matched. -/
def updateWhere (guard : Row → Bool) (set : Row → Row) (now : Stamp) (row : Row) : Option Row :=
  if guard row then some { set row with updatedAt := now } else none

theorem updateWhere_eq_some {guard : Row → Bool} {set : Row → Row} {now : Stamp} {row row' : Row} :
    updateWhere guard set now row = some row' ↔
      guard row = true ∧ row' = { set row with updatedAt := now } := by
  unfold updateWhere
  by_cases h : guard row = true
  · rw [if_pos h, Option.some.injEq]
    exact ⟨fun he => ⟨h, he.symm⟩, fun he => he.2.symm⟩
  · rw [if_neg h]
    exact ⟨nofun, fun he => absurd he.1 h⟩

/-- The compare-and-set shared by every lease-checked operation. -/
def heldAt (status : TransactionStatus) (expected : Stamp) (row : Row) : Bool :=
  row.status == status && row.updatedAt == expected

theorem heldAt_eq_true {status : TransactionStatus} {expected : Stamp} {r : Row} :
    heldAt status expected r = true ↔ r.status = status ∧ r.updatedAt = expected := by
  simp [heldAt]

/-- `COALESCE(new, old)`. -/
def coalesce {α : Type*} (new old : Option α) : Option α := new.orElse fun _ => old

/-- `get_and_lock_pending_transactions` on one row. A deposit is claimed only
once the escrow checkpoint covers its slot. -/
def getAndLockPending (transactionType : TransactionType) (escrowCheckpoint : Option ℕ) :
    Stamp → Row → Option Row :=
  updateWhere
    (fun r => r.status == .pending && r.transactionType == transactionType &&
      match r.transactionType with
      | .deposit => escrowCheckpoint.any (r.slot ≤ ·)
      | .withdrawal => true)
    (fun r => { r with status := .processing })

/-- `update_transaction_status`: the asynchronous writer, not lease-checked. -/
def updateTransactionStatus (status : TransactionStatus)
    (counterpartSignature : Option Signature) (processedAt : ℕ)
    (releaseSignatures : Option (List Signature)) : Stamp → Row → Option Row :=
  updateWhere
    (fun r => (r.status == .processing || r.status == .pendingRemint) &&
      status != .failedReminted)
    (fun r => { r with
      status := status
      counterpartSignature := counterpartSignature
      processedAt := some processedAt
      releaseSignatures := coalesce releaseSignatures r.releaseSignatures })

def tryRequeueProcessing (expected : Stamp) : Stamp → Row → Option Row :=
  updateWhere (heldAt .processing expected)
    (fun r => { r with
      status := .pending
      recoveryRequeueAttempts := r.recoveryRequeueAttempts + 1 })

def requeueHaltedClaim (halted : Bool) (expected : Stamp) : Stamp → Row → Option Row :=
  updateWhere (fun r => heldAt .processing expected r && halted && r.releaseJournal.isEmpty)
    (fun r => { r with status := .pending })

def requeueUnclaimed (expected : Stamp) : Stamp → Row → Option Row :=
  updateWhere (fun r => heldAt .processing expected r && r.releaseJournal.isEmpty)
    (fun r => { r with status := .pending })

/-- The cap is enforced inside the write, which stamps the row even at the cap. -/
def tryRequeuePrebroadcast (expected : Stamp) (maxAttempts : ℕ) : Stamp → Row → Option Row :=
  updateWhere (heldAt .processing expected)
    (fun r =>
      if r.recoveryRequeueAttempts < maxAttempts then
        { r with
          status := .pending
          recoveryRequeueAttempts := r.recoveryRequeueAttempts + 1 }
      else r)

/-- `try_park_processing`: accepts an already parked row, as the heartbeat does. -/
def tryParkProcessing : Stamp → Row → Option Row :=
  updateWhere (fun r => r.status == .processing || r.status == .parked)
    (fun r => { r with status := .parked })

def tryUnparkToProcessing : Stamp → Row → Option Row :=
  updateWhere (fun r => r.status == .parked) (fun r => { r with status := .processing })

def tryRequeueParked (expected : Stamp) : Stamp → Row → Option Row :=
  updateWhere (heldAt .parked expected) (fun r => { r with status := .pending })

def tryCompleteProcessing (expected : Stamp) (counterpartSignature : Option Signature)
    (releaseSignatures : Option (List Signature)) (now : Stamp) : Row → Option Row :=
  updateWhere (heldAt .processing expected)
    (fun r => { r with
      status := .completed
      counterpartSignature := coalesce counterpartSignature r.counterpartSignature
      releaseSignatures := coalesce releaseSignatures r.releaseSignatures
      processedAt := some now }) now

def tryFailProcessing (expected : Stamp) (now : Stamp) : Row → Option Row :=
  updateWhere (heldAt .processing expected)
    (fun r => { r with status := .failed, processedAt := some now }) now

def tryQuarantineProcessing (expected : Stamp) (remintSignatures : Option (List Signature))
    (remintLastValidBlockHeights : Option (List ℕ)) (now : Stamp) : Row → Option Row :=
  updateWhere (heldAt .processing expected)
    (fun r => { r with
      status := .manualReview
      remintSignatures := coalesce remintSignatures r.remintSignatures
      remintLastValidBlockHeights :=
        coalesce remintLastValidBlockHeights r.remintLastValidBlockHeights
      processedAt := some now }) now

/-- `complete_stalled_withdrawal`: the source statuses are pinned in the
statement, whatever the caller binds. -/
def completeStalledWithdrawal (expected : Stamp) (fromStatus : TransactionStatus)
    (counterpartSignature : Option Signature) (now : Stamp) : Row → Option Row :=
  updateWhere
    (fun r => heldAt fromStatus expected r &&
      (r.status == .manualReview || r.status == .pendingRemint) &&
      r.transactionType == .withdrawal)
    (fun r => { r with
      status := .completed
      counterpartSignature := coalesce counterpartSignature r.counterpartSignature
      processedAt := some now }) now

/-- `set_pending_remint`: idempotent for an identical payload. -/
def setPendingRemint (remintSignatures : List Signature)
    (remintLastValidBlockHeights : List ℕ) (deadlineAt : ℕ) (releaseRefusedOnChain : Bool) :
    Stamp → Row → Option Row :=
  updateWhere
    (fun r => r.status == .processing ||
      (r.status == .pendingRemint && r.remintSignatures == some remintSignatures))
    (fun r => { r with
      status := .pendingRemint
      remintSignatures := some remintSignatures
      remintLastValidBlockHeights := some remintLastValidBlockHeights
      pendingRemintDeadlineAt := some deadlineAt
      releaseRefusedOnChain := releaseRefusedOnChain })

def bumpPendingRemintFinalityAttempt (attempts newDeadline : ℕ) : Stamp → Row → Option Row :=
  updateWhere (fun r => r.status == .pendingRemint)
    (fun r => { r with
      finalityCheckAttempts := attempts
      pendingRemintDeadlineAt := some newDeadline })

def recordRemintResult (remintSignature : Signature) (now : Stamp) : Row → Option Row :=
  updateWhere (fun r => r.status == .pendingRemint)
    (fun r => { r with
      status := .failedReminted
      landedRemintSignature := some remintSignature
      processedAt := some now }) now

def tryMarkReminted (expected : Stamp) (remintSignature : Signature) (now : Stamp) :
    Row → Option Row :=
  updateWhere
    (fun r => (r.status == .processing || r.status == .pendingRemint) && r.updatedAt == expected)
    (fun r => { r with
      status := .failedReminted
      landedRemintSignature := some remintSignature
      processedAt := some now }) now

/-- `INSERT .. ON CONFLICT (signature) DO NOTHING`. -/
def journalRelease (sig : StoredSig) (journal : List StoredSig) : List StoredSig :=
  if journal.any (·.signature == sig.signature) then journal else journal ++ [sig]

variable {sig : StoredSig}

theorem mem_journalRelease {p : StoredSig} {journal : List StoredSig}
    (h : p ∈ journalRelease sig journal) : p ∈ journal ∨ p = sig := by
  unfold journalRelease at h
  split at h
  · exact .inl h
  · simpa using h

/-- The journal holds the inserted signature, under this entry or an earlier one. -/
theorem journalRelease_inserted (sig : StoredSig) (journal : List StoredSig) :
    ∃ p ∈ journalRelease sig journal, p.signature = sig.signature := by
  unfold journalRelease
  split
  · next h => simpa using h
  · exact ⟨sig, by simp, rfl⟩

theorem journalRelease_subset {p : StoredSig} {journal : List StoredSig} (h : p ∈ journal) :
    p ∈ journalRelease sig journal := by
  unfold journalRelease
  split
  · exact h
  · exact List.mem_append_left _ h

/-- The lease check, the halt and refund interlocks, and the journal insert share one
transaction. -/
def claimAndPersistSignature (halted : Bool) (expected : Stamp) (sig : StoredSig) :
    Stamp → Row → Option Row :=
  updateWhere
    (fun r => heldAt .processing expected r && !halted && r.landedRemintSignature.isNone)
    (fun r => { r with releaseJournal := journalRelease sig r.releaseJournal })

/-- What a committed claim found and wrote. -/
theorem claim_row {halted : Bool} {lease now : Stamp} {r r' : Row}
    (h : claimAndPersistSignature halted lease sig now r = some r') :
    r.status = .processing ∧ r.updatedAt = lease ∧
      r' = { r with
        releaseJournal := journalRelease sig r.releaseJournal
        updatedAt := now } := by
  obtain ⟨hg, hrow⟩ := updateWhere_eq_some.mp h
  simp only [Bool.and_eq_true] at hg
  exact ⟨(heldAt_eq_true.mp hg.1.1).1, (heldAt_eq_true.mp hg.1.1).2, hrow⟩

/-- The journal is copied onto the row so that the reconcile sweep can fetch it. -/
def quarantineActiveWithdrawals (excludeId minNonce : Option ℕ) : Stamp → Row → Option Row :=
  updateWhere
    (fun r => r.transactionType == .withdrawal &&
      (r.status == .pending || r.status == .processing || r.status == .parked) &&
      excludeId.all (r.id != ·) &&
      minNonce.all (fun n => r.withdrawalNonce.any (n ≤ ·)))
    (fun r => { r with
      status := .manualReview
      remintSignatures :=
        if r.releaseJournal.isEmpty then r.remintSignatures
        else some (r.releaseJournal.map (·.signature))
      remintLastValidBlockHeights :=
        if r.releaseJournal.isEmpty then r.remintLastValidBlockHeights
        else some (r.releaseJournal.map (·.lastValidBlockHeight)) })

/-- The answers to a remint claim. -/
inductive RemintClaim
  | claimed
  | heldElsewhere
  | rowMoved
  | releaseObserved
  deriving DecidableEq, Repr

/-- A release of the row's nonce is on record. -/
def releaseOnRecord (observed : List ObservedRelease) (row : Row) : Bool :=
  row.withdrawalNonce.any fun n => observed.any (·.withdrawalNonce == n)

/-- Retires the listed live entries. -/
def supersede (superseded : List Signature) (journal : List RemintEntry) : List RemintEntry :=
  journal.map fun e =>
    if superseded.contains e.signature then { e with superseded := true } else e

/-- The parent write of a remint claim, with the observed-release interlock. -/
def claimRemintParent (observed : List ObservedRelease) (superseded : List Signature) :
    Stamp → Row → Option Row :=
  updateWhere
    (fun r => r.status == .pendingRemint && r.transactionType == .withdrawal &&
      !releaseOnRecord observed r)
    (fun r => { r with remintJournal := supersede superseded r.remintJournal })

/-- `claim_remint_attempt`. One live entry is admitted for a row; a lost claim still retires
what its caller proved dead. `none` is the unique violation on a journaled signature. -/
def claimRemintAttempt (observed : List ObservedRelease) (sig : StoredSig)
    (superseded : List Signature) (now : Stamp) (row : Row) : Option (RemintClaim × Row) :=
  match claimRemintParent observed superseded now row with
  | none =>
    if row.status == .pendingRemint && releaseOnRecord observed row then
      some (.releaseObserved, row)
    else some (.rowMoved, row)
  | some row' =>
    if row'.remintJournal.any (!·.superseded) then some (.heldElsewhere, row')
    else if row'.remintJournal.any (·.signature == sig.signature) then none
    else some (.claimed, { row' with
      remintJournal := row'.remintJournal ++ [{ sig with superseded := false }] })

/-- Everything a remint claim can do. -/
theorem claimRemintAttempt_cases {observed : List ObservedRelease}
    {superseded : List Signature} {now : Stamp} {r r' : Row} {claim : RemintClaim}
    (h : claimRemintAttempt observed sig superseded now r = some (claim, r')) :
    ((claim = .releaseObserved ∨ claim = .rowMoved) ∧ r' = r) ∨
    (r.status = .pendingRemint ∧ r.transactionType = .withdrawal ∧
      releaseOnRecord observed r = false ∧
      ((claim = .heldElsewhere ∧
          (∃ e ∈ supersede superseded r.remintJournal, e.superseded = false) ∧
          r' = { r with
            remintJournal := supersede superseded r.remintJournal
            updatedAt := now }) ∨
        (claim = .claimed ∧
          (∀ e ∈ supersede superseded r.remintJournal,
            e.superseded = true ∧ e.signature ≠ sig.signature) ∧
          r' = { r with
            remintJournal := supersede superseded r.remintJournal ++
              [{ sig with superseded := false }]
            updatedAt := now }))) := by
  unfold claimRemintAttempt at h
  cases hp : claimRemintParent observed superseded now r with
  | none =>
    rw [hp] at h
    dsimp only at h
    split at h <;> cases Option.some.inj h
    · exact .inl ⟨.inl rfl, rfl⟩
    · exact .inl ⟨.inr rfl, rfl⟩
  | some p =>
    obtain ⟨hg, rfl⟩ := updateWhere_eq_some.mp hp
    simp only [Bool.and_eq_true, beq_iff_eq, Bool.not_eq_true'] at hg
    rw [hp] at h
    dsimp only at h
    split at h
    · next hlive =>
      cases Option.some.inj h
      refine .inr ⟨hg.1.1, hg.1.2, hg.2, .inl ⟨rfl, ?_, rfl⟩⟩
      simpa using hlive
    · next hlive =>
      split at h
      · cases h
      · next hdup =>
        cases Option.some.inj h
        refine .inr ⟨hg.1.1, hg.1.2, hg.2, .inr ⟨rfl, fun e he => ⟨?_, ?_⟩, rfl⟩⟩
        · by_contra hs
          exact hlive (List.any_eq_true.mpr ⟨e, he, by simpa using hs⟩)
        · exact fun hs => hdup (List.any_eq_true.mpr ⟨e, he, by simpa using hs⟩)

/-- `delete_release_signature`. -/
def deleteReleaseSignature (signature : Signature) (row : Row) : Row :=
  { row with releaseJournal := row.releaseJournal.filter (·.signature != signature) }

/-- `delete_remint_signatures`. -/
def deleteRemintSignatures (row : Row) : Row := { row with remintJournal := [] }

/-- `gc_stale_release_signatures` on one row. -/
def gcStaleReleaseSignatures (row : Row) : Row :=
  if row.status.terminal then { row with releaseJournal := [] } else row

theorem gcStaleReleaseSignatures_cases (row : Row) :
    gcStaleReleaseSignatures row = row ∨
      (row.status.terminal = true ∧
        gcStaleReleaseSignatures row = { row with releaseJournal := [] }) := by
  unfold gcStaleReleaseSignatures
  split
  · next hterm => exact .inr ⟨hterm, rfl⟩
  · exact .inl rfl

/-- `gc_stale_remint_signatures` on one row. -/
def gcStaleRemintSignatures (row : Row) : Row :=
  if row.status.terminal then { row with remintJournal := [] } else row

/-- `insert_observed_releases_batch` for one release, idempotent on the nonce. -/
def insertObservedRelease (release : ObservedRelease) (observed : List ObservedRelease) :
    List ObservedRelease :=
  if observed.any (·.withdrawalNonce == release.withdrawalNonce) then observed
  else observed ++ [release]

end PrivateChannels.Storage
