import PrivateChannels.Operator.WithdrawSystem

/-!
# The boot check of the withdrawal bitmap

`validate_bitmap_consistency` compares the released nonces of the current generation with
the `Completed` rows before the sender starts. Every read may fail.
-/

namespace PrivateChannels.Operator

open Escrow Escrow.WithdrawalBitmap
open Storage (Signature Row TransactionStatus TransactionType Stamp)

/-- `i64::MAX`. -/
def i64Max : ℕ := 2 ^ 63 - 1

/-- The `transactions` table: one row to an id, nonces in a signed column. -/
structure TransactionTable where
  rows : List Row
  ids : (rows.map Row.id).Nodup
  nonces : ∀ r ∈ rows, ∀ n, r.withdrawalNonce = some n → n ≤ i64Max

/-- The row is a withdrawal under the nonce. -/
def Row.numbered (r : Row) (nonce : ℕ) : Bool :=
  r.transactionType == .withdrawal && r.withdrawalNonce == some nonce

/-- `get_withdrawal_by_nonce`: the newest row under the nonce. -/
def getWithdrawalByNonce (nonce : ℕ) (rows : List Row) : Option Row :=
  (rows.filter (Row.numbered · nonce)).argmax Row.id

/-- `get_max_withdrawal_nonce`. -/
def getMaxWithdrawalNonce (rows : List Row) : Option ℕ :=
  ((rows.filter (·.transactionType == .withdrawal)).filterMap (·.withdrawalNonce)).max?

/-- `get_completed_withdrawal_nonces`: from `minNonce` on, below `maxNonce`. -/
def getCompletedWithdrawalNonces (minNonce maxNonce : ℕ) (rows : List Row) : List ℕ :=
  (rows.filter fun r => r.transactionType == .withdrawal && r.status == .completed).filterMap
    fun r => r.withdrawalNonce.filter fun n => minNonce ≤ n && n < maxNonce

/-- One `UPDATE .. WHERE id = .. AND ..`, with whether a row was affected. -/
def updateById (id : ℕ) (update : Row → Option Row) (rows : List Row) : List Row × Bool :=
  (rows.map fun r => if r.id = id then (update r).getD r else r,
    rows.any fun r => r.id == id && (update r).isSome)

/-- Why the boot is refused. -/
inductive BootError
  | instanceNotFound
  | bitmapUnavailable (reason : String)
  | accountDeserializationFailed (pubkey reason : String)
  | storage (reason : String)
  | nonceGenerationBehindChain (dbGeneration : Option ℕ) (chainGeneration : ℕ)
  | bitmapDivergence (dbOnly chainOnly : List ℕ)
  | unexplainedConsumedNonces (nonces : List ℕ)
  deriving DecidableEq, Repr

/-- An account as the endpoint returns it. -/
structure FetchedAccount where
  systemOwned : Bool
  data : Data

/-- One read of the bitmap: the finalized slot, then the account bound to it. -/
structure BitmapRead where
  finalizedAnchor : Except String ℕ
  account : ℕ → Except String (Option FetchedAccount)

/-- What became of a compare-and-set that the check issued. -/
inductive WriteAnswer
  | acknowledged
  /-- It took effect and the answer was lost. -/
  | lost (reason : String)
  /-- Another writer had moved the row. -/
  | stale
  | failed (reason : String)
  deriving DecidableEq, Repr

/-- The answers to everything one check reads or writes; a storage read answers
from the table or fails. -/
structure BootReads where
  configured : Bool
  bitmapPda : String
  bitmap : BitmapRead
  bitmapAgain : BitmapRead
  maxNonceFailure : Option String
  completedFailure : Option String
  completedAgainFailure : Option String
  rowFailure : ℕ → Option String
  journalFailure : ℕ → Option JournalError
  primary : ℕ → Endpoint
  fallback : ℕ → Option Endpoint
  write : ℕ → WriteAnswer
  now : ℕ → Stamp

/-- A storage read. -/
def answered {α : Type*} (failure : Option String) (value : α) : Except BootError α :=
  match failure with
  | some e => .error (.storage e)
  | none => .ok value

def finalizedAnchor (read : BitmapRead) : Except BootError ℕ :=
  match read.finalizedAnchor with
  | .ok slot => .ok slot
  | .error e => .error (.bitmapUnavailable s!"finalized anchor read failed: {e}")

/-- Lamports sent to the uncreated address leave an empty system account, which counts as
absent. -/
def fetchBitmapIfPresent (w : Window) (pda : String) (read : BitmapRead) :
    Except BootError (Option BitmapState) :=
  match finalizedAnchor read with
  | .error e => .error e
  | .ok slot =>
    match read.account slot with
    | .error e => .error (.bitmapUnavailable s!"get_account_info({pda}): {e}")
    | .ok none => .ok none
    | .ok (some account) =>
      if account.systemOwned && account.data.isEmpty then .ok none
      else
        match parseWithdrawalBitmap w account.data with
        | .error reason => .error (.accountDeserializationFailed pda reason)
        | .ok bitmap => .ok (some bitmap)

/-- `fetch_consumed_nonces`: an absent bitmap is an error. -/
def fetchConsumedNonces (w : Window) (pda : String) (read : BitmapRead) :
    Except BootError BitmapState :=
  match fetchBitmapIfPresent w pda read with
  | .error e => .error e
  | .ok none => .error (.bitmapUnavailable s!"bitmap {pda} not found")
  | .ok (some bitmap) => .ok bitmap

/-- The bitmap a never created account stands for. -/
def emptyBitmap : BitmapState := ⟨0, []⟩

/-- The first read: absent at a finalized slot means that nothing was released. -/
def readBitmap (w : Window) (reads : BootReads) : Except BootError BitmapState :=
  match fetchBitmapIfPresent w reads.bitmapPda reads.bitmap with
  | .error e => .error e
  | .ok bitmap => .ok (bitmap.getD emptyBitmap)

def refuseIfNumberingBehind (w : Window) (reads : BootReads) (chainGeneration : ℕ)
    (rows : List Row) : Except BootError Unit :=
  match answered reads.maxNonceFailure (getMaxWithdrawalNonce rows) with
  | .error e => .error e
  | .ok maxNonce =>
    let dbGeneration := maxNonce.map (· / w.noncesPerGeneration)
    if dbGeneration.getD 0 < chainGeneration then
      .error (.nonceGenerationBehindChain dbGeneration chainGeneration)
    else .ok ()

/-- The elements of one set that the other lacks, ascending. -/
def sortedDifference (xs ys : List ℕ) : List ℕ :=
  ((xs.filter (· ∉ ys)).dedup).mergeSort

/-- `diff_bitmap`: the nonces only the database has, and those only the chain has. -/
def diffBitmap (w : Window) (failure : Option String) (bitmap : BitmapState) (rows : List Row) :
    Except BootError (List ℕ × List ℕ) :=
  let minNonce := min (saturatingMul bitmap.generation w.noncesPerGeneration) i64Max
  match answered failure (getCompletedWithdrawalNonces minNonce i64Max rows) with
  | .error e => .error e
  | .ok completed =>
    .ok (sortedDifference completed bitmap.consumed, sortedDifference bitmap.consumed completed)

/-- The second read. -/
def confirmDivergence (w : Window) (reads : BootReads) (rows : List Row) :
    Except BootError (List ℕ × List ℕ) :=
  match fetchConsumedNonces w reads.bitmapPda reads.bitmapAgain with
  | .error e => .error e
  | .ok bitmap => diffBitmap w reads.completedAgainFailure bitmap rows

/-- What became of a nonce only the chain has. -/
inductive ChainAheadOutcome
  | repaired
  | explained
  | unexplained
  | doublePayout
  deriving DecidableEq, Repr

/-- The completion of a row found in a repairable status. -/
def completion (row : Row) (signature : Signature) (now : Stamp) : Row → Option Row :=
  if row.status = .pendingRemint then
    Storage.completeStalledWithdrawal row.updatedAt .pendingRemint (some signature) now
  else Storage.tryCompleteProcessing row.updatedAt (some signature) none now

/-- Issues the completion; true is `Ok(true)`. -/
def complete (answer : WriteAnswer) (row : Row) (signature : Signature) (now : Stamp)
    (rows : List Row) : List Row × Bool :=
  let updated := updateById row.id (completion row signature now) rows
  match answer with
  | .acknowledged => updated
  | .lost _ => (updated.1, false)
  | .stale | .failed _ => (rows, false)

/-- The landed signature of the row's journal, if one is found. -/
def landedRelease (reads : BootReads) (row : Row) : Option Signature :=
  match reads.journalFailure row.id with
  | some _ => none
  | none =>
    if row.releaseJournal.isEmpty then none
    else
      match classifySignatures ⟨reads.primary row.id, reads.fallback row.id, .solana⟩
          row.releaseJournal with
      | .landed signature => some signature
      | .live _ | .uncertain _ | .dead => none

/-- A nonce only the chain has. -/
def resolveChainAheadNonce (reads : BootReads) (nonce : ℕ) (rows : List Row) :
    List Row × ChainAheadOutcome :=
  match answered (reads.rowFailure nonce) (getWithdrawalByNonce nonce rows) with
  | .error _ | .ok none => (rows, .unexplained)
  | .ok (some row) =>
    if row.status = .failedReminted ∨ row.landedRemintSignature.isSome then (rows, .doublePayout)
    else
      match landedRelease reads row with
      | none => (rows, .unexplained)
      | some signature =>
        if row.status = .processing ∨ row.status = .pendingRemint then
          let written := complete (reads.write row.id) row signature (reads.now row.id) rows
          (written.1, if written.2 then .repaired else .unexplained)
        else (rows, .explained)

/-- The variables of the loop over the nonces only the chain has. -/
structure Resolution where
  rows : List Row
  paidTwice : List ℕ
  unexplained : List ℕ

def Resolution.visit (reads : BootReads) (acc : Resolution) (nonce : ℕ) : Resolution :=
  match resolveChainAheadNonce reads nonce acc.rows with
  | (rows, .repaired) | (rows, .explained) => { acc with rows := rows }
  | (rows, .unexplained) =>
    { acc with rows := rows, unexplained := acc.unexplained ++ [nonce] }
  | (rows, .doublePayout) => { acc with rows := rows, paidTwice := acc.paidTwice ++ [nonce] }

/-- From the two differences to the verdict. -/
def judgeDifferences (reads : BootReads) (dbOnly chainOnly : List ℕ) (rows : List Row) :
    Except BootError Unit × List Row :=
  if !dbOnly.isEmpty then (.error (.bitmapDivergence dbOnly chainOnly), rows)
  else if chainOnly.isEmpty then (.ok (), rows)
  else
    let resolved := chainOnly.foldl (Resolution.visit reads) ⟨rows, [], []⟩
    if !resolved.paidTwice.isEmpty then
      (.error (.bitmapDivergence [] resolved.paidTwice), resolved.rows)
    else if !resolved.unexplained.isEmpty then
      (.error (.unexplainedConsumedNonces resolved.unexplained), resolved.rows)
    else (.ok (), resolved.rows)

/-- A second read replaces both differences, and one that cannot be taken clears nothing. -/
def confirmedDifferences (w : Window) (reads : BootReads) (differences : List ℕ × List ℕ)
    (rows : List Row) : List ℕ × List ℕ :=
  if differences.1.isEmpty then differences
  else
    match confirmDivergence w reads rows with
    | .ok again => again
    | .error _ => differences

/-- `validate_bitmap_consistency`: the verdict, and the rows it leaves. -/
def validateBitmapConsistency (w : Window) (reads : BootReads) (rows : List Row) :
    Except BootError Unit × List Row :=
  if !reads.configured then (.error .instanceNotFound, rows)
  else
    match readBitmap w reads with
    | .error e => (.error e, rows)
    | .ok bitmap =>
      match refuseIfNumberingBehind w reads bitmap.generation rows with
      | .error e => (.error e, rows)
      | .ok () =>
        match diffBitmap w reads.completedFailure bitmap rows with
        | .error e => (.error e, rows)
        | .ok differences =>
          let differences := confirmedDifferences w reads differences rows
          judgeDifferences reads differences.1 differences.2 rows

end PrivateChannels.Operator
