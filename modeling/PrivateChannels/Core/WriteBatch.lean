import PrivateChannels.Core.Bob
import PrivateChannels.Core.Pipeline
import PrivateChannels.Foundation.WriteLog

/-!
# The commit of a block

`write_batch_postgres` is one database transaction, which a refusal or an error rolls
back. Rows are compared as values, since their encoding is injective.
-/

namespace PrivateChannels.Core

open WriteLog

/-- The row under `writer_epoch`. -/
inductive EpochRow where
  | missing
  | corrupt
  | value (epoch : ℕ)
  deriving DecidableEq, Repr

/-- `read_locked` -/
def EpochRow.read : EpochRow → Option ℕ
  | value epoch => some epoch
  | missing => none
  | corrupt => none

/-- A row of `transactions`. -/
structure StoredTransaction where
  transaction : SanitizedTransaction
  slot : ℕ
  blockTime : ℤ
  processed : ProcessedTransaction

/-- A row of `owner_changes`. -/
structure OwnerChangeRow where
  address : Pubkey
  slot : ℕ
  txIndex : ℕ
  signature : Signature
  prevOwner : Pubkey
  newOwner : Pubkey
  deriving DecidableEq, Repr

/-- The primary key of the table of owner changes. -/
def OwnerChangeRow.key (row : OwnerChangeRow) : Pubkey × ℕ × Signature :=
  (row.address, row.slot, row.signature)

/-- The rows of the chain tip, which one statement writes. -/
structure TipMetadata where
  latestBlockhash : Option Hash
  latestSlot : Option ℕ
  currentSlot : Option ℕ
  blockHeight : Option ℕ
  deriving DecidableEq, Repr

/-- The ledger database. -/
structure Postgres where
  writerEpoch : EpochRow
  accounts : Pubkey → Option AccountSharedData
  transactions : Signature → Option StoredTransaction
  ownerChanges : List OwnerChangeRow
  blocks : List BlockInfo
  tip : TipMetadata
  transactionCount : Option ℕ

/-- The bulk delete and the bulk upsert of accounts. -/
def writeAccounts (settlements : List (Pubkey × AccountSettlement))
    (accounts : Pubkey → Option AccountSharedData) : Pubkey → Option AccountSharedData :=
  let deleted := (settlements.filter fun entry => entry.2.deleted).map Prod.fst
  applyWrites (fun settlement : AccountSettlement => some settlement.account)
    (fun pubkey => if pubkey ∈ deleted then none else accounts pubkey)
    (settlements.filter fun entry => !entry.2.deleted)

/-- `ON CONFLICT DO NOTHING` -/
def insertOwnerChange (rows : List OwnerChangeRow) (row : OwnerChangeRow) : List OwnerChangeRow :=
  if rows.any fun stored => stored.key = row.key then rows else rows ++ [row]

/-- No row means that the block does not build on the tip, or that the slot is taken; the flag
is `xmax = 0`. -/
def insertBlock (blocks : List BlockInfo) (block : BlockInfo) : Option (List BlockInfo × Bool) :=
  if blocks.any fun stored => block.slot < stored.slot then none
  else if ((blocks.map (·.slot)).max?.map
      fun highest => decide (highest = block.slot ∨ highest = block.parentSlot)).getD true then
    match blocks.find? fun stored => stored.slot = block.slot with
    | some stored => if stored = block then some (blocks, false) else none
    | none => some (blocks ++ [block], true)
  else none

/-- The metadata of a block. -/
def tipOf (block : BlockInfo) : TipMetadata :=
  ⟨some block.blockhash, some block.slot, some block.slot,
    some (block.blockHeight.getD block.slot)⟩

/-- `TransactionCount::increment`, which saturates. -/
def increment (count amount : ℕ) : ℕ := min (count + amount) (2 ^ 64 - 1)

/-- Why a call is rolled back. -/
inductive WriteBatchError where
  | fenced (held : ℕ) (current : Option ℕ)
  | staleTip (slot : ℕ)
  | other (message : String)
  deriving DecidableEq, Repr

/-- The arguments of one call. -/
structure WriteBatch where
  accountSettlements : List (Pubkey × AccountSettlement)
  transactions : List StoredTransaction
  ownerChanges : List OwnerChangeRow
  blockInfo : Option BlockInfo

/-- Accounts, transactions and owner changes. -/
def Postgres.writeRows (db : Postgres) (batch : WriteBatch) : Postgres :=
  { db with
    accounts := writeAccounts batch.accountSettlements db.accounts
    transactions := applyWrites some db.transactions
      (batch.transactions.map fun stored => (stored.transaction.signature, stored))
    ownerChanges := batch.ownerChanges.foldl insertOwnerChange db.ownerChanges }

/-- The block row and the tip; the flag is `slot_is_new`. -/
def Postgres.storeBlock (db : Postgres) : Option BlockInfo →
    Except WriteBatchError (Postgres × Bool)
  | some block =>
    match insertBlock db.blocks block with
    | some (blocks, inserted) => .ok ({ db with blocks := blocks, tip := tipOf block }, inserted)
    | none => .error (.staleTip block.slot)
  | none => .ok (db, true)

def Postgres.countTransactions (db : Postgres) (txCount : ℕ) (slotIsNew : Bool) : Postgres :=
  if 0 < txCount ∧ slotIsNew then
    { db with transactionCount := some (increment (db.transactionCount.getD 0) txCount) }
  else db

/-- The fence of a writer that holds an epoch. -/
def Postgres.refuses (db : Postgres) : Option ℕ → Option WriteBatchError
  | some held =>
    if db.writerEpoch.read ≠ some held then some (.fenced held db.writerEpoch.read) else none
  | none => none

/-- `write_batch_postgres`, as the database is when its transaction has ended. -/
def writeBatchPostgres (readOnly : Bool) (writerEpoch : Option ℕ) (batch : WriteBatch)
    (db : Postgres) : Except WriteBatchError Postgres :=
  if readOnly then .ok db
  else if batch.accountSettlements.isEmpty && batch.transactions.isEmpty &&
      batch.blockInfo.isNone then .ok db
  else
    match db.refuses writerEpoch with
    | some error => .error error
    | none =>
      match (db.writeRows batch).storeBlock batch.blockInfo with
      | .error error => .error error
      | .ok (stored, slotIsNew) =>
        .ok (stored.countTransactions batch.transactions.length slotIsNew)

/-- `MAX_EPOCH_STEP` -/
def maxEpochStep : ℕ := 2 ^ 40

/-- `bump`, for the step it draws. -/
def bump (step : ℕ) (db : Postgres) : Option (Postgres × ℕ) :=
  let current := match db.writerEpoch with
    | .missing => some 0
    | .corrupt => none
    | .value epoch => some epoch
  match current with
  | none => none
  | some current =>
    if current + step < 2 ^ 64 then
      some ({ db with writerEpoch := .value (current + step) }, current + step)
    else none

/-- A call of a node that holds an epoch. -/
structure WriteCall where
  held : ℕ
  readOnly : Bool
  batch : WriteBatch

/-- How an attempt ends; a commit may go unacknowledged. -/
inductive WriteOutcome where
  | committed (acknowledged : Bool)
  | refused (error : WriteBatchError)
  | failed

/-- What happens to the database. -/
inductive StoreLabel where
  | bump (epoch : ℕ)
  | write (call : WriteCall) (outcome : WriteOutcome)

/-- One step of the database. -/
inductive StoreStep (db : Postgres) : StoreLabel → Postgres → Prop
  | bump {step epoch : ℕ} {db' : Postgres} : 1 ≤ step → step ≤ maxEpochStep →
      Core.bump step db = some (db', epoch) → StoreStep db (.bump epoch) db'
  | committed {call : WriteCall} {acknowledged : Bool} {db' : Postgres} :
      writeBatchPostgres call.readOnly (some call.held) call.batch db = .ok db' →
      StoreStep db (.write call (.committed acknowledged)) db'
  | refused {call : WriteCall} {error : WriteBatchError} :
      writeBatchPostgres call.readOnly (some call.held) call.batch db = .error error →
      StoreStep db (.write call (.refused error)) db
  /-- A statement or the commit fails, and the transaction is rolled back. -/
  | failed {call : WriteCall} : StoreStep db (.write call .failed) db

end PrivateChannels.Core
