import PrivateChannels.Core.Block

/-!
# Accounts and execution results

What the SVM returns for one transaction: a status, and the accounts in the order of the
message's keys.
-/

namespace PrivateChannels.Core

/-- An account as the runtime holds it. -/
structure AccountSharedData where
  lamports : ℕ
  data : List UInt8
  owner : Pubkey
  executable : Bool
  rentEpoch : ℕ
  deriving DecidableEq, Repr

/-- `system_program::ID`, the key of all zeros. -/
def systemProgramId : Pubkey := 0

/-- `AccountSharedData::default()`; the default key is that of the System program. -/
def AccountSharedData.default : AccountSharedData :=
  ⟨0, [], systemProgramId, false, 0⟩

/-- The error the conservation check sets, and every other one. -/
inductive TransactionError where
  | unbalancedTransaction
  | other (code : ℕ)
  deriving DecidableEq, Repr

/-- A transaction that ran. -/
structure ExecutedTransaction where
  status : Except TransactionError Unit
  accounts : List (Pubkey × AccountSharedData)

def ExecutedTransaction.wasSuccessful (executed : ExecutedTransaction) : Bool :=
  executed.status.isOk

/-- A transaction that was charged for. -/
inductive ProcessedTransaction where
  | executed (executed : ExecutedTransaction)
  | feesOnly (error : TransactionError)

/-- The SVM's answer for one transaction. -/
abbrev TransactionProcessingResult := Except TransactionError ProcessedTransaction

/-- What is read of a message beside its results: the positions it may write. -/
structure MessageAccounts where
  writable : List Bool
  deriving DecidableEq, Repr

def MessageAccounts.isWritable (message : MessageAccounts) (index : ℕ) : Bool :=
  message.writable.getD index false

/-- The accounts stages downstream store: those at writable positions of a transaction that
succeeded. -/
def writtenAccounts (message : MessageAccounts) :
    TransactionProcessingResult → List (Pubkey × AccountSharedData)
  | .ok (.executed executed) =>
    if executed.wasSuccessful then
      (executed.accounts.zipIdx.filter fun entry => message.isWritable entry.2).map Prod.fst
    else []
  | .ok (.feesOnly _) => []
  | .error _ => []

end PrivateChannels.Core
