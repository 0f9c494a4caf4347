import Mathlib

/-!
# Blocks and transactions of a write node

Hashes, signatures and keys are only compared, so they are numbers. A transaction is what
the stages after sigverify read of it.
-/

namespace PrivateChannels.Core

/-- A hash, only compared. -/
abbrev Hash := ℕ

/-- A signature, only compared. -/
abbrev Signature := ℕ

/-- A key, only compared. -/
abbrev Pubkey := ℕ

/-- A transaction past sigverify. -/
structure SanitizedTransaction where
  signature : Signature
  messageHash : Hash
  recentBlockhash : Hash
  deriving DecidableEq, Repr

/-- A stored block. -/
structure BlockInfo where
  slot : ℕ
  blockhash : Hash
  previousBlockhash : Hash
  parentSlot : ℕ
  blockHeight : Option ℕ
  blockTime : Option ℤ
  transactionSignatures : List Signature
  transactionRecentBlockhashes : List Hash
  transactionMessageHashes : List Hash
  deriving DecidableEq, Repr

end PrivateChannels.Core
