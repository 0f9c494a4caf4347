import PrivateChannels.Operator.RemintAttempt

/-!
# From decoded instructions to rows

`convert_to_db_models` and the part of `finalize_and_checkpoint` that turns the
instructions of a slot into rows. Slots, indexes and nonces are natural numbers where the
columns are `i64`: the cast is injective.
-/

namespace PrivateChannels.Indexer

open Operator (Pubkey)
open Storage (Signature TransactionType)

/-- The escrow program's instructions, with the accounts and data the indexer reads. -/
inductive EscrowInstruction
  | createInstance (escrowInstance : Pubkey)
  | allowMint (escrowInstance mint tokenProgram : Pubkey) (withdrawFee minWithdrawAmount : ℕ)
      (decimals : ℕ)
  | blockMint (escrowInstance mint : Pubkey) (blockDeposits blockWithdrawals : Bool)
  | deposit (escrowInstance user mint : Pubkey) (recipient : Option Pubkey) (eventAmount : ℕ)
  | releaseFunds (escrowInstance mint : Pubkey) (transactionNonce amount : ℕ)
  | rotateBitmap (escrowInstance : Pubkey)
  deriving DecidableEq, Repr

def escrowInstanceOf : EscrowInstruction → Pubkey
  | .createInstance i | .allowMint i .. | .blockMint i .. | .deposit i .. | .releaseFunds i ..
  | .rotateBitmap i => i

/-- A decoded instruction. -/
inductive ProgramInstruction
  | escrow (instruction : EscrowInstruction)
  | withdrawFunds (user mint destination : Pubkey) (amount : ℕ)
  deriving DecidableEq, Repr

/-- An instruction and where it stands. -/
structure InstructionWithMetadata where
  instruction : ProgramInstruction
  slot : ℕ
  signature : Option Signature
  transactionIndex : ℕ
  instructionIndex : ℕ
  innerIndex : Option ℕ
  deriving DecidableEq, Repr

/-- Where an instruction ran. A top-level instruction comes before the ones it calls. -/
structure BlockPosition where
  slot : ℕ
  transactionIndex : ℕ
  instructionIndex : ℕ
  /-- `COALESCE(inner_index, -1)`, counted from zero. -/
  inner : ℕ
  deriving DecidableEq, Repr

/-- The position as the queries order by it. -/
def BlockPosition.key (p : BlockPosition) : ℕ ×ₗ ℕ ×ₗ ℕ ×ₗ ℕ :=
  toLex (p.slot, toLex (p.transactionIndex, toLex (p.instructionIndex, p.inner)))

theorem BlockPosition.key_injective : Function.Injective BlockPosition.key := by
  intro p q h
  obtain ⟨hslot, h⟩ := Prod.mk.inj (toLex.injective h)
  obtain ⟨htransaction, h⟩ := Prod.mk.inj (toLex.injective h)
  obtain ⟨hinstruction, hinner⟩ := Prod.mk.inj (toLex.injective h)
  cases p
  cases q
  cases hslot
  cases htransaction
  cases hinstruction
  cases hinner
  rfl

instance : LinearOrder BlockPosition :=
  LinearOrder.lift' BlockPosition.key BlockPosition.key_injective

variable {p q : BlockPosition}

theorem BlockPosition.lt_iff :
    p < q ↔ p.slot < q.slot ∨ p.slot = q.slot ∧ (p.transactionIndex < q.transactionIndex ∨
      p.transactionIndex = q.transactionIndex ∧ (p.instructionIndex < q.instructionIndex ∨
        p.instructionIndex = q.instructionIndex ∧ p.inner < q.inner)) := by
  have hlt : p < q ↔ p.key < q.key := Iff.rfl
  rw [hlt]
  unfold BlockPosition.key
  rw [Prod.Lex.toLex_lt_toLex, Prod.Lex.toLex_lt_toLex, Prod.Lex.toLex_lt_toLex]

theorem BlockPosition.slot_mono (h : p ≤ q) : p.slot ≤ q.slot := by
  by_contra hlt
  exact absurd (BlockPosition.lt_iff.mpr (.inl (not_le.mp hlt))) (not_lt.mpr h)

/-- The first position of a slot follows exactly the earlier slots. -/
theorem BlockPosition.lt_start_iff {slot : ℕ} : p < ⟨slot, 0, 0, 0⟩ ↔ p.slot < slot := by
  rw [BlockPosition.lt_iff]
  dsimp only
  omega

/-- Right after a position comes everything up to it. -/
theorem BlockPosition.lt_succ_iff : p < { q with inner := q.inner + 1 } ↔ p ≤ q := by
  rw [← not_lt, BlockPosition.lt_iff, BlockPosition.lt_iff]
  dsimp only
  omega

def innerOrder (innerIndex : Option ℕ) : ℕ := innerIndex.elim 0 (· + 1)

theorem innerOrder_injective : Function.Injective innerOrder := by
  intro a b h
  cases a <;> cases b <;> simp_all [innerOrder]

def InstructionWithMetadata.position (i : InstructionWithMetadata) : BlockPosition :=
  ⟨i.slot, i.transactionIndex, i.instructionIndex, innerOrder i.innerIndex⟩

/-- The deposit gate of a mint. -/
inductive MintStatus
  | allowed
  | blocked
  deriving DecidableEq, Repr

/-- A row of `mints`. -/
structure DbMint where
  mintAddress : Pubkey
  decimals : ℕ
  tokenProgram : Pubkey
  status : MintStatus
  withdrawalsBlocked : Bool
  withdrawFee : ℕ
  minWithdrawAmount : ℕ
  allowMintSlot : ℕ
  deriving DecidableEq, Repr

def DbMint.new (mintAddress : Pubkey) (decimals : ℕ) (tokenProgram : Pubkey) (withdrawFee : ℕ) :
    DbMint where
  mintAddress := mintAddress
  decimals := decimals
  tokenProgram := tokenProgram
  status := .allowed
  withdrawalsBlocked := false
  withdrawFee := withdrawFee
  minWithdrawAmount := 0
  allowMintSlot := 0

/-- A transition of a mint's gates. -/
structure MintStatusChange where
  mintAddress : Pubkey
  status : MintStatus
  withdrawalsBlocked : Bool
  deriving DecidableEq, Repr

/-- A row of the status history. -/
structure DbMintStatus where
  mintAddress : Pubkey
  status : MintStatus
  withdrawalsBlocked : Bool
  effectiveSlot : ℕ
  transactionIndex : ℕ
  instructionIndex : ℕ
  innerIndex : Option ℕ
  signature : Signature
  deriving DecidableEq, Repr

/-- The order of `mint_status_history`. -/
def DbMintStatus.position (row : DbMintStatus) : BlockPosition :=
  ⟨row.effectiveSlot, row.transactionIndex, row.instructionIndex, innerOrder row.innerIndex⟩

/-- A transaction row as the builder leaves it: pending, with no nonce. -/
structure DbTransaction where
  signature : Signature
  slot : ℕ
  mint : Pubkey
  amount : ℕ
  initiator : Pubkey
  recipient : Pubkey
  transactionType : TransactionType
  instructionIndex : ℕ
  innerIndex : Option ℕ
  deriving DecidableEq, Repr

/-- A row of `observed_releases`. -/
structure DbObservedRelease where
  withdrawalNonce : ℕ
  signature : Signature
  slot : ℕ
  amount : Option ℕ
  deriving DecidableEq, Repr

/-- What one instruction becomes. -/
structure DbModels where
  mint : Option DbMint := none
  status : Option MintStatusChange := none
  transaction : Option DbTransaction := none
  release : Option DbObservedRelease := none

def convertEscrow (i : InstructionWithMetadata) (signature : Signature) : EscrowInstruction →
    DbModels
  | .deposit _ user mint recipient eventAmount =>
    if eventAmount = 0 then {}
    else { transaction := some {
      signature := signature
      slot := i.slot
      mint := mint
      amount := eventAmount
      initiator := user
      recipient := recipient.getD user
      transactionType := .deposit
      instructionIndex := i.instructionIndex
      innerIndex := i.innerIndex } }
  | .allowMint _ mint tokenProgram withdrawFee minWithdrawAmount decimals =>
    { mint := some { DbMint.new mint decimals tokenProgram withdrawFee with
        minWithdrawAmount := minWithdrawAmount
        allowMintSlot := i.slot }
      status := some ⟨mint, .allowed, false⟩ }
  | .blockMint _ mint blockDeposits blockWithdrawals =>
    { status := some ⟨mint, if blockDeposits then .blocked else .allowed, blockWithdrawals⟩ }
  | .releaseFunds _ _ transactionNonce amount =>
    { release := some ⟨transactionNonce, signature, i.slot, some amount⟩ }
  | .createInstance _ | .rotateBitmap _ => {}

/-- The rows of one instruction. The nonce, an `i64` column, stays a natural number. -/
def convertToDbModels (configuredEscrowInstanceId : Option Pubkey) (i : InstructionWithMetadata) :
    DbModels :=
  match i.signature with
  | none => {}
  | some signature =>
    match i.instruction with
    | .escrow instruction =>
      if configuredEscrowInstanceId = some (escrowInstanceOf instruction) then
        convertEscrow i signature instruction
      else {}
    | .withdrawFunds user mint destination amount => { transaction := some {
        signature := signature
        slot := i.slot
        mint := mint
        amount := amount
        initiator := user
        recipient := destination
        transactionType := .withdrawal
        instructionIndex := i.instructionIndex
        innerIndex := i.innerIndex } }

/-- The history row of a transition, stamped with the completed slot. -/
def mintStatusRow (configuredEscrowInstanceId : Option Pubkey) (slot : ℕ)
    (i : InstructionWithMetadata) : Option DbMintStatus :=
  match (convertToDbModels configuredEscrowInstanceId i).status, i.signature with
  | some change, some signature => some {
      mintAddress := change.mintAddress
      status := change.status
      withdrawalsBlocked := change.withdrawalsBlocked
      effectiveSlot := slot
      transactionIndex := i.transactionIndex
      instructionIndex := i.instructionIndex
      innerIndex := i.innerIndex
      signature := signature }
  | _, _ => none

/-- The rows of one completed slot. -/
structure SlotRows where
  mints : List DbMint
  mintStatuses : List DbMintStatus
  transactions : List DbTransaction
  observedReleases : List DbObservedRelease

/-- All rows of a slot. -/
def slotRows (configuredEscrowInstanceId : Option Pubkey) (slot : ℕ)
    (instructions : List InstructionWithMetadata) : SlotRows where
  mints := instructions.filterMap fun i => (convertToDbModels configuredEscrowInstanceId i).mint
  mintStatuses := instructions.filterMap (mintStatusRow configuredEscrowInstanceId slot)
  transactions := instructions.filterMap fun i =>
    (convertToDbModels configuredEscrowInstanceId i).transaction
  observedReleases := instructions.filterMap fun i =>
    (convertToDbModels configuredEscrowInstanceId i).release

end PrivateChannels.Indexer
