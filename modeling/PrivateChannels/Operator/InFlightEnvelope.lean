import PrivateChannels.Foundation.Relational
import PrivateChannels.Operator.Reconciliation
import PrivateChannels.Operator.RemintAttempt

/-!
# The in-flight envelope

`get_in_flight_amounts_by_mint` sums, per mint, the unsettled deposits and, apart from
them, the rows above the slots the other readings may have missed.
-/

namespace PrivateChannels.Operator

open Storage (TransactionStatus TransactionType)

/-- The columns of `transactions` the envelope reads. -/
structure InFlightRow where
  mint : Pubkey
  amount : ℕ
  slot : ℕ
  transactionType : TransactionType
  status : TransactionStatus
  deriving DecidableEq, Repr

/-- `ENVELOPE_ROWS`: a withdrawal burns before it releases, so only deposits count. -/
def envelopeRow (row : InFlightRow) : Bool :=
  row.transactionType = .deposit ∧
    (row.status = .pending ∨ row.status = .processing ∨ row.status = .parked ∨
      row.status = .pendingRemint)

/-- A row of a kind above its bound; a missing bound skips the arm. -/
def aboveBound (kind : TransactionType) (bound : Option ℕ) (row : InFlightRow) : Bool :=
  row.transactionType = kind && bound.any (· < row.slot)

def inFlightRow (depositsAfter withdrawalsAfter : Option ℕ) (row : InFlightRow) : Bool :=
  envelopeRow row || aboveBound .deposit depositsAfter row ||
    aboveBound .withdrawal withdrawalsAfter row

/-- A row of the envelope. -/
structure MintInFlightAmount where
  mintAddress : Pubkey
  inFlightAmount : ℕ
  adjustmentAmount : ℕ
  deriving DecidableEq, Repr

/-- The sum over the unsettled deposits. -/
def envelopeSum (rows : List InFlightRow) : ℕ := ((rows.filter envelopeRow).map (·.amount)).sum

/-- The sum over the other rows. -/
def adjustmentSum (rows : List InFlightRow) : ℕ :=
  ((rows.filter fun row => !envelopeRow row).map (·.amount)).sum

/-- The envelope query. -/
def getInFlightAmountsByMint (rows : List InFlightRow) (depositsAfter withdrawalsAfter : Option ℕ) :
    List MintInFlightAmount :=
  (group (·.mint) (rows.filter (inFlightRow depositsAfter withdrawalsAfter))).map fun g => {
    mintAddress := g.1
    inFlightAmount := envelopeSum g.2
    adjustmentAmount := adjustmentSum g.2 }

/-- Both sums of every mint with a row in either. -/
def fetchInFlightEnvelope (rows : List InFlightRow) (depositsAfter withdrawalsAfter : Option ℕ) :
    Pubkey → Option (ℤ × ℤ) :=
  collect (·.mintAddress) (fun row => (row.inFlightAmount, row.adjustmentAmount))
    (getInFlightAmountsByMint rows depositsAfter withdrawalsAfter)

/-- `envelope_bounds`: deposits from the lowest custody slot, withdrawals from the anchor. -/
def envelopeBounds (custodySlots : List ℕ) (anchor : Option ℕ) : Option ℕ × Option ℕ :=
  (custodySlots.min?, anchor)

section Sums

variable (rows : List InFlightRow) (depositsAfter withdrawalsAfter : Option ℕ) (mint : Pubkey)

/-- The rows of a mint that the statement reads. -/
def inFlightRowsOf : List InFlightRow :=
  (rows.filter (inFlightRow depositsAfter withdrawalsAfter)).filter (·.mint = mint)

theorem fetchInFlightEnvelope_eq :
    fetchInFlightEnvelope rows depositsAfter withdrawalsAfter mint =
      if inFlightRowsOf rows depositsAfter withdrawalsAfter mint = [] then none
      else some ((envelopeSum (inFlightRowsOf rows depositsAfter withdrawalsAfter mint) : ℤ),
        (adjustmentSum (inFlightRowsOf rows depositsAfter withdrawalsAfter mint) : ℤ)) := by
  unfold fetchInFlightEnvelope
  rw [collect_eq ((envelopeSum (inFlightRowsOf rows depositsAfter withdrawalsAfter mint) : ℤ),
    (adjustmentSum (inFlightRowsOf rows depositsAfter withdrawalsAfter mint) : ℤ))]
  · by_cases hempty : inFlightRowsOf rows depositsAfter withdrawalsAfter mint = []
    · rw [if_pos hempty, if_neg]
      rintro ⟨row, hrow, hmint⟩
      obtain ⟨⟨key, members⟩, hgroup, rfl⟩ := List.mem_map.mp hrow
      obtain ⟨⟨member, hmember, hkey⟩, -⟩ := mem_group.mp hgroup
      have hmem : member ∈ inFlightRowsOf rows depositsAfter withdrawalsAfter mint :=
        List.mem_filter.mpr ⟨hmember, decide_eq_true (hkey.trans hmint)⟩
      rw [hempty] at hmem
      exact absurd hmem List.not_mem_nil
    · rw [if_neg hempty, if_pos]
      obtain ⟨member, hmember⟩ := List.exists_mem_of_ne_nil _ hempty
      obtain ⟨hmember, hmint⟩ := List.mem_filter.mp hmember
      exact ⟨_, List.mem_map.mpr ⟨(mint, _), mem_group.mpr
        ⟨⟨member, hmember, of_decide_eq_true hmint⟩, rfl⟩, rfl⟩, rfl⟩
  · rintro row hrow rfl
    obtain ⟨⟨key, members⟩, hgroup, rfl⟩ := List.mem_map.mp hrow
    obtain ⟨-, rfl⟩ := mem_group.mp hgroup
    rfl

/-- A tick reads the two sums clamped to `u64`, and 0 for a mint without rows. -/
theorem envelope_getD :
    ((fetchInFlightEnvelope rows depositsAfter withdrawalsAfter mint).map fun row =>
        envelopeToU64 row.1).getD 0 =
      min (envelopeSum (inFlightRowsOf rows depositsAfter withdrawalsAfter mint)) (2 ^ 64 - 1) ∧
    ((fetchInFlightEnvelope rows depositsAfter withdrawalsAfter mint).map fun row =>
        envelopeToU64 row.2).getD 0 =
      min (adjustmentSum (inFlightRowsOf rows depositsAfter withdrawalsAfter mint))
      (2 ^ 64 - 1) := by
  rw [fetchInFlightEnvelope_eq]
  split
  · next hempty =>
    rw [hempty]
    exact ⟨rfl, rfl⟩
  · simp [envelopeToU64, clamped_netToU64]

end Sums

/-- A row is in one of the sums. -/
theorem envelopeSum_add_adjustmentSum (rows : List InFlightRow) :
    envelopeSum rows + adjustmentSum rows = (rows.map (·.amount)).sum := by
  unfold envelopeSum adjustmentSum
  rw [sum_map_filter, sum_map_filter, ← List.sum_map_add]
  refine congrArg List.sum (List.map_congr_left fun row _ => ?_)
  cases envelopeRow row <;> simp

end PrivateChannels.Operator
