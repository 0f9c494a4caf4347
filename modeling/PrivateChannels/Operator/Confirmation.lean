import PrivateChannels.Operator.Finality

/-!
# Confirming a transaction

`check_transaction_status` polls a signature. A release runs other programs under the same
instruction, so its custom code names an escrow error only when the log shows that the
escrow raised it.
-/

namespace PrivateChannels.Operator

/-- The escrow errors that `escrow_error_for_code` recognises. -/
inductive EscrowError
  | invalidWithdrawalBitmap
  | nonceAlreadyUsed
  | nonceOutsideCurrentGeneration
  | unexpectedGeneration
  | walletNotAllowed
  | invalidAllowedWalletPda
  deriving DecidableEq, Repr

/-- The `Debug` text of the error. -/
def EscrowError.debug : EscrowError → String
  | .invalidWithdrawalBitmap => "InvalidWithdrawalBitmap"
  | .nonceAlreadyUsed => "NonceAlreadyUsed"
  | .nonceOutsideCurrentGeneration => "NonceOutsideCurrentGeneration"
  | .unexpectedGeneration => "UnexpectedGeneration"
  | .walletNotAllowed => "WalletNotAllowed"
  | .invalidAllowedWalletPda => "InvalidAllowedWalletPda"

def escrowErrorForCode : ℕ → Option EscrowError
  | 11 => some .invalidWithdrawalBitmap
  | 12 => some .nonceAlreadyUsed
  | 13 => some .nonceOutsideCurrentGeneration
  | 14 => some .unexpectedGeneration
  | 20 => some .walletNotAllowed
  | 21 => some .invalidAllowedWalletPda
  | _ => none

/-- A transaction's error, as far as the operator tells errors apart. -/
inductive TransactionError
  | custom (code : ℕ)
  | invalidAccountData
  | uninitializedAccount
  | incorrectProgramId
  | other
  deriving DecidableEq, Repr

/-- The transactions that are confirmed. -/
inductive TransactionKind
  | releaseFunds
  | rotateBitmap
  | mint
  | initializeMint
  deriving DecidableEq, Repr

/-- What a poll answers. -/
inductive ConfirmationResult
  | confirmed
  | failed (error : Option EscrowError) (slot : ℕ)
  | mintNotInitialized
  | retry
  deriving DecidableEq, Repr

/-- The `Debug` text of the result. -/
def ConfirmationResult.debug : ConfirmationResult → String
  | .confirmed => "Confirmed"
  | .failed none slot => "Failed \x7b error: None, slot: " ++ toString slot ++ " \x7d"
  | .failed (some e) slot =>
    "Failed \x7b error: Some(" ++ e.debug ++ "), slot: " ++ toString slot ++ " \x7d"
  | .mintNotInitialized => "MintNotInitialized"
  | .retry => "Retry"

/-- `is_mint_not_initialized_error`. -/
def isMintNotInitializedError : TransactionError → Option ConfirmationResult
  | .invalidAccountData | .uninitializedAccount | .incorrectProgramId => some .mintNotInitialized
  | _ => none

/-- `classify_failure`. What matters of the failing program is whether it is the escrow. -/
def classifyFailure (failedInEscrow : Option Bool) (kind : TransactionKind) (slot : ℕ)
    (err : TransactionError) : ConfirmationResult :=
  match err with
  | .custom code =>
    match escrowErrorForCode code with
    | none => .failed none slot
    | some escrowError =>
      match kind with
      | .mint | .initializeMint => .failed none slot
      | .rotateBitmap => .failed (some escrowError) slot
      | .releaseFunds =>
        match failedInEscrow with
        | some true => .failed (some escrowError) slot
        | some false => .failed none slot
        | none => .retry
  | _ => .failed none slot

/-- A polled status: whether it satisfies the commitment, its error and slot. -/
structure PolledStatus where
  satisfied : Bool
  err : Option TransactionError
  slot : ℕ
  deriving DecidableEq, Repr

def maxPollAttemptsConfirmation : ℕ := 5

/-- What one poll decides; `none` polls again. -/
def pollVerdict (failedInEscrow : Option Bool) (kind : TransactionKind)
    (extraChecks : List (TransactionError → Option ConfirmationResult)) :
    Option PolledStatus → Option ConfirmationResult
  | some status =>
    if status.satisfied then
      some (match status.err with
        | none => .confirmed
        | some err =>
          (extraChecks.findSome? fun check => check err).getD
            (classifyFailure failedInEscrow kind status.slot err))
    else none
  | none => none

/-- The polling loop with `remaining` attempts left. -/
def pollStatus (failedInEscrow : Option Bool) (kind : TransactionKind)
    (extraChecks : List (TransactionError → Option ConfirmationResult))
    (polls : ℕ → Except String (Option PolledStatus)) (attempts : ℕ) :
    ℕ → Except String ConfirmationResult
  | 0 => .ok .retry
  | remaining + 1 =>
    match polls attempts with
    | .error e => .error e
    | .ok status =>
      match pollVerdict failedInEscrow kind extraChecks status with
      | some result => .ok result
      | none => pollStatus failedInEscrow kind extraChecks polls (attempts + 1) remaining

/-- `check_transaction_status`. -/
def checkTransactionStatus (failedInEscrow : Option Bool) (kind : TransactionKind)
    (extraChecks : List (TransactionError → Option ConfirmationResult))
    (polls : ℕ → Except String (Option PolledStatus)) : Except String ConfirmationResult :=
  pollStatus failedInEscrow kind extraChecks polls 0 maxPollAttemptsConfirmation

/-- A failure is never read as a confirmation. -/
theorem classifyFailure_ne_confirmed (failedInEscrow : Option Bool) (kind : TransactionKind)
    (slot : ℕ) (err : TransactionError) :
    classifyFailure failedInEscrow kind slot err ≠ .confirmed := by
  unfold classifyFailure
  repeat' split
  all_goals nofun

variable {polls : ℕ → Except String (Option PolledStatus)} {failedInEscrow : Option Bool}
  {kind : TransactionKind} {extraChecks : List (TransactionError → Option ConfirmationResult)}
  {attempts remaining : ℕ} {result : ConfirmationResult}

/-- A verdict is read off a status at the commitment. -/
theorem pollVerdict_eq_some {polled : Option PolledStatus}
    (h : pollVerdict failedInEscrow kind extraChecks polled = some result) :
    ∃ status, polled = some status ∧ status.satisfied = true ∧
      (status.err = none ∧ result = .confirmed ∨ ∃ err, status.err = some err ∧
        (extraChecks.findSome? fun check => check err).getD
          (classifyFailure failedInEscrow kind status.slot err) = result) := by
  cases polled with
  | none => cases h
  | some status =>
    simp only [pollVerdict] at h
    split at h
    · next hsat =>
      refine ⟨status, rfl, hsat, ?_⟩
      cases herr : status.err with
      | none => exact .inl ⟨rfl, by simpa [herr] using h.symm⟩
      | some err => exact .inr ⟨err, rfl, by simpa [herr] using h⟩
    · cases h

/-- A result other than a retry is the verdict of one poll. -/
theorem pollStatus_cases
    (h : pollStatus failedInEscrow kind extraChecks polls attempts remaining = .ok result) :
    result = .retry ∨ ∃ k polled, polls k = .ok polled ∧
      pollVerdict failedInEscrow kind extraChecks polled = some result := by
  induction remaining generalizing attempts with
  | zero => exact .inl (Except.ok.inj h).symm
  | succ remaining ih =>
    simp only [pollStatus] at h
    split at h
    · cases h
    next status hpoll =>
    split at h
    · next result' hverdict =>
      cases h
      exact .inr ⟨attempts, status, hpoll, hverdict⟩
    · exact ih h

/-- Without an extra check, `Confirmed` comes from a poll that saw the
transaction succeed at the commitment. -/
theorem pollStatus_confirmed
    (h : pollStatus failedInEscrow kind [] polls attempts remaining = .ok .confirmed) :
    ∃ k status, polls k = .ok (some status) ∧ status.satisfied = true ∧ status.err = none := by
  rcases pollStatus_cases h with hretry | ⟨k, polled, hpoll, hverdict⟩
  · cases hretry
  · obtain ⟨status, rfl, hsat, ⟨herr, -⟩ | ⟨err, -, hfailure⟩⟩ := pollVerdict_eq_some hverdict
    · exact ⟨k, status, hpoll, hsat, herr⟩
    · exact absurd hfailure (classifyFailure_ne_confirmed _ _ _ _)

/-- `Failed` comes from a poll that saw the transaction fail at the commitment. -/
theorem pollStatus_failed {slot : ℕ} {error : Option EscrowError}
    (h : pollStatus failedInEscrow kind extraChecks polls attempts remaining =
      .ok (.failed error slot)) :
    ∃ k status, polls k = .ok (some status) ∧ status.satisfied = true ∧
      status.err.isNone = false := by
  rcases pollStatus_cases h with hretry | ⟨k, polled, hpoll, hverdict⟩
  · cases hretry
  · obtain ⟨status, rfl, hsat, ⟨-, hresult⟩ | ⟨err, herr, -⟩⟩ := pollVerdict_eq_some hverdict
    · cases hresult
    · exact ⟨k, status, hpoll, hsat, by rw [herr]; rfl⟩

end PrivateChannels.Operator
