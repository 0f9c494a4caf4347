import PrivateChannels.Foundation.Fallible
import PrivateChannels.Withdraw.WithdrawConfig

/-!
# WithdrawFunds

It charges the mint's fee, burns the amount and logs where it is to be released. The token
program's transfer and burn are parameters.
-/

namespace PrivateChannels.Withdraw

/-- The errors of a withdrawal. -/
inductive WithdrawFundsError
  | incorrectProgramId
  | program (error : ProgramError)
  deriving DecidableEq, Repr

/-- What a withdrawal asks for. -/
structure WithdrawFundsArgs where
  amount : UInt64
  destination : Option Address
  deriving DecidableEq, Repr

/-- `parse_instruction_data`; bytes after the destination are not looked at. -/
def WithdrawFundsArgs.parse (data : List UInt8) : Except ProgramError WithdrawFundsArgs := do
  ensure (9 ≤ data.length) ProgramError.invalidInstructionData
  let amount ← u64OfSlice .invalidInstructionData (slice data 0 8)
  match data.getD 8 0 with
  | 0 => pure ⟨amount, none⟩
  | 1 =>
    ensure (9 + 32 ≤ data.length) ProgramError.invalidInstructionData
    let destination ← addressOfSlice .invalidInstructionData (slice data 9 32)
    pure ⟨amount, some destination⟩
  | _ => throw .invalidInstructionData

/-- What a withdrawal logs. -/
structure WithdrawFundsEvent where
  amount : UInt64
  destination : Address
  deriving DecidableEq, Repr

/-- The accounts of a withdrawal. -/
structure WithdrawFundsAccounts where
  user : AccountView
  mint : AccountView
  tokenAccount : AccountView
  tokenProgram : AccountView
  associatedTokenProgram : AccountView
  withdrawConfig : AccountView
  treasuryTokenAccount : AccountView

def WithdrawFundsAccounts.ofList : List AccountView → Except ProgramError WithdrawFundsAccounts
  | [user, mint, tokenAccount, tokenProgram, associatedTokenProgram, withdrawConfig,
      treasuryTokenAccount] =>
    .ok
      { user, mint, tokenAccount, tokenProgram, associatedTokenProgram, withdrawConfig,
        treasuryTokenAccount }
  | _ => .error .notEnoughAccountKeys

/-- What the token program answers. -/
structure TokenProgram where
  transfer : (source destination authority : Address) → UInt64 → Except ProgramError Unit
  burn : (account mint authority : Address) → UInt64 → Except ProgramError Unit

section Program

variable (runtime : Runtime) (programId : Address)
  (createProgramAddress : List (List UInt8) → Address → Option Address)

def asProgramError {α : Type} (x : Except ProgramError α) : Except WithdrawFundsError α :=
  x.mapError .program

/-- The checks on the accounts. -/
def verifyWithdrawKeys (accounts : WithdrawFundsAccounts) : Except WithdrawFundsError Unit := do
  asProgramError (verifySigner accounts.user)
  ensure (accounts.associatedTokenProgram.address = runtime.ataProgramId) .incorrectProgramId
  ensure (accounts.tokenProgram.address = runtime.tokenProgramId) .incorrectProgramId
  asProgramError (verifyMintAccount runtime accounts.mint)
  ensure (accounts.tokenAccount.address = (runtime.findProgramAddress
      [accounts.user.address.bytes, accounts.tokenProgram.address.bytes,
        accounts.mint.address.bytes] runtime.ataProgramId).1 ∧ accounts.tokenAccount.data ≠ [])
    (.program .invalidInstructionData)

/-- The stored config, at the address its own bump derives. -/
def readWithdrawConfig (accounts : WithdrawFundsAccounts) :
    Except WithdrawFundsError WithdrawConfig := do
  ensure (accounts.withdrawConfig.owner = programId)
    (.program (.custom .withdrawConfigNotInitialized))
  let config ← asProgramError (WithdrawConfig.tryFromBytes accounts.withdrawConfig.data)
  ensure (createProgramAddress [withdrawConfigSeed, accounts.mint.address.bytes, [config.bump]]
      programId = some accounts.withdrawConfig.address)
    (.program (.custom .invalidWithdrawConfig))
  pure config

/-- The treasury pays no fee, and nobody does where there is none. -/
def chargeFee (token : TokenProgram) (accounts : WithdrawFundsAccounts) (config : WithdrawConfig) :
    Except WithdrawFundsError Unit :=
  if config.fee > 0 ∧ accounts.user.address ≠ config.treasury then do
    ensure (accounts.treasuryTokenAccount.address = config.treasuryTokenAccount)
      (.program (.custom .invalidTreasuryAccount))
    asProgramError (token.transfer accounts.tokenAccount.address
      accounts.treasuryTokenAccount.address accounts.user.address config.fee)
  else .ok ()

/-- `process_withdraw_funds`: the event it logs. -/
def processWithdrawFunds (token : TokenProgram) (accounts : List AccountView)
    (instructionData : List UInt8) : Except WithdrawFundsError WithdrawFundsEvent := do
  let args ← asProgramError (WithdrawFundsArgs.parse instructionData)
  ensure (args.amount ≠ 0) (.program (.custom .zeroAmount))
  let accounts ← asProgramError (WithdrawFundsAccounts.ofList accounts)
  verifyWithdrawKeys runtime accounts
  let config ← readWithdrawConfig programId createProgramAddress accounts
  ensure (accounts.user.address = config.treasury ∨ config.minWithdrawAmount ≤ args.amount)
    (.program (.custom .amountBelowMinimum))
  chargeFee token accounts config
  asProgramError (token.burn accounts.tokenAccount.address accounts.mint.address
    accounts.user.address args.amount)
  pure ⟨args.amount, args.destination.getD accounts.user.address⟩

variable {runtime programId createProgramAddress}

/-- A withdrawal that went through. -/
theorem processWithdrawFunds_ok {token : TokenProgram} {accounts : List AccountView}
    {data : List UInt8} {event : WithdrawFundsEvent}
    (h : processWithdrawFunds runtime programId createProgramAddress token accounts data
      = .ok event) :
    ∃ args withdrawal, WithdrawFundsArgs.parse data = .ok args ∧
      WithdrawFundsAccounts.ofList accounts = .ok withdrawal ∧
      event = ⟨args.amount, args.destination.getD withdrawal.user.address⟩ := by
  simp only [processWithdrawFunds, bind_eq_ok] at h
  obtain ⟨args, hargs, _, _, withdrawal, hwithdrawal, _, _, config, _, _, _, _, _, _, _, h⟩ := h
  exact ⟨args, withdrawal, of_mapError_eq_ok hargs, of_mapError_eq_ok hwithdrawal,
    (Except.ok.inj h).symm⟩

end Program

end PrivateChannels.Withdraw
