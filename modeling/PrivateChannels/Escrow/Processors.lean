import PrivateChannels.Escrow.Accounts

/-!
# Deposit and ReleaseFunds

Each of the two instructions reads the balance of the escrow's token account before and
after the transfer it requests, and reports the difference.
-/

namespace PrivateChannels.Escrow.Processor

open Withdraw (Address slice)

/-- `EVENT_IX_TAG_LE` -/
def eventIxTagLe : List UInt8 := leBytes 8 0x1d9acb512ea545e4

/-- What a deposit logs. -/
structure DepositEvent where
  instanceSeed : Address
  user : Address
  amount : UInt64
  recipient : Address
  mint : Address
  deriving DecidableEq, Repr

def DepositEvent.toBytes (event : DepositEvent) : List UInt8 :=
  eventIxTagLe ++ [6] ++ event.instanceSeed.bytes ++ event.user.bytes ++
    leBytes 8 event.amount.toNat ++ event.recipient.bytes ++ event.mint.bytes

/-- What a release logs. -/
structure ReleaseFundsEvent where
  instanceSeed : Address
  operator : Address
  amount : UInt64
  user : Address
  mint : Address
  deriving DecidableEq, Repr

def ReleaseFundsEvent.toBytes (event : ReleaseFundsEvent) : List UInt8 :=
  eventIxTagLe ++ [7] ++ event.instanceSeed.bytes ++ event.operator.bytes ++
    leBytes 8 event.amount.toNat ++ event.user.bytes ++ event.mint.bytes

/-- What a deposit asks for. -/
structure DepositArgs where
  amount : UInt64
  recipient : Option Address
  deriving DecidableEq, Repr

/-- `process_instruction_data`; bytes after the recipient are not looked at. -/
def DepositArgs.parse (data : List UInt8) : Except InstructionError DepositArgs := do
  requireLen data 9
  let amount := u64At data 0
  match data.getD 8 0 with
  | 0 => pure ⟨amount, none⟩
  | 1 =>
    requireLen data (9 + 32)
    let recipient ← addressAt .invalidInstructionData data 9
    pure ⟨amount, some recipient⟩
  | _ => throw .invalidInstructionData

/-- The accounts of a deposit. -/
structure DepositAccounts where
  payer : AccountView
  user : AccountView
  instanceInfo : AccountView
  mint : AccountView
  allowedMint : AccountView
  userAta : AccountView
  instanceAta : AccountView
  systemProgram : AccountView
  tokenProgram : AccountView
  associatedTokenProgram : AccountView
  eventAuthority : AccountView
  program : AccountView
  userAllowedWallet : AccountView
  recipientAllowedWallet : AccountView
  hookExtras : List AccountView

/-- The fixed accounts come first, what is left are the transfer hook's. -/
def DepositAccounts.ofList : List AccountView → Except InstructionError DepositAccounts
  | payer :: user :: instanceInfo :: mint :: allowedMint :: userAta :: instanceAta ::
      systemProgram :: tokenProgram :: associatedTokenProgram :: eventAuthority :: program ::
      userAllowedWallet :: recipientAllowedWallet :: hookExtras =>
    .ok
      { payer, user, instanceInfo, mint, allowedMint, userAta, instanceAta, systemProgram,
        tokenProgram, associatedTokenProgram, eventAuthority, program, userAllowedWallet,
        recipientAllowedWallet, hookExtras }
  | _ => .error .notEnoughAccountKeys

section Processors

variable (runtime : Runtime)

/-- `Instance::try_from_bytes` and its address check. -/
def readInstance (info : AccountView) : Except InstructionError Instance := do
  let stored ← Instance.tryFromBytes info.data
  orCustom .invalidInstance
    (validatePdaAccount runtime [instanceSeed, stored.instanceSeed.bytes] stored.bump info)
  pure stored

/-- `AllowedMint::try_from_bytes` and its address check. -/
def readAllowedMint (instancePda mint : Address) (info : AccountView) :
    Except InstructionError AllowedMint := do
  let allowed ← AllowedMint.tryFromBytes info.data
  orCustom .invalidAllowedMint
    (validatePdaAccount runtime [allowedMintSeed, instancePda.bytes, mint.bytes] allowed.bump info)
  pure allowed

/-- What the checks of a deposit leave for the transfer. -/
structure CheckedDeposit where
  escrowInstance : Instance
  allowedMint : AllowedMint
  mintDecimals : UInt8
  recipient : Address

/-- The signers and the programs a deposit names. -/
def verifyDepositKeys (accounts : DepositAccounts) : Except InstructionError Unit := do
  verifySigner accounts.payer true
  verifySigner accounts.user false
  verifyAtaProgram runtime accounts.associatedTokenProgram
  verifySystemProgram runtime accounts.systemProgram
  verifyTokenPrograms runtime accounts.tokenProgram
  verifyCurrentProgram runtime accounts.program
  validateEventAuthority runtime accounts.eventAuthority
  verifyAccountOwner accounts.mint accounts.tokenProgram.address

/-- While deposits are whitelisted, payer and recipient must both be allowed. -/
def verifyDepositWallets (escrowInstance : Instance) (accounts : DepositAccounts)
    (recipient : Address) : Except InstructionError Unit :=
  if escrowInstance.depositsWhitelisted then do
    verifyAllowed runtime accounts.userAllowedWallet accounts.instanceInfo.address
      accounts.user.address .deposit
    verifyAllowed runtime accounts.recipientAllowedWallet accounts.instanceInfo.address
      recipient .deposit
  else .ok ()

/-- Everything `process_deposit` does before it reads a balance. -/
def checkDeposit (args : DepositArgs) (accounts : DepositAccounts) :
    Except InstructionError CheckedDeposit := do
  verifyDepositKeys runtime accounts
  let escrowInstance ← readInstance runtime accounts.instanceInfo
  let allowedMint ← readAllowedMint runtime accounts.instanceInfo.address accounts.mint.address
    accounts.allowedMint
  ensure (allowedMint.depositsBlocked = false) (.custom .depositsBlockedForMint)
  let recipient := args.recipient.getD accounts.user.address
  verifyDepositWallets runtime escrowInstance accounts recipient
  let profile ← readMintProfile runtime accounts.mint
  ensure (allowedMint.profileChanged runtime profile accounts.tokenProgram.address = false)
    (.custom .mintProfileChanged)
  validateAta runtime accounts.userAta accounts.user.address accounts.mint accounts.tokenProgram
  validateAta runtime accounts.instanceAta accounts.instanceInfo.address accounts.mint
    accounts.tokenProgram
  pure ⟨escrowInstance, allowedMint, profile.decimals, recipient⟩

/-- The transfer, the net amount and the event. -/
def settleDeposit (callees : Callees) (args : DepositArgs) (accounts : DepositAccounts)
    (checked : CheckedDeposit) : Except InstructionError (DepositEvent × AccountView) := do
  let before ← getTokenAccountBalance runtime accounts.instanceAta
  let instanceAta ← transferCheckedCpi runtime callees accounts.userAta accounts.mint
    accounts.instanceAta accounts.user args.amount checked.mintDecimals
    accounts.tokenProgram.address none accounts.hookExtras []
  let after ← getTokenAccountBalance runtime instanceAta
  match checkedSub after before with
  | none => throw (.custom .invalidEscrowBalance)
  | some received =>
    ensure (received ≠ 0) (.custom .zeroAmount)
    ensure (checked.allowedMint.minDepositAmount ≤ received) (.custom .belowMinimumDeposit)
    let event : DepositEvent :=
      { instanceSeed := checked.escrowInstance.instanceSeed
        user := accounts.user.address
        amount := received
        recipient := checked.recipient
        mint := accounts.mint.address }
    emitEvent runtime callees accounts.eventAuthority event.toBytes
    pure (event, instanceAta)

/-- `process_deposit`: the event and the escrow's token account afterwards. -/
def processDeposit (callees : Callees) (accounts : List AccountView)
    (instructionData : List UInt8) : Except InstructionError (DepositEvent × AccountView) := do
  let args ← DepositArgs.parse instructionData
  ensure (args.amount ≠ 0) (.custom .zeroAmount)
  let accounts ← DepositAccounts.ofList accounts
  let checked ← checkDeposit runtime args accounts
  settleDeposit runtime callees args accounts checked

/-- What a release asks for. -/
structure ReleaseFundsArgs where
  amount : UInt64
  user : Address
  transactionNonce : UInt64
  withdrawer : Address
  deriving DecidableEq, Repr

/-- `INSTRUCTION_DATA_LENGTH` -/
def ReleaseFundsArgs.len : ℕ := 8 + 32 + 8 + 32

/-- `process_instruction_data` -/
def ReleaseFundsArgs.parse (data : List UInt8) : Except InstructionError ReleaseFundsArgs := do
  requireLen data len
  let amount := u64At data 0
  let user ← addressAt .invalidInstructionData data 8
  let transactionNonce := u64At data 40
  let withdrawer ← addressAt .invalidInstructionData data 48
  pure { amount, user, transactionNonce, withdrawer }

/-- The accounts of a release. -/
structure ReleaseFundsAccounts where
  payer : AccountView
  operator : AccountView
  instanceInfo : AccountView
  withdrawalBitmap : AccountView
  operatorPda : AccountView
  mint : AccountView
  allowedMint : AccountView
  userAta : AccountView
  instanceAta : AccountView
  tokenProgram : AccountView
  associatedTokenProgram : AccountView
  eventAuthority : AccountView
  program : AccountView
  memoProgram : AccountView
  userAllowedWallet : AccountView
  withdrawerAllowedWallet : AccountView
  hookExtras : List AccountView

def ReleaseFundsAccounts.ofList :
    List AccountView → Except InstructionError ReleaseFundsAccounts
  | payer :: operator :: instanceInfo :: withdrawalBitmap :: operatorPda :: mint ::
      allowedMint :: userAta :: instanceAta :: tokenProgram :: associatedTokenProgram ::
      eventAuthority :: program :: memoProgram :: userAllowedWallet ::
      withdrawerAllowedWallet :: hookExtras =>
    .ok
      { payer, operator, instanceInfo, withdrawalBitmap, operatorPda, mint, allowedMint, userAta,
        instanceAta, tokenProgram, associatedTokenProgram, eventAuthority, program, memoProgram,
        userAllowedWallet, withdrawerAllowedWallet, hookExtras }
  | _ => .error .notEnoughAccountKeys

/-- The signers and the programs a release names. -/
def verifyReleaseKeys (accounts : ReleaseFundsAccounts) : Except InstructionError Unit := do
  verifySigner accounts.payer true
  verifySigner accounts.operator false
  verifyMutability accounts.withdrawalBitmap
  verifyAtaProgram runtime accounts.associatedTokenProgram
  verifyTokenPrograms runtime accounts.tokenProgram
  verifyCurrentProgram runtime accounts.program
  validateEventAuthority runtime accounts.eventAuthority
  verifyAccountOwner accounts.mint accounts.tokenProgram.address

/-- While withdrawals are whitelisted, withdrawer and recipient must both be allowed. -/
def verifyWithdrawWallets (escrowInstance : Instance) (args : ReleaseFundsArgs)
    (accounts : ReleaseFundsAccounts) : Except InstructionError Unit :=
  if escrowInstance.withdrawalsWhitelisted then do
    verifyAllowed runtime accounts.withdrawerAllowedWallet accounts.instanceInfo.address
      args.withdrawer .withdraw
    verifyAllowed runtime accounts.userAllowedWallet accounts.instanceInfo.address
      args.user .withdraw
  else .ok ()

/-- Everything `process_release_funds` checks before it touches the bitmap. -/
def checkRelease (args : ReleaseFundsArgs) (accounts : ReleaseFundsAccounts) :
    Except InstructionError Instance := do
  verifyReleaseKeys runtime accounts
  let escrowInstance ← readInstance runtime accounts.instanceInfo
  let operatorBump ← operatorTryFromBytes accounts.operatorPda.data
  orCustom .invalidOperatorPda
    (validatePdaAccount runtime
      [operatorSeed, accounts.instanceInfo.address.bytes, accounts.operator.address.bytes]
      operatorBump accounts.operatorPda)
  let allowedMint ← readAllowedMint runtime accounts.instanceInfo.address accounts.mint.address
    accounts.allowedMint
  ensure (allowedMint.withdrawalsBlocked = false) (.custom .withdrawalsBlockedForMint)
  verifyWithdrawWallets runtime escrowInstance args accounts
  validateAta runtime accounts.userAta args.user accounts.mint accounts.tokenProgram
  validateAta runtime accounts.instanceAta accounts.instanceInfo.address accounts.mint
    accounts.tokenProgram
  pure escrowInstance

/-- A bitmap function run on an account's bytes. -/
def runBitmap (program : WithdrawalBitmap.Program Unit) (data : List UInt8) :
    Except InstructionError (List UInt8) :=
  match program.run data with
  | .ok _ data => .ok data
  | .error error _ => .error (.bitmap error)

/-- The nonce is spent: the bitmap's bytes afterwards. -/
def consumeNonce (window : Window) (nonce : UInt64) (instancePda : Address) (info : AccountView) :
    Except InstructionError (List UInt8) := do
  let data ← runBitmap (WithdrawalBitmap.validate window) info.data
  orCustom .invalidWithdrawalBitmap
    (validatePdaAccount runtime [withdrawalBitmapSeed, instancePda.bytes]
      (data.getD WithdrawalBitmap.bumpOffset 0) info)
  let data ← runBitmap (WithdrawalBitmap.validateGeneration window nonce) data
  runBitmap (WithdrawalBitmap.consumeNonce window nonce) data

/-- The transfer, what left the escrow and the event. -/
def settleRelease (callees : Callees) (args : ReleaseFundsArgs) (accounts : ReleaseFundsAccounts)
    (escrowInstance : Instance) :
    Except InstructionError (ReleaseFundsEvent × AccountView) := do
  let before ← getTokenAccountBalance runtime accounts.instanceAta
  let mintDecimals ← getMintDecimals runtime accounts.mint
  let instanceAta ← transferCheckedCpi runtime callees accounts.instanceAta accounts.mint
    accounts.userAta accounts.instanceInfo args.amount mintDecimals accounts.tokenProgram.address
    (some accounts.memoProgram) accounts.hookExtras
    [instanceSeed, escrowInstance.instanceSeed.bytes, [escrowInstance.bump]]
  let after ← getTokenAccountBalance runtime instanceAta
  match checkedSub before after with
  | none => throw (.custom .invalidEscrowBalance)
  | some released =>
    let event : ReleaseFundsEvent :=
      { instanceSeed := escrowInstance.instanceSeed
        operator := accounts.operator.address
        amount := released
        user := args.user
        mint := accounts.mint.address }
    emitEvent runtime callees accounts.eventAuthority event.toBytes
    pure (event, instanceAta)

/-- What a release leaves behind. -/
structure Released where
  event : ReleaseFundsEvent
  instanceAta : AccountView
  bitmap : List UInt8
  deriving DecidableEq, Repr

/-- `process_release_funds` -/
def processReleaseFunds (window : Window) (callees : Callees) (accounts : List AccountView)
    (instructionData : List UInt8) : Except InstructionError Released := do
  let args ← ReleaseFundsArgs.parse instructionData
  let accounts ← ReleaseFundsAccounts.ofList accounts
  let escrowInstance ← checkRelease runtime args accounts
  let bitmap ← consumeNonce runtime window args.transactionNonce accounts.instanceInfo.address
    accounts.withdrawalBitmap
  let (event, instanceAta) ← settleRelease runtime callees args accounts escrowInstance
  pure ⟨event, instanceAta, bitmap⟩

end Processors

section Specs

variable {runtime : Runtime} {info : AccountView}

theorem getTokenAccountBalance_ok {balance : UInt64}
    (h : getTokenAccountBalance runtime info = .ok balance) :
    balance = runtime.tokenAmount info.data := by
  unfold getTokenAccountBalance at h
  split at h
  · exact (Except.ok.inj h).symm
  · cases h

theorem validatePdaAccount_ok {seeds : List (List UInt8)} {bump : UInt8}
    {u : Unit} (h : validatePdaAccount runtime seeds bump info = .ok u) :
    info.address = (runtime.findProgramAddress seeds runtime.escrowProgramId).1 := by
  simp only [validatePdaAccount, bind_eq_ok] at h
  obtain ⟨_, _, _, haddress, _⟩ := h
  exact of_ensure_eq_ok haddress

variable {ata : AccountView}

theorem validateAta_ok {wallet : Address} {mint tokenProgram : AccountView}
    {u : Unit} (h : validateAta runtime ata wallet mint tokenProgram = .ok u) :
    ata.address = ataAddress runtime wallet tokenProgram.address mint.address :=
  (of_ensure_eq_ok h).1

theorem readInstance_ok {stored : Instance} (h : readInstance runtime info = .ok stored) :
    info.address = (runtime.findProgramAddress [instanceSeed, stored.instanceSeed.bytes]
      runtime.escrowProgramId).1 := by
  simp only [readInstance, bind_eq_ok] at h
  obtain ⟨stored', _, _, hpda, h⟩ := h
  obtain rfl : stored' = stored := Except.ok.inj h
  exact validatePdaAccount_ok (of_mapError_eq_ok hpda)

theorem readAllowedMint_ok {instancePda mint : Address}
    {allowed : AllowedMint} (h : readAllowedMint runtime instancePda mint info = .ok allowed) :
    AllowedMint.tryFromBytes info.data = .ok allowed ∧
      info.address = (runtime.findProgramAddress
        [allowedMintSeed, instancePda.bytes, mint.bytes] runtime.escrowProgramId).1 := by
  simp only [readAllowedMint, bind_eq_ok] at h
  obtain ⟨stored, hparse, _, hpda, h⟩ := h
  obtain rfl : stored = allowed := Except.ok.inj h
  exact ⟨hparse, validatePdaAccount_ok (of_mapError_eq_ok hpda)⟩

variable {callees : Callees}

theorem transferCheckedCpi_ok {source mint destination authority : AccountView}
    {amount : UInt64} {decimals : UInt8} {tokenProgram : Address}
    {memoProgram : Option AccountView} {hookExtras : List AccountView}
    {signerSeeds : List (List UInt8)}
    (h : transferCheckedCpi runtime callees source mint destination authority amount decimals
      tokenProgram memoProgram hookExtras signerSeeds = .ok ata) :
    ∃ transfer, callees.transfer transfer = .ok ata := by
  simp only [transferCheckedCpi, bind_eq_ok] at h
  obtain ⟨_, _, _, _, h⟩ := h
  exact ⟨_, h⟩

/-- What the checks of a deposit found. -/
theorem checkDeposit_ok {args : DepositArgs} {accounts : DepositAccounts}
    {checked : CheckedDeposit} (h : checkDeposit runtime args accounts = .ok checked) :
    readAllowedMint runtime accounts.instanceInfo.address accounts.mint.address
        accounts.allowedMint = .ok checked.allowedMint ∧
      accounts.instanceAta.address = ataAddress runtime accounts.instanceInfo.address
        accounts.tokenProgram.address accounts.mint.address ∧
      accounts.instanceInfo.address = (runtime.findProgramAddress
        [instanceSeed, checked.escrowInstance.instanceSeed.bytes] runtime.escrowProgramId).1 ∧
      checked.recipient = args.recipient.getD accounts.user.address := by
  simp only [checkDeposit, bind_eq_ok] at h
  obtain ⟨_, _, escrowInstance, hinstance, allowedMint, hallowed, _, _, _, _, profile, _, _, _,
    _, _, _, hata, h⟩ := h
  cases h
  exact ⟨hallowed, validateAta_ok hata, readInstance_ok hinstance, rfl⟩

/-- A deposit that goes through raised the balance by the amount of its event. -/
theorem settleDeposit_ok {args : DepositArgs} {accounts : DepositAccounts}
    {checked : CheckedDeposit} {event : DepositEvent}
    (h : settleDeposit runtime callees args accounts checked = .ok (event, ata)) :
    (∃ transfer, callees.transfer transfer = .ok ata) ∧
      (runtime.tokenAmount ata.data).toNat =
        (runtime.tokenAmount accounts.instanceAta.data).toNat + event.amount.toNat ∧
      event.amount ≠ 0 ∧ checked.allowedMint.minDepositAmount ≤ event.amount ∧
      event = ⟨checked.escrowInstance.instanceSeed, accounts.user.address, event.amount,
        checked.recipient, accounts.mint.address⟩ := by
  simp only [settleDeposit, bind_eq_ok] at h
  obtain ⟨before, hbefore, instanceAta, htransfer, after, hafter, h⟩ := h
  obtain rfl := getTokenAccountBalance_ok hbefore
  obtain rfl := getTokenAccountBalance_ok hafter
  split at h
  · cases h
  · rename_i received hreceived
    simp only [bind_eq_ok] at h
    obtain ⟨_, hzero, _, hminimum, _, _, h⟩ := h
    cases Except.ok.inj h
    exact ⟨transferCheckedCpi_ok htransfer, checkedSub_eq_some hreceived, of_ensure_eq_ok hzero,
      of_ensure_eq_ok hminimum, rfl⟩

/-- A deposit that went through. -/
theorem processDeposit_ok {accounts : List AccountView} {data : List UInt8} {event : DepositEvent}
    (h : processDeposit runtime callees accounts data = .ok (event, ata)) :
    ∃ args deposit checked, DepositArgs.parse data = .ok args ∧
      DepositAccounts.ofList accounts = .ok deposit ∧
      checkDeposit runtime args deposit = .ok checked ∧
      settleDeposit runtime callees args deposit checked = .ok (event, ata) := by
  simp only [processDeposit, bind_eq_ok] at h
  obtain ⟨args, hargs, _, _, deposit, hdeposit, checked, hchecked, h⟩ := h
  exact ⟨args, deposit, checked, hargs, hdeposit, hchecked, h⟩

theorem checkRelease_ok {args : ReleaseFundsArgs} {accounts : ReleaseFundsAccounts}
    {escrowInstance : Instance} (h : checkRelease runtime args accounts = .ok escrowInstance) :
    accounts.instanceAta.address = ataAddress runtime accounts.instanceInfo.address
      accounts.tokenProgram.address accounts.mint.address := by
  simp only [checkRelease, bind_eq_ok] at h
  obtain ⟨_, _, _, _, _, _, _, _, _, _, _, _, _, _, _, _, _, hata, _⟩ := h
  exact validateAta_ok hata

/-- A release that goes through lowered the balance by the amount of its event. -/
theorem settleRelease_ok {args : ReleaseFundsArgs}
    {accounts : ReleaseFundsAccounts} {escrowInstance : Instance} {event : ReleaseFundsEvent}
    (h : settleRelease runtime callees args accounts escrowInstance = .ok (event, ata)) :
    (∃ transfer, callees.transfer transfer = .ok ata) ∧
      (runtime.tokenAmount accounts.instanceAta.data).toNat =
        (runtime.tokenAmount ata.data).toNat + event.amount.toNat := by
  simp only [settleRelease, bind_eq_ok] at h
  obtain ⟨before, hbefore, _, _, instanceAta, htransfer, after, hafter, h⟩ := h
  obtain rfl := getTokenAccountBalance_ok hbefore
  obtain rfl := getTokenAccountBalance_ok hafter
  split at h
  · cases h
  · rename_i released hreleased
    obtain ⟨_, _, h⟩ := bind_eq_ok.mp h
    cases Except.ok.inj h
    exact ⟨transferCheckedCpi_ok htransfer, checkedSub_eq_some hreleased⟩

/-- A release that went through. -/
theorem processReleaseFunds_ok {window : Window}
    {accounts : List AccountView} {data : List UInt8} {released : Released}
    (h : processReleaseFunds runtime window callees accounts data = .ok released) :
    ∃ args release escrowInstance, ReleaseFundsArgs.parse data = .ok args ∧
      ReleaseFundsAccounts.ofList accounts = .ok release ∧
      checkRelease runtime args release = .ok escrowInstance ∧
      settleRelease runtime callees args release escrowInstance
        = .ok (released.event, released.instanceAta) := by
  simp only [processReleaseFunds, bind_eq_ok] at h
  obtain ⟨args, hargs, release, hrelease, escrowInstance, hchecked, _, _, ⟨event, ata⟩, hsettled, h⟩
    := h
  cases h
  exact ⟨args, release, escrowInstance, hargs, hrelease, hchecked, hsettled⟩

end Specs

end PrivateChannels.Escrow.Processor
