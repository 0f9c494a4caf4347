import PrivateChannels.Escrow.WithdrawalBitmap
import PrivateChannels.Foundation.Fallible
import PrivateChannels.Withdraw.WithdrawConfig

/-!
# Accounts of the escrow program

The checks the processors share and the layouts of the instance, the allowed mint, the
allowed wallet and the operator. Program ids, derived addresses and token layouts are
parameters.
-/

namespace PrivateChannels.Escrow

open Withdraw (Address slice)

/-- The program's custom errors. -/
inductive PrivateChannelEscrowProgramError
  | invalidEventAuthority
  | invalidAta
  | invalidMint
  | invalidInstanceId
  | invalidInstance
  | invalidAdmin
  | transferHookNotAllowed
  | invalidOperatorPda
  | invalidTokenAccount
  | invalidEscrowBalance
  | invalidAllowedMint
  | invalidWithdrawalBitmap
  | nonceAlreadyUsed
  | nonceOutsideCurrentGeneration
  | unexpectedGeneration
  | depositsBlockedForMint
  | withdrawalsBlockedForMint
  | mintProfileChanged
  | zeroAmount
  | belowMinimumDeposit
  | walletNotAllowed
  | invalidAllowedWalletPda
  deriving DecidableEq, Repr

/-- The errors of an instruction. -/
inductive InstructionError
  | invalidArgument
  | invalidInstructionData
  | invalidAccountData
  | missingRequiredSignature
  | incorrectProgramId
  | notEnoughAccountKeys
  | invalidSeeds
  | invalidAccountOwner
  | custom (error : PrivateChannelEscrowProgramError)
  /-- An error of the bitmap functions. -/
  | bitmap (error : ProgramError)
  /-- An error of the runtime or of a program that is called. -/
  | runtime (code : ℕ)
  deriving DecidableEq, Repr

/-- An account as an instruction sees it. -/
structure AccountView where
  address : Address
  owner : Address
  isSigner : Bool
  isWritable : Bool
  data : List UInt8
  deriving DecidableEq, Repr

/-- What an account holds, whatever a transaction asks of it. -/
structure Contents where
  owner : Address
  data : List UInt8
  deriving DecidableEq, Repr

def AccountView.contents (info : AccountView) : Contents := ⟨info.owner, info.data⟩

/-- What is reviewed of a mint. -/
structure MintProfile where
  decimals : UInt8
  /-- Bit `n` is set when the mint carries the extension of discriminant `n`. -/
  extensions : UInt64
  hasFreezeAuthority : Bool
  deriving DecidableEq, Repr

/-- A Token-2022 mint as its library unpacks it. -/
structure Token2022Mint where
  decimals : UInt8
  /-- The discriminants of its extensions; `none` if they do not parse. -/
  extensionTypes : Option (List ℕ)
  hasFreezeAuthority : Bool

/-- What the runtime supplies. -/
structure Runtime where
  escrowProgramId : Address
  systemProgramId : Address
  ataProgramId : Address
  tokenProgramId : Address
  token2022ProgramId : Address
  memoProgramId : Address
  eventAuthority : Address
  findProgramAddress : List (List UInt8) → Address → Address × UInt8
  /-- The `amount` of a token account. -/
  tokenAmount : List UInt8 → UInt64
  /-- Whether a Token-2022 account requires a memo; `none` if it does not unpack. -/
  memoRequired : List UInt8 → Option Bool
  mintLen : ℕ
  mintDecimals : List UInt8 → UInt8
  mintHasFreezeAuthority : List UInt8 → Bool
  unpackMint2022 : List UInt8 → Option Token2022Mint
  issuerAddableExtensions : UInt64

/-- `require_len!` -/
def requireLen (data : List UInt8) (size : ℕ) : Except InstructionError Unit :=
  ensure (size ≤ data.length) .invalidInstructionData

/-- `validate_discriminator!` -/
def validateDiscriminator (data : List UInt8) (discriminator : UInt8) :
    Except InstructionError Unit :=
  ensure (data.head? = some discriminator) .invalidAccountData

def boolAt (data : List UInt8) (offset : ℕ) : Except InstructionError Bool :=
  match data.getD offset 0 with
  | 0 => .ok false
  | 1 => .ok true
  | _ => .error .invalidAccountData

def u64At (data : List UInt8) (offset : ℕ) : UInt64 := UInt64.ofNat (leNat (slice data offset 8))

def addressAt (error : InstructionError) (data : List UInt8) (offset : ℕ) :
    Except InstructionError Address :=
  if h : (slice data offset 32).length = 32 then .ok ⟨slice data offset 32, h⟩ else .error error

/-- The instance account. -/
structure Instance where
  bump : UInt8
  version : UInt8
  instanceSeed : Address
  admin : Address
  depositsWhitelisted : Bool
  withdrawalsWhitelisted : Bool
  deriving DecidableEq, Repr

namespace Instance

/-- `V1_LEN`: the layout that ends at the admin. -/
def v1Len : ℕ := 1 + 1 + 1 + 32 + 32

/-- `LEN` -/
def len : ℕ := v1Len + 1 + 1 + 64

/-- The first layout ends before the whitelist flags. -/
def tryFromBytes (data : List UInt8) : Except InstructionError Instance := do
  validateDiscriminator data 0
  if data.length ≠ v1Len then requireLen data len
  let bump := data.getD 1 0
  let version := data.getD 2 0
  let instanceSeed ← addressAt .invalidAccountData data 3
  let admin ← addressAt .invalidAccountData data 35
  if data.length = v1Len then
    pure ⟨bump, version, instanceSeed, admin, false, false⟩
  else
    let depositsWhitelisted ← boolAt data 67
    let withdrawalsWhitelisted ← boolAt data 68
    pure ⟨bump, version, instanceSeed, admin, depositsWhitelisted, withdrawalsWhitelisted⟩

end Instance

/-- The allowed mint's account. -/
structure AllowedMint where
  bump : UInt8
  depositsBlocked : Bool
  withdrawalsBlocked : Bool
  decimals : UInt8
  tokenProgram : Address
  extensions : UInt64
  hasFreezeAuthority : Bool
  minDepositAmount : UInt64
  deriving DecidableEq, Repr

namespace AllowedMint

/-- `LEN` -/
def len : ℕ := 1 + 1 + 1 + 1 + 1 + 32 + 8 + 1 + 8

def tryFromBytes (data : List UInt8) : Except InstructionError AllowedMint := do
  validateDiscriminator data 2
  requireLen data len
  let bump := data.getD 1 0
  let depositsBlocked ← boolAt data 2
  let withdrawalsBlocked ← boolAt data 3
  let decimals := data.getD 4 0
  let tokenProgram ← addressAt .invalidAccountData data 5
  let extensions := u64At data 37
  let hasFreezeAuthority ← boolAt data 45
  let minDepositAmount := u64At data 46
  pure
    { bump, depositsBlocked, withdrawalsBlocked, decimals, tokenProgram, extensions,
      hasFreezeAuthority, minDepositAmount }

/-- Whether the mint has drifted from what was reviewed. A freeze authority that is gone is no
drift, nor are extensions of a live mint. -/
def profileChanged (runtime : Runtime) (allowed : AllowedMint) (profile : MintProfile)
    (tokenProgram : Address) : Bool :=
  allowed.decimals != profile.decimals || allowed.tokenProgram != tokenProgram ||
    (allowed.extensions ^^^ profile.extensions) &&& ~~~runtime.issuerAddableExtensions != 0 ||
    (profile.hasFreezeAuthority && !allowed.hasFreezeAuthority)

end AllowedMint

/-- The allowed wallet's account. -/
structure AllowedWallet where
  bump : UInt8
  depositsBlocked : Bool
  withdrawalsBlocked : Bool
  deriving DecidableEq, Repr

/-- Which way the tokens go. -/
inductive Direction
  | deposit
  | withdraw
  deriving DecidableEq, Repr

/-- `LEN` -/
def AllowedWallet.len : ℕ := 1 + 1 + 1 + 1 + 32

def AllowedWallet.tryFromBytes (data : List UInt8) : Except InstructionError AllowedWallet := do
  validateDiscriminator data 4
  requireLen data len
  let bump := data.getD 1 0
  let depositsBlocked ← boolAt data 2
  let withdrawalsBlocked ← boolAt data 3
  pure { bump, depositsBlocked, withdrawalsBlocked }

/-- `Operator::try_from_bytes`: the bump is all it holds. -/
def operatorTryFromBytes (data : List UInt8) : Except InstructionError UInt8 := do
  validateDiscriminator data 1
  requireLen data (1 + 1)
  pure (data.getD 1 0)

def instanceSeed : List UInt8 := "instance".toUTF8.toList
def operatorSeed : List UInt8 := "operator".toUTF8.toList
def allowedMintSeed : List UInt8 := "allowed_mint".toUTF8.toList
def withdrawalBitmapSeed : List UInt8 := "withdrawal_bitmap".toUTF8.toList
def allowedWalletSeed : List UInt8 := "allowed_wallet".toUTF8.toList

section Checks

variable (runtime : Runtime)

def verifySigner (info : AccountView) (expectWritable : Bool) : Except InstructionError Unit := do
  ensure info.isSigner .missingRequiredSignature
  ensure (expectWritable → info.isWritable) .invalidAccountData

def verifyMutability (info : AccountView) : Except InstructionError Unit :=
  ensure info.isWritable .invalidAccountData

def verifyAccountOwner (info : AccountView) (expectedOwner : Address) :
    Except InstructionError Unit :=
  ensure (info.owner = expectedOwner) .invalidAccountOwner

def verifySystemProgram (info : AccountView) : Except InstructionError Unit :=
  ensure (info.address = runtime.systemProgramId) .incorrectProgramId

def verifyAtaProgram (info : AccountView) : Except InstructionError Unit :=
  ensure (info.address = runtime.ataProgramId) .incorrectProgramId

def verifyCurrentProgram (info : AccountView) : Except InstructionError Unit :=
  ensure (info.address = runtime.escrowProgramId) .incorrectProgramId

def verifyTokenPrograms (info : AccountView) : Except InstructionError Unit :=
  ensure (info.address = runtime.tokenProgramId ∨ info.address = runtime.token2022ProgramId)
    .incorrectProgramId

/-- `validate_event_authority!` -/
def validateEventAuthority (info : AccountView) : Except InstructionError Unit :=
  ensure (info.address = runtime.eventAuthority) (.custom .invalidEventAuthority)

def validatePdaAccount (seeds : List (List UInt8)) (expectedBump : UInt8) (info : AccountView) :
    Except InstructionError Unit := do
  let (calculatedPda, calculatedBump) := runtime.findProgramAddress seeds runtime.escrowProgramId
  ensure (calculatedBump = expectedBump) .invalidInstructionData
  ensure (info.address = calculatedPda) .invalidSeeds
  ensure (info.data ≠ [] → info.owner = runtime.escrowProgramId) .invalidAccountOwner

/-- `map_err(|_| error)` -/
def orCustom {α : Type} (error : PrivateChannelEscrowProgramError)
    (x : Except InstructionError α) : Except InstructionError α :=
  x.mapError fun _ => .custom error

/-- `AllowedWallet::verify_allowed` -/
def verifyAllowed (account : AccountView) (instancePda wallet : Address) (direction : Direction) :
    Except InstructionError Unit := do
  let expected := (runtime.findProgramAddress [allowedWalletSeed, instancePda.bytes, wallet.bytes]
    runtime.escrowProgramId).1
  ensure (account.address = expected) (.custom .invalidAllowedWalletPda)
  ensure (account.data ≠ []) (.custom .walletNotAllowed)
  ensure (account.owner = runtime.escrowProgramId) (.custom .invalidAllowedWalletPda)
  let allowedWallet ← orCustom .invalidAllowedWalletPda (AllowedWallet.tryFromBytes account.data)
  let blocked := match direction with
    | .deposit => allowedWallet.depositsBlocked
    | .withdraw => allowedWallet.withdrawalsBlocked
  ensure (blocked = false) (.custom .walletNotAllowed)

/-- The associated token account of a wallet. -/
def ataAddress (wallet tokenProgram mint : Address) : Address :=
  (runtime.findProgramAddress [wallet.bytes, tokenProgram.bytes, mint.bytes]
    runtime.ataProgramId).1

def validateAta (ata : AccountView) (wallet : Address) (mint tokenProgram : AccountView) :
    Except InstructionError Unit :=
  ensure (ata.address = ataAddress runtime wallet tokenProgram.address mint.address ∧ ata.data ≠ [])
    .invalidInstructionData

def isTokenAccount (info : AccountView) : Prop :=
  info.owner = runtime.tokenProgramId ∨ info.owner = runtime.token2022ProgramId

instance (info : AccountView) : Decidable (isTokenAccount runtime info) :=
  inferInstanceAs (Decidable (_ ∨ _))

/-- Both token programs keep the amount in the same place. -/
def getTokenAccountBalance (info : AccountView) : Except InstructionError UInt64 :=
  if isTokenAccount runtime info then .ok (runtime.tokenAmount info.data)
  else .error (.custom .invalidTokenAccount)

def getMintDecimals (mint : AccountView) : Except InstructionError UInt8 :=
  if isTokenAccount runtime mint then .ok (runtime.mintDecimals mint.data)
  else .error (.custom .invalidMint)

/-- A discriminant past the mask is refused. -/
def extensionMask : List ℕ → Except InstructionError UInt64
  | [] => .ok 0
  | bit :: rest =>
    if 64 ≤ bit then .error (.custom .invalidMint)
    else (extensionMask rest).map fun mask => (1 <<< UInt64.ofNat bit) ||| mask

def readMintProfile (mint : AccountView) : Except InstructionError MintProfile :=
  if mint.owner = runtime.token2022ProgramId then
    match runtime.unpackMint2022 mint.data with
    | none => .error (.custom .invalidMint)
    | some state =>
      match state.extensionTypes with
      | none => .error (.custom .invalidMint)
      | some types =>
        (extensionMask types).map fun extensions =>
          ⟨state.decimals, extensions, state.hasFreezeAuthority⟩
  else if mint.data.length ≠ runtime.mintLen then .error (.custom .invalidMint)
  else .ok ⟨runtime.mintDecimals mint.data, 0, runtime.mintHasFreezeAuthority mint.data⟩

end Checks

/-- What `TransferChecked` is called with. -/
structure TransferChecked where
  source : Address
  mint : Address
  destination : Address
  authority : Address
  amount : UInt64
  decimals : UInt8
  tokenProgram : Address
  /-- The transfer-hook accounts and whether each is writable; none of them signs. -/
  hookExtras : List (Address × Bool)
  /-- The seeds the program signs with. -/
  signerSeeds : List (List UInt8)
  deriving DecidableEq, Repr

/-- What the called programs answer. The transfer leaves the token account in any state. -/
structure Callees where
  memo : Except InstructionError Unit
  transfer : TransferChecked → Except InstructionError AccountView
  emitEvent : List UInt8 → Except InstructionError Unit

/-- `MAX_HOOK_REMAINING_ACCOUNTS` -/
def maxHookRemainingAccounts : ℕ := 32

def requiresMemo (runtime : Runtime) (destination : AccountView) : Except InstructionError Bool :=
  if destination.owner ≠ runtime.token2022ProgramId then .ok false
  else
    match runtime.memoRequired destination.data with
    | none => .error (.custom .invalidTokenAccount)
    | some required => .ok required

def invokeMemo (runtime : Runtime) (callees : Callees) (memoProgram : AccountView) :
    Except InstructionError Unit := do
  ensure (memoProgram.address = runtime.memoProgramId) .incorrectProgramId
  callees.memo

/-- The memo a destination may require right before the transfer. -/
def sendRequiredMemo (runtime : Runtime) (callees : Callees) (destination : AccountView)
    (memoProgram : Option AccountView) : Except InstructionError Unit := do
  let required ← requiresMemo runtime destination
  if required then
    match memoProgram with
    | none => .error .notEnoughAccountKeys
    | some program => invokeMemo runtime callees program
  else .ok ()

/-- `transfer_checked_cpi`: the escrow's token account afterwards. -/
def transferCheckedCpi (runtime : Runtime) (callees : Callees)
    (source mint destination authority : AccountView) (amount : UInt64) (decimals : UInt8)
    (tokenProgram : Address) (memoProgram : Option AccountView) (hookExtras : List AccountView)
    (signerSeeds : List (List UInt8)) : Except InstructionError AccountView := do
  sendRequiredMemo runtime callees destination memoProgram
  ensure (hookExtras.length ≤ maxHookRemainingAccounts) .invalidArgument
  callees.transfer
    { source := source.address
      mint := mint.address
      destination := destination.address
      authority := authority.address
      amount := amount
      decimals := decimals
      tokenProgram := tokenProgram
      hookExtras := hookExtras.map fun account => (account.address, account.isWritable)
      signerSeeds := signerSeeds }

/-- `emit_event` -/
def emitEvent (runtime : Runtime) (callees : Callees) (eventAuthority : AccountView)
    (eventData : List UInt8) : Except InstructionError Unit := do
  ensure (eventAuthority.address = runtime.eventAuthority) (.custom .invalidEventAuthority)
  callees.emitEvent eventData

/-- `checked_sub` -/
def checkedSub (a b : UInt64) : Option UInt64 := if b ≤ a then some (a - b) else none

theorem checkedSub_eq_some {a b c : UInt64} (h : checkedSub a b = some c) :
    a.toNat = b.toNat + c.toNat := by
  unfold checkedSub at h
  split at h
  · rename_i hle
    cases h
    rw [UInt64.toNat_sub_of_le _ _ hle]
    have := UInt64.le_iff_toNat_le.mp hle
    omega
  · cases h

end PrivateChannels.Escrow
