import PrivateChannels.Foundation.Bytes

/-!
# The withdraw config account

The config is 89 bytes: the bump, the fee, the slot of the AllowMint the values came from,
the treasury and its token account, and the minimum. An instruction from an older slot
succeeds without writing.
-/

namespace PrivateChannels.Withdraw

/-- The program's custom errors. -/
inductive PrivateChannelWithdrawProgramError
  | invalidMint
  | zeroAmount
  | invalidWithdrawConfig
  | withdrawConfigNotInitialized
  | invalidMintAuthority
  | invalidTreasuryAccount
  | invalidSystemProgram
  | amountBelowMinimum
  deriving DecidableEq, Repr

/-- The errors of an instruction. -/
inductive ProgramError
  | invalidInstructionData
  | notEnoughAccountKeys
  | missingRequiredSignature
  | custom (error : PrivateChannelWithdrawProgramError)
  /-- An error of a call into the runtime or the System program. -/
  | runtime (code : ℕ)
  deriving DecidableEq, Repr

/-- A key of 32 bytes. -/
structure Address where
  bytes : List UInt8
  length_bytes : bytes.length = 32
  deriving DecidableEq, Repr

/-- A key of one repeated byte. -/
def repeated (byte : UInt8) : Address := ⟨List.replicate 32 byte, List.length_replicate⟩

/-- The values of a config. -/
structure WithdrawConfig where
  bump : UInt8
  fee : UInt64
  allowMintSlot : UInt64
  treasury : Address
  treasuryTokenAccount : Address
  minWithdrawAmount : UInt64
  deriving DecidableEq, Repr

namespace WithdrawConfig

/-- `LEN` -/
def len : ℕ := 1 + 8 + 8 + 32 + 32 + 8

/-- The account's bytes. -/
def toBytes (config : WithdrawConfig) : List UInt8 :=
  [config.bump] ++ leBytes 8 config.fee.toNat ++ leBytes 8 config.allowMintSlot.toNat ++
    config.treasury.bytes ++ config.treasuryTokenAccount.bytes ++
    leBytes 8 config.minWithdrawAmount.toNat

end WithdrawConfig

/-- `data[offset..offset + size]` -/
def slice (data : List UInt8) (offset size : ℕ) : List UInt8 := (data.drop offset).take size

theorem slice_append {data middle : List UInt8} {offset size : ℕ} (front back : List UInt8)
    (hdata : data = front ++ (middle ++ back)) (hoffset : front.length = offset)
    (hsize : middle.length = size) : slice data offset size = middle := by
  subst hdata hoffset hsize
  simp [slice]

/-- `u64::from_le_bytes` of a slice of the right size. -/
def u64OfSlice (error : ProgramError) (bytes : List UInt8) : Except ProgramError UInt64 :=
  if bytes.length = 8 then .ok (UInt64.ofNat (leNat bytes)) else .error error

def addressOfSlice (error : ProgramError) (bytes : List UInt8) : Except ProgramError Address :=
  if h : bytes.length = 32 then .ok ⟨bytes, h⟩ else .error error

def WithdrawConfig.tryFromBytes (data : List UInt8) : Except ProgramError WithdrawConfig :=
  let malformed := ProgramError.custom .invalidWithdrawConfig
  if data.length ≠ len then .error malformed
  else do
    let bump := data.getD 0 0
    let fee ← u64OfSlice malformed (slice data 1 8)
    let allowMintSlot ← u64OfSlice malformed (slice data 9 8)
    let treasury ← addressOfSlice malformed (slice data 17 32)
    let treasuryTokenAccount ← addressOfSlice malformed (slice data 49 32)
    let minWithdrawAmount ← u64OfSlice malformed (slice data 81 8)
    pure { bump, fee, allowMintSlot, treasury, treasuryTokenAccount, minWithdrawAmount }

/-- What an instruction sets. -/
structure SetWithdrawConfigArgs where
  fee : UInt64
  allowMintSlot : UInt64
  treasury : Address
  minWithdrawAmount : UInt64
  deriving DecidableEq, Repr

def parseInstructionData (data : List UInt8) : Except ProgramError SetWithdrawConfigArgs :=
  let malformed := ProgramError.invalidInstructionData
  if data.length < 8 + 8 + 32 + 8 then .error malformed
  else do
    let fee ← u64OfSlice malformed (slice data 0 8)
    let allowMintSlot ← u64OfSlice malformed (slice data 8 8)
    let treasury ← addressOfSlice malformed (slice data 16 32)
    let minWithdrawAmount ← u64OfSlice malformed (slice data 48 8)
    pure { fee, allowMintSlot, treasury, minWithdrawAmount }

/-- An account as an instruction sees it. -/
structure AccountView where
  address : Address
  isSigner : Bool
  owner : Address
  lamports : ℕ
  data : List UInt8
  deriving DecidableEq, Repr

/-- Calls into the System program. -/
inductive SystemInstruction
  | transfer (lamports : ℕ)
  | allocate (space : ℕ)
  | assign (owner : Address)
  | createAccount (lamports space : ℕ) (owner : Address)
  deriving DecidableEq, Repr

/-- What the program takes from elsewhere: program ids, derived addresses, the layout
of a mint, the rent. -/
structure Runtime where
  tokenProgramId : Address
  ataProgramId : Address
  systemProgramId : Address
  findProgramAddress : List (List UInt8) → Address → Address × UInt8
  mintBaseLen : ℕ
  mintAuthority : List UInt8 → Option Address
  minimumBalance : ℕ → Except ProgramError ℕ

/-- `WITHDRAW_CONFIG_SEED` -/
def withdrawConfigSeed : List UInt8 := "withdraw_config".toUTF8.toList

section Program

variable (runtime : Runtime) (programId : Address)

def verifySigner (info : AccountView) : Except ProgramError Unit :=
  if info.isSigner then .ok () else .error .missingRequiredSignature

def verifyMintAccount (info : AccountView) : Except ProgramError Unit :=
  if info.owner ≠ runtime.tokenProgramId then .error (.custom .invalidMint)
  else if info.data.length < runtime.mintBaseLen then .error (.custom .invalidMint)
  else .ok ()

/-- An address that holds lamports is topped up, allocated and assigned. `invoke` answers the
calls. -/
def createPdaAccount (invoke : SystemInstruction → Except ProgramError Unit) (space : ℕ)
    (owner : Address) (account : AccountView) : Except ProgramError AccountView := do
  let minimum ← runtime.minimumBalance space
  let requiredLamports := max minimum 1
  if account.lamports > 0 then
    let missing := requiredLamports - account.lamports
    if missing > 0 then invoke (.transfer missing)
    invoke (.allocate space)
    invoke (.assign owner)
    pure
      { account with
        owner := owner
        lamports := account.lamports + missing
        data := List.replicate space 0 }
  else
    invoke (.createAccount requiredLamports space owner)
    pure
      { account with
        owner := owner
        lamports := requiredLamports
        data := List.replicate space 0 }

/-- The config an instruction writes for a mint. -/
def configFor (mint : Address) (args : SetWithdrawConfigArgs) : WithdrawConfig where
  bump := (runtime.findProgramAddress [withdrawConfigSeed, mint.bytes] programId).2
  fee := args.fee
  allowMintSlot := args.allowMintSlot
  treasury := args.treasury
  treasuryTokenAccount :=
    (runtime.findProgramAddress [args.treasury.bytes, runtime.tokenProgramId.bytes, mint.bytes]
      runtime.ataProgramId).1
  minWithdrawAmount := args.minWithdrawAmount

/-- `copy_from_slice`, which stops on slices of different lengths. -/
def copyFromSlice (account : AccountView) (bytes : List UInt8) : Except ProgramError AccountView :=
  if account.data.length = bytes.length then .ok { account with data := bytes }
  else .error (.runtime 0)

/-- The checks `process_set_withdraw_config` makes of its accounts. -/
def checkAccounts (authorityInfo mintInfo withdrawConfigInfo systemProgramInfo : AccountView) :
    Except ProgramError Unit := do
  verifySigner authorityInfo
  verifyMintAccount runtime mintInfo
  if runtime.mintAuthority mintInfo.data ≠ some authorityInfo.address then
    .error (.custom .invalidMintAuthority)
  else if systemProgramInfo.address ≠ runtime.systemProgramId then
    .error (.custom .invalidSystemProgram)
  else if withdrawConfigInfo.address ≠
      (runtime.findProgramAddress [withdrawConfigSeed, mintInfo.address.bytes] programId).1 then
    .error (.custom .invalidWithdrawConfig)
  else .ok ()

/-- A config of a newer slot stays, any other is written, and a missing one is created first. -/
def writeConfig (invoke : SystemInstruction → Except ProgramError Unit) (mint : Address)
    (withdrawConfigInfo : AccountView) (args : SetWithdrawConfigArgs) :
    Except ProgramError AccountView :=
  let bytes := (configFor runtime programId mint args).toBytes
  if withdrawConfigInfo.owner = programId then do
    let stored ← WithdrawConfig.tryFromBytes withdrawConfigInfo.data
    if args.allowMintSlot < stored.allowMintSlot then pure withdrawConfigInfo
    else copyFromSlice withdrawConfigInfo bytes
  else do
    let created ← createPdaAccount runtime invoke WithdrawConfig.len programId withdrawConfigInfo
    copyFromSlice created bytes

/-- `process_set_withdraw_config`: the config account afterwards. -/
def processSetWithdrawConfig (invoke : SystemInstruction → Except ProgramError Unit)
    (accounts : List AccountView) (instructionData : List UInt8) :
    Except ProgramError AccountView := do
  let args ← parseInstructionData instructionData
  match accounts with
  | [authorityInfo, mintInfo, withdrawConfigInfo, systemProgramInfo] =>
    checkAccounts runtime programId authorityInfo mintInfo withdrawConfigInfo systemProgramInfo
    writeConfig runtime programId invoke mintInfo.address withdrawConfigInfo args
  | _ => .error .notEnoughAccountKeys

end Program

end PrivateChannels.Withdraw
