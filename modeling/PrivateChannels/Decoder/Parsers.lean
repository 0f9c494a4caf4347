import PrivateChannels.Decoder.Wire

/-!
# The instruction parsers

One parser for each supported instruction. A Deposit carries its amount in the event it
emits, which has to be found among the inner instructions. Accounts are kept in the order
of the source's records.
-/

namespace PrivateChannels.Decoder

open Withdraw (slice)
open Escrow (u64At)
open Escrow.Processor (DepositEvent)

/-- The arguments of AllowMint. -/
structure AllowMintData where
  bump : UInt8
  withdrawFee : UInt64
  minWithdrawAmount : UInt64
  deriving DecidableEq, Repr

/-- The arguments of BlockMint. -/
structure BlockMintData where
  blockDeposits : Bool
  blockWithdrawals : Bool
  deriving DecidableEq, Repr

/-- The arguments of Deposit. -/
structure DepositData where
  amount : UInt64
  recipient : Option Pubkey
  deriving DecidableEq, Repr

/-- The arguments of ReleaseFunds. -/
structure ReleaseFundsData where
  amount : UInt64
  user : Pubkey
  transactionNonce : UInt64
  deriving DecidableEq, Repr

/-- The parsed escrow instructions. -/
inductive EscrowInstruction
  | createInstance (accounts : List Pubkey) (bump : UInt8)
  | allowMint (accounts : List Pubkey) (data : AllowMintData) (decimals : UInt8)
  | blockMint (accounts : List Pubkey) (data : BlockMintData)
  | deposit (accounts : List Pubkey) (data : DepositData) (eventAmount : UInt64)
  | releaseFunds (accounts : List Pubkey) (data : ReleaseFundsData)
  | rotateBitmap (accounts : List Pubkey)
  deriving DecidableEq, Repr

/-- The recipient a deposit names, or its user. -/
def effectiveRecipient (accounts : List Pubkey) (data : DepositData) : Option Pubkey :=
  data.recipient.or accounts[1]?

/-- A key is read as an array of 32 bytes. -/
def readKey : Borsh Pubkey := do
  let bytes ← Borsh.readBytes 32
  pure ⟨bytes.val, bytes.property⟩

def AllowMintData.read : Borsh AllowMintData := do
  let bump ← Borsh.readU8
  let withdrawFee ← Borsh.readU64
  let minWithdrawAmount ← Borsh.readU64
  pure ⟨bump, withdrawFee, minWithdrawAmount⟩

def BlockMintData.read : Borsh BlockMintData := do
  let blockDeposits ← Borsh.readBool
  let blockWithdrawals ← Borsh.readBool
  pure ⟨blockDeposits, blockWithdrawals⟩

def DepositData.read : Borsh DepositData := do
  let amount ← Borsh.readU64
  let recipient ← Borsh.readOption readKey
  pure ⟨amount, recipient⟩

/-- `ReleaseFundsData::from_bytes`; a trailing withdrawer is ignored. -/
def ReleaseFundsData.fromBytes (data : List UInt8) : Except ParserError ReleaseFundsData :=
  let minLen := 8 + 32 + 8
  if data.length < minLen then
    .error (.instructionParseFailed s!"ReleaseFundsData too short: {data.length} < {minLen}")
  else
    match keyOfBytes (slice data 8 32) with
    | none => .error (.invalidPubkey "Invalid user pubkey: could not convert slice to array")
    | some user => .ok ⟨u64At data 0, user, u64At data 40⟩

/-- `EVENT_IX_TAG_LE` -/
def eventIxTagLe : List UInt8 := [0xe4, 0x45, 0xa5, 0x2e, 0x51, 0xcb, 0x9a, 0x1d]

def allowMintEventDiscriminator : UInt8 := 1
def depositEventDiscriminator : UInt8 := 6

section Parser

variable (env : Env) (accountKeys : List Pubkey)

/-- The called program is the escrow. -/
def isEscrowProgram (inner : InnerInstruction) : Bool :=
  match accountKeys[inner.instruction.programIdIndex.toNat]? with
  | none => false
  | some programId => env.base58.showKey programId == env.base58.showKey env.runtime.escrowProgramId

/-- The event in a byte string that is long enough and tagged as one. -/
def depositEventOfBytes (eventData : List UInt8) : Option DepositEvent :=
  if eventData.length < 145 ∨ ¬ eventIxTagLe <+: eventData ∨
      eventData.getD 8 0 ≠ depositEventDiscriminator then none
  else do
    let instanceSeed ← keyOfBytes (slice eventData 9 32)
    let user ← keyOfBytes (slice eventData 41 32)
    let recipient ← keyOfBytes (slice eventData 81 32)
    let mint ← keyOfBytes (slice eventData 113 32)
    pure ⟨instanceSeed, user, u64At eventData 73, recipient, mint⟩

/-- Only the escrow program's own call is an event. -/
def decodeDepositEvent (inner : InnerInstruction) : Option DepositEvent :=
  if isEscrowProgram env accountKeys inner then
    match env.base58.decode inner.instruction.data with
    | .error _ => none
    | .ok eventData => depositEventOfBytes eventData
  else none

/-- The amount, if it is a deposit's event. -/
def depositEventAmount (inner : InnerInstruction) : Option UInt64 :=
  (decodeDepositEvent env accountKeys inner).map (·.amount)

def stacklessDepositError (reason : String) : ParserError :=
  .instructionParseFailed s!"CPI deposit without stack height: {reason}"

/-- The first field in which an event and its deposit disagree. -/
def eventMismatch (event : DepositEvent) (accounts : List Pubkey) (data : DepositData) :
    Option String :=
  if accounts[1]? ≠ some event.user then some "user"
  else if accounts[3]? ≠ some event.mint then some "mint"
  else if effectiveRecipient accounts data ≠ some event.recipient then some "recipient"
  else if accounts[2]? ≠ some (env.findInstancePda event.instanceSeed) then some "instance"
  else none

def checkEventMatchesDeposit (event : DepositEvent) (accounts : List Pubkey)
    (data : DepositData) : Except ParserError Unit :=
  match eventMismatch env event accounts data with
  | some field => .error (stacklessDepositError s!"DepositEvent {field} does not match the deposit")
  | none => .ok ()

def allowMintEventDecimals (mint : Option Pubkey) (inner : InnerInstruction) : Option UInt8 :=
  if isEscrowProgram env accountKeys inner then
    match env.base58.decode inner.instruction.data with
    | .error _ => none
    | .ok eventData =>
      if 74 ≤ eventData.length ∧ eventIxTagLe <+: eventData ∧
          eventData.getD 8 0 = allowMintEventDiscriminator ∧
          mint.map (·.bytes) = some (slice eventData 41 32)
      then some (eventData.getD 73 0) else none
  else none

/-- The inner instructions of a top-level instruction. -/
def innerSet (innerInstructions : List InnerInstructions) (index : ℕ) :
    Option InnerInstructions :=
  innerInstructions.find? (·.index.toNat = index)

/-- The entries right after a CPI deposit that are nested deeper are its subtree. -/
def subtree (set : InnerInstructions) (innerIndex ownHeight : ℕ) : List InnerInstruction :=
  (set.instructions.drop (innerIndex + 1)).takeWhile fun inner =>
    inner.stackHeight.any (ownHeight < ·)

/-- Without heights the first escrow entry after a CPI deposit has to be its event. -/
def callOrderAmount (later : List InnerInstruction) (accounts : List Pubkey) (data : DepositData) :
    Except ParserError UInt64 :=
  match later.find? (isEscrowProgram env accountKeys) with
  | none => .error (stacklessDepositError "no escrow entry after it")
  | some firstEscrow =>
    match decodeDepositEvent env accountKeys firstEscrow with
    | none => .error (stacklessDepositError "first escrow entry after it is not a DepositEvent")
    | some event => do
      checkEventMatchesDeposit env event accounts data
      pure event.amount

variable (instruction : CompiledInstruction) (innerInstructions : List InnerInstructions)
  (location : InstructionLocation)

/-- The amount of the event a deposit emitted. -/
def depositAmount (accounts : List Pubkey) (data : DepositData) :
    Except ParserError (Option UInt64) :=
  match innerSet innerInstructions location.topLevelIndex, location.inner with
  | some set, some ⟨innerIndex, some ownHeight⟩ =>
    .ok ((subtree set innerIndex ownHeight).findSome? (depositEventAmount env accountKeys))
  | some set, some ⟨innerIndex, none⟩ =>
    (callOrderAmount env accountKeys (set.instructions.drop (innerIndex + 1)) accounts
      data).map some
  | some set, none => .ok (set.instructions.findSome? (depositEventAmount env accountKeys))
  | none, _ => .ok none

def parseCreateInstance (data : List UInt8) : Except ParserError EscrowInstruction := do
  let bump ← deserialize Borsh.readU8 data
  requireAccounts 8 instruction
  let accounts ← resolveAccounts instruction accountKeys (List.range 8)
  pure (.createInstance accounts bump)

def parseAllowMint (data : List UInt8) : Except ParserError EscrowInstruction := do
  let ixData ← deserialize AllowMintData.read data
  requireAccounts 11 instruction
  let accounts ← resolveAccounts instruction accountKeys (List.range 11)
  let decimals := (innerSet innerInstructions location.topLevelIndex).bind fun set =>
    set.instructions.findSome? (allowMintEventDecimals env accountKeys accounts[3]?)
  match decimals with
  | none => throw (.instructionParseFailed "No allow mint event found")
  | some decimals => pure (.allowMint accounts ixData decimals)

/-- The instruction before it had arguments closed both gates, and had one account more. -/
def parseBlockMint (data : List UInt8) : Except ParserError EscrowInstruction := do
  let legacy := data.isEmpty
  let shift := if legacy then 1 else 0
  requireAccounts (if legacy then 8 else 7) instruction
  let ixData ← if legacy then pure ⟨true, true⟩ else deserialize BlockMintData.read data
  let accounts ← resolveAccounts instruction accountKeys [0, 1, 2, 3, 4, 5 + shift, 6 + shift]
  pure (.blockMint accounts ixData)

/-- A Deposit with the amount of its event. -/
def parseDeposit (data : List UInt8) : Except ParserError EscrowInstruction := do
  let ixData ← deserialize DepositData.read data
  requireAccounts 12 instruction
  let accounts ← resolveAccounts instruction accountKeys (List.range 12)
  match ← depositAmount env accountKeys innerInstructions location accounts ixData with
  | some amount => pure (.deposit accounts ixData amount)
  | none => throw (.instructionParseFailed "No deposit event found")

/-- `RELEASE_FUNDS_MIN_ACCOUNTS` is what every version of the instruction shares. -/
def parseReleaseFunds (data : List UInt8) : Except ParserError EscrowInstruction := do
  requireAccounts 13 instruction
  let ixData ← ReleaseFundsData.fromBytes data
  let accounts ← resolveAccounts instruction accountKeys (List.range 13)
  pure (.releaseFunds accounts ixData)

def parseRotateBitmap : Except ParserError EscrowInstruction := do
  requireAccounts 7 instruction
  let accounts ← resolveAccounts instruction accountKeys (List.range 7)
  pure (.rotateBitmap accounts)

/-- `parse_escrow_instruction`: `none` for an instruction the indexer does not support. -/
def parseEscrowInstruction : Except ParserError (Option EscrowInstruction) := do
  match ← decodeData env.base58 instruction with
  | [] => pure none
  | 0 :: data => some <$> parseCreateInstance accountKeys instruction data
  | 1 :: data =>
    some <$> parseAllowMint env accountKeys instruction innerInstructions location data
  | 2 :: data => some <$> parseBlockMint accountKeys instruction data
  | 6 :: data => some <$> parseDeposit env accountKeys instruction innerInstructions location data
  | 7 :: data => some <$> parseReleaseFunds accountKeys instruction data
  | 8 :: _ => some <$> parseRotateBitmap accountKeys instruction
  | _ => pure none

/-- WithdrawFunds as it is encoded. -/
structure WithdrawFundsIxData where
  amount : UInt64
  destination : Option Pubkey
  deriving DecidableEq, Repr

def WithdrawFundsIxData.read : Borsh WithdrawFundsIxData := do
  let amount ← Borsh.readU64
  let destination ← Borsh.readOption readKey
  pure ⟨amount, destination⟩

/-- WithdrawFunds with its destination. -/
structure WithdrawFundsData where
  amount : UInt64
  destination : Pubkey
  deriving DecidableEq, Repr

/-- The parsed withdraw instructions. -/
inductive WithdrawInstruction
  | withdrawFunds (accounts : List Pubkey) (data : WithdrawFundsData)
  deriving DecidableEq, Repr

/-- The destination defaults to the user. -/
def parseWithdrawFunds (data : List UInt8) : Except ParserError WithdrawInstruction := do
  let ixData ← deserialize WithdrawFundsIxData.read data
  requireAccounts 5 instruction
  let user ← resolveAccount instruction accountKeys 0
  let accounts ← resolveAccounts instruction accountKeys (List.range 5)
  pure (.withdrawFunds accounts ⟨ixData.amount, ixData.destination.getD user⟩)

def parseWithdrawInstruction : Except ParserError (Option WithdrawInstruction) := do
  match ← decodeData env.base58 instruction with
  | 0 :: data => some <$> parseWithdrawFunds accountKeys instruction data
  | _ => pure none

end Parser

end PrivateChannels.Decoder
