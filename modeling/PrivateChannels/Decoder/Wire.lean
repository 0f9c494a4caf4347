import PrivateChannels.Foundation.Borsh
import PrivateChannels.Escrow.Processors

/-!
# Instructions as the decoders see them

The instruction types the decoders share and the errors of the parsers. Base58 is a
parameter: what is encoded decodes to itself.
-/

namespace PrivateChannels.Decoder

open Withdraw (Address slice)
open Escrow (Runtime)

/-- A key is its address. -/
abbrev Pubkey := Address

/-- An encoding that decodes to itself. -/
structure Base58 where
  encode : List UInt8 → String
  /-- The text of the error when a string is not base58. -/
  decode : String → Except String (List UInt8)
  decode_encode : ∀ bytes, decode (encode bytes) = .ok bytes

/-- `Pubkey::to_string` -/
def Base58.showKey (base58 : Base58) (key : Pubkey) : String := base58.encode key.bytes

/-- `Pubkey::try_from(&[u8])` -/
def keyOfBytes (bytes : List UInt8) : Option Pubkey :=
  if h : bytes.length = 32 then some ⟨bytes, h⟩ else none

@[simp] theorem keyOfBytes_bytes (key : Pubkey) : keyOfBytes key.bytes = some key := by
  simp [keyOfBytes, key.length_bytes]

/-- An instruction over key indexes. -/
structure CompiledInstruction where
  programIdIndex : UInt8
  accounts : List UInt8
  /-- In base58. -/
  data : String
  deriving DecidableEq, Repr

/-- An inner instruction and its depth. -/
structure InnerInstruction where
  instruction : CompiledInstruction
  stackHeight : Option ℕ
  deriving DecidableEq, Repr

/-- The inner instructions of one index. -/
structure InnerInstructions where
  index : UInt8
  instructions : List InnerInstruction
  deriving DecidableEq, Repr

/-- Where an inner instruction stands. -/
structure InnerLocation where
  innerIndex : ℕ
  stackHeight : Option ℕ
  deriving DecidableEq, Repr

/-- Where an instruction stands. -/
structure InstructionLocation where
  topLevelIndex : ℕ
  inner : Option InnerLocation
  deriving DecidableEq, Repr

def InstructionLocation.topLevel (index : ℕ) : InstructionLocation := ⟨index, none⟩

/-- Why accounts do not resolve. -/
inductive AccountError
  | insufficientAccounts (required actual : ℕ)
  | accountIndexOutOfBounds (index : ℕ)
  deriving DecidableEq, Repr

/-- Why an instruction does not parse. -/
inductive ParserError
  | invalidPubkey (reason : String)
  | instructionParseFailed (reason : String)
  | account (error : AccountError)
  | base58Error (reason : String)
  | borshError (error : BorshError)
  deriving DecidableEq, Repr

/-- What the parsers know beside the instruction. -/
structure Env where
  base58 : Base58
  runtime : Runtime

def Env.findInstancePda (env : Env) (instanceSeed : Pubkey) : Pubkey :=
  (env.runtime.findProgramAddress [Escrow.instanceSeed, instanceSeed.bytes]
    env.runtime.escrowProgramId).1

/-- The key at an index. -/
def resolveAccount (instruction : CompiledInstruction) (accountKeys : List Pubkey) (pos : ℕ) :
    Except ParserError Pubkey :=
  match instruction.accounts[pos]? with
  | none => .error (.account (.accountIndexOutOfBounds pos))
  | some keyIndex =>
    match accountKeys[keyIndex.toNat]? with
    | none => .error (.account (.accountIndexOutOfBounds keyIndex.toNat))
    | some key => .ok key

/-- A record of accounts: the keys at the positions of its fields, in their order. -/
def resolveAccounts (instruction : CompiledInstruction) (accountKeys : List Pubkey)
    (positions : List ℕ) : Except ParserError (List Pubkey) :=
  positions.mapM (resolveAccount instruction accountKeys)

/-- The keys an instruction's accounts stand for. -/
def Resolves (instruction : CompiledInstruction) (accountKeys : List Pubkey)
    (addresses : List Pubkey) : Prop :=
  instruction.accounts.map (fun index => accountKeys[index.toNat]?) = addresses.map some

variable {instruction : CompiledInstruction} {accountKeys addresses : List Pubkey}

section

variable (h : Resolves instruction accountKeys addresses)
include h

theorem Resolves.length_eq : instruction.accounts.length = addresses.length := by
  simpa using congrArg List.length h

theorem Resolves.resolveAccount {pos : ℕ} {key : Pubkey} (hkey : addresses[pos]? = some key) :
    resolveAccount instruction accountKeys pos = .ok key := by
  have hpos := congrArg (fun l => l[pos]?) h
  simp only [List.getElem?_map, hkey, Option.map_some] at hpos
  obtain ⟨index, hindex, hresolved⟩ := Option.map_eq_some_iff.mp hpos
  simp [Decoder.resolveAccount, hindex, hresolved]

/-- The first accounts of an instruction that has enough of them. -/
theorem Resolves.resolveAccounts {n : ℕ} (hlen : n ≤ addresses.length) :
    resolveAccounts instruction accountKeys (List.range n) = .ok (addresses.take n) := by
  unfold Decoder.resolveAccounts
  induction n with
  | zero => rfl
  | succ n ih =>
    have hlast := h.resolveAccount (List.getElem?_eq_getElem hlen)
    rw [List.range_succ, List.mapM_append, ih (Nat.le_of_succ_le hlen), List.take_add_one,
      List.getElem?_eq_getElem hlen, List.mapM_cons, hlast]
    rfl

end

def deserialize {α : Type} (read : Borsh α) (data : List UInt8) : Except ParserError α :=
  (Borsh.deserialize read data).mapError .borshError

def requireAccounts (required : ℕ) (instruction : CompiledInstruction) : Except ParserError Unit :=
  ensure (required ≤ instruction.accounts.length)
    (.account (.insufficientAccounts required instruction.accounts.length))

/-- `bs58::decode(..).into_vec()?` -/
def decodeData (base58 : Base58) (instruction : CompiledInstruction) :
    Except ParserError (List UInt8) :=
  (base58.decode instruction.data).mapError .base58Error

end PrivateChannels.Decoder
