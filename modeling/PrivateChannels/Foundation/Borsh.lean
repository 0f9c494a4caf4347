import PrivateChannels.Foundation.Bytes

/-!
# Reading Borsh

Readers take what they need from the front of the input and leave the rest. Each has one
equation for an input that is long enough.
-/

namespace PrivateChannels

/-- Why a reader fails. -/
inductive BorshError
  | unexpectedLength
  | invalidBool (byte : UInt8)
  | invalidOption (tag : UInt8)
  deriving DecidableEq, Repr

/-- A reader's value and the input it leaves. -/
abbrev Borsh := StateT (List UInt8) (Except BorshError)

namespace Borsh

variable {α β : Type}

def readBytes (n : ℕ) : Borsh {bytes : List UInt8 // bytes.length = n} := fun input =>
  if h : n ≤ input.length then .ok (⟨input.take n, List.length_take_of_le h⟩, input.drop n)
  else .error .unexpectedLength

def readU8 : Borsh UInt8 := do
  let bytes ← readBytes 1
  pure (bytes.val.headD 0)

def readU64 : Borsh UInt64 := do
  let bytes ← readBytes 8
  pure (UInt64.ofNat (leNat bytes))

def readBool : Borsh Bool := do
  match ← readU8 with
  | 0 => pure false
  | 1 => pure true
  | byte => throw (.invalidBool byte)

/-- A tag, then the value. -/
def readOption (read : Borsh α) : Borsh (Option α) := do
  match ← readU8 with
  | 0 => pure none
  | 1 =>
    let value ← read
    pure (some value)
  | tag => throw (.invalidOption tag)

/-- `T::deserialize(&mut &data[..])`: what is left of the input is not looked at. -/
def deserialize (read : Borsh α) (input : List UInt8) : Except BorshError α :=
  (read.run input).map Prod.fst

variable {input rest : List UInt8}

theorem run_readBytes {n : ℕ} (h : n ≤ input.length) :
    (readBytes n).run input = .ok (⟨input.take n, List.length_take_of_le h⟩, input.drop n) :=
  dif_pos h

theorem run_bind_of {read : Borsh α} {next : α → Borsh β} {a : α}
    (h : read.run input = .ok (a, rest)) : (read >>= next).run input = (next a).run rest := by
  rw [StateT.run_bind, h]
  rfl

theorem run_readU8 {byte : UInt8} : readU8.run (byte :: rest) = .ok (byte, rest) := by
  unfold readU8
  rfl

theorem run_readU64 (h : 8 ≤ input.length) :
    readU64.run input = .ok (UInt64.ofNat (leNat (input.take 8)), input.drop 8) := by
  unfold readU64
  rw [run_bind_of (run_readBytes h)]
  rfl

theorem run_readOption_none {read : Borsh α} :
    (readOption read).run (0 :: rest) = .ok (none, rest) := by
  unfold readOption
  rfl

theorem run_readOption_some {read : Borsh α} {a : α} (h : read.run input = .ok (a, rest)) :
    (readOption read).run (1 :: input) = .ok (some a, rest) := by
  unfold readOption
  rw [run_bind_of run_readU8]
  exact run_bind_of h

end Borsh

end PrivateChannels
