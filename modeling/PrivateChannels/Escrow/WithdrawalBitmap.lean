import PrivateChannels.Foundation.Bytes

/-!
# The withdrawal bitmap account

A discriminator, a bump, the generation as a little-endian `u64`, then one bit per nonce
of the current generation. A failing call keeps what it had already written, so the
functions live in `EStateM`. The window size is a parameter: 65536, or 8 under the test
feature.
-/

namespace PrivateChannels.Escrow

/-- The errors the bitmap functions return. -/
inductive ProgramError
  | invalidAccountData
  | accountAlreadyInitialized
  | arithmeticOverflow
  | invalidWithdrawalBitmap
  | nonceAlreadyUsed
  | nonceOutsideCurrentGeneration
  | unexpectedGeneration
  deriving DecidableEq, Repr

/-- `NONCES_PER_GENERATION` together with what the byte layout needs of it. -/
structure Window where
  /-- Nonces covered by one generation, one bit each. -/
  noncesPerGeneration : ℕ
  pos : 0 < noncesPerGeneration
  dvd : 8 ∣ noncesPerGeneration

/-- The size the program is built with. -/
def Window.mainnet : Window := ⟨65536, by norm_num, by norm_num⟩

/-- The size of the `test-tree` feature. -/
def Window.testTree : Window := ⟨8, by norm_num, by norm_num⟩

/-- Bytes that hold one generation's bits. -/
def Window.bitmapBytes (w : Window) : ℕ := w.noncesPerGeneration / 8

namespace WithdrawalBitmap

/-- The raw account data. -/
abbrev Data := List UInt8

/-- A call on the account's bytes. -/
abbrev Program := EStateM ProgramError Data

/-- `WithdrawalBitmapDiscriminator`. -/
def discriminator : UInt8 := 3

def bumpOffset : ℕ := 1
def generationOffset : ℕ := 2
def bitsOffset : ℕ := 10

/-- `LEN`: the header and the bits. -/
def len (w : Window) : ℕ := bitsOffset + w.bitmapBytes

/-- `copy_from_slice` at an offset. -/
def overwrite (data : Data) (offset : ℕ) (src : List UInt8) : Data :=
  data.take offset ++ src ++ data.drop (offset + src.length)

def verifyLen (w : Window) : Program Unit := do
  let data ← get
  if data.length < len w then
    throw .invalidWithdrawalBitmap

/-- Writes the header of a freshly created account, and refuses an account
that has been written before. -/
def init (w : Window) (bump : UInt8) : Program Unit := do
  verifyLen w
  let data ← get
  if data.getD 0 0 ≠ 0 then
    throw .accountAlreadyInitialized
  let data := data.set 0 discriminator
  let data := data.set bumpOffset bump
  set (overwrite data generationOffset (leBytes 8 0))

/-- The discriminator and length checks of `validate`. The address check that
follows in the source does not read or write the bits. -/
def validate (w : Window) : Program Unit := do
  let data ← get
  if data.isEmpty || data.getD 0 0 ≠ discriminator then
    throw .invalidAccountData
  verifyLen w

/-- The stored generation. -/
def generation (data : Data) : UInt64 :=
  UInt64.ofNat (leNat ((data.drop generationOffset).take (bitsOffset - generationOffset)))

/-- Rejects a nonce belonging to a generation this bitmap no longer covers. -/
def validateGeneration (w : Window) (nonce : UInt64) : Program Unit := do
  let data ← get
  if nonce.toNat / w.noncesPerGeneration ≠ (generation data).toNat then
    throw .nonceOutsideCurrentGeneration

/-- Marks a nonce as released. Fails if it was already released. -/
def consumeNonce (w : Window) (nonce : UInt64) : Program Unit := do
  let data ← get
  let bit := nonce.toNat % w.noncesPerGeneration
  let byte := bitsOffset + bit / 8
  let mask := bitMask (bit % 8)
  if data.getD byte 0 &&& mask ≠ 0 then
    throw .nonceAlreadyUsed
  set (data.set byte (data.getD byte 0 ||| mask))

/-- The bits are cleared before the checked addition, so an overflow fails with them already
gone. -/
def rotate (w : Window) (expectedGeneration : UInt64) : Program Unit := do
  let data ← get
  let current := generation data
  if current ≠ expectedGeneration then
    throw .unexpectedGeneration
  let data := overwrite data bitsOffset (List.replicate w.bitmapBytes 0)
  set data
  if current.toNat + 1 < 2 ^ 64 then
    set (overwrite data generationOffset (leBytes 8 (current.toNat + 1)))
  else
    throw .arithmeticOverflow

/-- The bitmap part of `process_release_funds`. -/
def processReleaseFunds (w : Window) (nonce : UInt64) : Program Unit := do
  validate w
  validateGeneration w nonce
  consumeNonce w nonce

/-- The bitmap part of `process_rotate_bitmap`. -/
def processRotateBitmap (w : Window) (expectedGeneration : UInt64) : Program Unit := do
  validate w
  rotate w expectedGeneration

theorem verifyLen_run (w : Window) (data : Data) :
    (verifyLen w).run data =
      if data.length < len w then .error .invalidWithdrawalBitmap data else .ok () data := by
  simp only [verifyLen, EStateM.run_bind, EStateM.run_get]
  split <;> rfl

theorem validate_run (w : Window) (data : Data) :
    (validate w).run data =
      if data.isEmpty || data.getD 0 0 ≠ discriminator then .error .invalidAccountData data
      else (verifyLen w).run data := by
  simp only [validate, EStateM.run_bind, EStateM.run_get]
  split <;> rfl

theorem init_run (w : Window) (bump : UInt8) (data : Data) :
    (init w bump).run data =
      if data.length < len w then .error .invalidWithdrawalBitmap data
      else if data.getD 0 0 ≠ 0 then .error .accountAlreadyInitialized data
      else .ok () (overwrite ((data.set 0 discriminator).set bumpOffset bump)
        generationOffset (leBytes 8 0)) := by
  simp only [init, EStateM.run_bind, verifyLen_run]
  by_cases hl : data.length < len w
  · rw [if_pos hl, if_pos hl]
  · simp only [if_neg hl, EStateM.run_get]
    split <;> rfl

theorem validateGeneration_run (w : Window) (nonce : UInt64) (data : Data) :
    (validateGeneration w nonce).run data =
      if nonce.toNat / w.noncesPerGeneration ≠ (generation data).toNat then
        .error .nonceOutsideCurrentGeneration data
      else .ok () data := by
  simp only [validateGeneration, EStateM.run_bind, EStateM.run_get]
  split <;> rfl

/-- The account data with one nonce's bit set. -/
def setBit (w : Window) (data : Data) (nonce : UInt64) : Data :=
  let bit := nonce.toNat % w.noncesPerGeneration
  let byte := bitsOffset + bit / 8
  data.set byte (data.getD byte 0 ||| bitMask (bit % 8))

/-- The account data with every bit cleared. -/
def clearBits (w : Window) (data : Data) : Data :=
  overwrite data bitsOffset (List.replicate w.bitmapBytes 0)

/-- The account data with another generation stored. -/
def setGeneration (data : Data) (generation : ℕ) : Data :=
  overwrite data generationOffset (leBytes 8 generation)

/-- The bit of a nonce's position, whatever generation the account is in. -/
def bit (w : Window) (data : Data) (nonce : UInt64) : Bool :=
  let bit := nonce.toNat % w.noncesPerGeneration
  hasBit (data.getD (bitsOffset + bit / 8) 0) (bit % 8)

/-- What the account says of a nonce: it belongs to the stored generation and
its bit is set. -/
def marked (w : Window) (data : Data) (nonce : UInt64) : Bool :=
  nonce.toNat / w.noncesPerGeneration == (generation data).toNat && bit w data nonce

/-- The account has been through `init`. -/
def initialised (data : Data) : Prop := data.getD 0 0 = discriminator

instance (data : Data) : Decidable (initialised data) :=
  inferInstanceAs (Decidable (_ = _))

theorem consumeNonce_run (w : Window) (nonce : UInt64) (data : Data) :
    (consumeNonce w nonce).run data =
      if bit w data nonce then .error .nonceAlreadyUsed data
      else .ok () (setBit w data nonce) := by
  simp only [consumeNonce, EStateM.run_bind, EStateM.run_get, bit, hasBit, bne_iff_ne]
  split <;> rfl

theorem rotate_run (w : Window) (expected : UInt64) (data : Data) :
    (rotate w expected).run data =
      if generation data ≠ expected then .error .unexpectedGeneration data
      else if (generation data).toNat + 1 < 2 ^ 64 then
        .ok () (setGeneration (clearBits w data) ((generation data).toNat + 1))
      else .error .arithmeticOverflow (clearBits w data) := by
  simp only [rotate, EStateM.run_bind, EStateM.run_get]
  split
  · rfl
  · simp only [EStateM.run_bind, EStateM.run_set]
    split <;> rfl

end WithdrawalBitmap

end PrivateChannels.Escrow
