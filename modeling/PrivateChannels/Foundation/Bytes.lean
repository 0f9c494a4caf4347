import Mathlib

/-!
# Bytes: little-endian words and single bits

Little-endian encoding of a natural number, and the one-bit mask of a byte, characterised
through `hasBit` so that no proof looks at a byte's value.
-/

namespace PrivateChannels

/-- The value of a little-endian byte string. -/
def leNat : List UInt8 → ℕ
  | [] => 0
  | b :: bs => b.toNat + 256 * leNat bs

/-- The `i64` of 64 bits. -/
def i64OfNat (n : ℕ) : ℤ := if n < 2 ^ 63 then n else n - 2 ^ 64

/-- The `k` low bytes of `n`, least significant first. -/
def leBytes : ℕ → ℕ → List UInt8
  | 0, _ => []
  | k + 1, n => UInt8.ofNat n :: leBytes k (n / 256)

@[simp] theorem length_leBytes (k n : ℕ) : (leBytes k n).length = k := by
  induction k generalizing n with
  | zero => rfl
  | succ k ih => simp [leBytes, ih]

theorem leNat_lt (bs : List UInt8) : leNat bs < 256 ^ bs.length := by
  induction bs with
  | nil => simp [leNat]
  | cons b bs ih =>
    have hb := b.toNat_lt
    simp only [leNat, List.length_cons, pow_succ]
    omega

theorem leNat_eq_zero {bs : List UInt8} (h : ∀ b ∈ bs, b = 0) : leNat bs = 0 := by
  induction bs with
  | nil => rfl
  | cons b bs ih =>
    obtain ⟨rfl, hbs⟩ := List.forall_mem_cons.mp h
    simp [leNat, ih hbs]

/-- A word that fits its width survives the round trip. -/
theorem leNat_leBytes {k n : ℕ} (h : n < 256 ^ k) : leNat (leBytes k n) = n := by
  induction k generalizing n with
  | zero => simp at h; simp [leBytes, leNat, h]
  | succ k ih =>
    have hdiv : n / 256 < 256 ^ k := by
      rw [Nat.div_lt_iff_lt_mul (by norm_num)]
      simpa [pow_succ] using h
    simp only [leBytes, leNat, ih hdiv, UInt8.toNat_ofNat']
    omega

/-- A byte holding a single one at position `k`. -/
def bitMask (k : ℕ) : UInt8 := 1 <<< UInt8.ofNat k

/-- The masked test: nonzero exactly when the bit at `k` is set. -/
def hasBit (b : UInt8) (k : ℕ) : Bool := b &&& bitMask k != 0

theorem bitMask_toBitVec {k : ℕ} (hk : k < 8) : (bitMask k).toBitVec = BitVec.twoPow 8 k := by
  simp [bitMask, UInt8.toBitVec_shiftLeft, BitVec.twoPow, Nat.mod_eq_of_lt hk]

theorem hasBit_eq_getLsbD (b : UInt8) {k : ℕ} (hk : k < 8) : hasBit b k = b.toBitVec.getLsbD k := by
  have hne : BitVec.twoPow 8 k ≠ 0#8 := by
    intro he
    have hbit := congrArg (fun v => v.getLsbD k) he
    simp [hk] at hbit
  have hand : (b &&& bitMask k = 0) ↔ b.toBitVec.getLsbD k = false := by
    rw [← UInt8.toBitVec_inj, UInt8.toBitVec_and, bitMask_toBitVec hk, BitVec.and_twoPow]
    split
    · next hb =>
      rw [hb]
      exact ⟨fun h => absurd h hne, fun h => by cases h⟩
    · next hb => exact ⟨fun _ => by simpa using hb, fun _ => rfl⟩
  rw [hasBit]
  cases hb : b.toBitVec.getLsbD k
  · simpa using hand.mpr hb
  · simp [hand, hb]

/-- Setting a mask sets that bit and leaves the other seven alone. -/
theorem hasBit_or_bitMask (b : UInt8) {j k : ℕ} (hj : j < 8) (hk : k < 8) :
    hasBit (b ||| bitMask k) j = (hasBit b j || decide (k = j)) := by
  rw [hasBit_eq_getLsbD _ hj, hasBit_eq_getLsbD _ hj, UInt8.toBitVec_or, BitVec.getLsbD_or,
    bitMask_toBitVec hk, BitVec.getLsbD_twoPow]
  simp [hk]

@[simp] theorem hasBit_zero (k : ℕ) : hasBit 0 k = false := by
  simp [hasBit]

end PrivateChannels
