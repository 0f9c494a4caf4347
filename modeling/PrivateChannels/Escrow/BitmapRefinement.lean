import PrivateChannels.Escrow.WithdrawalBitmap
import PrivateChannels.Escrow.ReplayGuard

/-!
# The bitmap account refines the replay guard

The bytes represent a guard when the header agrees and, for every nonce of the stored
generation, the bit says whether it was released. Bits of other generations are
unconstrained.
-/

namespace PrivateChannels.Escrow.WithdrawalBitmap

variable {data : Data}

theorem length_overwrite {offset : ℕ} {src : List UInt8}
    (h : offset + src.length ≤ data.length) : (overwrite data offset src).length = data.length := by
  simp only [overwrite, List.length_append, List.length_take, List.length_drop]
  omega

theorem getElem?_overwrite {offset : ℕ} {src : List UInt8}
    (h : offset + src.length ≤ data.length) (i : ℕ) :
    (overwrite data offset src)[i]? =
      if offset ≤ i ∧ i < offset + src.length then src[i - offset]? else data[i]? := by
  have ht : (data.take offset).length = offset := by simp; omega
  unfold overwrite
  split
  · rw [List.getElem?_append_left (by simp; omega), List.getElem?_append_right (by omega), ht]
  · by_cases hlt : i < offset
    · rw [List.append_assoc, List.getElem?_append_left (by omega), List.getElem?_take_of_lt hlt]
    · rw [List.getElem?_append_right (by simp; omega), List.getElem?_drop]
      congr 1
      simp only [List.length_append, ht]
      omega

/-- The generation reads its eight bytes and nothing else. -/
theorem generation_congr {a b : Data}
    (h : ∀ i, generationOffset ≤ i → i < bitsOffset → a[i]? = b[i]?) :
    generation a = generation b := by
  have he : (a.drop generationOffset).take (bitsOffset - generationOffset) =
      (b.drop generationOffset).take (bitsOffset - generationOffset) := by
    apply List.ext_getElem?
    intro i
    by_cases hi : i < bitsOffset - generationOffset
    · rw [List.getElem?_take_of_lt hi, List.getElem?_take_of_lt hi, List.getElem?_drop,
        List.getElem?_drop]
      exact h _ (by omega) (by omega)
    · rw [List.getElem?_eq_none (by simp; omega), List.getElem?_eq_none (by simp; omega)]
  rw [generation, generation, he]

variable {w : Window}

/-- A bit reads one byte past the header. -/
theorem bit_congr {a b : Data} {nonce : UInt64}
    (h : ∀ i, bitsOffset ≤ i → i < len w → a[i]? = b[i]?) : bit w a nonce = bit w b nonce := by
  have hlt := Nat.mod_lt nonce.toNat w.pos
  have hdvd := Nat.div_mul_cancel w.dvd
  simp only [bit, List.getD_eq_getElem?_getD]
  rw [h _ (by omega) (by simp only [len, Window.bitmapBytes]; omega)]

theorem length_setGeneration {g : ℕ} (h : bitsOffset ≤ data.length) :
    (setGeneration data g).length = data.length :=
  length_overwrite (by simpa [generationOffset, bitsOffset] using h)

theorem getElem?_setGeneration {g i : ℕ} (h : bitsOffset ≤ data.length)
    (hi : i < generationOffset ∨ bitsOffset ≤ i) : (setGeneration data g)[i]? = data[i]? := by
  rw [setGeneration, getElem?_overwrite (by simpa [generationOffset, bitsOffset] using h), if_neg]
  simp only [length_leBytes, generationOffset, bitsOffset] at hi ⊢
  omega

/-- Storing a generation that fits its eight bytes reads back. -/
theorem generation_setGeneration {g : ℕ} (h : bitsOffset ≤ data.length)
    (hg : g < 2 ^ 64) : (generation (setGeneration data g)).toNat = g := by
  have he : ((setGeneration data g).drop generationOffset).take
      (bitsOffset - generationOffset) = leBytes 8 g := by
    apply List.ext_getElem?
    intro i
    by_cases hi : i < 8
    · rw [List.getElem?_take_of_lt (by simpa [bitsOffset, generationOffset] using hi),
        List.getElem?_drop, setGeneration,
        getElem?_overwrite (by simpa [generationOffset, bitsOffset] using h),
        if_pos (by simp; omega)]
      congr 1
      omega
    · rw [List.getElem?_eq_none (by simp [bitsOffset, generationOffset]; omega),
        List.getElem?_eq_none (by simp; omega)]
  rw [generation, he, leNat_leBytes (by simpa using hg)]
  simpa using hg

theorem getElem?_setBit {nonce : UInt64} {i : ℕ}
    (hi : i < bitsOffset) : (setBit w data nonce)[i]? = data[i]? := by
  rw [setBit, List.getElem?_set_ne (by omega)]

section

variable (h : len w ≤ data.length)
include h

theorem length_clearBits : (clearBits w data).length = data.length :=
  length_overwrite (by simpa [len] using h)

theorem getElem?_clearBits {i : ℕ} (hi : i < bitsOffset) : (clearBits w data)[i]? = data[i]? := by
  rw [clearBits, getElem?_overwrite (by simpa [len] using h), if_neg (by omega)]

theorem bit_clearBits (nonce : UInt64) : bit w (clearBits w data) nonce = false := by
  have hlt := Nat.mod_lt nonce.toNat w.pos
  have hdvd := Nat.div_mul_cancel w.dvd
  have hi : nonce.toNat % w.noncesPerGeneration / 8 < w.bitmapBytes := by
    simp only [Window.bitmapBytes]; omega
  simp only [bit, List.getD_eq_getElem?_getD, clearBits]
  rw [getElem?_overwrite (by simpa [len] using h), if_pos (by simpa using hi)]
  simp [hi]

/-- Setting one nonce's bit sets one position. -/
theorem hasBit_setBit (n : UInt64) (i : ℕ) {k : ℕ} (hk : k < 8) :
    hasBit ((setBit w data n).getD (bitsOffset + i) 0) k =
      (hasBit (data.getD (bitsOffset + i) 0) k ||
        decide (n.toNat % w.noncesPerGeneration = i * 8 + k)) := by
  have hn := Nat.mod_lt n.toNat w.pos
  have hdvd := Nat.div_mul_cancel w.dvd
  have hlen : bitsOffset + n.toNat % w.noncesPerGeneration / 8 < data.length := by
    simp only [len, Window.bitmapBytes] at h
    omega
  simp only [setBit, List.getD_eq_getElem?_getD, List.getElem?_set, hlen, if_true]
  by_cases hb : bitsOffset + n.toNat % w.noncesPerGeneration / 8 = bitsOffset + i
  · simp only [hb, if_true, Option.getD_some]
    rw [hasBit_or_bitMask _ hk (by omega)]
    congr 1
    rw [decide_eq_decide]
    omega
  · have hne : n.toNat % w.noncesPerGeneration ≠ i * 8 + k := by
      intro he
      exact hb (by omega)
    rw [if_neg hb]
    simp [hne]

/-- Setting one nonce's bit sets the bit of exactly the nonces at its position. -/
theorem bit_setBit (n m : UInt64) :
    bit w (setBit w data n) m =
      (bit w data m ||
        decide (n.toNat % w.noncesPerGeneration = m.toNat % w.noncesPerGeneration)) := by
  have hpos := Nat.div_add_mod' (m.toNat % w.noncesPerGeneration) 8
  rw [bit, hasBit_setBit h n _ (Nat.mod_lt _ (by norm_num)), hpos]
  rfl

end

/-- The account data represents a guard. -/
structure Represents (w : Window) (data : Data) (s : Guard) : Prop where
  length_le : len w ≤ data.length
  tag : data.getD 0 0 = if s.live then discriminator else 0
  generation_eq : (generation data).toNat = s.generation
  bit_iff : ∀ n : UInt64, n.toNat / w.noncesPerGeneration = s.generation →
    (bit w data n = true ↔ n.toNat ∈ s.released)
  bounded : ∀ n ∈ s.released, n / w.noncesPerGeneration ≤ s.generation
  dormant : s.live = false → s = Guard.empty

variable {w : Window} {data : Data} {s : Guard}

/-- An account as `CreateAccount` leaves it represents the empty guard. -/
theorem represents_zero (hl : len w ≤ data.length) (h0 : ∀ b ∈ data, b = 0) :
    Represents w data Guard.empty := by
  have hget : ∀ i : ℕ, data[i]?.getD 0 = (0 : UInt8) := by
    intro i
    cases hi : data[i]? with
    | none => rfl
    | some b => exact h0 b (List.mem_of_getElem? hi)
  refine ⟨hl, ?_, ?_, ?_, by simp [Guard.empty], fun _ => rfl⟩
  · simp [Guard.empty, List.getD_eq_getElem?_getD, hget]
  · rw [generation, leNat_eq_zero fun b hb => h0 b (List.mem_of_mem_drop (List.mem_of_mem_take hb))]
    rfl
  · simp [bit, Guard.empty, List.getD_eq_getElem?_getD, hget]

section

variable (h : Represents w data s)

include h

theorem Represents.initialised_iff :
    initialised data ↔ s.live = true := by
  rw [initialised, h.tag]
  cases s.live <;> simp [discriminator]

/-- The checks shared by both instructions pass exactly on a live guard. -/
theorem Represents.validate_run :
    (validate w).run data =
      if s.live then .ok () data else .error .invalidAccountData data := by
  have hlen := h.length_le
  have hne : data.isEmpty = false := by
    cases data with
    | nil => simp [len, bitsOffset] at hlen
    | cons => rfl
  rw [WithdrawalBitmap.validate_run, h.tag, verifyLen_run,
    if_neg (by omega : ¬ data.length < len w)]
  cases s.live <;> simp [hne, discriminator]

/-- Initialising a dormant account represents a live guard at generation zero. -/
theorem Represents.initialise (hs : s.live = false) (bump : UInt8) :
    Represents w (setGeneration ((data.set 0 discriminator).set bumpOffset bump) 0)
      (s.apply .init) := by
  obtain rfl := h.dormant hs
  have hlen := h.length_le
  have hl : len w ≤ ((data.set 0 discriminator).set bumpOffset bump).length := by simpa using hlen
  have hb : bitsOffset ≤ ((data.set 0 discriminator).set bumpOffset bump).length := by
    simp only [len] at hl
    omega
  refine ⟨?_, ?_, ?_, ?_, ?_, ?_⟩
  · rw [length_setGeneration hb]; exact hl
  · rw [List.getD_eq_getElem?_getD, getElem?_setGeneration hb (.inl (by decide))]
    have h0 : 0 < data.length := by simp only [len, bitsOffset] at hlen; omega
    simp [bumpOffset, h0, Guard.apply]
  · exact generation_setGeneration hb (by norm_num)
  · intro n hn
    have hbit : bit w (setGeneration ((data.set 0 discriminator).set bumpOffset bump) 0) n =
        bit w data n := by
      apply bit_congr
      intro i hi _
      rw [getElem?_setGeneration hb (.inr hi), List.getElem?_set_ne, List.getElem?_set_ne] <;>
        simp only [bitsOffset, bumpOffset] at * <;> omega
    rw [hbit]
    exact h.bit_iff n hn
  · simp [Guard.apply]
  · simp [Guard.apply]

/-- Consuming a fresh nonce of the stored generation represents its release. -/
theorem Represents.consume (hlive : s.live = true) {n : UInt64}
    (hn : n.toNat / w.noncesPerGeneration = s.generation) :
    Represents w (setBit w data n) (s.apply (.release n.toNat)) := by
  refine ⟨?_, ?_, ?_, ?_, ?_, ?_⟩
  · simpa [setBit] using h.length_le
  · rw [List.getD_eq_getElem?_getD, getElem?_setBit (by decide), ← List.getD_eq_getElem?_getD]
    exact h.tag
  · rw [generation_congr (fun i _ hi => getElem?_setBit hi)]
    exact h.generation_eq
  · intro m hm
    have hm' : m.toNat / w.noncesPerGeneration = s.generation := hm
    have hpos : n.toNat % w.noncesPerGeneration = m.toNat % w.noncesPerGeneration ↔
        m.toNat = n.toNat := by
      constructor
      · intro he
        rw [← Nat.div_add_mod m.toNat w.noncesPerGeneration,
          ← Nat.div_add_mod n.toNat w.noncesPerGeneration, hn, hm', he]
      · intro he; rw [he]
    rw [bit_setBit h.length_le, Bool.or_eq_true, decide_eq_true_iff, hpos, h.bit_iff m hm']
    simp [Guard.apply, or_comm]
  · simpa [Guard.apply, hn] using h.bounded
  · simp [Guard.apply, hlive]

/-- Clearing the bits and storing the next generation represents a rotation. -/
theorem Represents.advance (hlive : s.live = true)
    (hcap : s.generation + 1 < 2 ^ 64) (g : ℕ) :
    Represents w (setGeneration (clearBits w data) (s.generation + 1)) (s.apply (.rotate g)) := by
  have hl := h.length_le
  have hlc : (clearBits w data).length = data.length := length_clearBits hl
  have hb : bitsOffset ≤ (clearBits w data).length := by
    rw [hlc]; simp only [len] at hl; omega
  refine ⟨?_, ?_, ?_, ?_, ?_, ?_⟩
  · rw [length_setGeneration hb, hlc]; exact hl
  · rw [List.getD_eq_getElem?_getD, getElem?_setGeneration hb (.inl (by decide)),
      getElem?_clearBits hl (by decide), ← List.getD_eq_getElem?_getD]
    exact h.tag
  · exact generation_setGeneration hb hcap
  · intro n hn
    have hn' : n.toNat / w.noncesPerGeneration = s.generation + 1 := hn
    have hbit : bit w (setGeneration (clearBits w data) (s.generation + 1)) n = false := by
      rw [← bit_clearBits hl n]
      exact bit_congr fun i hi _ => getElem?_setGeneration hb (.inr hi)
    rw [hbit]
    simp only [Bool.false_eq_true, false_iff]
    intro hmem
    have := h.bounded _ hmem
    omega
  · exact fun n hn => (h.bounded n hn).trans (Nat.le_succ _)
  · simp [Guard.apply, hlive]

/-- At the last generation a refused rotation has still cleared the bits, of which no `u64`
nonce had one. -/
theorem Represents.clear_last (hlast : ¬ s.generation + 1 < 2 ^ 64) :
    Represents w (clearBits w data) s := by
  have hl := h.length_le
  refine ⟨?_, ?_, ?_, ?_, h.bounded, h.dormant⟩
  · rw [length_clearBits hl]; exact hl
  · rw [List.getD_eq_getElem?_getD, getElem?_clearBits hl (by decide),
      ← List.getD_eq_getElem?_getD]
    exact h.tag
  · rw [generation_congr (fun i _ hi => getElem?_clearBits hl hi)]
    exact h.generation_eq
  · intro n hn
    exfalso
    have hlt := n.toNat_lt
    have hsize : 8 ≤ w.noncesPerGeneration := Nat.le_of_dvd w.pos w.dvd
    have hdiv : n.toNat / w.noncesPerGeneration ≤ n.toNat / 8 :=
      Nat.div_le_div_left hsize (by norm_num)
    omega

end

end PrivateChannels.Escrow.WithdrawalBitmap
