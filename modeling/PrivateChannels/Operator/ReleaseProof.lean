import PrivateChannels.Escrow.BitmapChain
import PrivateChannels.Operator.Finality

/-!
# Proving on chain whether a nonce was released

`verify_release_landed_at` binds the bitmap read to the slot of the finalized blockhash. A
clear bit proves non-release only once the tip is past every attempt's last valid height.
-/

namespace PrivateChannels.Operator

open Escrow Escrow.WithdrawalBitmap
open Storage (Signature)

/-- The consumed-nonce window the chain is currently enforcing. -/
structure BitmapState where
  generation : ℕ
  /-- Absolute nonces whose bit is set, ascending. -/
  consumed : List ℕ
  deriving DecidableEq, Repr

/-- `u64::saturating_mul`. -/
def saturatingMul (a b : ℕ) : ℕ := min (a * b) (2 ^ 64 - 1)

/-- The nonces of one byte of the bitmap. -/
def consumedOfByte (base index : ℕ) (byte : UInt8) : List ℕ :=
  (List.range 8).filterMap fun k =>
    if hasBit byte k then some (base + index * 8 + k) else none

/-- `parse_withdrawal_bitmap`: every set bit as an absolute nonce. The `u64` overflow past a
saturated base is left out: no run of the program leaves a bit set in such a generation. -/
def parseWithdrawalBitmap (w : Window) (data : Data) : Except String BitmapState :=
  let got := data.length
  let want := len w
  if got < want then
    .error s!"withdrawal bitmap too short: {got} bytes, expected at least {want}"
  else if data.getD 0 0 ≠ discriminator then
    let found := (data.getD 0 0).toNat
    .error s!"not a withdrawal bitmap: discriminator {found}"
  else
    let generation := (WithdrawalBitmap.generation data).toNat
    let base := saturatingMul generation w.noncesPerGeneration
    .ok ⟨generation, (List.range w.bitmapBytes).flatMap fun i =>
      consumedOfByte base i (data.getD (bitsOffset + i) 0)⟩

/-- The nonce falls in the window the bitmap currently covers. -/
def BitmapState.covers (w : Window) (s : BitmapState) (nonce : UInt64) : Bool :=
  nonce.toNat / w.noncesPerGeneration == s.generation

/-- The source searches the ascending list by halving, which finds exactly its
members. -/
def BitmapState.isConsumed (w : Window) (s : BitmapState) (nonce : UInt64) : Bool :=
  s.covers w nonce && s.consumed.contains nonce.toNat

theorem mem_consumedOfByte {base index n : ℕ} {byte : UInt8} :
    n ∈ consumedOfByte base index byte ↔
      ∃ k, k < 8 ∧ hasBit byte k = true ∧ n = base + index * 8 + k := by
  simp only [consumedOfByte, List.mem_filterMap, List.mem_range]
  constructor
  · rintro ⟨k, hk, he⟩
    split at he
    · next hb => exact ⟨k, hk, hb, (Option.some.inj he).symm⟩
    · cases he
  · rintro ⟨k, hk, hb, rfl⟩
    exact ⟨k, hk, by simp [hb]⟩

/-- The decoded nonces are ascending, which the binary search relies on. -/
theorem consumed_ascending {w : Window} {data : Data} {s : BitmapState}
    (h : parseWithdrawalBitmap w data = .ok s) : s.consumed.Pairwise (· < ·) := by
  unfold parseWithdrawalBitmap at h
  dsimp only at h
  split at h
  · cases h
  split at h
  · cases h
  cases h
  rw [List.pairwise_flatMap]
  refine ⟨fun i _ => ?_, ?_⟩
  · refine List.Pairwise.filterMap _ ?_ (List.pairwise_lt_range (n := 8))
    intro k k' hlt n hn n' hn'
    split at hn <;> split at hn' <;> simp at hn hn'
    omega
  · refine (List.pairwise_lt_range (n := w.bitmapBytes)).imp ?_
    intro i j hij n hn n' hn'
    obtain ⟨k, hk, _, rfl⟩ := mem_consumedOfByte.mp hn
    obtain ⟨k', hk', _, rfl⟩ := mem_consumedOfByte.mp hn'
    omega

/-- Decoding reads back the account: the generation, and the marked nonces. -/
theorem parseWithdrawalBitmap_spec {w : Window} {data : Data} {s : BitmapState}
    (h : parseWithdrawalBitmap w data = .ok s) :
    s.generation = (generation data).toNat ∧
      ∀ nonce, s.isConsumed w nonce = marked w data nonce := by
  unfold parseWithdrawalBitmap at h
  dsimp only at h
  split at h
  · cases h
  split at h
  · cases h
  cases h
  refine ⟨rfl, fun nonce => ?_⟩
  simp only [BitmapState.isConsumed, BitmapState.covers, marked]
  cases hgen : nonce.toNat / w.noncesPerGeneration == (generation data).toNat with
  | false => simp
  | true =>
    have hgen' := beq_iff_eq.mp hgen
    have hsplit := Nat.div_add_mod nonce.toNat w.noncesPerGeneration
    have hlt := Nat.mod_lt nonce.toNat w.pos
    have hn := nonce.toNat_lt
    have hbase : saturatingMul (generation data).toNat w.noncesPerGeneration =
        w.noncesPerGeneration * (nonce.toNat / w.noncesPerGeneration) := by
      rw [saturatingMul, ← hgen', Nat.mul_comm]
      exact min_eq_left (by omega)
    have hdvd := Nat.div_mul_cancel w.dvd
    rw [Bool.true_and, Bool.true_and, Bool.eq_iff_iff, List.contains_iff_mem, List.mem_flatMap]
    simp only [List.mem_range, mem_consumedOfByte, hbase, bit, Window.bitmapBytes]
    constructor
    · rintro ⟨i, _, k, hk, hb, he⟩
      have hmod : nonce.toNat % w.noncesPerGeneration = i * 8 + k := by omega
      have hi : (i * 8 + k) / 8 = i := by omega
      have hk' : (i * 8 + k) % 8 = k := by omega
      rw [hmod, hi, hk']
      exact hb
    · intro hb
      exact ⟨nonce.toNat % w.noncesPerGeneration / 8, by omega,
        nonce.toNat % w.noncesPerGeneration % 8, by omega, hb, by omega⟩

/-- After every run the account decodes, to the rotations and the released nonces in order. -/
theorem parseWithdrawalBitmap_run {w : Window} {account data : Data} {events : List Event}
    (hl : len w ≤ account.length) (h0 : ∀ b ∈ account, b = 0)
    (hrun : Run (Step w) account events data) (hinit : initialised data) :
    ∃ s, parseWithdrawalBitmap w data = .ok s ∧ s.generation = events.countP Event.isRotate ∧
      s.consumed.Pairwise (· < ·) ∧ ∀ nonce, s.isConsumed w nonce ↔
        nonce.toNat / w.noncesPerGeneration = s.generation ∧ ⟨.release nonce, none⟩ ∈ events := by
  obtain ⟨_, _, hrep⟩ := exists_guard_run hl h0 hrun
  obtain ⟨s, hs⟩ : ∃ s, parseWithdrawalBitmap w data = .ok s := by
    unfold parseWithdrawalBitmap
    rw [initialised] at hinit
    dsimp only
    rw [if_neg (Nat.not_lt.mpr hrep.length_le), if_neg (not_not.mpr hinit)]
    exact ⟨_, rfl⟩
  obtain ⟨hgen, hmarked⟩ := parseWithdrawalBitmap_spec hs
  refine ⟨s, hs, hgen.trans (countP_isRotate hl h0 hrun).symm, consumed_ascending hs, ?_⟩
  intro nonce
  rw [hmarked, marked_iff hl h0 hrun, hgen]

/-- One release on the test-sized window. -/
theorem parseWithdrawalBitmap_run_test_tree :
    ∃ s, parseWithdrawalBitmap .testTree [3, 255, 0, 0, 0, 0, 0, 0, 0, 0, 8] = .ok s ∧
      s.isConsumed .testTree 3 := by
  have hrun : Run (Step .testTree) (List.replicate 11 0)
      [⟨.init 255, none⟩, ⟨.release 3, none⟩] [3, 255, 0, 0, 0, 0, 0, 0, 0, 0, 8] :=
    .cons (t := [3, 255, 0, 0, 0, 0, 0, 0, 0, 0, 0]) (by decide) (.single (by decide))
  obtain ⟨s, hs, hgen, _, hconsumed⟩ := parseWithdrawalBitmap_run (by decide)
    (fun _ => List.eq_of_mem_replicate) hrun (by decide)
  exact ⟨s, hs, (hconsumed 3).mpr ⟨hgen ▸ rfl, by decide⟩⟩

/-- What the proof of release says. -/
inductive ReleaseVerdict
  | landed (generation : ℕ)
  | notLanded
  | uncertain (reason : String)
  | pending (reason : String)
  deriving DecidableEq, Repr

/-- Whether an instance is configured, the finalized blockhash, and the bitmap at or past a
slot. -/
structure ReleaseReads where
  configured : Bool
  latestBlockhash : Except String (ℕ × ℕ)
  bitmapAccount : ℕ → Except String (Data × ℕ)

/-- `fetch_consumed_nonces_at`. -/
def fetchConsumedNoncesAt (w : Window) (reads : ReleaseReads) (minSlot : ℕ) :
    Except String (BitmapState × ℕ) :=
  match reads.bitmapAccount minSlot with
  | .error e => .error e
  | .ok (data, slot) =>
    match parseWithdrawalBitmap w data with
    | .error e => .error e
    | .ok state => .ok (state, slot)

/-- The verdict while the finalized tip has not passed the attempt's last valid
height. -/
def pendingVerdict (tipHeight maxLvbh : ℕ) : Option ReleaseVerdict :=
  if tipHeight ≤ maxLvbh then
    some (.pending (s!"finalized tip height {tipHeight} is not past the attempt's last valid block "
      ++ s!"height {maxLvbh}, so the bits are too stale to prove non-release"))
  else none

/-- `verify_release_landed_at`: the verdict, and the bitmap's slot when the read
shows the release window closed. -/
def verifyReleaseLandedAt (w : Window) (reads : ReleaseReads) (nonce : UInt64) (maxLvbh : ℕ) :
    ReleaseVerdict × Option ℕ :=
  if !reads.configured then (.uncertain "no instance pda configured", none)
  else
    match reads.latestBlockhash with
    | .error e => (.uncertain s!"finalized blockhash read failed: {e}", none)
    | .ok (refSlot, lvbh) =>
      if lvbh < maxProcessingAge then
        (.uncertain (s!"finalized last valid block height {lvbh} below MAX_PROCESSING_AGE; "
          ++ "cannot derive a tip height"), none)
      else
        let tipHeight := lvbh - maxProcessingAge
        match fetchConsumedNoncesAt w reads refSlot with
        | .error e =>
          ((pendingVerdict tipHeight maxLvbh).getD (.uncertain s!"bitmap read failed: {e}"), none)
        | .ok (bitmap, slot) =>
          let generation := bitmap.generation
          let number := nonce.toNat
          if number / w.noncesPerGeneration < generation then
            (.uncertain (s!"the bitmap rotated to generation {generation} and its bits say "
              ++ s!"nothing about nonce {number}"), some slot)
          else
            match pendingVerdict tipHeight maxLvbh with
            | some pending => (pending, none)
            | none =>
              if !bitmap.covers w nonce then
                (.uncertain (s!"the bitmap is on generation {generation} and its bits say "
                  ++ s!"nothing about nonce {number}"), none)
              else if bitmap.isConsumed w nonce then (.landed generation, none)
              else (.notLanded, some slot)

/-- The blockhash comes with the slot and height of its block; the bitmap from some state at or
past the requested slot. -/
structure ReleaseReads.Answered (w : Window) (call : Signature → Option Call) (account : Data)
    (now : Ledger.Chain Signature) (reads : ReleaseReads) : Prop where
  blockhash : ∀ slot lvbh, reads.latestBlockhash = .ok (slot, lvbh) →
    ∃ c, now.Extends c ∧ slot = c.tipSlot ∧ lvbh = c.tip + maxProcessingAge
  bitmap : ∀ minSlot data slot, reads.bitmapAccount minSlot = .ok (data, slot) →
    ∃ c, now.Extends c ∧ slot = c.tipSlot ∧ minSlot ≤ slot ∧ AccountAt w call account c data

/-- Attempts are included at no height above their last valid one. -/
def AttemptsBounded (lastValid : Signature → ℕ) (c : Ledger.Chain Signature) : Prop :=
  ∀ s, (⟨s, lastValid s⟩ : Ledger.Attempt Signature).Bounded c

section

variable {w : Window} {call : Signature → Option Call} {account : Data}
  {now : Ledger.Chain Signature} {reads : ReleaseReads} {nonce : UInt64} {maxLvbh : ℕ}

/-- What a verdict was reached from, where it says something about the chain. -/
inductive VerdictBasis (w : Window) (call : Signature → Option Call) (account : Data)
    (now : Ledger.Chain Signature) (nonce : UInt64) (maxLvbh : ℕ) :
    ReleaseVerdict × Option ℕ → Prop
  | silent {v : ReleaseVerdict} (hland : ∀ g, v ≠ .landed g) (hnot : v ≠ .notLanded) :
      VerdictBasis w call account now nonce maxLvbh (v, none)
  | rotated {reason : String} {c : Ledger.Chain Signature} {data : Data}
      (hc : now.Extends c) (hat : AccountAt w call account c data)
      (hgen : nonce.toNat / w.noncesPerGeneration < (generation data).toNat) :
      VerdictBasis w call account now nonce maxLvbh (.uncertain reason, some c.tipSlot)
  | landed {g : ℕ} {c : Ledger.Chain Signature} {data : Data}
      (hc : now.Extends c) (hat : AccountAt w call account c data)
      (hm : marked w data nonce = true) :
      VerdictBasis w call account now nonce maxLvbh (.landed g, none)
  | notLanded {c₁ c : Ledger.Chain Signature} {data : Data}
      (hc₁ : now.Extends c₁) (hc : now.Extends c) (hslot : c₁.tipSlot ≤ c.tipSlot)
      (htip : maxLvbh < c₁.tip) (hat : AccountAt w call account c data)
      (hgen : nonce.toNat / w.noncesPerGeneration = (generation data).toNat)
      (hm : marked w data nonce = false) :
      VerdictBasis w call account now nonce maxLvbh (.notLanded, some c.tipSlot)

/-- What each verdict rests on. -/
theorem verifyReleaseLandedAt_basis (hreads : reads.Answered w call account now) (nonce : UInt64)
    (maxLvbh : ℕ) :
    VerdictBasis w call account now nonce maxLvbh
      (verifyReleaseLandedAt w reads nonce maxLvbh) := by
  have hpending : ∀ tip v, pendingVerdict tip maxLvbh = some v →
      (∀ g, v ≠ .landed g) ∧ v ≠ .notLanded := by
    intro tip v h
    unfold pendingVerdict at h
    split at h
    · cases h
      exact ⟨by simp, by simp⟩
    · cases h
  unfold verifyReleaseLandedAt
  split
  · exact .silent (by simp) (by simp)
  split
  · exact .silent (by simp) (by simp)
  next refSlot lvbh hblockhash =>
  obtain ⟨c₁, hc₁, rfl, rfl⟩ := hreads.blockhash _ _ hblockhash
  split
  · exact .silent (by simp) (by simp)
  simp only [Nat.add_sub_cancel]
  cases hfetch : fetchConsumedNoncesAt w reads c₁.tipSlot with
  | error e =>
    cases hp : pendingVerdict c₁.tip maxLvbh with
    | none => exact .silent (by simp) (by simp)
    | some v => exact .silent (hpending _ v hp).1 (hpending _ v hp).2
  | ok read =>
    obtain ⟨bitmap, slot⟩ := read
    unfold fetchConsumedNoncesAt at hfetch
    split at hfetch
    · cases hfetch
    next data slot' haccount =>
    split at hfetch
    · cases hfetch
    next state hparse =>
    cases Except.ok.inj hfetch
    obtain ⟨c, hc, rfl, hle, hat⟩ := hreads.bitmap _ _ _ haccount
    obtain ⟨hgen, hconsumed⟩ := parseWithdrawalBitmap_spec hparse
    dsimp only
    split
    · next hrot => exact .rotated hc hat (hgen ▸ hrot)
    split
    · next v hp => exact .silent (hpending _ v hp).1 (hpending _ v hp).2
    next hp =>
    have htip : maxLvbh < c₁.tip := by
      unfold pendingVerdict at hp
      split at hp
      · cases hp
      · omega
    split
    · exact .silent (by simp) (by simp)
    next hcovers =>
    have hcov : nonce.toNat / w.noncesPerGeneration = (generation data).toNat := by
      simpa [BitmapState.covers, hgen] using hcovers
    split
    · next hm => exact .landed hc hat (hconsumed nonce ▸ hm)
    · next hm =>
      exact .notLanded hc₁ hc hle htip hat hcov (by rw [← hconsumed]; simpa using hm)

/-- After a clear bit, a release of the nonce lies past the slot it was read at. -/
theorem release_after_read {c later : Ledger.Chain Signature} {data : Data}
    (hc : later.Extends c) (hpos : 0 < c.tipSlot) (hat : AccountAt w call account c data)
    (hgen : nonce.toNat / w.noncesPerGeneration = (generation data).toNat)
    (hm : marked w data nonce = false) {b : Ledger.Block Signature} {s : Signature}
    (hb : b ∈ later.blocks) (hs : ReleasedIn call nonce s b) : c.tipSlot < b.slot := by
  rcases hc.mem_or_above hb with hold | ⟨_, hempty | habove⟩
  · exact absurd hs (hat.not_released_of_unmarked hgen hm b hold s)
  · simp [Ledger.Chain.tipSlot, hempty] at hpos
  · exact habove

/-- A block past a slot read after the tip outgrew `maxLvbh` holds only attempts
valid beyond it. -/
theorem lastValid_of_late {c₁ later : Ledger.Chain Signature} {lastValid : Signature → ℕ}
    (hc₁ : later.Extends c₁) (htip : maxLvbh < c₁.tip) (hbounded : AttemptsBounded lastValid later)
    {b : Ledger.Block Signature} {s : Signature} (hb : b ∈ later.blocks)
    (hslot : c₁.tipSlot < b.slot) (hs : ReleasedIn call nonce s b) : maxLvbh < lastValid s :=
  calc maxLvbh < c₁.tip := htip
    _ < b.height := hc₁.tip_lt_of_slot (by omega) hb hslot
    _ ≤ lastValid s := hbounded s b hb true hs.1

/-- `Landed` only of a released nonce; `NotLanded` only when no block up to the read released it
and no attempt within `maxLvbh` ever does; and a closing slot bounds every release by such an
attempt. -/
theorem verifyReleaseLandedAt_sound (hreads : reads.Answered w call account now)
    (lastValid : Signature → ℕ) (nonce : UInt64) (maxLvbh : ℕ) :
    (∀ g, (verifyReleaseLandedAt w reads nonce maxLvbh).1 = .landed g →
      ∃ b ∈ now.blocks, ∃ s, ReleasedIn call nonce s b) ∧
    ((verifyReleaseLandedAt w reads nonce maxLvbh).1 = .notLanded →
      ∃ slot, (verifyReleaseLandedAt w reads nonce maxLvbh).2 = some slot ∧
        (∀ b ∈ now.blocks, b.slot ≤ slot → ∀ s, ¬ ReleasedIn call nonce s b) ∧
        ∀ (later : Ledger.Chain Signature), later.Extends now → AttemptsBounded lastValid later →
          ∀ b ∈ later.blocks, ∀ s, ReleasedIn call nonce s b → maxLvbh < lastValid s) ∧
    (∀ slot, (verifyReleaseLandedAt w reads nonce maxLvbh).2 = some slot →
      ∀ (later : Ledger.Chain Signature) (data : Data), later.Extends now →
        AccountAt w call account later data → AttemptsBounded lastValid later →
        ∀ b ∈ later.blocks, ∀ s, ReleasedIn call nonce s b → lastValid s ≤ maxLvbh →
          b.slot ≤ slot) := by
  have hbasis := verifyReleaseLandedAt_basis hreads nonce maxLvbh
  generalize verifyReleaseLandedAt w reads nonce maxLvbh = result at hbasis
  cases hbasis with
  | silent hland hnot => exact ⟨fun g h => absurd h (hland g), fun h => absurd h hnot, by simp⟩
  | rotated hc hat hgen =>
    refine ⟨by simp, by simp, fun slot hslot later data' hext hlater _ b hb s hs _ => ?_⟩
    cases hslot
    exact Ledger.Chain.slot_le_tipSlot (hat.mem_of_released hgen (hext.trans hc) hlater hb hs)
  | landed hc hat hm =>
    obtain ⟨b, hb, s, hs⟩ := hat.released_of_marked hm
    exact ⟨fun _ _ => ⟨b, hc.mem hb, s, hs⟩, by simp, by simp⟩
  | notLanded hc₁ hc hslot htip hat hgen hm =>
    have hpos : 0 < _ := (Nat.zero_le maxLvbh).trans_lt
      (htip.trans_le ((Ledger.Chain.tip_le_tipSlot _).trans hslot))
    have hlast : ∀ later : Ledger.Chain Signature, later.Extends now →
        AttemptsBounded lastValid later → ∀ b ∈ later.blocks, ∀ s, ReleasedIn call nonce s b →
          maxLvbh < lastValid s := fun later hext hbounded b hb s hs =>
      lastValid_of_late (hext.trans hc₁) htip hbounded hb
        (hslot.trans_lt (release_after_read (hext.trans hc) hpos hat hgen hm hb hs)) hs
    refine ⟨by simp, fun _ => ⟨_, rfl, fun b hb hle s hs => ?_, hlast⟩, ?_⟩
    · exact absurd (release_after_read hc hpos hat hgen hm hb hs) (by omega)
    · intro slot _ later data' hext _ hbounded b hb s hs hle
      exact absurd (hlast later hext hbounded b hb s hs) (by omega)

end

/-- One released and one unreleased nonce of the first generation, read after
the tip has passed the attempts' last valid height. -/
theorem verifyReleaseLandedAt_sound_test_tree :
    ∃ (now : Ledger.Chain Signature) (call : Signature → Option Call) (reads : ReleaseReads),
      verifyReleaseLandedAt .testTree reads 3 150 = (.landed 0, none) ∧
      verifyReleaseLandedAt .testTree reads 4 150 = (.notLanded, some 210) ∧
      (∃ b ∈ now.blocks, ∃ s, ReleasedIn call 3 s b) ∧
      ∀ later : Ledger.Chain Signature, later.Extends now → AttemptsBounded (fun _ => 150) later →
        ∀ b ∈ later.blocks, ∀ s, ¬ ReleasedIn call 4 s b := by
  let now : Ledger.Chain Signature :=
    ⟨[⟨10, 9, [(⟨1⟩, true)]⟩, ⟨12, 11, [(⟨2⟩, true)]⟩, ⟨210, 200, []⟩],
      by simp, by simp, by simp, by simp +contextual⟩
  let call : Signature → Option Call := fun s =>
    if s.id = 1 then some (.init 255) else some (.release 3)
  let account : Data := List.replicate 11 0
  let data : Data := [3, 255, 0, 0, 0, 0, 0, 0, 0, 0, 8]
  let reads : ReleaseReads := ⟨true, .ok (210, 350),
    fun min => if min ≤ 210 then .ok (data, 210) else .error "min slot not reached"⟩
  have hat : AccountAt .testTree call account now data :=
    ⟨by decide, fun _ => List.eq_of_mem_replicate,
      .cons (t := [3, 255, 0, 0, 0, 0, 0, 0, 0, 0, 0]) (by decide) (.single (by decide))⟩
  have hreads : reads.Answered .testTree call account now := by
    constructor
    · rintro slot lvbh h
      cases Except.ok.inj h
      exact ⟨now, .refl _, rfl, rfl⟩
    · rintro minSlot data' slot h
      simp only [reads] at h
      split at h
      · next hmin =>
        cases Except.ok.inj h
        exact ⟨now, .refl _, rfl, hmin, hat⟩
      · cases h
  have hlanded : verifyReleaseLandedAt .testTree reads 3 150 = (.landed 0, none) := by decide
  have hnot : verifyReleaseLandedAt .testTree reads 4 150 = (.notLanded, some 210) := by decide
  refine ⟨now, call, reads, hlanded, hnot, ?_, ?_⟩
  · exact (verifyReleaseLandedAt_sound hreads (fun _ => 150) 3 150).1 0 (by rw [hlanded])
  · intro later hext hbounded b hb s hs
    obtain ⟨_, _, _, hnever⟩ :=
      (verifyReleaseLandedAt_sound hreads (fun _ => 150) 4 150).2.1 (by rw [hnot])
    exact absurd (hnever later hext hbounded b hb s hs) (lt_irrefl _)

end PrivateChannels.Operator
