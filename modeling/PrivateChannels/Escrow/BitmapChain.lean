import PrivateChannels.Escrow.BitmapRuns
import PrivateChannels.Foundation.Ledger
import PrivateChannels.Storage.Row

/-!
# The bitmap account on a chain

Every successful transaction performed its call, in block order. The bytes at a chain
state answer for the releases of their own generation, and a generation past a nonce
closes it for good.
-/

namespace PrivateChannels.Escrow

open WithdrawalBitmap Ledger
open Storage (Signature)

/-- The calls that took effect in a list of blocks. -/
def bitmapEvents (call : Signature → Option Call) (blocks : List (Block Signature)) : List Event :=
  (blocks.flatMap (·.txs)).filterMap fun tx =>
    if tx.2 then (call tx.1).map fun c => ⟨c, none⟩ else none

theorem bitmapEvents_append (call : Signature → Option Call) (l m : List (Block Signature)) :
    bitmapEvents call (l ++ m) = bitmapEvents call l ++ bitmapEvents call m := by
  simp [bitmapEvents]

/-- The block released the nonce through this signature. -/
def ReleasedIn (call : Signature → Option Call) (nonce : UInt64) (s : Signature)
    (b : Block Signature) : Prop :=
  (s, true) ∈ b.txs ∧ call s = some (.release nonce)

/-- The releases of some blocks. -/
theorem mem_bitmapEvents {call : Signature → Option Call} {blocks : List (Block Signature)}
    {nonce : UInt64} : (⟨.release nonce, none⟩ : Event) ∈ bitmapEvents call blocks ↔
      ∃ b ∈ blocks, ∃ s, ReleasedIn call nonce s b := by
  simp only [bitmapEvents, List.mem_filterMap, List.mem_flatMap, ReleasedIn]
  constructor
  · rintro ⟨⟨s, ok⟩, ⟨b, hb, hs⟩, he⟩
    cases ok with
    | false => simp at he
    | true =>
      simp only [if_true, Option.map_eq_some_iff, Event.mk.injEq, and_true] at he
      obtain ⟨c, hc, rfl⟩ := he
      exact ⟨b, hb, s, hs, hc⟩
  · rintro ⟨b, hb, s, hs, hc⟩
    exact ⟨(s, true), ⟨b, hb, hs⟩, by simp [hc]⟩

/-- The account's bytes at a chain state, from the zeroed account. -/
structure AccountAt (w : Window) (call : Signature → Option Call) (account : Data)
    (c : Chain Signature) (data : Data) : Prop where
  length : len w ≤ account.length
  zeroed : ∀ b ∈ account, b = 0
  run : Run (Step w) account (bitmapEvents call c.blocks) data

variable {w : Window} {call : Signature → Option Call} {account data data' : Data}
  {c c' : Chain Signature} {nonce : UInt64}

section

variable (h : AccountAt w call account c data)
include h

/-- A marked nonce was released in some block. -/
theorem AccountAt.released_of_marked (hm : marked w data nonce = true) :
    ∃ b ∈ c.blocks, ∃ s, ReleasedIn call nonce s b :=
  mem_bitmapEvents.mp ((marked_iff h.length h.zeroed h.run nonce).mp hm).2

/-- An unmarked nonce of the stored generation was released in no block. -/
theorem AccountAt.not_released_of_unmarked
    (hgen : nonce.toNat / w.noncesPerGeneration = (generation data).toNat)
    (hm : marked w data nonce = false) : ∀ b ∈ c.blocks, ∀ s, ¬ ReleasedIn call nonce s b := by
  intro b hb s hs
  have := (marked_iff h.length h.zeroed h.run nonce).mpr
    ⟨hgen, mem_bitmapEvents.mpr ⟨b, hb, s, hs⟩⟩
  rw [hm] at this
  cases this

/-- Past a nonce's generation, every block that released it is already there. -/
theorem AccountAt.mem_of_released
    (hgen : nonce.toNat / w.noncesPerGeneration < (generation data).toNat) (hext : c'.Extends c)
    (h' : AccountAt w call account c' data') {b : Block Signature} {s : Signature}
    (hb : b ∈ c'.blocks) (hs : ReleasedIn call nonce s b) : b ∈ c.blocks := by
  obtain ⟨rest, hrest⟩ := hext
  rw [← hrest, List.mem_append] at hb
  rcases hb with hb | hb
  · exact hb
  · exfalso
    have hrun := h'.run
    rw [← hrest, bitmapEvents_append] at hrun
    obtain ⟨mid, hmid, hafter⟩ := hrun.split
    obtain rfl : mid = data := Step.run_unique hmid h.run
    obtain ⟨g, _, hrep⟩ := exists_guard_run h.length h.zeroed h.run
    rw [hrep.generation_eq] at hgen
    exact hrep.no_release_below hgen hafter (mem_bitmapEvents.mpr ⟨b, hb, s, hs⟩)

theorem AccountAt.generation_le (h' : AccountAt w call account c' data') (hext : c'.Extends c) :
    (generation data).toNat ≤ (generation data').toNat := by
  obtain ⟨rest, hrest⟩ := hext
  rw [← countP_isRotate h.length h.zeroed h.run, ← countP_isRotate h'.length h'.zeroed h'.run,
    ← hrest, bitmapEvents_append, List.countP_append]
  omega

/-- A rotation that lands raises the generation. -/
theorem AccountAt.generation_lt (h' : AccountAt w call account c' data') (hext : c'.Extends c)
    {s : Signature} {g : UInt64} (hcall : call s = some (.rotate g)) (hnew : ¬ c.Landed s)
    (hlanded : c'.Landed s) : (generation data).toNat < (generation data').toNat := by
  obtain ⟨rest, hrest⟩ := hext
  obtain ⟨b, hb, hs⟩ := hlanded
  have hrotate : (⟨.rotate g, none⟩ : Event) ∈ bitmapEvents call rest := by
    rw [← hrest, List.mem_append] at hb
    rcases hb with hb | hb
    · exact absurd ⟨b, hb, hs⟩ hnew
    · exact List.mem_filterMap.mpr
        ⟨(s, true), List.mem_flatMap.mpr ⟨b, hb, hs⟩, by simp [hcall]⟩
  have hpos : 0 < (bitmapEvents call rest).countP Event.isRotate :=
    List.countP_pos_iff.mpr ⟨_, hrotate, rfl⟩
  rw [← countP_isRotate h.length h.zeroed h.run, ← countP_isRotate h'.length h'.zeroed h'.run,
    ← hrest, bitmapEvents_append, List.countP_append]
  omega

end

end PrivateChannels.Escrow
