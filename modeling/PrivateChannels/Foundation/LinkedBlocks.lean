import Mathlib

/-!
# Blocks linked to their parents

Every block names the slot of the one before it. Slots may be skipped, so a slot is known
to be empty only from a later block whose parent lies below it.
-/

namespace PrivateChannels

variable {β : Type*} {slot parent : β → ℕ} {blocks : List β}

/-- Slots increase, and each block's parent is the block before it. -/
def Linked (slot parent : β → ℕ) (blocks : List β) : Prop :=
  blocks.IsChain fun b c => slot b < slot c ∧ parent c = slot b

namespace Linked

/-- Slots increase along the chain, not only from block to block. -/
theorem ascending (h : Linked slot parent blocks) : blocks.Pairwise (slot · < slot ·) := by
  have hlt : blocks.IsChain (slot · < slot ·) := h.imp fun _ _ h => h.1
  exact hlt.pairwise

/-- Two blocks of one slot are one block. -/
theorem eq_of_slot_eq (h : Linked slot parent blocks) {b c : β} (hb : b ∈ blocks)
    (hc : c ∈ blocks) (heq : slot b = slot c) : b = c := by
  have hnodup : (blocks.map slot).Nodup :=
    List.pairwise_map.mpr (h.ascending.imp fun hlt => hlt.ne)
  exact List.inj_on_of_nodup_map hnodup hb hc heq

/-- Nothing lies between a block and its parent. -/
theorem le_parent (h : Linked slot parent blocks) {b c : β} (hb : b ∈ blocks) (hc : c ∈ blocks)
    (hlt : slot c < slot b) : slot c ≤ parent b := by
  induction blocks generalizing c with
  | nil => cases hb
  | cons a rest ih =>
    obtain ⟨habove, hsorted⟩ := List.pairwise_cons.mp h.ascending
    have hrest : Linked slot parent rest := List.IsChain.tail h
    rcases List.mem_cons.mp hb with rfl | hb'
    · rcases List.mem_cons.mp hc with rfl | hc'
      · omega
      · have := habove c hc'
        omega
    rcases List.mem_cons.mp hc with rfl | hc'
    · cases rest with
      | nil => cases hb'
      | cons next rest =>
        obtain ⟨hlink, -⟩ := List.isChain_cons_cons.mp h
        rcases List.mem_cons.mp hb' with rfl | hb''
        · exact hlink.2.ge
        · have hnext : slot next < slot b := (List.pairwise_cons.mp hsorted).1 b hb''
          have hbelow := ih hrest hb' List.mem_cons_self hnext
          omega
    · exact ih hrest hb' hc' hlt

end Linked

end PrivateChannels
