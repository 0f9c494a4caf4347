import Mathlib

/-!
# Ledgers and the fate of a signed attempt

A chain state is a list of blocks in which a signature executes at most once. An attempt
can be included only up to its last valid height; past it, one that has not executed is
settled for good.
-/

namespace PrivateChannels.Ledger

/-- One block: the signatures it executed, each with whether it succeeded. -/
structure Block (σ : Type*) where
  slot : ℕ
  height : ℕ
  txs : List (σ × Bool)

/-- A chain state, oldest block first. -/
structure Chain (σ : Type*) where
  blocks : List (Block σ)
  slots : blocks.Pairwise (·.slot < ·.slot)
  heights : blocks.Pairwise (·.height < ·.height)
  height_le_slot : ∀ b ∈ blocks, b.height ≤ b.slot
  once : ∀ b ∈ blocks, ∀ b' ∈ blocks, ∀ s x y, (s, x) ∈ b.txs → (s, y) ∈ b'.txs → b = b' ∧ x = y

variable {σ : Type*}

/-- The chain before its first block. -/
def Chain.empty : Chain σ := ⟨[], .nil, .nil, by simp, by simp⟩

namespace Chain

variable {c c' c₁ c₂ : Chain σ} {s : σ} {ok : Bool}

/-- The later state extends the earlier one. -/
def Extends (c' c : Chain σ) : Prop := c.blocks <+: c'.blocks

theorem Extends.refl (c : Chain σ) : c.Extends c := List.prefix_refl _

theorem Extends.trans {c'' : Chain σ} (h : c''.Extends c') (h' : c'.Extends c) :
    c''.Extends c := List.IsPrefix.trans h' h

variable {b : Block σ}

theorem Extends.mem (h : c'.Extends c) (hb : b ∈ c.blocks) : b ∈ c'.blocks :=
  h.subset hb

/-- The height of the newest block. -/
def tip (c : Chain σ) : ℕ := c.blocks.getLast?.elim 0 (·.height)

/-- The slot of the newest block. -/
def tipSlot (c : Chain σ) : ℕ := c.blocks.getLast?.elim 0 (·.slot)

/-- The signature executed with this result. -/
def Executed (c : Chain σ) (s : σ) (ok : Bool) : Prop := ∃ b ∈ c.blocks, (s, ok) ∈ b.txs

/-- Every executed signature, oldest first. -/
def signatures (c : Chain σ) : List σ := (c.blocks.flatMap (·.txs)).map (·.1)

/-- The signature executed successfully. -/
def Landed (c : Chain σ) (s : σ) : Prop := c.Executed s true

instance [DecidableEq σ] (c : Chain σ) (s : σ) (ok : Bool) : Decidable (c.Executed s ok) :=
  inferInstanceAs (Decidable (∃ b ∈ c.blocks, (s, ok) ∈ b.txs))

instance [DecidableEq σ] (c : Chain σ) (s : σ) : Decidable (c.Landed s) :=
  inferInstanceAs (Decidable (c.Executed s true))

theorem Executed.mono (h : c'.Extends c) (he : c.Executed s ok) : c'.Executed s ok := by
  obtain ⟨b, hb, hs⟩ := he
  exact ⟨b, h.mem hb, hs⟩

/-- A signature has one result. -/
theorem Executed.unique {ok' : Bool} (h : c.Executed s ok) (h' : c.Executed s ok') : ok = ok' := by
  obtain ⟨b, hb, hs⟩ := h
  obtain ⟨b', hb', hs'⟩ := h'
  exact (c.once b hb b' hb' s ok ok' hs hs').2

theorem mem_signatures : s ∈ c.signatures ↔ ∃ ok, c.Executed s ok := by
  simp only [signatures, Executed, List.mem_map, List.mem_flatMap]
  constructor
  · rintro ⟨⟨_, ok⟩, ⟨b, hb, hs⟩, rfl⟩
    exact ⟨ok, b, hb, hs⟩
  · rintro ⟨ok, b, hb, hs⟩
    exact ⟨(s, ok), ⟨b, hb, hs⟩, rfl⟩

theorem Landed.mem_signatures (h : c.Landed s) : s ∈ c.signatures :=
  Chain.mem_signatures.mpr ⟨true, h⟩

/-- An extension lists the earlier signatures first. -/
theorem Extends.signatures (h : c'.Extends c) : ∃ later, c'.signatures = c.signatures ++ later := by
  obtain ⟨rest, hrest⟩ := h
  refine ⟨(rest.flatMap (·.txs)).map (·.1), ?_⟩
  rw [Chain.signatures, ← hrest, List.flatMap_append, List.map_append, Chain.signatures]

/-- What landed only now was not listed before. -/
theorem Extends.new_of_landed (h : c'.Extends c) (hl : c'.Landed s) (hnew : ¬ c.Landed s) :
    s ∉ c.signatures := by
  intro hmem
  obtain ⟨ok, hok⟩ := Chain.mem_signatures.mp hmem
  obtain rfl := (hok.mono h).unique hl
  exact hnew hok

/-- The tip is the height and the slot of a block that none is above. -/
theorem eq_nil_or_newest (c : Chain σ) :
    c.blocks = [] ∨ ∃ newest ∈ c.blocks, c.tip = newest.height ∧ c.tipSlot = newest.slot ∧
      ∀ b ∈ c.blocks, b.height ≤ newest.height ∧ b.slot ≤ newest.slot := by
  rcases List.eq_nil_or_concat' c.blocks with hnil | ⟨init, last, hlast⟩
  · exact .inl hnil
  · refine .inr ⟨last, by simp [hlast], by simp [tip, hlast], by simp [tipSlot, hlast], ?_⟩
    have hh := c.heights
    have hs := c.slots
    rw [hlast, List.pairwise_append] at hh hs
    intro b hb
    rw [hlast, List.mem_append, List.mem_singleton] at hb
    rcases hb with hb | rfl
    · exact ⟨(hh.2.2 b hb last (by simp)).le, (hs.2.2 b hb last (by simp)).le⟩
    · exact ⟨le_rfl, le_rfl⟩

/-- A block of an extension is either already there or above the tip, in
height and in slot. -/
theorem Extends.mem_or_above (h : c'.Extends c) (hb : b ∈ c'.blocks) :
    b ∈ c.blocks ∨ ((c.blocks = [] ∨ c.tip < b.height) ∧ (c.blocks = [] ∨ c.tipSlot < b.slot)) := by
  obtain ⟨rest, hrest⟩ := h
  rw [← hrest, List.mem_append] at hb
  rcases hb with hb | hb
  · exact .inl hb
  · right
    have hh := c'.heights
    have hs := c'.slots
    rw [← hrest, List.pairwise_append] at hh hs
    rcases c.eq_nil_or_newest with hnil | ⟨last, hmem, htip, htipSlot, -⟩
    · exact ⟨.inl hnil, .inl hnil⟩
    · exact ⟨.inr (htip ▸ hh.2.2 last hmem b hb), .inr (htipSlot ▸ hs.2.2 last hmem b hb)⟩

/-- No block lies above the newest slot. -/
theorem slot_le_tipSlot (hb : b ∈ c.blocks) : b.slot ≤ c.tipSlot := by
  rcases c.eq_nil_or_newest with hnil | ⟨last, -, -, htipSlot, hall⟩
  · simp [hnil] at hb
  · exact htipSlot ▸ (hall b hb).2

theorem tip_le_tipSlot (c : Chain σ) : c.tip ≤ c.tipSlot := by
  rcases c.eq_nil_or_newest with hnil | ⟨last, hmem, htip, htipSlot, -⟩
  · simp [tip, hnil]
  · rw [htip, htipSlot]
    exact c.height_le_slot last hmem

/-- Two reads of one chain: a block past a later slot is above an earlier tip. -/
theorem Extends.tip_lt_of_slot (h : c'.Extends c) (hpos : 0 < c.tip) (hb : b ∈ c'.blocks)
    (hslot : c.tipSlot < b.slot) : c.tip < b.height := by
  rcases h.mem_or_above hb with hold | ⟨hempty | habove, _⟩
  · exact absurd (slot_le_tipSlot hold) (by omega)
  · simp [tip, hempty] at hpos
  · exact habove

theorem Extends.tip_le (h : c'.Extends c) : c.tip ≤ c'.tip := by
  rcases c.eq_nil_or_newest with hnil | ⟨last, hmem, htip, -, -⟩
  · simp [tip, hnil]
  · rcases c'.eq_nil_or_newest with hnil' | ⟨last', -, htip', -, hall⟩
    · have := h.mem hmem
      simp [hnil'] at this
    · rw [htip, htip']
      exact (hall last (h.mem hmem)).1

end Chain

/-- A signed attempt with the last height that may include it. -/
structure Attempt (σ : Type*) where
  sig : σ
  lastValid : ℕ

/-- The chain includes the attempt at no height above its last valid one. -/
def Attempt.Bounded (a : Attempt σ) (c : Chain σ) : Prop :=
  ∀ b ∈ c.blocks, ∀ ok, (a.sig, ok) ∈ b.txs → b.height ≤ a.lastValid

/-- The attempt executed and failed, or did not execute and the tip has passed its last valid
height. -/
def Chain.Settled (c : Chain σ) (a : Attempt σ) : Prop :=
  c.Executed a.sig false ∨ ((∀ ok, ¬ c.Executed a.sig ok) ∧ a.lastValid < c.tip)

namespace Chain

variable {c c' c₁ c₂ : Chain σ} {a : Attempt σ}

/-- Settlement is permanent. -/
theorem Settled.mono (h : c.Settled a) (hext : c'.Extends c) (hb : a.Bounded c') :
    c'.Settled a := by
  rcases h with hf | ⟨habs, hexp⟩
  · exact .inl (hf.mono hext)
  · refine .inr ⟨?_, hexp.trans_le hext.tip_le⟩
    rintro ok ⟨b, hmem, hs⟩
    rcases hext.mem_or_above hmem with hold | ⟨hempty | habove, _⟩
    · exact habs ok ⟨b, hold, hs⟩
    · simp [tip, hempty] at hexp
    · have := hb b hmem ok hs
      omega

theorem Settled.not_landed (h : c.Settled a) : ¬ c.Landed a.sig := by
  rcases h with hf | ⟨habs, _⟩
  · intro hl
    cases hl.unique hf
  · exact habs true

/-- A settled attempt lands in no later chain state. -/
theorem Settled.never_lands (h : c.Settled a) (hext : c'.Extends c) (hb : a.Bounded c') :
    ¬ c'.Landed a.sig :=
  (h.mono hext hb).not_landed

/-- A height above the last valid one was read, then the signature was absent from every
retained slot, and all that could hold it was retained. -/
theorem settled_of_absent {height floor : ℕ} (h₁ : c₂.Extends c₁) (h₂ : c.Extends c₂)
    (hb : a.Bounded c) (hheight : height ≤ c₁.tip) (hexp : a.lastValid < height)
    (habs : ∀ b ∈ c₂.blocks, ∀ ok, (a.sig, ok) ∈ b.txs → b.slot < floor)
    (hret : ∀ b ∈ c.blocks, ∀ ok, (a.sig, ok) ∈ b.txs → floor ≤ b.slot) : c.Settled a := by
  have htip : a.lastValid < c₂.tip := hexp.trans_le (hheight.trans h₁.tip_le)
  have hnone : ∀ ok, ¬ c₂.Executed a.sig ok := by
    rintro ok ⟨b, hmem, hs⟩
    have := habs b hmem ok hs
    have := hret b (h₂.mem hmem) ok hs
    omega
  exact Settled.mono (.inr ⟨hnone, htip⟩) h₂ hb

/-- The signature has landed in no state from here on that the chain's own rules admit. -/
def Doomed (valid : Chain σ → Prop) (c : Chain σ) (s : σ) : Prop :=
  ∀ later : Chain σ, later.Extends c → valid later → ¬ later.Landed s

variable {valid : Chain σ → Prop} {s : σ}

theorem Doomed.mono (h : c.Doomed valid s) (hext : c'.Extends c) : c'.Doomed valid s :=
  fun later hlater => h later (hlater.trans hext)

theorem Doomed.not_landed (h : c.Doomed valid s) (hvalid : valid c) : ¬ c.Landed s :=
  h c (.refl c) hvalid

/-- A signature that executed and failed cannot land any more. -/
theorem Executed.doomed (h : c.Executed s false) : c.Doomed valid s :=
  fun _ hext _ hlanded => nomatch (h.mono hext).unique hlanded

/-- Settlement dooms a signature whose last valid height the chain respects. -/
theorem Settled.doomed (h : c.Settled a) (hb : ∀ later, valid later → a.Bounded later) :
    c.Doomed valid a.sig :=
  fun later hext hlater => h.never_lands hext (hb later hlater)

end Chain

end PrivateChannels.Ledger
