import PrivateChannels.Foundation.Transition
import PrivateChannels.Indexer.ChannelFenceSound

/-!
# The stored fence over whole runs of the withdraw indexer

The withdraw indexer polls the channel slot by slot and may fill a startup gap beside it.
The gate makes the frontier pass reported slots only, so the flushed fence is the newest
block of the chain.
-/

namespace PrivateChannels.Indexer

open CheckpointState

/-- The fence against the slots reported so far, in whatever order. -/
structure FenceTracks (chain : ChannelChain) (applied : ℕ → Prop) (writer : CheckpointState) :
    Prop where
  completed : ∀ s ∈ writer.completed, applied s
  fence_some : ∀ f, writer.fence = some f →
    (chain.hashAt f.slot = some f.blockhash ∧ applied f.slot) ∧ f.slot ≤ writer.frontier ∧
      ∀ s, applied s → f.slot < s → s ≤ writer.frontier → chain.hashAt s = none
  fence_none : writer.fence = none → ∀ s, applied s → s ≤ writer.frontier →
    chain.hashAt s = none
  waiting : ∀ s hash, applied s → writer.frontier < s → chain.hashAt s = some hash →
    (s, hash) ∈ writer.blocks
  waiting_of : ∀ entry ∈ writer.blocks, chain.hashAt entry.1 = some entry.2 ∧
    writer.frontier < entry.1 ∧ applied entry.1

variable {chain : ChannelChain} {row : IndexerStateRow} {p : PollingProcess}
  {writer : CheckpointState}

/-- Above the fence and at or below the frontier, every reported slot is empty. -/
theorem FenceTracks.empty_above {applied : ℕ → Prop} (h : FenceTracks chain applied writer) {s : ℕ}
    (happlied : applied s) (hle : s ≤ writer.frontier)
    (habove : ∀ f, writer.fence = some f → f.slot < s) : chain.hashAt s = none := by
  cases hfence : writer.fence with
  | none => exact h.fence_none hfence s happlied hle
  | some f => exact (h.fence_some f hfence).2.2 s happlied (habove f hfence) hle

/-- A present block above the fence is waiting for the frontier once its slot is reported. -/
theorem FenceTracks.mem_stage {applied : ℕ → Prop} (h : FenceTracks chain applied writer)
    {slot s : ℕ} {hash : String} (happlied : applied s ∨ s = slot) (hs : chain.hashAt s = some hash)
    (habove : ∀ f, writer.fence = some f → f.slot < s) :
    (s, hash) ∈ writer.stage slot (chain.hashAt slot) := by
  by_cases heq : s = slot
  · subst heq
    rw [hs]
    apply mem_stage_self
    cases hfence : writer.fence with
    | none => rfl
    | some f => exact decide_eq_true (habove f hfence)
  · have hold : applied s := happlied.resolve_right heq
    apply mem_stage_of_ne _ _ heq
    refine h.waiting s hash hold (Nat.not_le.mp fun hle => ?_) hs
    exact nomatch hs.symm.trans (h.empty_above hold hle habove)

/-- A block above the new fence would itself wait below the frontier. -/
theorem FenceTracks.applyBlock {applied : ℕ → Prop}
    (h : FenceTracks chain applied writer) (slot : ℕ) :
    FenceTracks chain (fun s => applied s ∨ s = slot)
      (writer.applyBlock slot (chain.hashAt slot)) := by
  have hmoved := moved_advance writer slot
  have hcompleted : ∀ s ∈ (writer.advance slot).completed, applied s ∨ s = slot := by
    intro s hs
    rcases Finset.mem_insert.mp (hmoved.completed_subset hs) with rfl | hold
    · exact .inr rfl
    · exact .inl (h.completed s hold)
  have hstaged : ∀ entry ∈ writer.stage slot (chain.hashAt slot),
      chain.hashAt entry.1 = some entry.2 ∧ (applied entry.1 ∨ entry.1 = slot) ∧
        ∀ f, writer.fence = some f → f.slot < entry.1 := by
    intro entry hentry
    rcases CheckpointState.mem_stage hentry with hold | ⟨hhash, heq, habove⟩
    · obtain ⟨hhash, hlt, happlied⟩ := h.waiting_of entry hold
      exact ⟨hhash, .inl happlied, fun f hf => (h.fence_some f hf).2.1.trans_lt hlt⟩
    · refine ⟨heq ▸ hhash, .inr heq, fun f hf => ?_⟩
      rw [hf] at habove
      exact heq ▸ of_decide_eq_true habove
  rw [applyBlock_eq]
  cases hnewest : newestAtOrBelow (writer.stage slot (chain.hashAt slot))
      (writer.advance slot).frontier with
  | some newest =>
    obtain ⟨hmem, hle, hmax⟩ := newestAtOrBelow_some hnewest
    obtain ⟨hhash, hreported, habove⟩ := hstaged newest hmem
    refine ⟨hcompleted, ?_, nofun, ?_, ?_⟩
    · rintro f ⟨⟩
      refine ⟨⟨hhash, hreported⟩, hle, fun s happlied hlo hhi => ?_⟩
      cases hs : chain.hashAt s with
      | none => rfl
      | some hash =>
        have hwaiting := h.mem_stage happlied hs fun f hf => (habove f hf).trans hlo
        exact absurd (hmax _ hwaiting hhi) (Nat.not_le.mpr hlo)
    · intro s hash happlied hlt hs
      refine List.mem_filter.mpr ⟨h.mem_stage happlied hs fun f hf => ?_, decide_eq_true hlt⟩
      exact ((h.fence_some f hf).2.1.trans hmoved.frontier_le).trans_lt hlt
    · intro entry hentry
      obtain ⟨hstage, hlt⟩ := List.mem_filter.mp hentry
      obtain ⟨hhash, happlied, -⟩ := hstaged entry hstage
      exact ⟨hhash, of_decide_eq_true hlt, happlied⟩
  | none =>
    have hempty (s : ℕ) (happlied : applied s ∨ s = slot)
        (hlo : ∀ f, writer.fence = some f → f.slot < s)
        (hhi : s ≤ (writer.advance slot).frontier) : chain.hashAt s = none := by
      cases hs : chain.hashAt s with
      | none => rfl
      | some hash =>
        have hwaiting := h.mem_stage happlied hs hlo
        exact absurd hhi (Nat.not_le.mpr (newestAtOrBelow_none hnewest hwaiting))
    refine ⟨hcompleted, ?_, ?_, ?_, ?_⟩
    · intro f hf
      have hf : writer.fence = some f := hmoved.fence_eq ▸ hf
      obtain ⟨⟨hhash, hreported⟩, hle, -⟩ := h.fence_some f hf
      refine ⟨⟨hhash, .inl hreported⟩, hle.trans hmoved.frontier_le,
        fun s happlied hlo hhi => ?_⟩
      refine hempty s happlied (fun g hg => ?_) hhi
      obtain rfl : f = g := Option.some.inj (hf.symm.trans hg)
      exact hlo
    · intro hf s happlied hhi
      have hf : writer.fence = none := hmoved.fence_eq ▸ hf
      exact hempty s happlied (fun g hg => nomatch hf.symm.trans hg) hhi
    · intro s hash happlied hlt hs
      refine h.mem_stage happlied hs fun f hf => ?_
      exact ((h.fence_some f hf).2.1.trans hmoved.frontier_le).trans_lt hlt
    · intro entry hentry
      obtain ⟨hhash, happlied, -⟩ := hstaged entry hentry
      exact ⟨hhash, newestAtOrBelow_none hnewest hentry, happlied⟩

/-- The checkpoint writer, and what its two producers have sent. The fill owns the slots below
`liveStart`, the poller the rest. -/
structure PollingProcess where
  writer : CheckpointState
  first : ℕ
  liveStart : ℕ
  currentSlot : ℕ
  filled : List ℕ
  /-- False in backfill-only mode, which starts no source. -/
  polls : Bool

namespace PollingProcess

/-- A poller with no fill behind it. -/
def ofPolling (start : ℕ) : PollingProcess := ⟨ungated, start, start, start, [], true⟩

/-- Backfill-only mode gates the writer from the start, the other arms the gate in band. -/
def ofRange (range : StartupRange) (backfillOnly : Bool) : PollingProcess where
  writer := match range.gap with
    | some (fromSlot, target) =>
      if backfillOnly then gated fromSlot target else ungated.regate fromSlot target
    | none => ungated
  first := range.anchor + 1
  liveStart := range.liveStartSlot
  currentSlot := range.liveStartSlot
  filled := []
  polls := !backfillOnly

/-- The slots whose completion has reached the writer. -/
def Applied (p : PollingProcess) (s : ℕ) : Prop :=
  s ∈ p.filled ∨ p.liveStart ≤ s ∧ s < p.currentSlot

/-- The poller completes its next slot, with the hash of the block the channel has there. -/
def poll (chain : ChannelChain) (p : PollingProcess) : PollingProcess :=
  { p with
    writer := p.writer.applyBlock p.currentSlot (chain.hashAt p.currentSlot)
    currentSlot := p.currentSlot + 1 }

def backfill (chain : ChannelChain) (slot : ℕ) (p : PollingProcess) : PollingProcess :=
  { p with
    writer := p.writer.applyBlock slot (chain.hashAt slot)
    filled := slot :: p.filled }

end PollingProcess

/-- The stored row and the process, if it is up. -/
structure PollingWorld where
  row : IndexerStateRow
  process : Option PollingProcess

/-- The steps of the withdraw indexer. -/
inductive PollingEvent
  | startPolling (fromSlot : Option ℕ) (tip : ℕ)
  | startBackfill (startSlot : Option ℕ) (currentSlot maxGapSlots : ℕ) (backfillOnly : Bool)
  | polled
  | backfilled (slot : ℕ)
  | flushed (landed reported : Bool)
  | stopped
  deriving DecidableEq, Repr

/-- A flush that reports success has landed; one that reports failure may have. -/
inductive PollingStep (chain : ChannelChain) : PollingWorld → PollingEvent → PollingWorld → Prop
  | startPolling {w : PollingWorld} {fromSlot : Option ℕ} {tip floor : ℕ}
      (idle : w.process = none)
      (allowed : startFloor rpcPollingStartSetting .withdraw w.row.lastCommittedSlot fromSlot
        = .ok floor) :
      PollingStep chain w (.startPolling fromSlot tip)
        { w with
          process := some (.ofPolling
            ((liveResumeSlot w.row.lastCommittedSlot fromSlot).getD tip)) }
  | startBackfill {w : PollingWorld} {startSlot : Option ℕ} {currentSlot maxGapSlots : ℕ}
      {backfillOnly : Bool} {range : StartupRange} (idle : w.process = none)
      (resolved : resolveRange .withdraw w.row.lastCommittedSlot startSlot currentSlot
        maxGapSlots = .ok range)
      (covered : backfillOnly → ∀ committed ∈ w.row.lastCommittedSlot,
        range.anchor ≤ committed) :
      PollingStep chain w (.startBackfill startSlot currentSlot maxGapSlots backfillOnly)
        { w with process := some (.ofRange range backfillOnly) }
  | polled {w : PollingWorld} {p : PollingProcess}
      (running : w.process = some p) (polls : p.polls = true) :
      PollingStep chain w .polled { w with process := some (p.poll chain) }
  | backfilled {w : PollingWorld} {p : PollingProcess} {slot : ℕ}
      (running : w.process = some p) (above : p.first ≤ slot) (below : slot < p.liveStart) :
      PollingStep chain w (.backfilled slot)
        { w with process := some (p.backfill chain slot) }
  | flushed {w : PollingWorld} {p : PollingProcess} {landed reported : Bool}
      (running : w.process = some p) (dirty : p.writer.dirty = true)
      (truthful : reported = true → landed = true) :
      PollingStep chain w (.flushed landed reported)
        { row := if landed then p.writer.flush w.row else w.row
          process := some { p with writer := { p.writer with dirty := !reported } } }
  | stopped {w : PollingWorld} : PollingStep chain w .stopped { w with process := none }

/-- An indexer that has stored nothing. -/
def PollingWorld.fresh : PollingWorld := ⟨⟨none, none⟩, none⟩

/-- `gate` says who may move the frontier: without a gap the poller, with one the fill. -/
structure PollingInv (chain : ChannelChain) (row : IndexerStateRow) (p : PollingProcess) :
    Prop where
  start_le : p.liveStart ≤ p.currentSlot
  filled : ∀ s ∈ p.filled, p.first ≤ s ∧ s < p.liveStart
  gate : p.writer.gate = none ∧ p.first = p.liveStart ∨
    ∃ target, p.writer.gate = some target ∧ p.liveStart = target + 1 ∧ 0 < p.first ∧
      p.first ≤ target ∧ p.first ≤ p.writer.frontier + 1
  tracks : FenceTracks chain p.Applied p.writer
  covered : 0 < p.writer.frontier → ∀ s, p.first ≤ s → s ≤ p.writer.frontier → p.Applied s
  dirty : p.writer.dirty = true → 0 < p.writer.frontier ∧ p.first ≤ p.writer.frontier + 1
  row_first : ∀ checkpoint ∈ row.lastCommittedSlot, p.first ≤ checkpoint + 1
  row_le : ∀ checkpoint ∈ row.lastCommittedSlot, checkpoint ≤ p.writer.frontier ∨
    p.writer.gate = none ∧ p.writer.frontier = 0 ∧ checkpoint < p.first

/-- What is stored, and the process running on it. -/
structure FenceWorldInv (chain : ChannelChain) (w : PollingWorld) : Prop where
  stored : ∀ fence, w.row.fence = some fence →
    ∃ checkpoint, w.row.lastCommittedSlot = some checkpoint ∧
      NewestBlock chain fence checkpoint
  process : ∀ p, w.process = some p → PollingInv chain w.row p

/-- An empty writer follows no slots. -/
theorem fenceTracks_empty {applied : ℕ → Prop}
    (hnone : ∀ s, ¬ applied s) (frontier : ℕ) (gate : Option ℕ) (dirty : Bool) :
    FenceTracks chain applied ⟨frontier, ∅, gate, dirty, [], none⟩ :=
  ⟨fun _ h => absurd h (Finset.notMem_empty _), nofun, fun _ s h => absurd h (hnone s),
    fun s _ h => absurd h (hnone s), fun _ h => absurd h List.not_mem_nil⟩

/-- A poller alone starts one past the stored checkpoint, if there is one. -/
theorem pollingInv_ofPolling (chain : ChannelChain) (row : IndexerStateRow)
    (fromSlot : Option ℕ) (tip : ℕ) :
    PollingInv chain row
      (.ofPolling ((liveResumeSlot row.lastCommittedSlot fromSlot).getD tip)) := by
  have hresume : ∀ checkpoint ∈ row.lastCommittedSlot,
      (liveResumeSlot row.lastCommittedSlot fromSlot).getD tip = checkpoint + 1 := by
    intro checkpoint hcheckpoint
    rw [Option.mem_def.mp hcheckpoint]
    simp [liveResumeSlot]
  generalize (liveResumeSlot row.lastCommittedSlot fromSlot).getD tip = start at hresume
  have hnone (s : ℕ) : ¬ (PollingProcess.ofPolling start).Applied s := by
    rintro (hfilled | ⟨hlo, hhi⟩)
    · cases hfilled
    · exact absurd hlo (Nat.not_le.mpr hhi)
  refine ⟨le_rfl, nofun, .inl ⟨rfl, rfl⟩, fenceTracks_empty hnone _ _ _, nofun, nofun, ?_, ?_⟩
  · exact fun checkpoint hc => (hresume checkpoint hc).le
  · exact fun checkpoint hc => .inr ⟨rfl, rfl, (hresume checkpoint hc).ge⟩

/-- A process starts with the invariant. -/
theorem pollingInv_ofRange (chain : ChannelChain)
    {startSlot : Option ℕ} {currentSlot maxGapSlots : ℕ} {range : StartupRange}
    (hrange : resolveRange .withdraw row.lastCommittedSlot startSlot currentSlot maxGapSlots
      = .ok range) (backfillOnly : Bool) : PollingInv chain row (.ofRange range backfillOnly) := by
  obtain ⟨hfloor, hgap⟩ := resolveRange_ok hrange
  have hanchor : ∀ checkpoint ∈ row.lastCommittedSlot, range.anchor = checkpoint := by
    intro checkpoint hcheckpoint
    rw [Option.mem_def.mp hcheckpoint] at hfloor
    exact startFloor_some hfloor
  have hnone (s : ℕ) : ¬ (PollingProcess.ofRange range backfillOnly).Applied s := by
    rintro (hfilled | ⟨hlo, hhi⟩)
    · cases hfilled
    · exact absurd hlo (Nat.not_le.mpr hhi)
  have hfirst : ∀ checkpoint ∈ row.lastCommittedSlot, range.anchor + 1 ≤ checkpoint + 1 :=
    fun checkpoint hc => by rw [hanchor checkpoint hc]
  rcases hgap with ⟨hno, hlive⟩ | ⟨hsome, hlt, hlive⟩
  · have hwriter : (PollingProcess.ofRange range backfillOnly).writer = ungated := by
      simp [PollingProcess.ofRange, hno]
    refine ⟨le_rfl, nofun, .inl ⟨by rw [hwriter]; rfl, hlive.symm⟩, ?_, ?_, ?_, hfirst, ?_⟩
    · rw [hwriter]
      exact fenceTracks_empty hnone _ _ _
    · rw [hwriter]
      nofun
    · rw [hwriter]
      nofun
    · intro checkpoint hc
      rw [hwriter]
      exact .inr ⟨rfl, rfl, (hanchor checkpoint hc).ge.trans_lt (Nat.lt_succ_self _)⟩
  · have hwriter : (PollingProcess.ofRange range backfillOnly).writer
        = gated range.anchor currentSlot := by
      simp only [PollingProcess.ofRange, hsome]
      split
      · rfl
      · simp [regate, ungated, gated]
    refine ⟨le_rfl, nofun, .inr ⟨currentSlot, by rw [hwriter]; rfl, hlive, Nat.succ_pos _, hlt,
      by rw [hwriter]; exact le_rfl⟩, ?_, ?_, ?_, hfirst, ?_⟩
    · rw [hwriter]
      exact fenceTracks_empty hnone _ _ _
    · rw [hwriter]
      exact fun _ s hlo hhi => absurd hhi (Nat.not_le.mpr hlo)
    · rw [hwriter]
      nofun
    · intro checkpoint hc
      rw [hwriter]
      exact .inl (hanchor checkpoint hc).ge

section

variable (h : PollingInv chain row p)
include h

theorem PollingInv.first_le_liveStart : p.first ≤ p.liveStart := by
  rcases h.gate with ⟨-, heq⟩ | ⟨target, -, hlive, -, hle, -⟩
  · exact heq.le
  · omega

theorem PollingInv.first_le {s : ℕ} (happlied : p.Applied s) : p.first ≤ s := by
  rcases happlied with hfilled | ⟨hlive, -⟩
  · exact (h.filled s hfilled).1
  · exact h.first_le_liveStart.trans hlive

/-- One reported slot. `hjump`: where no gap holds the frontier, everything up to the slot was
reported before it. -/
theorem PollingInv.applied {p' : PollingProcess} {slot : ℕ}
    (hwriter : p'.writer = p.writer.applyBlock slot (chain.hashAt slot))
    (hfirst : p'.first = p.first) (hlive : p'.liveStart = p.liveStart)
    (happlied : ∀ s, p'.Applied s ↔ p.Applied s ∨ s = slot) (hstart : p'.liveStart ≤ p'.currentSlot)
    (hfilled : ∀ s ∈ p'.filled, p'.first ≤ s ∧ s < p'.liveStart) (habove : p.first ≤ slot)
    (hjump : p.writer.GapClosed → p.writer.frontier < slot →
      ∀ s, p.first ≤ s → s ≤ slot → p'.Applied s) : PollingInv chain row p' := by
  have hmoved := moved_advance p.writer slot
  have hfrontier : p'.writer.frontier = (p.writer.advance slot).frontier := by
    rw [hwriter, applyBlock_frontier]
  have hle : p.writer.frontier ≤ p'.writer.frontier := hfrontier ▸ hmoved.frontier_le
  have hgate : p'.writer.gate = p.writer.gate := by rw [hwriter, applyBlock_gate]
  have hplain (hnone : p.writer.gate = none) : p'.writer.frontier = max p.writer.frontier slot := by
    rw [hfrontier]
    rcases hmoved.passed with ⟨hopen, -⟩ | ⟨-, heq⟩
    · exact absurd (fun target ht => nomatch hnone.symm.trans ht) hopen
    · exact heq
  refine ⟨hstart, hfilled, ?_, ?_, ?_, ?_, ?_, ?_⟩
  · rcases h.gate with ⟨hnone, heq⟩ | ⟨target, hsome, hboundary, hpos, htarget, hreach⟩
    · exact .inl ⟨hgate.trans hnone, hfirst.trans (heq.trans hlive.symm)⟩
    · exact .inr ⟨target, hgate.trans hsome, hlive.trans hboundary, hfirst ▸ hpos,
        hfirst ▸ htarget, by omega⟩
  · rw [hwriter, show p'.Applied = fun s => p.Applied s ∨ s = slot from
      funext fun s => propext (happlied s)]
    exact h.tracks.applyBlock slot
  · intro hpos s hlo hhi
    rw [hfirst] at hlo
    rcases hmoved.passed with ⟨hopen, hreported⟩ | ⟨hclosed, heq⟩
    · rcases Nat.lt_or_ge p.writer.frontier s with hnew | hold
      · rcases Finset.mem_insert.mp (hreported s hnew (hfrontier ▸ hhi)) with rfl | hstaged
        · exact (happlied s).mpr (.inr rfl)
        · exact (happlied s).mpr (.inl (h.tracks.completed s hstaged))
      · rcases h.gate with ⟨hnone, -⟩ | ⟨target, -, -, hfirstPos, -, -⟩
        · exact absurd (fun target ht => nomatch hnone.symm.trans ht) hopen
        · exact (happlied s).mpr (.inl (h.covered (by omega) s hlo hold))
    · rcases Nat.lt_or_ge p.writer.frontier slot with hnew | hold
      · exact hjump hclosed hnew s hlo (by omega)
      · exact (happlied s).mpr (.inl (h.covered (by omega) s hlo (by omega)))
  · intro hdirty
    rw [hwriter, applyBlock_dirty, Bool.or_eq_true, ← hfrontier] at hdirty
    rcases hdirty with hold | hnew
    · obtain ⟨hpos, hreach⟩ := h.dirty hold
      omega
    · have hnew := of_decide_eq_true hnew
      refine ⟨by omega, ?_⟩
      rcases h.gate with ⟨hnone, -⟩ | ⟨target, -, -, -, -, hreach⟩
      · have := hplain hnone
        omega
      · omega
  · exact fun checkpoint hc => hfirst ▸ h.row_first checkpoint hc
  · intro checkpoint hc
    rcases h.row_le checkpoint hc with hbelow | ⟨hnone, -, hlt⟩
    · exact .inl (hbelow.trans hle)
    · have := hplain hnone
      exact .inl (by omega)

/-- The poller reports its next slot. -/
theorem PollingInv.poll : PollingInv chain row (p.poll chain) := by
  have hstart := h.start_le
  have hfirst := h.first_le_liveStart
  refine h.applied rfl rfl rfl ?_ ?_ h.filled (hfirst.trans hstart) ?_
  · intro s
    constructor
    · rintro (hfilled | ⟨hlo, hhi⟩)
      · exact .inl (.inl hfilled)
      · rcases Nat.lt_succ_iff_lt_or_eq.mp hhi with hlt | heq
        · exact .inl (.inr ⟨hlo, hlt⟩)
        · exact .inr heq
    · rintro ((hfilled | ⟨hlo, hhi⟩) | rfl)
      · exact .inl hfilled
      · exact .inr ⟨hlo, hhi.trans (Nat.lt_succ_self _)⟩
      · exact .inr ⟨hstart, Nat.lt_succ_self _⟩
  · exact hstart.trans (Nat.le_succ _)
  · intro hclosed hnew s hlo hhi
    have hpolled (hs : p.liveStart ≤ s) : (p.poll chain).Applied s :=
      .inr ⟨hs, Nat.lt_succ_of_le hhi⟩
    rcases h.gate with ⟨-, heq⟩ | ⟨target, hsome, hboundary, hpos, htarget, -⟩
    · exact hpolled (heq ▸ hlo)
    · have hreached := hclosed target hsome
      rcases Nat.lt_or_ge target s with habove | hbelow
      · exact hpolled (by omega)
      · rcases h.covered (by omega) s hlo (by omega) with hfilled | ⟨hlive, hlt⟩
        · exact .inl hfilled
        · exact hpolled hlive

/-- A closed gap leaves no slot of the fill above the frontier. -/
theorem PollingInv.backfill {slot : ℕ} (habove : p.first ≤ slot) (hbelow : slot < p.liveStart) :
    PollingInv chain row (p.backfill chain slot) := by
  refine h.applied rfl rfl rfl ?_ h.start_le ?_ habove ?_
  · intro s
    simp only [PollingProcess.Applied, PollingProcess.backfill, List.mem_cons]
    constructor
    · rintro ((heq | hfilled) | hlive)
      · exact .inr heq
      · exact .inl (.inl hfilled)
      · exact .inl (.inr hlive)
    · rintro ((hfilled | hlive) | heq)
      · exact .inl (.inr hfilled)
      · exact .inr hlive
      · exact .inl (.inl heq)
  · exact List.forall_mem_cons.mpr ⟨⟨habove, hbelow⟩, h.filled⟩
  · intro hclosed hnew
    rcases h.gate with ⟨-, heq⟩ | ⟨target, hsome, hboundary, -, -, -⟩
    · omega
    · have := hclosed target hsome
      omega

/-- A flush lands the frontier, which no earlier checkpoint has passed. -/
theorem PollingInv.flush_lastCommittedSlot (hdirty : p.writer.dirty = true) :
    (p.writer.flush row).lastCommittedSlot = some p.writer.frontier := by
  obtain ⟨hpos, -⟩ := h.dirty hdirty
  simp only [CheckpointState.flush, updateCommittedCheckpoint]
  cases hrow : row.lastCommittedSlot with
  | none => rfl
  | some checkpoint =>
    rcases h.row_le checkpoint hrow with hle | ⟨-, hzero, -⟩
    · simp [hle]
    · omega

/-- The stored fence stays the newest block unless the writer's own is above it. -/
theorem PollingInv.flush_stored (hdirty : p.writer.dirty = true)
    (hstored : ∀ fence, row.fence = some fence →
      ∃ checkpoint, row.lastCommittedSlot = some checkpoint ∧ NewestBlock chain fence checkpoint)
    {fence : ChannelFence} (hfence : (p.writer.flush row).fence = some fence) :
    NewestBlock chain fence p.writer.frontier := by
  obtain ⟨hpos, -⟩ := h.dirty hdirty
  have hkept (hrow : row.fence = some fence)
      (habove : ∀ f, p.writer.fence = some f → f.slot ≤ fence.slot) :
      NewestBlock chain fence p.writer.frontier := by
    obtain ⟨checkpoint, hcheckpoint, hnewest⟩ := hstored fence hrow
    have hfirst := h.row_first checkpoint hcheckpoint
    have hle : checkpoint ≤ p.writer.frontier := by
      rcases h.row_le checkpoint hcheckpoint with hle | ⟨-, hzero, -⟩
      · exact hle
      · omega
    refine ⟨hnewest.present, hnewest.slot_le.trans hle, fun s hlo hhi => ?_⟩
    rcases Nat.lt_or_ge checkpoint s with hnew | hold
    · have happlied := h.covered hpos s (by omega) hhi
      exact h.tracks.empty_above happlied hhi fun f hf => (habove f hf).trans_lt hlo
    · exact hnewest.empty s hlo hold
  simp only [CheckpointState.flush, updateCommittedCheckpoint] at hfence
  cases hown : p.writer.fence with
  | none =>
    rw [hown] at hfence
    exact hkept hfence fun f hf => nomatch hown.symm.trans hf
  | some own =>
    rw [hown] at hfence
    dsimp only at hfence
    split at hfence
    · obtain rfl := Option.some.inj hfence
      obtain ⟨⟨hhash, happlied⟩, hle, hempty⟩ := h.tracks.fence_some own hown
      refine ⟨hhash, hle, fun s hlo hhi => ?_⟩
      have hfirst := h.first_le happlied
      exact hempty s (h.covered hpos s (by omega) hhi) hlo hhi
    · rename_i hnot
      refine hkept hfence fun f hf => ?_
      obtain rfl : own = f := Option.some.inj (hown.symm.trans hf)
      rw [hfence] at hnot
      simpa using hnot

end

/-- Every step keeps the invariant. -/
theorem FenceWorldInv.step {w w' : PollingWorld} {e : PollingEvent}
    (h : FenceWorldInv chain w) (hstep : PollingStep chain w e w') : FenceWorldInv chain w' := by
  cases hstep with
  | startPolling =>
    refine ⟨h.stored, ?_⟩
    rintro p ⟨⟩
    exact pollingInv_ofPolling chain w.row _ _
  | startBackfill _ hresolved =>
    refine ⟨h.stored, ?_⟩
    rintro p ⟨⟩
    exact pollingInv_ofRange chain hresolved _
  | polled hrunning =>
    refine ⟨h.stored, ?_⟩
    rintro p ⟨⟩
    exact (h.process _ hrunning).poll
  | backfilled hrunning habove hbelow =>
    refine ⟨h.stored, ?_⟩
    rintro p ⟨⟩
    exact (h.process _ hrunning).backfill habove hbelow
  | @flushed p landed reported hrunning hdirty _ =>
    have hp := h.process p hrunning
    have hcommitted := hp.flush_lastCommittedSlot hdirty
    refine ⟨fun fence hfence => ?_, ?_⟩
    · cases landed with
      | false => exact h.stored fence hfence
      | true => exact ⟨_, hcommitted, hp.flush_stored hdirty h.stored hfence⟩
    · rintro q ⟨⟩
      refine { hp with
        tracks := { hp.tracks with }, dirty := fun _ => hp.dirty hdirty, row_first := ?_,
        row_le := ?_ }
      · intro checkpoint hc
        cases landed with
        | false => exact hp.row_first checkpoint hc
        | true =>
          obtain rfl : _ = checkpoint := Option.some.inj (hcommitted.symm.trans hc)
          exact (hp.dirty hdirty).2
      · intro checkpoint hc
        cases landed with
        | false => exact hp.row_le checkpoint hc
        | true =>
          obtain rfl : _ = checkpoint := Option.some.inj (hcommitted.symm.trans hc)
          exact .inl le_rfl
  | stopped => exact ⟨h.stored, nofun⟩

/-- In every run a stored fence is the newest block at or below the stored checkpoint. -/
theorem fenceWorldInv_of_run {events : List PollingEvent}
    {w : PollingWorld} (hrun : Run (PollingStep chain) .fresh events w) : FenceWorldInv chain w :=
  hrun.stateInvariant
    ⟨fun _ h => absurd h.symm (Option.some_ne_none _),
      fun _ h => absurd h.symm (Option.some_ne_none _)⟩
    fun _ _ _ h hstep => h.step hstep

/-- A mismatch against the stored record is always real. An `Ok` is trustworthy exactly where
the record leaves no range to list, or no node that lists blocks is pruned above the slot after
the fence. -/
theorem channel_fence_sound_iff {old : ChannelChain} (hold : old.HashesDetermineAncestry old)
    {events : List PollingEvent} {w : PollingWorld}
    (hrun : Run (PollingStep old) .fresh events w) {record : FenceRecord}
    (hrecord : getChannelFence w.row = some record) :
    (w.row.lastCommittedSlot = some record.checkpoint ∧
        NewestBlock old record.fence record.checkpoint) ∧
      (∀ chain : ChannelChain, old.HashesDetermineAncestry chain →
        ∀ cut budget first rest reason, (∀ reads ∈ first :: rest, reads.AnsweredBy chain cut) →
          verifyChannelFence budget (getChannelFence w.row) first rest = .mismatch reason →
            ¬ chain.Extends old record.checkpoint) ∧
      ∀ cut,
        (∀ chain : ChannelChain, old.HashesDetermineAncestry chain →
          ∀ budget first rest, (∀ reads ∈ first :: rest, reads.AnsweredBy chain cut) →
            verifyChannelFence budget (getChannelFence w.row) first rest = .ok →
              chain.Extends old record.checkpoint) ↔
          (record.checkpoint ≤ record.fence.slot ∨ cut ≤ record.fence.slot + 1) := by
  obtain ⟨fence, hfence, heq⟩ := Option.map_eq_some_iff.mp hrecord
  obtain ⟨checkpoint, hcheckpoint, hnewest⟩ := (fenceWorldInv_of_run hrun).stored fence hfence
  have hmax : max checkpoint fence.slot = checkpoint := max_eq_left hnewest.slot_le
  rw [hcheckpoint, Option.elim_some, hmax] at heq
  subst heq
  rw [hrecord]
  refine ⟨⟨hcheckpoint, hnewest⟩, ?_, fun cut => verifyLoop_ok_iff hnewest hold cut⟩
  intro chain _ cut budget first rest reason hreads hmismatch
  obtain ⟨reads, hmem, hprobe⟩ := verifyLoop_eq hmismatch nofun
  exact probe_mismatch_sound hnewest (hreads reads hmem) hprobe

/-- A channel with one block, at slot 1. -/
def oneBlockChain : ChannelChain := ⟨[⟨1, "a", 0⟩], .singleton _⟩

/-- Slot 1 was read with its block and slot 2 proven empty, then flushed. -/
def oneBlockWorld : PollingWorld :=
  { row := ⟨some 2, some ⟨1, "a"⟩⟩
    process := some { ((PollingProcess.ofPolling 1).poll oneBlockChain).poll oneBlockChain with
      writer := { (((PollingProcess.ofPolling 1).poll oneBlockChain).poll oneBlockChain).writer
        with dirty := false } } }

/-- The record that world stores. -/
def oneBlockRecord : FenceRecord := ⟨⟨1, "a"⟩, 2⟩

/-- A hash names its ancestors. -/
theorem oneBlockChain_hashes : oneBlockChain.HashesDetermineAncestry oneBlockChain := by
  have hhead (before : List ChannelBlock) (b : ChannelBlock)
      (h : before ++ [b] <+: oneBlockChain.blocks) : before = [] ∧ b = ⟨1, "a", 0⟩ := by
    have h : before ++ [b] <+: [] ++ [⟨1, "a", 0⟩] := h
    rcases List.prefix_concat_iff.mp h with heq | hnil
    · obtain ⟨rfl, hb⟩ := List.append_inj' heq rfl
      exact ⟨rfl, (List.cons.inj hb).1⟩
    · exact absurd (List.prefix_nil.mp hnil) (by simp)
  intro c hc c' hc' before b before' b' hpre hpre' _
  obtain rfl : c = oneBlockChain := by simpa using hc
  obtain rfl : c' = oneBlockChain := by simpa using hc'
  obtain ⟨rfl, rfl⟩ := hhead before b hpre
  obtain ⟨rfl, rfl⟩ := hhead before' b' hpre'
  exact ⟨rfl, rfl⟩

theorem oneBlock_run : ∃ events, Run (PollingStep oneBlockChain) .fresh events oneBlockWorld := by
  have h1 := Run.nil.snoc (@PollingStep.startPolling oneBlockChain .fresh (some 1) 0 0 rfl rfl)
  have h2 := h1.snoc (.polled rfl rfl)
  have h3 := h2.snoc (.polled rfl rfl)
  have h4 := h3.snoc (@PollingStep.flushed oneBlockChain _ _ true true rfl rfl fun _ => rfl)
  exact ⟨_, h4⟩

/-- The fence of a single block. -/
theorem channel_fence_sound_one_block :
    getChannelFence oneBlockWorld.row = some oneBlockRecord ∧
      ∀ chain : ChannelChain, oneBlockChain.HashesDetermineAncestry chain →
        ∀ budget first rest, (∀ reads ∈ first :: rest, reads.AnsweredBy chain 2) →
          verifyChannelFence budget (getChannelFence oneBlockWorld.row) first rest = .ok →
            chain.Extends oneBlockChain 2 := by
  have hrow : getChannelFence oneBlockWorld.row = some oneBlockRecord := rfl
  obtain ⟨events, hrun⟩ := oneBlock_run
  have h := channel_fence_sound_iff oneBlockChain_hashes hrun hrow
  exact ⟨hrow, (h.2.2 2).mpr (.inr le_rfl)⟩

/-- The channel restored behind its fence: slot 2 holds a block now. -/
def restoredChain : ChannelChain :=
  ⟨[⟨1, "a", 0⟩, ⟨2, "b", 1⟩, ⟨3, "c", 2⟩],
    .cons_cons ⟨by decide, rfl⟩ (.cons_cons ⟨by decide, rfl⟩ (.singleton _))⟩

/-- The fence block is read from a full node and the listing from one pruned past slot 2. -/
theorem pruned_listing_passes_restore :
    (∃ events, Run (PollingStep oneBlockChain) .fresh events oneBlockWorld) ∧
      getChannelFence oneBlockWorld.row = some oneBlockRecord ∧
      oneBlockChain.HashesDetermineAncestry restoredChain ∧
      (prunedReads restoredChain oneBlockRecord.fence).AnsweredBy restoredChain 3 ∧
      verifyChannelFence "0ns" (some oneBlockRecord)
        (prunedReads restoredChain oneBlockRecord.fence) [] = .ok ∧
      ¬ restoredChain.Extends oneBlockChain oneBlockRecord.checkpoint := by
  have hnewest : NewestBlock oneBlockChain oneBlockRecord.fence oneBlockRecord.checkpoint := by
    refine ⟨rfl, by decide, fun s hlo hhi => ?_⟩
    have hlo : 1 < s := hlo
    have hhi : s ≤ 2 := hhi
    obtain rfl : s = 2 := by omega
    rfl
  have hblocks : restoredChain.blocks = restoredBlocks oneBlockChain oneBlockRecord "b" "c" := rfl
  obtain ⟨hprobe, hnot⟩ := probe_prunedReads hnewest restoredChain (by decide) hblocks
  have hhashes := restored_hashes restoredChain oneBlockChain_hashes (by decide) (by decide)
    (by decide) hblocks (List.prefix_refl _)
  refine ⟨oneBlock_run, rfl, hhashes, prunedReads_answeredBy _ _ le_rfl, ?_, hnot⟩
  simp [verifyChannelFence, verifyLoop, hprobe]

end PrivateChannels.Indexer
