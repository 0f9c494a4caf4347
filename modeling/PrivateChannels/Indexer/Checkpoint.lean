import Mathlib

/-!
# The checkpoint of a program

While a gap is open the frontier moves only over slots that were reported; otherwise it
follows the highest slot seen. The fence is the newest block the frontier has reached.
-/

namespace PrivateChannels.Indexer

/-- Newest channel block at or below the withdraw checkpoint. -/
structure ChannelFence where
  slot : ℕ
  blockhash : String
  deriving DecidableEq, Repr

/-- The fence with the checkpoint flushed beside it. -/
structure FenceRecord where
  fence : ChannelFence
  checkpoint : ℕ
  deriving DecidableEq, Repr

/-- A program's row of `indexer_state`; the two fence columns are written together. -/
structure IndexerStateRow where
  lastCommittedSlot : Option ℕ
  fence : Option ChannelFence
  deriving DecidableEq, Repr

/-- Neither column group moves back, and a write without a fence keeps the stored one. -/
def updateCommittedCheckpoint (row : IndexerStateRow) (slot : ℕ) (fence : Option ChannelFence) :
    IndexerStateRow where
  lastCommittedSlot := some (row.lastCommittedSlot.elim slot (max · slot))
  fence := match fence with
    | some new => if row.fence.all (·.slot < new.slot) then some new else row.fence
    | none => row.fence

def getChannelFence (row : IndexerStateRow) : Option FenceRecord :=
  row.fence.map fun fence =>
    ⟨fence, row.lastCommittedSlot.elim fence.slot (max · fence.slot)⟩

/-- Per-program progress, without the counter behind the stall warning. -/
structure CheckpointState where
  frontier : ℕ
  completed : Finset ℕ
  gate : Option ℕ
  dirty : Bool
  /-- Present blocks above the frontier, one entry a slot. -/
  blocks : List (ℕ × String)
  fence : Option ChannelFence

namespace CheckpointState

def ungated : CheckpointState := ⟨0, ∅, none, false, [], none⟩

def gated (fromSlot target : ℕ) : CheckpointState := ⟨fromSlot, ∅, some target, false, [], none⟩

/-- The loop of `fill_gap`. Each round takes one slot out of `completed`, so its size bounds the
rounds. -/
def pullUp : ℕ → ℕ → Finset ℕ → ℕ × Finset ℕ
  | 0, frontier, completed => (frontier, completed)
  | rounds + 1, frontier, completed =>
    if frontier + 1 ∈ completed then
      pullUp rounds (frontier + 1) (completed.erase (frontier + 1))
    else (frontier, completed)

def fillGap (st : CheckpointState) (slot target : ℕ) : CheckpointState :=
  if st.frontier < slot ∧ slot ≤ target then
    let completed := insert slot st.completed
    let pulled := pullUp completed.card st.frontier completed
    { st with
      frontier := pulled.1
      completed := if target ≤ pulled.1 then ∅ else pulled.2 }
  else st

/-- The frontier while a gap is open, and the plain maximum otherwise. -/
def moveFrontier (st : CheckpointState) (slot : ℕ) : CheckpointState :=
  match st.gate with
  | some target =>
    if st.frontier < target then st.fillGap slot target
    else { st with frontier := max st.frontier slot }
  | none => { st with frontier := max st.frontier slot }

def advance (st : CheckpointState) (slot : ℕ) : CheckpointState :=
  let moved := st.moveFrontier slot
  { moved with dirty := st.dirty || decide (st.frontier < moved.frontier) }

/-- A present block joins the waiting ones unless the fence has reached it. -/
def stage (st : CheckpointState) (slot : ℕ) (blockhash : Option String) : List (ℕ × String) :=
  match blockhash with
  | some hash =>
    if st.fence.all (·.slot < slot) then (slot, hash) :: st.blocks.filter (·.1 ≠ slot)
    else st.blocks
  | none => st.blocks

/-- The last entry of `blocks.range(..=frontier)`. -/
def newestAtOrBelow (blocks : List (ℕ × String)) (frontier : ℕ) : Option (ℕ × String) :=
  (blocks.filter (·.1 ≤ frontier)).argmax (·.1)

/-- A slot is reported. -/
def applyBlock (st : CheckpointState) (slot : ℕ) (blockhash : Option String) : CheckpointState :=
  let advanced := { st with blocks := st.stage slot blockhash }.advance slot
  match newestAtOrBelow advanced.blocks advanced.frontier with
  | some newest =>
    { advanced with
      fence := some ⟨newest.1, newest.2⟩
      blocks := advanced.blocks.filter (advanced.frontier + 1 ≤ ·.1) }
  | none => advanced

/-- Re-arm the gate over `(from, target]`; the newest target wins, also a lower one. -/
def regate (st : CheckpointState) (fromSlot target : ℕ) : CheckpointState :=
  { st with frontier := max st.frontier fromSlot, gate := some target }

/-- The statement a flush issues, for a state with something to flush. -/
def flush (st : CheckpointState) (row : IndexerStateRow) : IndexerStateRow :=
  updateCommittedCheckpoint row st.frontier st.fence

/-- No gap is open: the frontier follows the highest slot seen. -/
def GapClosed (st : CheckpointState) : Prop := ∀ target ∈ st.gate, target ≤ st.frontier

theorem le_pullUp (rounds frontier : ℕ) (completed : Finset ℕ) :
    frontier ≤ (pullUp rounds frontier completed).1 := by
  induction rounds generalizing frontier completed with
  | zero => exact le_rfl
  | succ rounds ih =>
    unfold pullUp
    split
    · exact (Nat.le_succ _).trans (ih _ _)
    · exact le_rfl

/-- The frontier is pulled only over slots that were reported. -/
theorem mem_of_le_pullUp (rounds frontier : ℕ) (completed : Finset ℕ) {s : ℕ}
    (hlo : frontier < s) (hhi : s ≤ (pullUp rounds frontier completed).1) : s ∈ completed := by
  induction rounds generalizing frontier completed with
  | zero => exact absurd hhi (by simpa [pullUp] using hlo)
  | succ rounds ih =>
    unfold pullUp at hhi
    split at hhi
    · rename_i hnext
      rcases Nat.eq_or_lt_of_le (Nat.succ_le_of_lt hlo) with heq | hlt
      · exact heq ▸ hnext
      · exact Finset.mem_of_mem_erase (ih _ _ hlt hhi)
    · exact absurd hhi (by simpa using hlo)

theorem pullUp_subset (rounds frontier : ℕ) (completed : Finset ℕ) :
    (pullUp rounds frontier completed).2 ⊆ completed := by
  induction rounds generalizing frontier completed with
  | zero => exact subset_rfl
  | succ rounds ih =>
    unfold pullUp
    split
    · exact (ih _ _).trans (Finset.erase_subset _ _)
    · exact subset_rfl

/-- What recording one slot does to the frontier and the staging set; nothing else moves. -/
structure Moved (st : CheckpointState) (slot : ℕ) (st' : CheckpointState) : Prop where
  frontier_le : st.frontier ≤ st'.frontier
  gate_eq : st'.gate = st.gate
  blocks_eq : st'.blocks = st.blocks
  fence_eq : st'.fence = st.fence
  completed_subset : st'.completed ⊆ insert slot st.completed
  /-- Over an open gap every slot passed was reported; with none open the slot is simply the
  highest seen. -/
  passed : ¬ st.GapClosed ∧
      (∀ s, st.frontier < s → s ≤ st'.frontier → s ∈ insert slot st.completed) ∨
    st.GapClosed ∧ st'.frontier = max st.frontier slot

theorem moved_fillGap (st : CheckpointState) (slot target : ℕ) (hopen : ¬ st.GapClosed) :
    Moved st slot (st.fillGap slot target) := by
  unfold fillGap
  split
  · refine ⟨le_pullUp _ _ _, rfl, rfl, rfl, ?_, .inl ⟨hopen, fun s => mem_of_le_pullUp _ _ _⟩⟩
    dsimp only
    split
    · exact Finset.empty_subset _
    · exact pullUp_subset _ _ _
  · refine ⟨le_rfl, rfl, rfl, rfl, Finset.subset_insert _ _, .inl ⟨hopen, fun s hlo hhi => ?_⟩⟩
    exact absurd hhi (Nat.not_le.mpr hlo)

theorem moved_moveFrontier (st : CheckpointState) (slot : ℕ) :
    Moved st slot (st.moveFrontier slot) := by
  have hplain (hclosed : st.GapClosed) :
      Moved st slot { st with frontier := max st.frontier slot } :=
    ⟨le_max_left _ _, rfl, rfl, rfl, Finset.subset_insert _ _, .inr ⟨hclosed, rfl⟩⟩
  unfold moveFrontier
  split
  · rename_i target hgate
    split
    · rename_i hopen
      exact moved_fillGap st slot target fun hclosed =>
        absurd (hclosed target hgate) (Nat.not_le.mpr hopen)
    · rename_i hreached
      apply hplain
      intro t ht
      obtain rfl : target = t := Option.some.inj (hgate.symm.trans ht)
      exact Nat.not_lt.mp hreached
  · rename_i hgate
    apply hplain
    intro t ht
    exact nomatch hgate.symm.trans ht

theorem moved_advance (st : CheckpointState) (slot : ℕ) : Moved st slot (st.advance slot) := by
  have h := moved_moveFrontier st slot
  exact ⟨h.frontier_le, h.gate_eq, h.blocks_eq, h.fence_eq, h.completed_subset, h.passed⟩

variable {entry : ℕ × String} {st : CheckpointState}

theorem mem_stage {slot : ℕ} {blockhash : Option String} (h : entry ∈ st.stage slot blockhash) :
    entry ∈ st.blocks ∨
      (blockhash = some entry.2 ∧ entry.1 = slot ∧ st.fence.all (·.slot < slot)) := by
  unfold stage at h
  split at h
  · rename_i hash
    split at h
    · rename_i habove
      rcases List.mem_cons.mp h with rfl | hold
      · exact .inr ⟨rfl, rfl, habove⟩
      · exact .inl (List.mem_filter.mp hold).1
    · exact .inl h
  · exact .inl h

/-- Staging keeps every waiting block of another slot. -/
theorem mem_stage_of_ne {slot : ℕ} (blockhash : Option String)
    (h : entry ∈ st.blocks) (hne : entry.1 ≠ slot) : entry ∈ st.stage slot blockhash := by
  unfold stage
  split
  · split
    · exact List.mem_cons_of_mem _ (List.mem_filter.mpr ⟨h, by simpa using hne⟩)
    · exact h
  · exact h

theorem mem_stage_self {slot : ℕ} (hash : String)
    (habove : st.fence.all (·.slot < slot)) : (slot, hash) ∈ st.stage slot (some hash) := by
  simp [stage, habove]

theorem newestAtOrBelow_some {blocks : List (ℕ × String)} {frontier : ℕ} {newest : ℕ × String}
    (h : newestAtOrBelow blocks frontier = some newest) :
    newest ∈ blocks ∧ newest.1 ≤ frontier ∧
      ∀ entry ∈ blocks, entry.1 ≤ frontier → entry.1 ≤ newest.1 := by
  obtain ⟨hmem, hle⟩ := List.mem_filter.mp (List.argmax_mem h)
  refine ⟨hmem, of_decide_eq_true hle, fun entry hentry hbound => ?_⟩
  exact List.le_of_mem_argmax (List.mem_filter.mpr ⟨hentry, decide_eq_true hbound⟩) h

theorem newestAtOrBelow_none {blocks : List (ℕ × String)} {frontier : ℕ}
    (h : newestAtOrBelow blocks frontier = none) (hentry : entry ∈ blocks) :
    frontier < entry.1 := by
  have hnone := List.filter_eq_nil_iff.mp (List.argmax_eq_none.mp h) entry hentry
  exact Nat.not_le.mp fun hle => hnone (decide_eq_true hle)

/-- The frontier does not look at the waiting blocks. -/
theorem advance_blocks (st : CheckpointState) (slot : ℕ) (blocks : List (ℕ × String)) :
    { st with blocks := blocks }.advance slot = { st.advance slot with blocks := blocks } := by
  obtain ⟨frontier, completed, gate, dirty, waiting, fence⟩ := st
  unfold advance moveFrontier fillGap
  cases gate with
  | none => rfl
  | some target =>
    dsimp only
    split
    · split <;> rfl
    · rfl

/-- The frontier as `advance` moves it, and the fence on the newest waiting block it has
reached. -/
theorem applyBlock_eq (st : CheckpointState) (slot : ℕ) (blockhash : Option String) :
    st.applyBlock slot blockhash =
      match newestAtOrBelow (st.stage slot blockhash) (st.advance slot).frontier with
      | some newest =>
        { st.advance slot with
          fence := some ⟨newest.1, newest.2⟩
          blocks := (st.stage slot blockhash).filter ((st.advance slot).frontier + 1 ≤ ·.1) }
      | none => { st.advance slot with blocks := st.stage slot blockhash } := by
  unfold applyBlock
  rw [advance_blocks]

@[simp] theorem applyBlock_frontier (st : CheckpointState) (slot : ℕ) (blockhash : Option String) :
    (st.applyBlock slot blockhash).frontier = (st.advance slot).frontier := by
  rw [applyBlock_eq]
  split <;> rfl

@[simp] theorem applyBlock_gate (st : CheckpointState) (slot : ℕ) (blockhash : Option String) :
    (st.applyBlock slot blockhash).gate = st.gate := by
  rw [← (moved_advance st slot).gate_eq, applyBlock_eq]
  split <;> rfl

@[simp] theorem applyBlock_completed (st : CheckpointState) (slot : ℕ) (blockhash : Option String) :
    (st.applyBlock slot blockhash).completed = (st.advance slot).completed := by
  rw [applyBlock_eq]
  split <;> rfl

@[simp] theorem applyBlock_dirty (st : CheckpointState) (slot : ℕ) (blockhash : Option String) :
    (st.applyBlock slot blockhash).dirty =
      (st.dirty || decide (st.frontier < (st.advance slot).frontier)) := by
  rw [applyBlock_eq]
  split <;> rfl

end CheckpointState

/-- The two indexed programs. -/
inductive ProgramType
  | escrow
  | withdraw
  deriving DecidableEq, Repr

/-- Why a startup range is refused. -/
inductive StartupError
  | startSlotAheadOfCheckpoint (setting : String) (programType : ProgramType)
      (startSlot checkpoint : ℕ)
  | gapTooLarge (gap maxGap : ℕ)
  deriving DecidableEq, Repr

def backfillStartSetting : String := "indexer.backfill.start_slot"

def rpcPollingStartSetting : String := "indexer.rpc_polling.start_slot"

/-- A stored checkpoint wins, and a configured start may not lie above the slot after it. -/
def startFloor (setting : String) (programType : ProgramType)
    (lastCheckpoint configuredStart : Option ℕ) : Except StartupError ℕ :=
  match lastCheckpoint, configuredStart with
  | some checkpoint, some startSlot =>
    if checkpoint < startSlot - 1 then
      .error (.startSlotAheadOfCheckpoint setting programType startSlot checkpoint)
    else .ok checkpoint
  | some checkpoint, none => .ok checkpoint
  | none, configured => .ok (configured.getD 0 - 1)

/-- The inclusive slot a source without a fill resumes from; `none` is the chain tip. -/
def liveResumeSlot (lastCheckpoint configuredStart : Option ℕ) : Option ℕ :=
  ((lastCheckpoint.map (· + 1)).or configuredStart).map (max · 1)

def validateGap (currentSlot lastCheckpoint maxGapSlots : ℕ) : Except StartupError (Option ℕ) :=
  if currentSlot ≤ lastCheckpoint then .ok none
  else if maxGapSlots < currentSlot - lastCheckpoint then
    .error (.gapTooLarge (currentSlot - lastCheckpoint) maxGapSlots)
  else .ok (some (currentSlot - lastCheckpoint))

/-- The startup boundary shared by the fill and the live source. -/
structure StartupRange where
  gap : Option (ℕ × ℕ)
  liveStartSlot : ℕ
  anchor : ℕ
  deriving DecidableEq, Repr

/-- `resolve_range`, where `currentSlot` is what the endpoint answers for the newest block
at or below the tip. -/
def resolveRange (programType : ProgramType) (lastCheckpoint configuredStart : Option ℕ)
    (currentSlot maxGapSlots : ℕ) : Except StartupError StartupRange :=
  match startFloor backfillStartSetting programType lastCheckpoint configuredStart with
  | .error e => .error e
  | .ok fromSlot =>
    match validateGap currentSlot fromSlot maxGapSlots with
    | .error e => .error e
    | .ok none => .ok ⟨none, max fromSlot currentSlot + 1, fromSlot⟩
    | .ok (some _) => .ok ⟨some (fromSlot, currentSlot), max fromSlot currentSlot + 1, fromSlot⟩

/-- A stored checkpoint is the floor of every process. -/
theorem startFloor_some {setting : String} {programType : ProgramType} {checkpoint floor : ℕ}
    {configuredStart : Option ℕ}
    (h : startFloor setting programType (some checkpoint) configuredStart = .ok floor) :
    floor = checkpoint := by
  cases configuredStart with
  | none => exact (Except.ok.inj h).symm
  | some startSlot =>
    simp only [startFloor] at h
    split at h
    · cases h
    · exact (Except.ok.inj h).symm

/-- The resolved range: its floor, and either an open gap below the live boundary or none. -/
theorem resolveRange_ok {programType : ProgramType} {lastCheckpoint configuredStart : Option ℕ}
    {currentSlot maxGapSlots : ℕ} {range : StartupRange}
    (h : resolveRange programType lastCheckpoint configuredStart currentSlot maxGapSlots
      = .ok range) :
    startFloor backfillStartSetting programType lastCheckpoint configuredStart
        = .ok range.anchor ∧
      (range.gap = none ∧ range.liveStartSlot = range.anchor + 1 ∨
        range.gap = some (range.anchor, currentSlot) ∧ range.anchor < currentSlot ∧
          range.liveStartSlot = currentSlot + 1) := by
  unfold resolveRange validateGap at h
  split at h
  · cases h
  · rename_i fromSlot hfloor
    rw [hfloor]
    by_cases hle : currentSlot ≤ fromSlot
    · rw [if_pos hle] at h
      cases h
      exact ⟨rfl, .inl ⟨rfl, by simp [hle]⟩⟩
    · rw [if_neg hle] at h
      by_cases hlarge : maxGapSlots < currentSlot - fromSlot
      · rw [if_pos hlarge] at h
        cases h
      · rw [if_neg hlarge] at h
        cases h
        refine ⟨rfl, .inr ⟨rfl, Nat.not_le.mp hle, ?_⟩⟩
        dsimp only
        omega

end PrivateChannels.Indexer
