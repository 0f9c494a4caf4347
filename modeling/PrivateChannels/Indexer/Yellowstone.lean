import PrivateChannels.Foundation.LinkedBlocks
import PrivateChannels.Indexer.Checkpoint

/-!
# The live stream and its gap fills

One connection of the source, up to the point where it sends: when it arms the gate, which
block it may forward, and where a gap fill starts.
-/

namespace PrivateChannels.Indexer

variable {ρ : Type*}

/-- A block as the source reports it. -/
structure SourceBlock (ρ : Type*) where
  slot : ℕ
  blockhash : String
  parentSlot : ℕ
  parentBlockhash : String
  /-- What the block decodes to. -/
  rows : List ρ

/-- The chain the source streams. -/
structure FinalizedChain (ρ : Type*) where
  blocks : List (SourceBlock ρ)
  linked : Linked SourceBlock.slot SourceBlock.parentSlot blocks

namespace FinalizedChain

def blockAt (chain : FinalizedChain ρ) (slot : ℕ) : Option (SourceBlock ρ) :=
  chain.blocks.find? (·.slot = slot)

/-- The rows of a slot; a skipped one has none. -/
def rowsAt (chain : FinalizedChain ρ) (slot : ℕ) : List ρ :=
  (chain.blockAt slot).elim [] (·.rows)

theorem rowsAt_slot (chain : FinalizedChain ρ) {b : SourceBlock ρ} (hb : b ∈ chain.blocks) :
    chain.rowsAt b.slot = b.rows := by
  have hfound : chain.blockAt b.slot = some b := by
    unfold blockAt
    cases hf : chain.blocks.find? (·.slot = b.slot) with
    | none => exact absurd (decide_eq_true rfl) (List.find?_eq_none.mp hf b hb)
    | some c =>
      have hslot : c.slot = b.slot := of_decide_eq_true (List.find?_some hf :)
      rw [chain.linked.eq_of_slot_eq (List.mem_of_find?_eq_some hf) hb hslot]
  rw [rowsAt, hfound, Option.elim_some]

end FinalizedChain

/-- What a source or a fill sends to the transaction processor. -/
inductive ProcessorMessage (ρ : Type*)
  | instruction (slot : ℕ) (row : ρ)
  | slotComplete (slot : ℕ) (blockhash : Option String)
  | regate (fromSlot target : ℕ)

/-- What the processor passes on to the checkpoint writer. -/
inductive CheckpointMsg
  | slot (slot : ℕ) (blockhash : Option String)
  | regate (fromSlot target : ℕ)
  deriving DecidableEq, Repr

def ProcessorMessage.toCheckpoint : ProcessorMessage ρ → Option CheckpointMsg
  | .instruction _ _ => none
  | .slotComplete slot blockhash => some (.slot slot blockhash)
  | .regate fromSlot target => some (.regate fromSlot target)

/-- The newest block passed on. -/
structure ForwardedBlock where
  slot : ℕ
  blockhash : String
  deriving DecidableEq, Repr

/-- Why a block does not link up. -/
inductive LinkBreak
  | hole (reason : String)
  | fork (reason : String)
  deriving DecidableEq, Repr

/-- A live block may follow the last forwarded one, or a slot the gap fill covers. -/
def checkBlockLink (last : Option ForwardedBlock) (gateTarget : Option ℕ)
    (slot parentSlot : ℕ) (parentBlockhash : String) : Except LinkBreak Unit :=
  match last with
  | none =>
    match gateTarget with
    | some target =>
      if target < parentSlot then
        .error (.hole s!"parent {parentSlot} is past the gap-fill target {target}")
      else .ok ()
    | none => .ok ()
  | some prev =>
    if prev.slot = parentSlot ∧ prev.blockhash = parentBlockhash then .ok ()
    else if prev.slot < parentSlot then
      if gateTarget.any (parentSlot ≤ ·) then .ok ()
      else
        .error (.hole s!"parent {parentSlot} is past the last forwarded block {prev.slot}")
    else if slot < prev.slot ∧ gateTarget.any (slot ≤ ·) then .ok ()
    else
      .error (.fork
        (s!"block {slot} names parent {parentSlot} ({parentBlockhash}), which contradicts the " ++
          s!"last forwarded block {prev.slot} ({prev.blockhash})"))

/-- What an accepted block rests on, once the gate is armed. -/
theorem checkBlockLink_ok {last : Option ForwardedBlock} {target slot parentSlot : ℕ}
    {parentBlockhash : String}
    (h : checkBlockLink last (some target) slot parentSlot parentBlockhash = .ok ()) :
    parentSlot ≤ target ∨ slot ≤ target ∨ ∃ prev, last = some prev ∧ prev.slot = parentSlot := by
  unfold checkBlockLink at h
  split at h
  · dsimp only at h
    split at h
    · cases h
    · exact .inl (Nat.not_lt.mp ‹_›)
  · rename_i prev
    split at h
    · exact .inr (.inr ⟨prev, rfl, And.left ‹_›⟩)
    split at h
    · split at h
      · exact .inl (of_decide_eq_true ‹_›)
      · cases h
    split at h
    · rename_i hlate
      exact .inr (.inl (of_decide_eq_true hlate.2))
    · cases h

/-- A hole lies past everything the gate covers. -/
theorem checkBlockLink_hole {last : Option ForwardedBlock} {target slot parentSlot : ℕ}
    {parentBlockhash reason : String}
    (h : checkBlockLink last (some target) slot parentSlot parentBlockhash
      = .error (.hole reason)) : target < parentSlot := by
  unfold checkBlockLink at h
  split at h
  · dsimp only at h
    split at h
    · assumption
    · cases h
  · split at h
    · cases h
    split at h
    · split at h
      · cases h
      · rename_i hcovered
        exact Nat.not_le.mp fun hle => hcovered (decide_eq_true hle)
    split at h <;> cases h

/-- How far a finalized slot may run past the last block before the blocks count as withheld. -/
def withheldBlockSlots : ℕ := 32

/-- What a connection is busy with. -/
inductive StreamTask (ρ : Type*)
  | idle
  | slotUpdate (slot : ℕ)
  | block (b : SourceBlock ρ)
  /-- The block is being sent, these rows of it still to go. -/
  | forwarding (b : SourceBlock ρ) (pending : List ρ)

/-- The state of one connection. -/
structure Connection (ρ : Type*) where
  armed : Bool
  gateTarget : Option ℕ
  lastForwarded : Option ForwardedBlock
  task : StreamTask ρ
  /-- The checkpoint read for the gate about to be armed. -/
  anchor : Option ℕ

namespace Connection

def opened : Connection ρ := ⟨false, none, none, .idle, none⟩

/-- The highest slot forwarded or covered by the gap fill. -/
def covered (c : Connection ρ) : Option ℕ :=
  match c.lastForwarded, c.gateTarget with
  | some b, some target => some (max b.slot target)
  | some b, none => some b.slot
  | none, gateTarget => gateTarget

/-- The first message, a slot whose blocks were withheld, or the parent of a block that leaves a
hole. -/
def armSlot (filling : Bool) (c : Connection ρ) : Option ℕ :=
  match c.task with
  | .slotUpdate slot =>
    if c.armed then
      if !filling && c.covered.any (· + withheldBlockSlots < slot) then some slot else none
    else some slot
  | .block b =>
    if c.armed then
      match checkBlockLink c.lastForwarded c.gateTarget b.slot b.parentSlot b.parentBlockhash with
      | .error (.hole _) => some b.parentSlot
      | _ => none
    else some b.slot
  | _ => none

/-- Never below what startup still owes. -/
def armTarget (floor : Option ℕ) (tSub : ℕ) : ℕ := floor.elim tSub (max tSub)

/-- The first arm goes on with its message, a later one is done with a slot and forwards a
block. -/
def afterArm (target : ℕ) (c : Connection ρ) : Connection ρ :=
  { c with
    armed := true
    gateTarget := some (c.gateTarget.elim target (max · target))
    anchor := none
    task := if c.armed then
        match c.task with
        | .block b => .forwarding b b.rows
        | _ => .idle
      else c.task }

/-- A late block does not move the last forwarded one back. -/
def afterForward (b : SourceBlock ρ) (c : Connection ρ) : Connection ρ :=
  { c with
    lastForwarded :=
      if c.lastForwarded.all (·.slot < b.slot) then some ⟨b.slot, b.blockhash⟩
      else c.lastForwarded
    task := .idle }

end Connection

/-- A fill between attempts, or in one: from `base` on everything below `slot` was sent, and
of `slot` all but the pending rows. -/
inductive FillState (ρ : Type*)
  | waiting
  | running (base slot : ℕ) (pending : List ρ)

/-- A startup fill has no retries; a reconnect fill re-reads the checkpoint for each. -/
structure Fill (ρ : Type*) where
  target : ℕ
  floor : Option ℕ
  retries : Bool
  state : FillState ρ

/-- The lower bound of an attempt: the stored checkpoint, not below the floor. -/
def gapFillCheckpoint (read : Except Unit (Option ℕ)) (floor : Option ℕ) : Option ℕ :=
  match read with
  | .ok (some slot) => some (floor.elim slot (max · slot))
  | _ => floor

/-- What a fill attempt does. -/
inductive GapFillPlan
  | retry
  | resolved
  | fillFrom (checkpoint replayAnchor : ℕ)
  deriving DecidableEq, Repr

/-- One round of `fill_reconnect_gap_to`, up to the fill itself. -/
def gapFillPlan (read : Except Unit (Option ℕ)) (floor : Option ℕ) (target maxGapSlots : ℕ) :
    GapFillPlan :=
  match gapFillCheckpoint read floor with
  | none => .retry
  | some checkpoint =>
    match validateGap target checkpoint maxGapSlots with
    | .ok none => .resolved
    | .ok (some _) => .fillFrom checkpoint (checkpoint - 1)
    | .error _ => .retry

theorem gapFillPlan_fillFrom {read : Except Unit (Option ℕ)} {floor : Option ℕ}
    {target maxGapSlots checkpoint replayAnchor : ℕ}
    (h : gapFillPlan read floor target maxGapSlots = .fillFrom checkpoint replayAnchor) :
    gapFillCheckpoint read floor = some checkpoint ∧ replayAnchor = checkpoint - 1 := by
  unfold gapFillPlan at h
  split at h
  · cases h
  · rename_i hread
    split at h
    · cases h
    · cases h
      exact ⟨hread, rfl⟩
    · cases h

end PrivateChannels.Indexer
