import PrivateChannels.Foundation.Transition
import PrivateChannels.Indexer.Yellowstone

/-!
# The escrow indexer as a system

Senders, processor and checkpoint writer of one process, over the stored rows and
checkpoint. A superseded fill is aborted only at its next wait, so it may go on sending.
Every send, database call and receive is a step.
-/

namespace PrivateChannels.Indexer

open CheckpointState

variable {ρ : Type*}

/-- How the process is configured to start. -/
inductive StartMode
  /-- Fill up to a custody snapshot, then stream. -/
  | backfill (configuredStart : Option ℕ)
  /-- Stream at once; `tip` is what the endpoint answers if nothing is stored. -/
  | streamOnly (tip : ℕ)
  /-- Fill and exit. -/
  | backfillOnly (configuredStart : Option ℕ)
  deriving DecidableEq, Repr

/-- Where the process starts on a ledger that was never indexed. -/
def StartMode.initialAnchor : StartMode → ℕ
  | .backfill configuredStart | .backfillOnly configuredStart => configuredStart.getD 0 - 1
  | .streamOnly tip => tip

/-- How far the start has come. -/
inductive StartPhase
  | starting
  | filling (target anchor : ℕ)
  | ready (ledgerEnd anchor : ℕ)
  | streaming
  deriving DecidableEq, Repr

/-- One process of the indexer. -/
structure StreamProcess (ρ : Type*) where
  mode : StartMode
  phase : StartPhase
  /-- The instruction channel, oldest first. -/
  instructions : List (ProcessorMessage ρ)
  buffers : List (ℕ × ρ)
  /-- False once a slot write has failed for good. -/
  processing : Bool
  /-- The checkpoint channel, oldest first. -/
  reports : List CheckpointMsg
  /-- What the writer has received, kept for the proofs. -/
  applied : List CheckpointMsg
  writer : CheckpointState
  fills : List (Fill ρ)
  startupFloor : Option ℕ
  connection : Option (Connection ρ)

namespace StreamProcess

def booted (mode : StartMode) : StreamProcess ρ where
  mode := mode
  phase := .starting
  instructions := []
  buffers := []
  processing := true
  reports := []
  applied := []
  writer := ungated
  fills := []
  startupFloor := none
  connection := none

def send (p : StreamProcess ρ) (message : ProcessorMessage ρ) : StreamProcess ρ :=
  { p with instructions := p.instructions ++ [message] }

end StreamProcess

/-- The database and the process, if it is up. -/
structure StreamWorld (ρ : Type*) where
  row : IndexerStateRow
  /-- The rows of the database, by slot. -/
  rows : List (ℕ × ρ)
  /-- The slot indexing began above; settled once a checkpoint is stored. -/
  anchor : ℕ
  process : Option (StreamProcess ρ)

def StreamWorld.fresh : StreamWorld ρ := ⟨⟨none, none⟩, [], 0, none⟩

/-- A fill that starts above `fromSlot` and gives up on its first failure. -/
def startupFill (chain : FinalizedChain ρ) (fromSlot target : ℕ) : Fill ρ :=
  ⟨target, none, false, .running fromSlot (fromSlot + 1) (chain.rowsAt (fromSlot + 1))⟩

/-- Arm the gate in band, then fill the range. -/
def armAndFill (chain : FinalizedChain ρ) (fromSlot target : ℕ) (p : StreamProcess ρ) :
    StreamProcess ρ :=
  { p.send (.regate fromSlot target) with
    phase := .filling target fromSlot
    fills := startupFill chain fromSlot target :: p.fills }

/-- Backfill-only mode seeds the writer with the gate instead of sending it. -/
def gateAndFill (chain : FinalizedChain ρ) (fromSlot target : ℕ) (p : StreamProcess ρ) :
    StreamProcess ρ :=
  { p with
    phase := .filling target fromSlot
    applied := [.regate fromSlot target]
    writer := gated fromSlot target
    fills := [startupFill chain fromSlot target] }

/-- `ensure_startup_anchor`: only a store without a checkpoint gets one. -/
def ensureStartupAnchor (row : IndexerStateRow) (resolved : ℕ) : IndexerStateRow :=
  match row.lastCommittedSlot with
  | some _ => row
  | none => updateCommittedCheckpoint row resolved none

/-- Steps of the start. -/
inductive StartupStep (chain : FinalizedChain ρ) :
    StreamWorld ρ → StreamProcess ρ → StreamWorld ρ → Prop
  | fill {w : StreamWorld ρ} {p : StreamProcess ρ} {configuredStart : Option ℕ}
      {currentSlot maxGapSlots snapshotSlot : ℕ} {range : StartupRange}
      (mode : p.mode = .backfill configuredStart)
      (phase : p.phase = .starting ∨ ∃ ledgerEnd anchor, p.phase = .ready ledgerEnd anchor)
      (resolved : resolveRange .escrow w.row.lastCommittedSlot configuredStart currentSlot
        maxGapSlots = .ok range)
      (current : w.row.lastCommittedSlot.getD 0 ≤ snapshotSlot)
      (gap : range.anchor < snapshotSlot) :
      StartupStep chain w p
        { w with process := some (armAndFill chain range.anchor snapshotSlot p) }
  | noGap {w : StreamWorld ρ} {p : StreamProcess ρ} {configuredStart : Option ℕ}
      {currentSlot maxGapSlots snapshotSlot : ℕ} {range : StartupRange}
      (mode : p.mode = .backfill configuredStart)
      (phase : p.phase = .starting ∨ ∃ ledgerEnd anchor, p.phase = .ready ledgerEnd anchor)
      (resolved : resolveRange .escrow w.row.lastCommittedSlot configuredStart currentSlot
        maxGapSlots = .ok range)
      (current : w.row.lastCommittedSlot.getD 0 ≤ snapshotSlot)
      (noGap : snapshotSlot ≤ range.anchor) :
      StartupStep chain w p
        { w with process := some { p with phase := .ready range.anchor range.anchor } }
  | committed {w : StreamWorld ρ} {p : StreamProcess ρ} {configuredStart : Option ℕ}
      {target anchor checkpoint : ℕ}
      (mode : p.mode = .backfill configuredStart) (phase : p.phase = .filling target anchor)
      (stored : w.row.lastCommittedSlot = some checkpoint) (reached : target ≤ checkpoint) :
      StartupStep chain w p { w with process := some { p with phase := .ready target anchor } }
  | fillOnly {w : StreamWorld ρ} {p : StreamProcess ρ} {configuredStart : Option ℕ}
      {currentSlot maxGapSlots target fromSlot : ℕ} {range : StartupRange}
      (mode : p.mode = .backfillOnly configuredStart) (phase : p.phase = .starting)
      (resolved : resolveRange .escrow w.row.lastCommittedSlot configuredStart currentSlot
        maxGapSlots = .ok range)
      (covered : ∀ committed ∈ w.row.lastCommittedSlot, range.anchor ≤ committed)
      (gap : range.gap = some (fromSlot, target)) :
      StartupStep chain w p { w with process := some (gateAndFill chain fromSlot target p) }
  | streamAfterFill {w : StreamWorld ρ} {p : StreamProcess ρ} {ledgerEnd anchor : ℕ}
      (phase : p.phase = .ready ledgerEnd anchor)
      (boundary : ∀ existing ∈ (ensureStartupAnchor w.row anchor).lastCommittedSlot,
        existing ≤ ledgerEnd) :
      StartupStep chain w p
        { w with
          row := ensureStartupAnchor w.row anchor
          process := some { p with phase := .streaming, startupFloor := some ledgerEnd } }
  | stream {w : StreamWorld ρ} {p : StreamProcess ρ} {tip floor : ℕ}
      (mode : p.mode = .streamOnly tip) (phase : p.phase = .starting)
      (anchored : (ensureStartupAnchor w.row tip).lastCommittedSlot = some floor) :
      StartupStep chain w p
        { w with
          row := ensureStartupAnchor w.row tip
          process := some { p with phase := .streaming, startupFloor := some floor } }

/-- The gate is sent, the new fill spawned and the startup floor spent. -/
def armReconnectGap (tSub anchor : ℕ) (c : Connection ρ) (p : StreamProcess ρ) :
    StreamProcess ρ :=
  let target := Connection.armTarget p.startupFloor tSub
  { p.send (.regate anchor target) with
    fills := ⟨target, p.startupFloor, true, .waiting⟩ :: p.fills
    startupFloor := none
    connection := some (c.afterArm target) }

/-- Steps of the stream connection. -/
inductive ConnectionStep (chain : FinalizedChain ρ) (w : StreamWorld ρ) (p : StreamProcess ρ) :
    StreamProcess ρ → Prop
  | connect (streaming : p.phase = .streaming) (closed : p.connection = none) :
      ConnectionStep chain w p { p with connection := some .opened }
  | disconnect : ConnectionStep chain w p { p with connection := none }
  | slotUpdate {c : Connection ρ} {slot : ℕ} (opened : p.connection = some c)
      (idle : c.task = .idle) :
      ConnectionStep chain w p { p with connection := some { c with task := .slotUpdate slot } }
  | block {c : Connection ρ} {b : SourceBlock ρ} (opened : p.connection = some c)
      (idle : c.task = .idle) (finalized : b ∈ chain.blocks) :
      ConnectionStep chain w p { p with connection := some { c with task := .block b } }
  | readAnchor {c : Connection ρ} {filling : Bool} {tSub anchor : ℕ}
      (opened : p.connection = some c) (arms : c.armSlot filling = some tSub)
      (stored : w.row.lastCommittedSlot = some anchor) :
      ConnectionStep chain w p { p with connection := some { c with anchor := some anchor } }
  | arm {c : Connection ρ} {filling : Bool} {tSub anchor : ℕ}
      (opened : p.connection = some c) (arms : c.armSlot filling = some tSub)
      (read : c.anchor = some anchor) :
      ConnectionStep chain w p (armReconnectGap tSub anchor c p)
  | slotDone {c : Connection ρ} {filling : Bool} {slot : ℕ} (opened : p.connection = some c)
      (task : c.task = .slotUpdate slot) (armed : c.armed = true)
      (covered : c.armSlot filling = none) (notArming : c.anchor = none) :
      ConnectionStep chain w p { p with connection := some { c with task := .idle } }
  | linked {c : Connection ρ} {b : SourceBlock ρ} (opened : p.connection = some c)
      (task : c.task = .block b) (armed : c.armed = true)
      (link : checkBlockLink c.lastForwarded c.gateTarget b.slot b.parentSlot b.parentBlockhash
        = .ok ()) :
      ConnectionStep chain w p
        { p with connection := some { c with task := .forwarding b b.rows } }
  | sendRow {c : Connection ρ} {b : SourceBlock ρ} {row : ρ} {pending : List ρ}
      (opened : p.connection = some c) (task : c.task = .forwarding b (row :: pending)) :
      ConnectionStep chain w p
        { p.send (.instruction b.slot row) with
          connection := some { c with task := .forwarding b pending } }
  | sendComplete {c : Connection ρ} {b : SourceBlock ρ} (opened : p.connection = some c)
      (task : c.task = .forwarding b []) :
      ConnectionStep chain w p
        { p.send (.slotComplete b.slot none) with connection := some (c.afterForward b) }

/-- Steps of a gap fill. -/
inductive FillStep (chain : FinalizedChain ρ) (w : StreamWorld ρ) (p : StreamProcess ρ) :
    StreamProcess ρ → Prop
  | attempt {before after : List (Fill ρ)} {fill : Fill ρ} {read : Except Unit (Option ℕ)}
      {maxGapSlots checkpoint replayAnchor : ℕ}
      (among : p.fills = before ++ fill :: after) (waiting : fill.state = .waiting)
      (answered : read = .ok w.row.lastCommittedSlot ∨ read = .error ())
      (plan : gapFillPlan read fill.floor fill.target maxGapSlots
        = .fillFrom checkpoint replayAnchor) :
      FillStep chain w p
        { p with
          fills := before ++
            { fill with
              state := .running checkpoint (replayAnchor + 1)
                (chain.rowsAt (replayAnchor + 1)) } :: after }
  | sendRow {before after : List (Fill ρ)} {fill : Fill ρ} {base slot : ℕ} {row : ρ}
      {pending : List ρ} (among : p.fills = before ++ fill :: after)
      (state : fill.state = .running base slot (row :: pending)) (inRange : slot ≤ fill.target) :
      FillStep chain w p
        { p.send (.instruction slot row) with
          fills := before ++ { fill with state := .running base slot pending } :: after }
  | sendComplete {before after : List (Fill ρ)} {fill : Fill ρ} {base slot : ℕ}
      (among : p.fills = before ++ fill :: after)
      (state : fill.state = .running base slot []) (inRange : slot ≤ fill.target) :
      FillStep chain w p
        { p.send (.slotComplete slot ((chain.blockAt slot).map (·.blockhash))) with
          fills := before ++
            { fill with state := .running base (slot + 1) (chain.rowsAt (slot + 1)) } :: after }
  | failed {before after : List (Fill ρ)} {fill : Fill ρ}
      (among : p.fills = before ++ fill :: after) (retries : fill.retries = true) :
      FillStep chain w p { p with fills := before ++ { fill with state := .waiting } :: after }
  | ended {before after : List (Fill ρ)} {fill : Fill ρ}
      (among : p.fills = before ++ fill :: after) :
      FillStep chain w p { p with fills := before ++ after }

/-- The writer's reaction to one message. -/
def applyReport (writer : CheckpointState) : CheckpointMsg → CheckpointState
  | .slot slot blockhash => writer.applyBlock slot blockhash
  | .regate fromSlot target => writer.regate fromSlot target

/-- Steps of the processor and the writer. -/
inductive PipelineStep (w : StreamWorld ρ) (p : StreamProcess ρ) : StreamWorld ρ → Prop
  | buffer {slot : ℕ} {row : ρ} {rest : List (ProcessorMessage ρ)} (alive : p.processing = true)
      (next : p.instructions = .instruction slot row :: rest) :
      PipelineStep w p
        { w with
          process := some { p with instructions := rest, buffers := (slot, row) :: p.buffers } }
  | forwardRegate {fromSlot target : ℕ} {rest : List (ProcessorMessage ρ)}
      (alive : p.processing = true)
      (next : p.instructions = .regate fromSlot target :: rest) :
      PipelineStep w p
        { w with
          process := some
            { p with instructions := rest, reports := p.reports ++ [.regate fromSlot target] } }
  | finalize {slot : ℕ} {blockhash : Option String} {rest : List (ProcessorMessage ρ)}
      (alive : p.processing = true)
      (next : p.instructions = .slotComplete slot blockhash :: rest) :
      PipelineStep w p
        { w with
          rows := p.buffers.filter (·.1 = slot) ++ w.rows
          process := some
            { p with
              instructions := rest
              buffers := p.buffers.filter (·.1 ≠ slot)
              reports := p.reports ++ [.slot slot blockhash] } }
  | writeFailed {slot : ℕ} {blockhash : Option String} {rest : List (ProcessorMessage ρ)}
      {written : List (ℕ × ρ)} (alive : p.processing = true)
      (next : p.instructions = .slotComplete slot blockhash :: rest)
      (partly : written ⊆ p.buffers.filter (·.1 = slot)) :
      PipelineStep w p
        { w with
          rows := written ++ w.rows
          process := some { p with processing := false } }
  | report {message : CheckpointMsg} {rest : List CheckpointMsg}
      (next : p.reports = message :: rest) :
      PipelineStep w p
        { w with
          process := some
            { p with
              reports := rest
              applied := p.applied ++ [message]
              writer := applyReport p.writer message } }
  | flush {landed reported : Bool} (dirty : p.writer.dirty = true)
      (truthful : reported = true → landed = true) :
      PipelineStep w p
        { w with
          row := if landed then p.writer.flush w.row else w.row
          process := some { p with writer := { p.writer with dirty := !reported } } }

/-- Who moves. -/
inductive StreamEvent
  | boot (mode : StartMode)
  | startup
  | connection
  | fill
  | pipeline
  | stop
  deriving DecidableEq, Repr

/-- One step of the indexer. -/
inductive StreamStep (chain : FinalizedChain ρ) :
    StreamWorld ρ → StreamEvent → StreamWorld ρ → Prop
  | boot {w : StreamWorld ρ} {mode : StartMode} (down : w.process = none) :
      StreamStep chain w (.boot mode)
        { w with
          anchor := if w.row.lastCommittedSlot.isSome then w.anchor else mode.initialAnchor
          process := some (.booted mode) }
  | startup {w w' : StreamWorld ρ} {p : StreamProcess ρ} (up : w.process = some p)
      (step : StartupStep chain w p w') : StreamStep chain w .startup w'
  | connection {w : StreamWorld ρ} {p p' : StreamProcess ρ} (up : w.process = some p)
      (step : ConnectionStep chain w p p') :
      StreamStep chain w .connection { w with process := some p' }
  | fill {w : StreamWorld ρ} {p p' : StreamProcess ρ} (up : w.process = some p)
      (step : FillStep chain w p p') : StreamStep chain w .fill { w with process := some p' }
  | pipeline {w w' : StreamWorld ρ} {p : StreamProcess ρ} (up : w.process = some p)
      (step : PipelineStep w p w') : StreamStep chain w .pipeline w'
  | stop {w : StreamWorld ρ} : StreamStep chain w .stop { w with process := none }

end PrivateChannels.Indexer
