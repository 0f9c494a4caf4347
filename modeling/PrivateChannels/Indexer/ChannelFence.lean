import PrivateChannels.Foundation.LinkedBlocks
import PrivateChannels.Indexer.Checkpoint

/-!
# Checking the channel against the fence

`verify_channel_fence` and its reads. Every read may be answered by another node, which
holds a prefix of the chain from its pruning floor on; tip and first available block are
not tied to the chain.
-/

namespace PrivateChannels.Indexer

/-- A block of the channel. -/
structure ChannelBlock where
  slot : ℕ
  blockhash : String
  parentSlot : ℕ
  deriving DecidableEq, Repr

/-- The blocks of a channel, oldest first; each names the one before it. -/
structure ChannelChain where
  blocks : List ChannelBlock
  linked : Linked ChannelBlock.slot ChannelBlock.parentSlot blocks

namespace ChannelChain

/-- The blocks at or below a slot. -/
def through (chain : ChannelChain) (slot : ℕ) : List ChannelBlock :=
  chain.blocks.filter (·.slot ≤ slot)

/-- What the indexer is told about a slot: its hash if it holds a block. -/
def hashAt (chain : ChannelChain) (slot : ℕ) : Option String :=
  (chain.blocks.find? (·.slot = slot)).map (·.blockhash)

/-- A block's hash determines its ancestry, within both chains and between them. -/
def HashesDetermineAncestry (old chain : ChannelChain) : Prop :=
  ∀ c ∈ [old, chain], ∀ c' ∈ [old, chain], ∀ before b before' b',
    before ++ [b] <+: c.blocks → before' ++ [b'] <+: c'.blocks →
      b.blockhash = b'.blockhash → before = before' ∧ b = b'

/-- The same blocks as `old` up to a checkpoint, and nothing new where the reader saw none. -/
def Extends (chain old : ChannelChain) (checkpoint : ℕ) : Prop :=
  chain.through checkpoint = old.through checkpoint

end ChannelChain

/-- A node holds the first blocks of the chain, from its floor on. -/
structure ChannelNode where
  height : ℕ
  floor : ℕ
  deriving DecidableEq, Repr

/-- The blocks a node serves. -/
def ChannelNode.held (node : ChannelNode) (chain : ChannelChain) : List ChannelBlock :=
  (chain.blocks.take node.height).filter (node.floor ≤ ·.slot)

def getBlockSummary (held : List ChannelBlock) (slot : ℕ) : Option (String × ℕ) :=
  (held.find? (·.slot = slot)).map fun b => (b.blockhash, b.parentSlot)

def getBlocksWithLimit (held : List ChannelBlock) (startSlot limit : ℕ) : List ℕ :=
  ((held.filter (startSlot ≤ ·.slot)).map (·.slot)).take limit

/-- The answers one probe gets, read by read; `laterSummary` is the second summary it may
ask for. -/
structure ProbeReads where
  slot : Except String ℕ
  summary : ℕ → Except String (Option (String × ℕ))
  firstAvailableBlock : Except String ℕ
  blocksWithLimit : ℕ → ℕ → Except String (List ℕ)
  laterSummary : ℕ → Except String (Option (String × ℕ))

/-- Block reads fail or come from nodes of the chain; the listing one was pruned no further than
`cut`. -/
structure ProbeReads.AnsweredBy (chain : ChannelChain) (cut : ℕ) (reads : ProbeReads) : Prop where
  summary : ∃ node : ChannelNode, ∀ slot answer, reads.summary slot = .ok answer →
    answer = getBlockSummary (node.held chain) slot
  blocks : ∃ node : ChannelNode, node.floor ≤ cut ∧ ∀ start limit answer,
    reads.blocksWithLimit start limit = .ok answer →
      answer = getBlocksWithLimit (node.held chain) start limit
  later : ∃ node : ChannelNode, ∀ slot answer, reads.laterSummary slot = .ok answer →
    answer = getBlockSummary (node.held chain) slot

/-- What the fence check answers. -/
inductive FenceVerdict
  | ok
  | mismatch (reason : String)
  | unavailable (reason : String)
  deriving DecidableEq, Repr

/-- One read of the channel: a verdict, or a reason to look again. -/
inductive Probe
  | final (verdict : FenceVerdict)
  | retry (reason : String)
  deriving DecidableEq, Repr

/-- The slots the indexer saw empty. -/
def probeGap (reads : ProbeReads) (fence : ChannelFence) (checkpoint : ℕ) : Probe :=
  if checkpoint ≤ fence.slot then .final .ok
  else
    match reads.blocksWithLimit (fence.slot + 1) 1 with
    | .ok (next :: _) =>
      if next ≤ checkpoint then
        .final (.mismatch
          (s!"the channel has block {next} between fence block {fence.slot} and checkpoint " ++
            s!"{checkpoint}, where the indexer found none"))
      else .final .ok
    | .ok [] =>
      .retry
        (s!"channel serves no block after fence slot {fence.slot} yet, so slots up to " ++
          s!"checkpoint {checkpoint} cannot be checked")
    | .error e => .final (.unavailable s!"channel block list unreadable: {e}")

/-- A missing fence block is only proof with a later block whose parent lies below it. -/
def probeMissingBlock (reads : ProbeReads) (fence : ChannelFence) : Probe :=
  match reads.firstAvailableBlock with
  | .error e => .final (.unavailable s!"channel first available block unreadable: {e}")
  | .ok floor =>
    if fence.slot < floor then
      .final (.unavailable
        s!"fence block {fence.slot} is below the channel's first available block {floor} (pruned)")
    else
      match reads.blocksWithLimit (fence.slot + 1) 1 with
      | .error e => .final (.unavailable s!"channel block list unreadable: {e}")
      | .ok [] => .retry s!"channel does not serve fence block {fence.slot} yet"
      | .ok (later :: _) =>
        match reads.laterSummary later with
        | .ok (some (_, parent)) =>
          if parent < fence.slot then
            .final (.mismatch
              (s!"the channel skips fence slot {fence.slot}: its block {later} follows " ++
                s!"block {parent}"))
          else
            .retry s!"channel does not serve fence block {fence.slot} yet but has block {later}"
        | .ok none =>
          .retry s!"channel does not serve fence block {fence.slot} yet but has block {later}"
        | .error e => .final (.unavailable s!"channel block {later} unreadable: {e}")

/-- One probe of the channel. -/
def probe (reads : ProbeReads) (fence : ChannelFence) (checkpoint : ℕ) : Probe :=
  match reads.slot with
  | .error e => .final (.unavailable s!"channel tip unreadable: {e}")
  | .ok tip =>
    if tip < fence.slot then .retry s!"channel tip {tip} is below fence slot {fence.slot}"
    else
      match reads.summary fence.slot with
      | .ok (some (hash, _)) =>
        if hash = fence.blockhash then probeGap reads fence checkpoint
        else
          .final (.mismatch
            s!"channel block {fence.slot} has hash {hash}, the indexer recorded {fence.blockhash}")
      | .ok none => probeMissingBlock reads fence
      | .error e => .final (.unavailable s!"channel block {fence.slot} unreadable: {e}")

/-- The probes until the budget is spent, which is after the last of `rest`. -/
def verifyLoop (budget : String) (record : FenceRecord) :
    ProbeReads → List ProbeReads → FenceVerdict
  | first, [] =>
    match probe first record.fence record.checkpoint with
    | .final verdict => verdict
    | .retry reason => .unavailable s!"{reason}, still after {budget}"
  | first, next :: rest =>
    match probe first record.fence record.checkpoint with
    | .final verdict => verdict
    | .retry _ => verifyLoop budget record next rest

/-- `budget` is the wait as it is printed; the probes are those it leaves time for. -/
def verifyChannelFence (budget : String) (record : Option FenceRecord) (first : ProbeReads)
    (rest : List ProbeReads) : FenceVerdict :=
  match record with
  | none => .ok
  | some record => verifyLoop budget record first rest

end PrivateChannels.Indexer
