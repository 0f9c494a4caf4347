import PrivateChannels.Core.Block

/-!
# The blockhash window of the dedup stage

A list of settled blockhashes, oldest first, and a cache of the messages seen on each.
Dedup adds hashes, the settler pops those its next block expires, and a restart rebuilds
both.
-/

namespace PrivateChannels.Core

/-- The messages seen on each blockhash; an absent key holds none. -/
abbrev DedupCache := Hash → Finset Hash

/-- The window and its cache. -/
abbrev DedupState := List Hash × DedupCache

/-- Counters shared by dedup, the executor and the settler. -/
structure BlockhashProgress where
  announced : ℕ
  ingested : ℕ
  admissions : ℕ
  deriving DecidableEq, Repr

/-- `ingest_blockhashes`, with the hash it was given and those it drains. -/
def ingestBlockhashes (hashes : List Hash) (live : List Hash) (cache : DedupCache)
    (maxBlockhashes : ℕ) (progress : BlockhashProgress) :
    List Hash × DedupCache × BlockhashProgress :=
  match hashes with
  | [] => (live, cache, progress)
  | hashes =>
    let bhList := live ++ hashes
    let progress := { progress with ingested := progress.ingested + hashes.length }
    let expired := bhList.take (bhList.length - maxBlockhashes)
    let bhList := bhList.drop (bhList.length - maxBlockhashes)
    let cache : DedupCache := fun blockhash => if blockhash ∈ expired then ∅ else cache blockhash
    (bhList, fun blockhash => if blockhash ∈ bhList then cache blockhash else ∅, progress)

/-- What is left, the number popped and the admissions so far. It also stops on an empty
list. -/
def retireExpiringBlockhashes (live : List Hash) (maxBlockhashes : ℕ)
    (progress : BlockhashProgress) : List Hash × BlockhashProgress × ℕ × ℕ :=
  let announced := progress.announced + 1
  let pending := announced - progress.ingested
  let popped := min live.length (live.length + pending - maxBlockhashes)
  (live.drop popped, { progress with announced := announced }, popped, progress.admissions)

/-- The loop over neighbouring heights, from the index of the second one. -/
def lastGapFrom : ℕ → Option ℕ → List ℕ → Option ℕ
  | index, lastGap, previous :: height :: heights =>
    lastGapFrom (index + 1) (if height ≠ previous + 1 then some index else lastGap)
      (height :: heights)
  | _, lastGap, _ => lastGap

def heightOf (block : BlockInfo) : Except String ℕ :=
  match block.blockHeight with
  | some height => .ok height
  | none =>
    let slot := block.slot
    .error (s!"the block at slot {slot} has no block height, so the dedup window cannot be " ++
      "proven complete")

/-- The newest restored block is the tip the counter names. -/
def checkTip (newestSlot newestHeight : ℕ) : Option ℕ → Except String Unit
  | some durable =>
    if newestHeight = durable then .ok ()
    else .error (s!"the newest restored block at slot {newestSlot} has height {newestHeight} " ++
      s!"but the durable block height counter is {durable}, so the dedup window is not the " ++
      "chain tip; restore from backup")
  | none => .error ("the durable block height counter is missing while the blocks table still " ++
      "holds rows, so the dedup window cannot be proven complete; a backup of this ledger is " ++
      "missing it too, so put the block_height metadata counter back from the newest stored " ++
      "block's height once that block is confirmed to be the chain tip")

/-- `verified_dedup_tail`: the blocks above the last gap, oldest first. -/
def verifiedDedupTail (blocks : List BlockInfo) (durableHeight : Option ℕ) :
    Except String (List BlockInfo) :=
  match blocks.getLast? with
  | none =>
    match durableHeight with
    | some durable =>
      .error (s!"the ledger has no block rows but the durable block height counter is " ++
        s!"{durable}, so every block in the dedup window is missing; restore from backup")
    | none => .ok []
  | some newest => do
    let heights ← blocks.mapM heightOf
    checkTip newest.slot (heights.getLastD 0) durableHeight
    match lastGapFrom 1 none heights with
    | some gap => .ok (blocks.drop gap)
    | none => .ok blocks

/-- `get_last_blocks` over the stored rows in slot order. -/
def getLastBlocks (stored : List BlockInfo) (durableHeight : Option ℕ) (limit : ℕ) :
    Except String (List BlockInfo) :=
  verifiedDedupTail (stored.drop (stored.length - limit)) durableHeight

/-- A message is noted under its blockhash when that hash was loaded. -/
def noteMessage (loadedHashes : List Hash) (cache : DedupCache) (entry : Hash × Hash) :
    DedupCache :=
  if entry.2 ∈ loadedHashes then Function.update cache entry.2 (insert entry.1 (cache entry.2))
  else cache

/-- One block of a rebuild. -/
def loadBlock (loadedHashes : List Hash) (state : DedupState) (block : BlockInfo) :
    Except String DedupState :=
  let slot := block.slot
  let signatures := block.transactionSignatures.length
  let recents := block.transactionRecentBlockhashes.length
  let messages := block.transactionMessageHashes.length
  if signatures ≠ recents then
    .error (s!"Block {slot} has mismatched transaction_signatures ({signatures}) and " ++
      s!"transaction_recent_blockhashes ({recents}) lengths")
  else if messages ≠ signatures then
    .error (s!"Block {slot} has mismatched transaction_message_hashes ({messages}) and " ++
      s!"transaction_signatures ({signatures}) lengths")
  else
    .ok (state.1 ++ [block.blockhash],
      (block.transactionMessageHashes.zip block.transactionRecentBlockhashes).foldl
        (noteMessage loadedHashes) state.2)

def buildDedupState (blocks : List BlockInfo) : Except String DedupState :=
  blocks.foldlM (loadBlock (blocks.map (·.blockhash))) ([], fun _ => ∅)

/-- The window a restart begins with. -/
def loadDedupState (stored : List BlockInfo) (durableHeight : Option ℕ) (maxBlockhashes : ℕ) :
    Except String DedupState := do
  match ← getLastBlocks stored durableHeight maxBlockhashes with
  | [] => .ok ([], fun _ => ∅)
  | blocks => buildDedupState blocks

end PrivateChannels.Core
