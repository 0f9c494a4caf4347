import PrivateChannels.Core.DedupWindow
import PrivateChannels.Core.ResultChunks
import PrivateChannels.Foundation.Transition

/-!
# The write pipeline

Dedup forwards, the sequencer groups, the executor runs and the settler cuts blocks. The
executor admits under the window's read lock what the settler retires under its write
lock. A crash loses all but the committed blocks.
-/

namespace PrivateChannels.Core

open scoped List

/-- One message to the settler; `admission` is set on the last one of an admission. -/
structure ExecutedBatch where
  transactions : List SanitizedTransaction
  admission : Option ℕ
  deriving DecidableEq, Repr

/-- `retain_live` -/
def retainLive (transactions : List SanitizedTransaction) (live : List Hash) :
    List SanitizedTransaction :=
  transactions.filter fun tx => tx.recentBlockhash ∈ live

/-- `snapshot_and_admit`: the number of this admission, if any transaction is live. -/
def snapshotAndAdmit (live : List Hash) (transactions oversized : List SanitizedTransaction)
    (progress : BlockhashProgress) : Option ℕ × BlockhashProgress :=
  let admits := (transactions ++ oversized).any fun tx => tx.recentBlockhash ∈ live
  if admits then
    (some (progress.admissions + 1), { progress with admissions := progress.admissions + 1 })
  else (none, progress)

section Chunks

variable (bytes rows : SanitizedTransaction → ℕ) (byteCap rowCap : ℕ)

/-- What the settler keeps of the messages of `send_results_chunked`. A transaction stands for
its result. -/
def executedBatches (transactions : List SanitizedTransaction) (admission : Option ℕ) :
    List ExecutedBatch :=
  (Chunking.sendResultsChunked ⟨fun _ => bytes, rows, byteCap, rowCap⟩ transactions transactions
    0 admission).map fun message => ⟨message.transactions, message.admission⟩

/-- The messages `process_batch` sends for one sub-batch: the number rides the last. -/
def batchMessages (admin regular : List SanitizedTransaction) (admission : Option ℕ) :
    List ExecutedBatch :=
  (if admin = [] then []
    else executedBatches bytes rows byteCap rowCap admin
      (if regular = [] then admission else none)) ++
  if regular = [] then []
  else executedBatches bytes rows byteCap rowCap regular admission

end Chunks

/-- Between batches, loading the accounts of one, handing over its results, or gone. -/
inductive Executor where
  | idle
  | loading (batch : List SanitizedTransaction)
  | sending (messages : List ExecutedBatch) (deferred : List SanitizedTransaction)
  | stopped

/-- What the executor has yet to send. -/
def Executor.unsent : Executor → List ExecutedBatch
  | .sending messages _ => messages
  | _ => []

/-- The transactions it holds and has not executed. -/
def Executor.held : Executor → List SanitizedTransaction
  | .loading batch => batch
  | .sending _ deferred => deferred
  | _ => []

/-- What is left after a sub-batch runs as a batch of its own. -/
def Executor.resume (live : List Hash) (deferred : List SanitizedTransaction) : Executor :=
  if deferred = [] then .idle else .loading (retainLive deferred live)

/-- The block the next one builds on. -/
structure LastBlock where
  slot : ℕ
  blockhash : Hash
  blockHeight : ℕ
  deriving DecidableEq, Repr

/-- Where the settler is in its tick. -/
inductive SettlePhase where
  | waiting
  /-- A hash was retired: results up to this admission are awaited. -/
  | collecting (target : ℕ)
  | cutting
  /-- The block is committed and its hash is on its way to dedup. -/
  | publishing (blockhash : Hash)
  | stopped
  deriving DecidableEq, Repr

/-- `received` is the history of `receivedThrough`. -/
structure Settler where
  buffer : List SanitizedTransaction
  received : List ExecutedBatch
  receivedThrough : ℕ
  lastBlock : Option LastBlock
  phase : SettlePhase

/-- `buffer_batch` -/
def Settler.bufferBatch (settler : Settler) (message : ExecutedBatch) : Settler :=
  { settler with
    buffer := settler.buffer ++ message.transactions
    received := settler.received ++ [message]
    receivedThrough :=
      match message.admission with
      | some admission => max settler.receivedThrough admission
      | none => settler.receivedThrough }

/-- The block `settle_transactions` commits. `computed` is the digest of its contents. -/
def nextBlock (nextSlot : ℕ) (lastBlock : Option LastBlock) (computed : Hash) (blockTime : ℤ)
    (results : List SanitizedTransaction) : BlockInfo :=
  { slot := nextSlot
    blockhash := if lastBlock.isNone then 0 else computed
    previousBlockhash := lastBlock.elim 0 (·.blockhash)
    parentSlot := lastBlock.elim nextSlot (·.slot)
    blockHeight := some (lastBlock.elim 0 (·.blockHeight + 1))
    blockTime := some blockTime
    transactionSignatures := results.map (·.signature)
    transactionRecentBlockhashes := results.map (·.recentBlockhash)
    transactionMessageHashes := results.map (·.messageHash) }

/-- `LastBlock` of a block that was just cut. -/
def LastBlock.of (block : BlockInfo) (height : ℕ) : LastBlock :=
  ⟨block.slot, block.blockhash, height⟩

/-- Everything a crash loses. `transit` is between dedup's check and the executor. -/
structure Process where
  live : List Hash
  cache : DedupCache
  progress : BlockhashProgress
  channel : List Hash
  transit : List SanitizedTransaction
  executor : Executor
  results : List ExecutedBatch
  settler : Settler

/-- A ledger and the node that writes it. `chain` is every block ever committed,
`stored` the rows still there. -/
structure Node where
  chain : List BlockInfo
  stored : List BlockInfo
  durableHeight : Option ℕ
  process : Option Process

/-- A ledger no node has written. -/
def Node.fresh : Node := ⟨[], [], none, none⟩

/-- A node after `load_dedup_state`, with all counters at zero. -/
def Process.boot (stored : List BlockInfo) (durableHeight : Option ℕ) (state : DedupState) :
    Process where
  live := state.1
  cache := state.2
  progress := ⟨0, 0, 0⟩
  channel := []
  transit := []
  executor := .idle
  results := []
  settler :=
    { buffer := []
      received := []
      receivedThrough := 0
      lastBlock := stored.getLast?.map fun tip =>
        .of tip (durableHeight.getD (tip.blockHeight.getD tip.slot))
      phase := .waiting }

/-- The steps of the pipeline. -/
inductive PipelineLabel where
  | forward (tx : SanitizedTransaction)
  | ingest
  | take
  | admission
  | send
  | resume
  | stop
  | receive
  | retire
  | collected
  | commit
  | publish
  | halt
  | crash
  | prune
  | boot
  deriving DecidableEq, Repr

/-- `recent` is the blockhash the message with a given hash names: it is part of what
was hashed. -/
structure PipelineConfig where
  maxBlockhashes : ℕ
  recent : Hash → Hash
  isAdmin : SanitizedTransaction → Bool

/-- The steps of a running node. -/
inductive ProcessStep (config : PipelineConfig) : Process → PipelineLabel → Process → Prop
  /-- Dedup accepts a transaction and notes its message. -/
  | forward {p : Process} {tx : SanitizedTransaction}
      (hmessage : tx.recentBlockhash = config.recent tx.messageHash)
      (hlive : tx.recentBlockhash ∈ p.live) (hnew : tx.messageHash ∉ p.cache tx.recentBlockhash) :
      ProcessStep config p (.forward tx)
        { p with
          cache := Function.update p.cache tx.recentBlockhash
            (insert tx.messageHash (p.cache tx.recentBlockhash))
          transit := p.transit ++ [tx] }
  | ingest {p : Process} {live : List Hash} {cache : DedupCache} {progress : BlockhashProgress}
      (h : ingestBlockhashes p.channel p.live p.cache config.maxBlockhashes p.progress =
        (live, cache, progress)) :
      ProcessStep config p .ingest
        { p with live := live, cache := cache, progress := progress, channel := [] }
  /-- The executor takes some of what dedup forwarded, in the sequencer's order. -/
  | take {p : Process} {batch rest : List SanitizedTransaction} (hidle : p.executor = .idle)
      (htransit : p.transit ~ batch ++ rest) :
      ProcessStep config p .take
        { p with transit := rest, executor := .loading (retainLive batch p.live) }
  /-- The accounts are loaded as far as the budget goes, and the final check runs. -/
  | admission {p : Process} {batch transactions oversized deferred : List SanitizedTransaction}
      {bytes rows : SanitizedTransaction → ℕ} {byteCap rowCap : ℕ} {admission : Option ℕ}
      {progress : BlockhashProgress} (hloading : p.executor = .loading batch)
      (hplan : batch ~ transactions ++ oversized ++ deferred)
      (hadmission : snapshotAndAdmit p.live transactions oversized p.progress =
        (admission, progress)) :
      ProcessStep config p .admission
        { p with
          progress := progress
          executor := .sending
            (batchMessages bytes rows byteCap rowCap
              ((retainLive transactions p.live).filter config.isAdmin)
              (((retainLive transactions p.live).filter fun tx => !config.isAdmin tx) ++
                retainLive oversized p.live) admission)
            deferred }
  | send {p : Process} {message : ExecutedBatch} {messages : List ExecutedBatch}
      {deferred : List SanitizedTransaction}
      (hsending : p.executor = .sending (message :: messages) deferred) :
      ProcessStep config p .send
        { p with results := p.results ++ [message], executor := .sending messages deferred }
  | resume {p : Process} {deferred : List SanitizedTransaction}
      (hsending : p.executor = .sending [] deferred) :
      ProcessStep config p .resume { p with executor := .resume p.live deferred }
  /-- The accounts could not be loaded, or the input is closed. -/
  | stop {p : Process} (hunsent : p.executor.unsent = []) :
      ProcessStep config p .stop { p with executor := .stopped }
  | receive {p : Process} {message : ExecutedBatch} {results : List ExecutedBatch}
      (hresults : p.results = message :: results)
      (hphase : p.settler.phase = .waiting ∨
        ∃ target, p.settler.phase = .collecting target ∧ p.settler.receivedThrough < target) :
      ProcessStep config p .receive
        { p with results := results, settler := p.settler.bufferBatch message }
  /-- A tick that cuts a block, up to the wait. -/
  | retire {p : Process} {live : List Hash} {progress : BlockhashProgress} {popped admissions : ℕ}
      (hwaiting : p.settler.phase = .waiting)
      (hretire : retireExpiringBlockhashes p.live config.maxBlockhashes p.progress =
        (live, progress, popped, admissions)) :
      ProcessStep config p .retire
        { p with
          live := live
          progress := progress
          settler := { p.settler with
            phase := if popped > 0 then .collecting admissions else .cutting } }
  /-- `collect_admitted` returns: the admission is in, or the executor is gone. -/
  | collected {p : Process} {target : ℕ} (hphase : p.settler.phase = .collecting target)
      (hin : target ≤ p.settler.receivedThrough ∨ p.executor = .stopped ∧ p.results = []) :
      ProcessStep config p .collected { p with settler := { p.settler with phase := .cutting } }
  /-- The queue to dedup holds as many hashes as its window. The one dedup has in hand counts as
  queued, so there is room for one fewer than in the source. -/
  | publish {p : Process} {blockhash : Hash}
      (hphase : p.settler.phase = .publishing blockhash)
      (hroom : p.channel.length < config.maxBlockhashes) :
      ProcessStep config p .publish
        { p with
          channel := p.channel ++ [blockhash]
          settler := { p.settler with phase := .waiting } }
  /-- The settler gives up; what it had buffered is dropped. -/
  | halt {p : Process} :
      ProcessStep config p .halt
        { p with settler := { p.settler with phase := .stopped, buffer := [] } }

/-- One step of a node. -/
inductive PipelineStep (config : PipelineConfig) : Node → PipelineLabel → Node → Prop
  | running {s : Node} {p p' : Process} {label : PipelineLabel} (hup : s.process = some p)
      (hstep : ProcessStep config p label p') :
      PipelineStep config s label { s with process := some p' }
  /-- The commit, with hashes pairwise distinct. -/
  | commit {s : Node} {p : Process} {nextSlot : ℕ} {computed : Hash} {blockTime : ℤ}
      {block : BlockInfo} (hup : s.process = some p) (hphase : p.settler.phase = .cutting)
      (hblock : block = nextBlock nextSlot p.settler.lastBlock computed blockTime p.settler.buffer)
      (hdistinct : block.blockhash ∉ s.chain.map (·.blockhash)) :
      PipelineStep config s .commit
        { chain := s.chain ++ [block]
          stored := s.stored ++ [block]
          durableHeight := block.blockHeight
          process := some { p with
            settler := { p.settler with
              buffer := []
              lastBlock := some (.of block (block.blockHeight.getD 0))
              phase := .publishing block.blockhash } } }
  | crash {s : Node} : PipelineStep config s .crash { s with process := none }
  /-- Rows may go missing. -/
  | prune {s : Node} {stored : List BlockInfo} (hsub : stored <+ s.stored) :
      PipelineStep config s .prune { s with stored := stored }
  | boot {s : Node} {state : DedupState} (hdown : s.process = none)
      (hwindow : 0 < config.maxBlockhashes)
      (hload : loadDedupState s.stored s.durableHeight config.maxBlockhashes = .ok state) :
      PipelineStep config s .boot
        { s with process := some (.boot s.stored s.durableHeight state) }

end PrivateChannels.Core
