import PrivateChannels.Core.PipelineInvariant

/-!
# The deadline of a blockhash

While the queue to dedup has room when a block is announced, the window and the queue hold
no more hashes than the window may, and every result on a retired hash is received before
the cut. With a full queue nothing is left to pop.
-/

namespace PrivateChannels.Core

open scoped List

/-- The settler announces no block while the queue to dedup is full. -/
def Timely (config : PipelineConfig) (s : Node) (label : PipelineLabel) : Prop :=
  label = .retire → ∀ p, s.process = some p → p.channel.length < config.maxBlockhashes

/-- The steps of a pipeline whose dedup keeps up. -/
def TimelyStep (config : PipelineConfig) (s : Node) (label : PipelineLabel) (s' : Node) : Prop :=
  PipelineStep config s label s' ∧ Timely config s label

/-- A block of this height may hold a transaction that names this hash. -/
def Due (config : PipelineConfig) (chain : List BlockInfo) (blockhash : Hash) (height : ℕ) : Prop :=
  ∃ named, (chain.map (·.blockhash))[named]? = some blockhash ∧
    height ≤ named + config.maxBlockhashes

/-- Results that a cut must wait for: they end with the admission it waits on. -/
def Awaited (phase : SettlePhase) (front : List ExecutedBatch) : Prop :=
  front ≠ [] → ∃ target init last, phase = .collecting target ∧ front = init ++ [last] ∧
    last.admission = some target

/-- The messages not yet received are on time. -/
structure OutstandingOk (config : PipelineConfig) (chain : List BlockInfo) (p : Process)
    (front back : List ExecutedBatch) : Prop where
  split : p.outstanding = front ++ back
  awaited : Awaited p.settler.phase front
  due : ∀ message ∈ front, ∀ tx ∈ message.transactions,
    Due config chain tx.recentBlockhash chain.length
  live : ∀ message ∈ back, ∀ tx ∈ message.transactions, tx.recentBlockhash ∈ p.live

/-- What a process keeps while the queue has room. -/
structure DeadlineInv (config : PipelineConfig) (chain : List BlockInfo) (p : Process) : Prop where
  room : p.settler.phase ≠ .stopped →
    p.live.length + (p.progress.announced - p.progress.ingested) ≤ config.maxBlockhashes
  buffered : ∀ tx ∈ p.settler.buffer, Due config chain tx.recentBlockhash chain.length
  outstanding : p.settler.phase ≠ .stopped → ∃ front back, OutstandingOk config chain p front back

section Steps

variable {config : PipelineConfig} {chain : List BlockInfo} {p p' : Process}
  {label : PipelineLabel} {gone rest : List Hash} {blockhash : Hash}

theorem Due.mono {height earlier : ℕ}
    (h : Due config chain blockhash height) (hle : earlier ≤ height) :
    Due config chain blockhash earlier := by
  obtain ⟨named, hnamed, hdue⟩ := h
  exact ⟨named, hnamed, hle.trans hdue⟩

theorem Due.append {height : ℕ} (h : Due config chain blockhash height)
    (blocks : List BlockInfo) : Due config (chain ++ blocks) blockhash height := by
  obtain ⟨named, hnamed, hdue⟩ := h
  refine ⟨named, ?_, hdue⟩
  rw [List.map_append, List.getElem?_append_left (List.getElem?_eq_some_iff.mp hnamed).1]
  exact hnamed

section

variable {front back : List ExecutedBatch} (h : OutstandingOk config chain p front back)
include h

/-- Outside the wait nothing is awaited. -/
theorem OutstandingOk.front_nil (hphase : ∀ target, p.settler.phase ≠ .collecting target) :
    front = [] := by
  by_contra hne
  obtain ⟨target, _, _, heq, _⟩ := h.awaited hne
  exact hphase target heq

/-- The wait ends with nothing awaited outstanding. -/
theorem OutstandingOk.collected {batches : List (List ExecutedBatch)}
    (hmessages : MessagesOk p batches) {target : ℕ} (hphase : p.settler.phase = .collecting target)
    (hin : target ≤ p.settler.receivedThrough ∨ p.executor = .stopped ∧ p.results = []) :
    front = [] := by
  by_contra hne
  obtain ⟨other, init, last, heq, hfront, hlast⟩ := h.awaited hne
  obtain rfl : target = other := SettlePhase.collecting.inj (hphase.symm.trans heq)
  rcases hin with hin | ⟨hstopped, hresults⟩
  · have htag : target ∈ p.outstanding.filterMap (·.admission) := by
      rw [List.mem_filterMap]
      exact ⟨last, by rw [h.split, hfront]; simp, hlast⟩
    rw [hmessages.outstanding_tags, List.mem_range'_1] at htag
    omega
  · have hnone : p.outstanding = [] := by
      simp [Process.outstanding, hstopped, hresults, Executor.unsent]
    rw [h.split] at hnone
    exact hne (List.append_eq_nil_iff.mp hnone).1

theorem OutstandingOk.of_eq (hout : p'.outstanding = p.outstanding)
    (hphase : p'.settler.phase = p.settler.phase) (hlive : p.live ⊆ p'.live) :
    OutstandingOk config chain p' front back :=
  ⟨hout ▸ h.split, hphase ▸ h.awaited, h.due,
    fun message hm tx htx => hlive (h.live message hm tx htx)⟩

end

variable {progress : BlockhashProgress} {live : List Hash}

/-- Only live transactions are sent. -/
theorem batchMessages_live {transactions oversized : List SanitizedTransaction}
    {bytes rows : SanitizedTransaction → ℕ} {byteCap rowCap : ℕ} {admission : Option ℕ} :
    ∀ message ∈ batchMessages bytes rows byteCap rowCap
      ((retainLive transactions live).filter config.isAdmin)
      (((retainLive transactions live).filter fun tx => !config.isAdmin tx) ++
        retainLive oversized live) admission,
      ∀ tx ∈ message.transactions, tx.recentBlockhash ∈ live := by
  intro message hm tx htx
  have hin : tx ∈ checkedTransactions config live transactions oversized := by
    rw [checkedTransactions, ← @batchMessages_transactions bytes rows byteCap rowCap _ _ admission]
    exact List.mem_flatMap.mpr ⟨message, hm, htx⟩
  exact (mem_checkedTransactions.mp hin).2

/-- Every block is in time for the hashes its transactions name. -/
def OnTime (config : PipelineConfig) (chain : List BlockInfo) : Prop :=
  ∀ k block, chain[k]? = some block → ∀ recent ∈ block.transactionRecentBlockhashes,
    Due config chain recent k

/-- A block cut on time. -/
theorem OnTime.snoc (h : OnTime config chain) {block : BlockInfo}
    (hnew : ∀ recent ∈ block.transactionRecentBlockhashes, Due config chain recent chain.length) :
    OnTime config (chain ++ [block]) := by
  intro k other hother recent hrecent
  rcases lt_trichotomy k chain.length with hlt | rfl | hgt
  · rw [List.getElem?_append_left hlt] at hother
    exact (h k other hother recent hrecent).append [block]
  · rw [List.getElem?_append_right le_rfl, Nat.sub_self] at hother
    obtain rfl : block = other := by simpa using hother
    exact (hnew recent hrecent).append [block]
  · rw [List.getElem?_eq_none (by simp; omega)] at hother
    cases hother

section

variable (h : DeadlineInv config chain p)
include h

/-- What is live outlasts every block announced so far. -/
theorem DeadlineInv.live_due (hwindow : WindowOk chain p gone rest)
    (hup : p.settler.phase ≠ .stopped) (hlive : blockhash ∈ p.live) :
    Due config chain blockhash (chain.length + p.settler.phase.announced) := by
  obtain ⟨i, hi, rfl⟩ := List.getElem_of_mem hlive
  refine ⟨gone.length + i, ?_, ?_⟩
  · rw [hwindow.hashes, List.append_assoc, List.append_assoc, List.getElem?_append_right (by omega),
      Nat.add_sub_cancel_left, List.getElem?_append_left hi, List.getElem?_eq_getElem hi]
  · have hlen := congrArg List.length hwindow.hashes
    simp only [List.length_map, List.length_append] at hlen
    have hroom := h.room hup
    have hcounted := hwindow.counted hup
    omega

theorem DeadlineInv.of_eq (hlive : p'.live = p.live)
    (hannounced : p'.progress.announced = p.progress.announced)
    (hingested : p'.progress.ingested = p.progress.ingested) (hsettler : p'.settler = p.settler)
    (hout : p'.outstanding = p.outstanding) : DeadlineInv config chain p' := by
  refine ⟨fun hup => ?_, fun tx htx => h.buffered tx (hsettler ▸ htx), fun hup => ?_⟩
  · rw [hlive, hannounced, hingested]
    exact h.room (hsettler ▸ hup)
  · obtain ⟨front, back, hok⟩ := h.outstanding (hsettler ▸ hup)
    exact ⟨front, back, hok.of_eq hout (by rw [hsettler]) (by rw [hlive]; exact List.Subset.refl _)⟩

/-- With room for the queue, dedup trims nothing. -/
theorem DeadlineInv.ingest (hwindow : WindowOk chain p gone rest)
    (hstep : ProcessStep config p .ingest p') : DeadlineInv config chain p' := by
  cases hstep with
  | ingest hingest =>
  obtain ⟨k, hk, rfl, rfl, _⟩ := ingestBlockhashes_eq hingest
  rw [List.length_append] at hk
  refine ⟨fun hup => ?_, h.buffered, fun hup => ?_⟩
  · have hroom := h.room hup
    have hcounted := hwindow.counted hup
    simp only [List.length_drop, List.length_append]
    omega
  · obtain ⟨front, back, hok⟩ := h.outstanding hup
    have hzero : k = 0 := by
      have hroom := h.room hup
      have hcounted := hwindow.counted hup
      omega
    subst hzero
    exact ⟨front, back, hok.of_eq rfl rfl fun blockhash hin => List.mem_append_left _ hin⟩

/-- The results of a new admission are live, so they join the ones not awaited. -/
theorem DeadlineInv.admission {batch deferred : List SanitizedTransaction}
    {messages : List ExecutedBatch} (hloading : p.executor = .loading batch)
    (hannounced : progress.announced = p.progress.announced)
    (hingested : progress.ingested = p.progress.ingested)
    (hlive : ∀ message ∈ messages, ∀ tx ∈ message.transactions, tx.recentBlockhash ∈ p.live) :
    DeadlineInv config chain
      { p with progress := progress, executor := .sending messages deferred } := by
  refine ⟨fun hup => ?_, h.buffered, fun hup => ?_⟩
  · simp only [hannounced, hingested]
    exact h.room hup
  · obtain ⟨front, back, hok⟩ := h.outstanding hup
    refine ⟨front, back ++ messages, ?_, hok.awaited, hok.due, fun message hm => ?_⟩
    · have hsplit := hok.split
      simp only [Process.outstanding, hloading, Executor.unsent, List.append_nil] at hsplit ⊢
      rw [hsplit, List.append_assoc]
    · exact (List.mem_append.mp hm).elim (hok.live message) (hlive message)

/-- A message is received in time, awaited or not. -/
theorem DeadlineInv.receive (hwindow : WindowOk chain p gone rest) {message : ExecutedBatch}
    {results : List ExecutedBatch} (hresults : p.results = message :: results)
    (hup : p.settler.phase ≠ .stopped) :
    DeadlineInv config chain
      { p with results := results, settler := p.settler.bufferBatch message } := by
  obtain ⟨front, back, hok⟩ := h.outstanding hup
  have hsplit := hok.split
  rw [Process.outstanding, hresults, List.cons_append] at hsplit
  have hmessage : ∀ tx ∈ message.transactions,
      Due config chain tx.recentBlockhash chain.length := by
    intro tx htx
    cases front with
    | nil =>
      have hin := hok.live message (by rw [List.nil_append] at hsplit; simp [← hsplit]) tx htx
      exact (h.live_due hwindow hup hin).mono (Nat.le_add_right _ _)
    | cons first front =>
      obtain ⟨rfl, _⟩ := List.cons.inj hsplit
      exact hok.due message List.mem_cons_self tx htx
  refine ⟨fun _ => h.room hup, fun tx htx => ?_, fun _ => ?_⟩
  · exact (List.mem_append.mp htx).elim (h.buffered tx) (hmessage tx)
  · cases front with
    | nil =>
      cases back with
      | nil => cases hsplit
      | cons first back =>
        obtain ⟨rfl, hrest⟩ := List.cons.inj hsplit
        exact ⟨[], back, hrest, fun hne => absurd rfl hne, by simp,
          fun other hother => hok.live other (List.mem_cons_of_mem _ hother)⟩
    | cons first front =>
      obtain ⟨rfl, hrest⟩ := List.cons.inj hsplit
      refine ⟨front, back, hrest, fun hne => ?_, fun other hother =>
        hok.due other (List.mem_cons_of_mem _ hother), hok.live⟩
      obtain ⟨target, init, last, hphase, hfront, hlast⟩ := hok.awaited (by simp)
      cases init with
      | nil =>
        exact absurd (List.cons.inj hfront).2 hne
      | cons _ init => exact ⟨target, init, last, hphase, (List.cons.inj hfront).2, hlast⟩

/-- A retire step with room leaves only hashes that outlast the block; what it pops
is awaited. -/
theorem DeadlineInv.retire (hwindow : WindowOk chain p gone rest)
    {batches : List (List ExecutedBatch)} (hmessages : MessagesOk p batches)
    (hstep : ProcessStep config p .retire p') (htimely : p.channel.length < config.maxBlockhashes) :
    DeadlineInv config chain p' := by
  cases hstep with
  | @retire _ _ popped _ hwaiting hretire =>
  obtain ⟨rfl, rfl, hpopped, rfl⟩ := retireExpiringBlockhashes_eq hretire
  have hup : p.settler.phase ≠ .stopped := by simp [hwaiting]
  have hcounted := hwindow.counted hup
  have hrest := hwindow.unpublished hup
  rw [hwaiting] at hcounted hrest
  obtain rfl : rest = [] := hrest
  simp only [List.length_nil, SettlePhase.announced, Nat.add_zero] at hcounted
  obtain ⟨front, back, hok⟩ := h.outstanding hup
  obtain rfl := hok.front_nil (by simp [hwaiting])
  refine ⟨fun _ => ?_, h.buffered, fun _ => ?_⟩
  · simp only [List.length_drop]
    omega
  · by_cases hzero : popped = 0
    · subst hzero
      exact ⟨[], back, hok.split, fun hne => absurd rfl hne, by simp, hok.live⟩
    · refine ⟨back, [], by rw [List.append_nil]; exact hok.split, fun hne => ?_,
        fun message hm tx htx => ?_, by simp⟩
      · obtain ⟨init, last, rfl⟩ := List.eq_nil_or_concat back |>.resolve_left hne
        rw [List.concat_eq_append] at hok ⊢
        exact ⟨p.progress.admissions, init, last, if_pos (Nat.pos_of_ne_zero hzero), rfl,
          hmessages.outstanding_last hok.split⟩
      · exact (h.live_due hwindow hup (hok.live message hm tx htx)).mono (Nat.le_add_right _ _)

/-- A timely step keeps the deadline. -/
theorem DeadlineInv.step (hok : ProcessOk chain p) (hstep : ProcessStep config p label p')
    (htimely : label = .retire → p.channel.length < config.maxBlockhashes) :
    DeadlineInv config chain p' := by
  obtain ⟨gone, rest, hwindow⟩ := hok.window
  obtain ⟨batches, hmessages⟩ := hok.messages
  cases hstep with
  | forward _ _ _ => exact h.of_eq rfl rfl rfl rfl rfl
  | ingest hingest => exact h.ingest hwindow (.ingest hingest)
  | take hidle _ =>
    refine h.of_eq rfl rfl rfl rfl ?_
    simp [Process.outstanding, hidle, Executor.unsent]
  | admission hloading _ hadmission =>
    rcases @snapshotAndAdmit_messages config _ _ _ _ _ _ hadmission with
      ⟨_, rfl, rfl⟩ | ⟨_, rfl, rfl⟩
    · exact h.admission hloading rfl rfl batchMessages_live
    · exact h.admission hloading rfl rfl batchMessages_live
  | send hsending =>
    refine h.of_eq rfl rfl rfl rfl ?_
    simp [Process.outstanding, hsending, Executor.unsent]
  | resume hsending =>
    refine h.of_eq rfl rfl rfl rfl ?_
    rw [Process.outstanding, Process.outstanding, hsending, Executor.unsent_resume]
    rfl
  | stop hunsent =>
    refine h.of_eq rfl rfl rfl rfl ?_
    rw [Process.outstanding, Process.outstanding, hunsent]
    rfl
  | receive hresults hphase =>
    refine h.receive hwindow hresults ?_
    rcases hphase with hphase | ⟨target, hphase, _⟩ <;> simp [hphase]
  | retire hwaiting hretire =>
    exact h.retire hwindow hmessages (.retire hwaiting hretire) (htimely rfl)
  | collected hphase hin =>
    have hup : p.settler.phase ≠ .stopped := by simp [hphase]
    obtain ⟨front, back, hout⟩ := h.outstanding hup
    obtain rfl := hout.collected hmessages hphase hin
    exact ⟨fun _ => h.room hup, h.buffered,
      fun _ => ⟨[], back, hout.split, fun hne => absurd rfl hne, by simp, hout.live⟩⟩
  | publish hphase _ =>
    have hup : p.settler.phase ≠ .stopped := by simp [hphase]
    obtain ⟨front, back, hout⟩ := h.outstanding hup
    obtain rfl := hout.front_nil (by simp [hphase])
    exact ⟨fun _ => h.room hup, h.buffered,
      fun _ => ⟨[], back, hout.split, fun hne => absurd rfl hne, by simp, hout.live⟩⟩
  | halt => exact ⟨fun hup => absurd rfl hup, by simp, fun hup => absurd rfl hup⟩

/-- The block is cut when everything it must hold has been received. -/
theorem DeadlineInv.commit (hphase : p.settler.phase = .cutting) {block : BlockInfo}
    {lastBlock : Option LastBlock} :
    DeadlineInv config (chain ++ [block]) { p with
      settler := { p.settler with
        buffer := []
        lastBlock := lastBlock
        phase := .publishing block.blockhash } } := by
  have hup : p.settler.phase ≠ .stopped := by simp [hphase]
  obtain ⟨front, back, hout⟩ := h.outstanding hup
  obtain rfl := hout.front_nil (by simp [hphase])
  exact ⟨fun _ => h.room hup, nofun,
    fun _ => ⟨[], back, hout.split, fun hne => absurd rfl hne, by simp, hout.live⟩⟩

end

end Steps

section Runs

variable {config : PipelineConfig} {s s' : Node} {label : PipelineLabel}

/-- What a node keeps while the queue has room. -/
structure NodeOnTime (config : PipelineConfig) (s : Node) : Prop where
  ok : NodeOk s
  blocks : OnTime config s.chain
  process : ∀ p, s.process = some p → DeadlineInv config s.chain p

/-- Every timely step keeps a node on time. -/
theorem NodeOnTime.step (h : NodeOnTime config s) (hstep : TimelyStep config s label s') :
    NodeOnTime config s' := by
  obtain ⟨hstep, htimely⟩ := hstep
  have hok := h.ok.step hstep
  cases hstep with
  | @running p _ _ hup hstep =>
    refine ⟨hok, h.blocks, fun q hq => ?_⟩
    cases hq
    exact (h.process p hup).step (h.ok.process p hup) hstep fun hlabel => htimely hlabel p hup
  | @commit p _ _ _ _ hup hphase hblock _ =>
    refine ⟨hok, h.blocks.snoc fun recent hrecent => ?_, fun q hq => ?_⟩
    · rw [hblock] at hrecent
      obtain ⟨tx, htx, rfl⟩ := List.mem_map.mp hrecent
      exact (h.process p hup).buffered tx htx
    · cases hq
      exact (h.process p hup).commit hphase
  | crash => exact ⟨hok, h.blocks, nofun⟩
  | prune _ => exact ⟨hok, h.blocks, h.process⟩
  | @boot state _ _ hload =>
    refine ⟨hok, h.blocks, fun q hq => ?_⟩
    cases hq
    obtain ⟨_, _, _, _, hlen, _⟩ := h.ok.ledger.loadDedupState_ok hload
    exact ⟨fun _ => hlen, nofun, fun _ => ⟨[], [], rfl, fun hne => absurd rfl hne, nofun, nofun⟩⟩

theorem NodeOnTime.fresh : NodeOnTime config Node.fresh :=
  ⟨NodeOk.fresh, nofun, nofun⟩

/-- What the executor still holds it can hand over at once. -/
theorem exists_run_send {p : Process} (hup : s.process = some p) :
    ∃ labels s' p', Run (TimelyStep config) s labels s' ∧ s'.process = some p' ∧
      p'.executor.unsent = [] ∧
      p'.settler.received ++ p'.outstanding = p.settler.received ++ p.outstanding := by
  cases hexecutor : p.executor with
  | sending messages deferred =>
    induction messages generalizing s p with
    | nil => exact ⟨[], s, p, .nil, hup, by rw [hexecutor]; rfl, rfl⟩
    | cons message messages ih =>
      let sent : Process :=
        { p with results := p.results ++ [message], executor := .sending messages deferred }
      have hsend : TimelyStep config s .send { s with process := some sent } :=
        ⟨.running hup (.send hexecutor), nofun⟩
      obtain ⟨labels, s', p', hrun, hup', hsent, hmessages⟩ :=
        @ih { s with process := some sent } sent rfl rfl
      refine ⟨_, s', p', .cons hsend hrun, hup', hsent, ?_⟩
      rw [hmessages]
      simp [sent, Process.outstanding, hexecutor, Executor.unsent]
  | _ => exact ⟨[], s, p, .nil, hup, by rw [hexecutor]; rfl, rfl⟩

end Runs

/-- While no block is announced on a full queue, a block of height `h` names no block below `h -
max_blockhashes`, every admission number is on the last message of its batch, and what is
outstanding at a cut is live beyond it. -/
theorem committed_by_deadline (config : PipelineConfig) {labels : List PipelineLabel} {s : Node}
    (hrun : Run (TimelyStep config) Node.fresh labels s) :
    (s.chain.map (·.blockhash)).Nodup ∧
    (∀ block ∈ s.chain, ∀ recent ∈ block.transactionRecentBlockhashes,
      ∃ named ∈ s.chain, named.blockhash = recent ∧ ∃ height namedHeight,
        block.blockHeight = some height ∧ named.blockHeight = some namedHeight ∧
        height ≤ namedHeight + config.maxBlockhashes) ∧
    ∀ p, s.process = some p → ∃ batches, Numbered batches ∧
      batches.length = p.progress.admissions ∧
      p.settler.received ++ p.results ++ p.executor.unsent = batches.flatten ∧
      (∃ later s' p', Run (TimelyStep config) s later s' ∧ s'.process = some p' ∧
        p'.executor.unsent = [] ∧ p'.settler.received ++ p'.results = batches.flatten) ∧
      (∀ target s', p.settler.phase = .collecting target → PipelineStep config s .collected s' →
        (batches.take target).flatten <+: p.settler.received) ∧
      (p.settler.phase = .cutting → ∀ message ∈ p.results ++ p.executor.unsent,
        ∀ tx ∈ message.transactions, tx.recentBlockhash ∈ p.live ∧
          Due config s.chain tx.recentBlockhash (s.chain.length + 1)) := by
  have hinv : NodeOnTime config s :=
    hrun.stateInvariant NodeOnTime.fresh fun _ _ _ h hstep => h.step hstep
  refine ⟨hinv.ok.distinct, fun block hblock recent hrecent => ?_, fun p hup => ?_⟩
  · obtain ⟨k, hk, rfl⟩ := List.getElem_of_mem hblock
    obtain ⟨named, hnamed, hdue⟩ :=
      hinv.blocks k _ (List.getElem?_eq_getElem hk) recent hrecent
    obtain ⟨hlt, hhash⟩ := List.getElem?_eq_some_iff.mp hnamed
    rw [List.length_map] at hlt
    rw [List.getElem_map] at hhash
    exact ⟨s.chain[named], List.getElem_mem hlt, hhash, k, named, hinv.ok.ledger.blockHeight hk,
      hinv.ok.ledger.blockHeight hlt, hdue⟩
  · obtain ⟨batches, hmessages⟩ := (hinv.ok.process p hup).messages
    obtain ⟨gone, rest, hwindow⟩ := (hinv.ok.process p hup).window
    have hdeadline := hinv.process p hup
    have hall := hmessages.messages
    rw [Process.outstanding] at hall
    refine ⟨batches, hmessages.numbered, hmessages.count, by rw [List.append_assoc, hall], ?_,
      fun target s' hphase hstep => ?_, fun hphase message hm tx htx => ?_⟩
    · obtain ⟨later, s', p', hsends, hup', hsent, hsame⟩ := exists_run_send hup
      refine ⟨later, s', p', hsends, hup', hsent, ?_⟩
      rw [Process.outstanding, hsent, List.append_nil] at hsame
      rw [hsame, hmessages.messages]
    · cases hstep with
      | @running q _ _ hup' hstep =>
        obtain rfl : p = q := Option.some.inj (hup.symm.trans hup')
        cases hstep with
        | collected hphase' hin =>
          obtain rfl := SettlePhase.collecting.inj (hphase.symm.trans hphase')
          rcases hin with hin | ⟨hstopped, hresults⟩
          · exact hmessages.received_of_le hin
          · simp only [hstopped, hresults, Executor.unsent, List.append_nil] at hall
            refine ⟨(batches.drop target).flatten, ?_⟩
            rw [hall, ← List.flatten_append, List.take_append_drop]
    · have hrunning : p.settler.phase ≠ .stopped := by simp [hphase]
      obtain ⟨front, back, hout⟩ := hdeadline.outstanding hrunning
      obtain rfl := hout.front_nil (by simp [hphase])
      have hsplit := hout.split
      rw [Process.outstanding, List.nil_append] at hsplit
      have hlive := hout.live message (hsplit ▸ hm) tx htx
      refine ⟨hlive, ?_⟩
      have hdue := hdeadline.live_due hwindow hrunning hlive
      rwa [hphase] at hdue

/-- A window of one block, and messages that name the first one. -/
def shortConfig : PipelineConfig := ⟨1, fun _ => 0, fun _ => false⟩

def transfer : SanitizedTransaction := ⟨7, 5, 0⟩

/-- The block that expires the first hash waits for the transfer. -/
theorem transfer_in_time : ∃ labels s, Run (TimelyStep shortConfig) Node.fresh labels s ∧
    s.chain.map (·.transactionRecentBlockhashes) = [[], [0]] := by
  have h0 : Run (TimelyStep shortConfig) Node.fresh [] Node.fresh := .nil
  have h1 := h0.snoc ⟨@PipelineStep.boot shortConfig _ ([], fun _ => ∅) rfl (by decide) rfl, nofun⟩
  have h2 := h1.snoc ⟨.running rfl (@ProcessStep.retire shortConfig _ [] ⟨1, 0, 0⟩ 0 0 rfl rfl),
    fun _ p hp => by cases hp; decide⟩
  have h3 := h2.snoc ⟨@PipelineStep.commit shortConfig _ _ 0 0 0 _ rfl rfl rfl (by decide), nofun⟩
  have h4 := h3.snoc ⟨.running rfl (.publish rfl (by decide)), nofun⟩
  have h5 := h4.snoc ⟨.running rfl (.ingest rfl), nofun⟩
  have h6 := h5.snoc ⟨.running rfl (@ProcessStep.forward shortConfig _ transfer rfl
    (by decide) (by decide)), nofun⟩
  have h7 := h6.snoc ⟨.running rfl (@ProcessStep.take shortConfig _ [transfer] [] rfl (.refl _)),
    nofun⟩
  have h8 := h7.snoc ⟨.running rfl (@ProcessStep.admission shortConfig _ [transfer] [transfer] [] []
    (fun _ => 1) (fun _ => 1) 8 8 (some 1) ⟨1, 1, 1⟩ rfl (.refl _) rfl), nofun⟩
  have h9 := h8.snoc ⟨.running rfl (@ProcessStep.retire shortConfig _ [] ⟨2, 1, 1⟩ 1 1 rfl rfl),
    fun _ p hp => by cases hp; decide⟩
  have h10 := h9.snoc ⟨.running rfl (.send rfl), nofun⟩
  have h11 := h10.snoc ⟨.running rfl (.receive rfl (.inr ⟨1, rfl, by decide⟩)), nofun⟩
  have h12 := h11.snoc ⟨.running rfl (.collected rfl (.inl (by decide))), nofun⟩
  have h13 := h12.snoc ⟨@PipelineStep.commit shortConfig _ _ 1 3 0 _ rfl rfl rfl (by decide), nofun⟩
  exact ⟨_, _, h13, rfl⟩

/-- Announced on a full queue, the second block pops nothing, and dedup lets in the hash that
block expires. -/
theorem transfer_past_deadline : ∃ labels s, Run (PipelineStep shortConfig) Node.fresh labels s ∧
    ∃ block ∈ s.chain, ∃ named ∈ s.chain, named.blockhash ∈ block.transactionRecentBlockhashes ∧
      named.blockHeight = some 0 ∧ block.blockHeight = some 2 ∧
      ¬ 2 ≤ 0 + shortConfig.maxBlockhashes := by
  have h0 : Run (PipelineStep shortConfig) Node.fresh [] Node.fresh := .nil
  have h1 := h0.snoc (@PipelineStep.boot shortConfig _ ([], fun _ => ∅) rfl (by decide) rfl)
  have h2 := h1.snoc (.running rfl (@ProcessStep.retire shortConfig _ [] ⟨1, 0, 0⟩ 0 0 rfl rfl))
  have h3 := h2.snoc (@PipelineStep.commit shortConfig _ _ 0 0 0 _ rfl rfl rfl (by decide))
  have h4 := h3.snoc (.running rfl (.publish rfl (by decide)))
  have h5 := h4.snoc (.running rfl (@ProcessStep.retire shortConfig _ [] ⟨2, 0, 0⟩ 0 0 rfl rfl))
  have h6 := h5.snoc (.running rfl (.ingest rfl))
  have h7 := h6.snoc (.running rfl (@ProcessStep.forward shortConfig _ transfer rfl
    (by decide) (by decide)))
  have h8 := h7.snoc (.running rfl (@ProcessStep.take shortConfig _ [transfer] [] rfl (.refl _)))
  have h9 := h8.snoc (.running rfl (@ProcessStep.admission shortConfig _ [transfer] [transfer] [] []
    (fun _ => 1) (fun _ => 1) 8 8 (some 1) ⟨2, 1, 1⟩ rfl (.refl _) rfl))
  have h10 := h9.snoc (@PipelineStep.commit shortConfig _ _ 1 3 0 _ rfl rfl rfl (by decide))
  have h11 := h10.snoc (.running rfl (.publish rfl (by decide)))
  have h12 := h11.snoc (.running rfl (.send rfl))
  have h13 := h12.snoc (.running rfl (.receive rfl (.inl rfl)))
  have h14 := h13.snoc (.running rfl (@ProcessStep.retire shortConfig _ [] ⟨3, 1, 1⟩ 1 1 rfl rfl))
  have h15 := h14.snoc (.running rfl (.collected rfl (.inl (by decide))))
  have h16 := h15.snoc (@PipelineStep.commit shortConfig _ _ 2 4 0 _ rfl rfl rfl (by decide))
  refine ⟨_, _, h16, _, List.mem_of_getElem? (i := 2) rfl, _, List.mem_of_getElem? (i := 0) rfl,
    ?_, rfl, rfl, by decide⟩
  decide

/-- A transfer within its window. -/
theorem committed_by_deadline_transfer : ∃ labels s,
    Run (TimelyStep shortConfig) Node.fresh labels s ∧
    s.chain.map (·.transactionRecentBlockhashes) = [[], [0]] ∧
    ∀ block ∈ s.chain, ∀ recent ∈ block.transactionRecentBlockhashes,
      ∃ named ∈ s.chain, named.blockhash = recent ∧ ∃ height namedHeight,
        block.blockHeight = some height ∧ named.blockHeight = some namedHeight ∧
        height ≤ namedHeight + 1 := by
  obtain ⟨labels, s, hrun, hchain⟩ := transfer_in_time
  exact ⟨labels, s, hrun, hchain, (committed_by_deadline shortConfig hrun).2.1⟩

end PrivateChannels.Core
