import PrivateChannels.Indexer.StreamSystem

/-!
# The durable checkpoint covers every block below it

What a sender owes with each completed slot is settled when it sends. Channels are
first-in first-out, so the gate the writer compares with is the one in force at that
point.
-/

namespace PrivateChannels.Indexer

open CheckpointState

variable {ρ : Type*} {chain : FinalizedChain ρ} {w w' : StreamWorld ρ} {p p' : StreamProcess ρ}
  {c : Connection ρ} {rest : List (ProcessorMessage ρ)} {b : SourceBlock ρ}

/-- Every slot above the anchor and at or below `f` has its rows in the database. -/
def Covered (chain : FinalizedChain ρ) (w : StreamWorld ρ) (f : ℕ) : Prop :=
  ∀ s, w.anchor < s → s ≤ f → ∀ r ∈ chain.rowsAt s, (s, r) ∈ w.rows

/-- The messages for the writer, from the first one it received to the last one sent. -/
def StreamProcess.history (p : StreamProcess ρ) : List CheckpointMsg :=
  p.applied ++ p.reports ++ p.instructions.filterMap ProcessorMessage.toCheckpoint

/-- The slot was reported. -/
def Reported (messages : List CheckpointMsg) (s : ℕ) : Prop := ∃ hash, .slot s hash ∈ messages

/-- Nothing is missing at a slot that was reported or holds no block. -/
def Settled (chain : FinalizedChain ρ) (messages : List CheckpointMsg) (s : ℕ) : Prop :=
  Reported messages s ∨ chain.blockAt s = none

/-- The target of the newest gate among the messages. -/
def lastGate (messages : List CheckpointMsg) : Option ℕ :=
  messages.foldl (fun gate message =>
    match message with
    | .regate _ target => some target
    | .slot _ _ => gate) none

@[simp] theorem lastGate_slot (messages : List CheckpointMsg) (s : ℕ) (hash : Option String) :
    lastGate (messages ++ [.slot s hash]) = lastGate messages := by
  simp [lastGate]

@[simp] theorem lastGate_regate (messages : List CheckpointMsg) (fromSlot target : ℕ) :
    lastGate (messages ++ [.regate fromSlot target]) = some target := by
  simp [lastGate]

/-- What holds of a message, given those sent before it. -/
def Promise (chain : FinalizedChain ρ) (w : StreamWorld ρ) (before : List CheckpointMsg) :
    CheckpointMsg → Prop
  | .regate fromSlot _ => Covered chain w fromSlot
  | .slot s _ => ∃ c, (Covered chain w c ∨ lastGate before = some c) ∧
      ∀ t, c < t → t < s → Settled chain before t

/-- A row a sender has sent: on its way, buffered, or written. -/
def Sent (w : StreamWorld ρ) (p : StreamProcess ρ) (s : ℕ) (r : ρ) : Prop :=
  .instruction s r ∈ p.instructions ∨ (s, r) ∈ p.buffers ∨ (s, r) ∈ w.rows

/-- The two channels and the writer. -/
structure Pipeline (chain : FinalizedChain ρ) (w : StreamWorld ρ) (p : StreamProcess ρ) :
    Prop where
  promised : ∀ i message, p.history[i]? = some message →
    Promise chain w (p.history.take i) message
  rows_sent : ∀ before s hash after, p.instructions = before ++ .slotComplete s hash :: after →
    ∀ r ∈ chain.rowsAt s, .instruction s r ∈ before ∨ (s, r) ∈ p.buffers ∨ (s, r) ∈ w.rows
  finalized : ∀ s, Reported (p.applied ++ p.reports) s → ∀ r ∈ chain.rowsAt s, (s, r) ∈ w.rows
  gate : p.writer.gate = lastGate p.applied
  completed : ∀ s ∈ p.writer.completed, Reported p.applied s
  frontier : Covered chain w p.writer.frontier

/-- What a fill has sent. -/
def FillInv (chain : FinalizedChain ρ) (w : StreamWorld ρ) (p : StreamProcess ρ) (f : Fill ρ) :
    Prop :=
  (∀ floor ∈ f.floor, Covered chain w floor) ∧
    match f.state with
    | .waiting => True
    | .running base slot pending =>
      Covered chain w base ∧ (∀ s, base < s → s < slot → Reported p.history s) ∧
        ∀ r ∈ chain.rowsAt slot, r ∈ pending ∨ Sent w p slot r

/-- What a connection owes. -/
def TaskInv (chain : FinalizedChain ρ) (w : StreamWorld ρ) (p : StreamProcess ρ)
    (gateTarget : Option ℕ) : StreamTask ρ → Prop
  | .idle | .slotUpdate _ => True
  | .block b => b ∈ chain.blocks
  | .forwarding b pending =>
    b ∈ chain.blocks ∧
      (∀ target ∈ gateTarget, ∀ s, target < s → s < b.slot → Settled chain p.history s) ∧
      gateTarget.isSome ∧ ∀ r ∈ chain.rowsAt b.slot, r ∈ pending ∨ Sent w p b.slot r

/-- The gate is the newest in the channel, and everything above it up to the last block was
sent. -/
structure ConnectionInv (chain : FinalizedChain ρ) (w : StreamWorld ρ) (p : StreamProcess ρ)
    (c : Connection ρ) : Prop where
  gate : c.gateTarget = if c.armed then lastGate p.history else none
  armed : c.armed = true → c.gateTarget.isSome ∧ p.startupFloor = none
  unarmed : c.armed = false → c.lastForwarded = none
  anchor : ∀ a ∈ c.anchor, Covered chain w a
  forwarded : ∀ last ∈ c.lastForwarded, ∀ target ∈ c.gateTarget, ∀ s, target < s →
    s ≤ last.slot → Settled chain p.history s
  task : TaskInv chain w p c.gateTarget c.task

/-- What the start has done. -/
def PhaseInv (chain : FinalizedChain ρ) (w : StreamWorld ρ) (p : StreamProcess ρ) : Prop :=
  match p.phase with
  | .starting => p.connection = none ∧ p.fills = [] ∧ p.applied = [] ∧ p.reports = [] ∧
      p.instructions = []
  | .filling _ _ => p.connection = none
  | .ready ledgerEnd anchor => p.connection = none ∧ Covered chain w ledgerEnd ∧
      (w.row.lastCommittedSlot = none → anchor = w.anchor)
  | .streaming => True

/-- What a process keeps. -/
structure ProcessInv (chain : FinalizedChain ρ) (w : StreamWorld ρ) (p : StreamProcess ρ) :
    Prop where
  pipeline : Pipeline chain w p
  fills : ∀ f ∈ p.fills, FillInv chain w p f
  floor : ∀ floor ∈ p.startupFloor, Covered chain w floor
  connection : ∀ c, p.connection = some c → ConnectionInv chain w p c
  phase : PhaseInv chain w p
  initial : w.row.lastCommittedSlot = none → w.anchor = p.mode.initialAnchor

/-- What the system keeps. -/
structure StreamInv (chain : FinalizedChain ρ) (w : StreamWorld ρ) : Prop where
  stored : ∀ f, w.row.lastCommittedSlot = some f → Covered chain w f
  process : ∀ p, w.process = some p → ProcessInv chain w p

theorem Covered.anti {f g : ℕ} (h : Covered chain w f) (hle : g ≤ f) : Covered chain w g :=
  fun s hlo hhi => h s hlo (hhi.trans hle)

theorem covered_anchor : Covered chain w w.anchor :=
  fun _ hlo hhi => absurd hhi (Nat.not_le.mpr hlo)

theorem covered_zero : Covered chain w 0 :=
  fun _ hlo hhi => absurd (Nat.le_zero.mp hhi) (Nat.ne_of_gt (Nat.zero_lt_of_lt hlo))

/-- A step keeps the anchor and the rows, and what was sent stays sent. -/
structure Grows (w : StreamWorld ρ) (p : StreamProcess ρ) (w' : StreamWorld ρ)
    (p' : StreamProcess ρ) : Prop where
  anchor : w'.anchor = w.anchor
  rows : ∀ x ∈ w.rows, x ∈ w'.rows
  history : p.history <+: p'.history
  sent : ∀ s r, Sent w p s r → Sent w' p' s r

variable {s : ℕ}

section

variable (h : Grows w p w' p')
include h

theorem Grows.covered {f : ℕ} (hf : Covered chain w f) : Covered chain w' f :=
  fun s hlo hhi r hr => h.rows _ (hf s (h.anchor ▸ hlo) hhi r hr)

theorem Grows.reported (hs : Reported p.history s) : Reported p'.history s := by
  obtain ⟨hash, hmem⟩ := hs
  exact ⟨hash, h.history.subset hmem⟩

theorem Grows.settled (hs : Settled chain p.history s) : Settled chain p'.history s :=
  hs.imp_left h.reported

theorem Grows.promise {before : List CheckpointMsg} {message : CheckpointMsg}
    (hm : Promise chain w before message) : Promise chain w' before message := by
  cases message with
  | regate fromSlot target =>
    exact h.covered hm
  | slot s hash =>
    obtain ⟨c, hc, hbetween⟩ := hm
    exact ⟨c, hc.imp_left h.covered, hbetween⟩

theorem Grows.fillInv {f : Fill ρ} (hf : FillInv chain w p f) : FillInv chain w' p' f := by
  obtain ⟨hfloor, hstate⟩ := hf
  refine ⟨fun floor hmem => h.covered (hfloor floor hmem), ?_⟩
  cases hcase : f.state with
  | waiting => trivial
  | running base slot pending =>
    rw [hcase] at hstate
    obtain ⟨hbase, hbelow, hrows⟩ := hstate
    exact ⟨h.covered hbase, fun s hlo hhi => h.reported (hbelow s hlo hhi),
      fun r hr => (hrows r hr).imp_right (h.sent _ _)⟩

theorem Grows.taskInv {gateTarget : Option ℕ} {task : StreamTask ρ}
    (ht : TaskInv chain w p gateTarget task) : TaskInv chain w' p' gateTarget task := by
  cases task with
  | block b => exact ht
  | forwarding b pending =>
    obtain ⟨hb, hbelow, hgate, hrows⟩ := ht
    exact ⟨hb, fun target htarget s hlo hhi => h.settled (hbelow target htarget s hlo hhi), hgate,
      fun r hr => (hrows r hr).imp_right (h.sent _ _)⟩
  | _ => trivial

/-- A connection is untouched by steps that send no gate. -/
theorem Grows.connectionInv (hgate : lastGate p'.history = lastGate p.history)
    (hfloor : p.startupFloor = none → p'.startupFloor = none) (hc : ConnectionInv chain w p c) :
    ConnectionInv chain w' p' c where
  gate := by rw [hgate]; exact hc.gate
  armed := fun harmed => ⟨(hc.armed harmed).1, hfloor (hc.armed harmed).2⟩
  unarmed := hc.unarmed
  anchor := fun a ha => h.covered (hc.anchor a ha)
  forwarded := fun last hlast target htarget s hlo hhi =>
    h.settled (hc.forwarded last hlast target htarget s hlo hhi)
  task := h.taskInv hc.task

end

theorem history_send (p : StreamProcess ρ) (message : ProcessorMessage ρ) :
    (p.send message).history = p.history ++ [message].filterMap ProcessorMessage.toCheckpoint := by
  simp [StreamProcess.history, StreamProcess.send]

theorem grows_send (w : StreamWorld ρ) (p : StreamProcess ρ) (message : ProcessorMessage ρ) :
    Grows w p w (p.send message) where
  anchor := rfl
  rows _ h := h
  history := by
    rw [history_send]
    exact List.prefix_append _ _
  sent _ _ h := h.imp_left fun hmem => List.mem_append_left _ hmem

/-- A message joins the channel with its promise; a completed slot only after its rows. -/
theorem Pipeline.send (h : Pipeline chain w p) {message : ProcessorMessage ρ}
    (hpromise : ∀ m, message.toCheckpoint = some m → Promise chain w p.history m)
    (hrows : ∀ s hash, message = .slotComplete s hash → ∀ r ∈ chain.rowsAt s, Sent w p s r) :
    Pipeline chain w (p.send message) where
  promised i m hm := by
    rw [history_send] at hm ⊢
    rcases Nat.lt_or_ge i p.history.length with hold | hnew
    · rw [List.getElem?_append_left hold] at hm
      rw [List.take_append_of_le_length hold.le]
      exact h.promised i m hm
    · rw [List.getElem?_append_right hnew] at hm
      cases hcase : message.toCheckpoint with
      | none =>
        rw [List.filterMap_cons_none hcase] at hm
        simp at hm
      | some m' =>
        rw [List.filterMap_cons_some hcase, List.filterMap_nil] at hm ⊢
        have hi : i = p.history.length := by
          have := (List.getElem?_eq_some_iff.mp hm).1
          simp only [List.length_singleton] at this
          omega
        subst hi
        rw [Nat.sub_self, List.getElem?_cons_zero] at hm
        rw [List.take_left]
        exact hpromise m (hcase.trans hm)
  rows_sent before s hash after hsplit := by
    obtain ⟨rfl, hmessage⟩ | ⟨after', hsplit⟩ := snoc_eq_append_cons hsplit
    · exact hrows s hash hmessage
    · exact h.rows_sent before s hash after' hsplit
  finalized := h.finalized
  gate := h.gate
  completed := h.completed
  frontier := h.frontier

/-- A row goes to the buffers, and what is buffered stays there or is written. -/
structure Takes (message : ProcessorMessage ρ) (w : StreamWorld ρ) (p : StreamProcess ρ)
    (w' : StreamWorld ρ) (p' : StreamProcess ρ) : Prop where
  next : p.instructions = message :: p'.instructions
  history : p'.history = p.history
  anchor : w'.anchor = w.anchor
  rows : ∀ x ∈ w.rows, x ∈ w'.rows
  kept : ∀ s r, message = .instruction s r ∨ (s, r) ∈ p.buffers →
    (s, r) ∈ p'.buffers ∨ (s, r) ∈ w'.rows

variable {message : ProcessorMessage ρ}

theorem Takes.sent (h : Takes message w p w' p') {before : List (ProcessorMessage ρ)} {r : ρ}
    (hs : .instruction s r ∈ message :: before ∨ (s, r) ∈ p.buffers ∨ (s, r) ∈ w.rows) :
    .instruction s r ∈ before ∨ (s, r) ∈ p'.buffers ∨ (s, r) ∈ w'.rows := by
  rcases hs with hin | hbuffer | hrow
  · rcases List.mem_cons.mp hin with heq | hin
    · exact .inr (h.kept s r (.inl heq.symm))
    · exact .inl hin
  · exact .inr (h.kept s r (.inr hbuffer))
  · exact .inr (.inr (h.rows _ hrow))

theorem Takes.grows (h : Takes message w p w' p') : Grows w p w' p' where
  anchor := h.anchor
  rows := h.rows
  history := h.history ▸ List.prefix_rfl
  sent _ _ hs := h.sent (by rw [← h.next]; exact hs)

/-- The processor takes a message. -/
theorem Pipeline.take (h : Pipeline chain w p) (ht : Takes message w p w' p')
    (hfinalized : ∀ s, Reported (p'.applied ++ p'.reports) s →
      ∀ r ∈ chain.rowsAt s, (s, r) ∈ w'.rows)
    (happlied : p'.applied = p.applied) (hwriter : p'.writer = p.writer) :
    Pipeline chain w' p' where
  promised := by
    rw [ht.history]
    exact fun i m hm => ht.grows.promise (h.promised i m hm)
  rows_sent before s hash after hsplit r hr :=
    ht.sent (h.rows_sent (message :: before) s hash after (by rw [ht.next, hsplit]; rfl) r hr)
  finalized := hfinalized
  gate := by rw [hwriter, happlied, h.gate]
  completed := by
    rw [hwriter, happlied]
    exact h.completed
  frontier := by
    rw [hwriter]
    exact ht.grows.covered h.frontier

/-- Writing a slot commits everything buffered for it, which is everything that was sent. -/
theorem Pipeline.written (h : Pipeline chain w p) {hash : Option String}
    (hnext : p.instructions = .slotComplete s hash :: rest) {t : ℕ}
    (ht : Reported (p.applied ++ (p.reports ++ [.slot s hash])) t) :
    ∀ r ∈ chain.rowsAt t, (t, r) ∈ p.buffers.filter (·.1 = s) ++ w.rows := by
  intro r hr
  obtain ⟨hash', hmem⟩ := ht
  rcases List.mem_append.mp (List.append_assoc _ _ _ ▸ hmem) with hold | hlast
  · exact List.mem_append_right _ (h.finalized t ⟨hash', hold⟩ r hr)
  · obtain ⟨rfl, -⟩ := CheckpointMsg.slot.inj (List.mem_singleton.mp hlast)
    rcases h.rows_sent [] t hash rest hnext r hr with hin | hbuffer | hrow
    · cases hin
    · exact List.mem_append_left _ (List.mem_filter.mpr ⟨hbuffer, by simp⟩)
    · exact List.mem_append_right _ hrow

/-- The writer's frontier stays covered: over an open gap it passes reported slots, else the
promise of the slot reaches down to the gate. -/
theorem Pipeline.report (h : Pipeline chain w p) {message : CheckpointMsg}
    {rest : List CheckpointMsg} (hnext : p.reports = message :: rest) :
    Pipeline chain w
      { p with
        reports := rest
        applied := p.applied ++ [message]
        writer := applyReport p.writer message } := by
  have hhistory : ({ p with
      reports := rest
      applied := p.applied ++ [message]
      writer := applyReport p.writer message } : StreamProcess ρ).history = p.history := by
    simp [StreamProcess.history, hnext]
  have hmem : p.applied ++ p.reports = p.applied ++ [message] ++ rest := by simp [hnext]
  have hpromise : Promise chain w p.applied message := by
    have hat : p.history[p.applied.length]? = some message := by
      simp [StreamProcess.history, hnext]
    have := h.promised _ _ hat
    rwa [StreamProcess.history, List.append_assoc, List.take_left] at this
  have hwritten (s : ℕ) (hs : Reported (p.applied ++ [message]) s) :
      ∀ r ∈ chain.rowsAt s, (s, r) ∈ w.rows := by
    obtain ⟨hash, hin⟩ := hs
    exact h.finalized s ⟨hash, hmem ▸ List.mem_append_left _ hin⟩
  refine ⟨?_, h.rows_sent, ?_, ?_, ?_, ?_⟩
  · rw [hhistory]
    exact h.promised
  · rw [← hmem]
    exact h.finalized
  · cases message with
    | slot s hash => simp [applyReport, h.gate]
    | regate fromSlot target => simp [applyReport, regate]
  · intro s hs
    have hold : s ∈ p.writer.completed → Reported (p.applied ++ [message]) s := by
      intro hs
      obtain ⟨hash, hin⟩ := h.completed s hs
      exact ⟨hash, List.mem_append_left _ hin⟩
    cases message with
    | slot t hash =>
      simp only [applyReport, applyBlock_completed] at hs
      rcases Finset.mem_insert.mp ((moved_advance p.writer t).completed_subset hs) with rfl | hs
      · exact ⟨hash, by simp⟩
      · exact hold hs
    | regate fromSlot target => exact hold hs
  · cases message with
    | regate fromSlot target =>
      intro s hlo hhi
      rcases le_max_iff.mp hhi with hfrontier | hfrom
      · exact h.frontier s hlo hfrontier
      · exact hpromise s hlo hfrom
    | slot t hash =>
      intro s hlo hhi
      simp only [applyReport, applyBlock_frontier] at hhi
      rcases Nat.lt_or_ge p.writer.frontier s with hnew | hold
      swap
      · exact h.frontier s hlo hold
      rcases (moved_advance p.writer t).passed with ⟨-, hreported⟩ | ⟨hclosed, heq⟩
      · rcases Finset.mem_insert.mp (hreported s hnew hhi) with rfl | hstaged
        · exact hwritten s ⟨hash, by simp⟩
        · obtain ⟨hash', hin⟩ := h.completed s hstaged
          exact hwritten s ⟨hash', List.mem_append_left _ hin⟩
      · obtain ⟨c, hc, hbetween⟩ := hpromise
        have hbase : Covered chain w c := by
          rcases hc with hc | hgate
          · exact hc
          · exact h.frontier.anti (hclosed c (h.gate.trans hgate))
        rcases Nat.lt_or_ge c s with habove | hbelow
        swap
        · exact hbase s hlo hbelow
        rcases Nat.lt_or_ge s t with hearlier | hlast
        · rcases hbetween s habove hearlier with ⟨hash', hin⟩ | hnone
          · exact hwritten s ⟨hash', List.mem_append_left _ hin⟩
          · intro r hr
            simp [FinalizedChain.rowsAt, hnone] at hr
        · obtain rfl : s = t := by omega
          exact hwritten s ⟨hash, by simp⟩

/-- The invariant of a process is about the stored state, not about what runs on it. -/
theorem ProcessInv.running (h : ProcessInv chain w p) (q : Option (StreamProcess ρ)) :
    ProcessInv chain { w with process := q } p where
  pipeline := { h.pipeline with }
  fills := h.fills
  floor := h.floor
  connection c hc := { h.connection c hc with }
  phase := h.phase
  initial := h.initial

/-- The process has moved on and the store has not. -/
theorem StreamInv.withProcess (h : StreamInv chain w) (hp : ProcessInv chain w p) :
    StreamInv chain { w with process := some p } :=
  ⟨h.stored, fun _ hq => Option.some.inj hq ▸ hp.running _⟩

/-- A starting process has no connection, no fill and nothing in its channels. -/
theorem ProcessInv.starting (h : ProcessInv chain w p) (hphase : p.phase = .starting) :
    p.connection = none ∧ p.fills = [] ∧ p.applied = [] ∧ p.reports = [] ∧ p.instructions = [] := by
  have hstart := h.phase
  rwa [PhaseInv, hphase] at hstart

/-- Messages moving along the channels leave the senders alone. -/
theorem ProcessInv.moved (h : ProcessInv chain w p) (hpipeline : Pipeline chain w' p')
    (hgrows : Grows w p w' p') (hhistory : p'.history = p.history)
    (hfills : p'.fills = p.fills) (hfloor : p'.startupFloor = p.startupFloor)
    (hconnection : p'.connection = p.connection) (hphase : p'.phase = p.phase)
    (hmode : p'.mode = p.mode)
    (hrow : w'.row.lastCommittedSlot = none → w.row.lastCommittedSlot = none)
    (hstarting : p.phase = .starting →
      p'.applied = [] ∧ p'.reports = [] ∧ p'.instructions = []) : ProcessInv chain w' p' := by
  refine ⟨hpipeline, ?_, ?_, ?_, ?_, ?_⟩
  · rw [hfills]
    exact fun f hf => hgrows.fillInv (h.fills f hf)
  · rw [hfloor]
    exact fun floor hmem => hgrows.covered (h.floor floor hmem)
  · rw [hconnection]
    intro c hc
    exact hgrows.connectionInv (by rw [hhistory]) (by rw [hfloor]; exact id) (h.connection c hc)
  · have hold := h.phase
    unfold PhaseInv at hold ⊢
    rw [hphase, hconnection, hfills]
    split <;> rename_i hcase
    · rw [hcase] at hold
      obtain ⟨hconn, hnofills, -⟩ := hold
      exact ⟨hconn, hnofills, hstarting hcase⟩
    · rw [hcase] at hold
      exact hold
    · rw [hcase] at hold
      obtain ⟨hconn, hend, hfirst⟩ := hold
      exact ⟨hconn, hgrows.covered hend,
        fun hnone => (hfirst (hrow hnone)).trans hgrows.anchor.symm⟩
    · trivial
  · rw [hmode]
    exact fun hnone => hgrows.anchor.trans (h.initial (hrow hnone))

/-- What the writer flushes is covered, and so is what it does not move back from. -/
theorem covered_flush (hstored : ∀ f, w.row.lastCommittedSlot = some f → Covered chain w f)
    {writer : CheckpointState} (hfrontier : Covered chain w writer.frontier) {f : ℕ}
    (h : (writer.flush w.row).lastCommittedSlot = some f) : Covered chain w f := by
  simp only [CheckpointState.flush, updateCommittedCheckpoint, Option.some.injEq] at h
  subst h
  cases hrow : w.row.lastCommittedSlot with
  | none => exact hfrontier
  | some checkpoint =>
    rcases max_choice checkpoint writer.frontier with heq | heq
    · simp only [Option.elim_some, heq]
      exact hstored checkpoint hrow
    · simp only [Option.elim_some, heq]
      exact hfrontier

/-- A message taken off the channel leaves the senders alone; a starting process has none. -/
theorem StreamInv.take (h : StreamInv chain w) (hup : w.process = some p)
    (ht : Takes message w p w' p') (hpipeline : Pipeline chain w' p')
    (hrow : w'.row = w.row) (hup' : w'.process = some p') (hfills : p'.fills = p.fills)
    (hfloor : p'.startupFloor = p.startupFloor) (hconnection : p'.connection = p.connection)
    (hphase : p'.phase = p.phase) (hmode : p'.mode = p.mode) : StreamInv chain w' := by
  have hp := h.process p hup
  refine ⟨fun f hf => ht.grows.covered (h.stored f (hrow ▸ hf)), fun q hq => ?_⟩
  cases hup'.symm.trans hq
  refine hp.moved hpipeline ht.grows ht.history hfills hfloor hconnection hphase hmode
    (fun hnone => hrow ▸ hnone) fun hstart => ?_
  exact absurd ((hp.starting hstart).2.2.2.2.symm.trans ht.next) nofun

/-- The processor and the writer keep the invariant. -/
theorem StreamInv.pipeline (h : StreamInv chain w) (hup : w.process = some p)
    (hstep : PipelineStep w p w') : StreamInv chain w' := by
  have hp := h.process p hup
  cases hstep with
  | @buffer slot row rest _ hnext =>
    let q := { p with instructions := rest, buffers := (slot, row) :: p.buffers }
    have ht : Takes (.instruction slot row) w p { w with process := some q } q := by
      refine ⟨hnext, ?_, rfl, fun _ hx => hx, ?_⟩
      · simp [q, StreamProcess.history, hnext, List.filterMap_cons, ProcessorMessage.toCheckpoint]
      · rintro s r (heq | hbuffer)
        · obtain ⟨rfl, rfl⟩ := ProcessorMessage.instruction.inj heq
          simp [q]
        · simp [q, hbuffer]
    exact h.take hup ht (hp.pipeline.take ht hp.pipeline.finalized rfl rfl)
      rfl rfl rfl rfl rfl rfl rfl
  | @forwardRegate fromSlot target rest _ hnext =>
    let q : StreamProcess ρ :=
      { p with instructions := rest, reports := p.reports ++ [.regate fromSlot target] }
    have ht : Takes (.regate fromSlot target) w p { w with process := some q } q := by
      refine ⟨hnext, ?_, rfl, fun _ hx => hx, ?_⟩
      · simp [q, StreamProcess.history, hnext, ProcessorMessage.toCheckpoint]
      · exact fun s r hs => .inl (hs.resolve_left nofun)
    refine h.take hup ht (hp.pipeline.take ht ?_ rfl rfl) rfl rfl rfl rfl rfl rfl rfl
    rintro s ⟨hash, hmem⟩
    exact hp.pipeline.finalized s ⟨hash, by simpa [q] using hmem⟩
  | @finalize slot hash rest _ hnext =>
    let q : StreamProcess ρ := { p with
      instructions := rest
      buffers := p.buffers.filter (·.1 ≠ slot)
      reports := p.reports ++ [.slot slot hash] }
    have ht : Takes (.slotComplete slot hash) w p { w with
        rows := p.buffers.filter (·.1 = slot) ++ w.rows, process := some q } q := by
      refine ⟨hnext, ?_, rfl, fun _ hx => List.mem_append_right _ hx, ?_⟩
      · simp [q, StreamProcess.history, hnext, ProcessorMessage.toCheckpoint]
      · intro s r hs
        have hbuffer := hs.resolve_left nofun
        by_cases hs : s = slot
        · exact .inr (List.mem_append_left _ (List.mem_filter.mpr ⟨hbuffer, by simpa using hs⟩))
        · exact .inl (List.mem_filter.mpr ⟨hbuffer, by simpa using hs⟩)
    exact h.take hup ht (hp.pipeline.take ht (fun s hs => hp.pipeline.written hnext hs) rfl rfl) rfl
      rfl rfl rfl rfl rfl rfl
  | @writeFailed slot hash rest written _ hnext _ =>
    have hcovered {f : ℕ} (hf : Covered chain w f) :
        Covered chain { w with rows := written ++ w.rows } f :=
      fun s hlo hhi r hr => List.mem_append_right _ (hf s hlo hhi r hr)
    refine ⟨fun f hf => hcovered (h.stored f hf), ?_⟩
    rintro q ⟨⟩
    have hgrows : Grows w p { w with rows := written ++ w.rows } { p with processing := false } :=
      ⟨rfl, fun _ hx => List.mem_append_right _ hx, List.prefix_rfl,
        fun s r hs => hs.imp_right (Or.imp_right fun hrow => List.mem_append_right _ hrow)⟩
    have hpipeline : Pipeline chain { w with rows := written ++ w.rows }
        { p with processing := false } := by
      refine ⟨?_, ?_, ?_, hp.pipeline.gate, hp.pipeline.completed, hcovered hp.pipeline.frontier⟩
      · exact fun i message hm => hgrows.promise (hp.pipeline.promised i message hm)
      · intro before s hash' after hsplit r hr
        exact (hp.pipeline.rows_sent before s hash' after hsplit r hr).imp_right
          (Or.imp_right fun hrow => List.mem_append_right _ hrow)
      · exact fun s hs r hr => List.mem_append_right _ (hp.pipeline.finalized s hs r hr)
    exact (hp.moved hpipeline hgrows rfl rfl rfl rfl rfl rfl id
      fun hphase => absurd ((hp.starting hphase).2.2.2.2.symm.trans hnext) nofun).running _
  | @report message rest hnext =>
    have hpipeline := hp.pipeline.report hnext
    refine h.withProcess (hp.moved hpipeline ⟨rfl, fun _ hx => hx, ?_, fun _ _ hs => hs⟩ ?_ rfl rfl
      rfl rfl rfl id fun hphase => absurd ((hp.starting hphase).2.2.2.1.symm.trans hnext) nofun)
    · simp [StreamProcess.history, hnext]
    · simp [StreamProcess.history, hnext]
  | @flush landed reported _ _ =>
    refine ⟨fun f hf => ?_, ?_⟩
    · cases landed with
      | false => exact h.stored f hf
      | true => exact covered_flush h.stored hp.pipeline.frontier hf
    · rintro q ⟨⟩
      let row := if landed then p.writer.flush w.row else w.row
      let q := { p with writer := { p.writer with dirty := !reported } }
      have hpipeline : Pipeline chain { w with row := row } q := { hp.pipeline with }
      refine (hp.moved hpipeline ⟨rfl, fun _ hx => hx, List.prefix_rfl, fun _ _ hs => hs⟩ rfl rfl
        rfl rfl rfl rfl ?_ fun hphase => (hp.starting hphase).2.2).running _
      cases landed with
      | false => exact id
      | true => exact fun hnone => nomatch hnone

@[simp] theorem lastGate_send_instruction (p : StreamProcess ρ) (s : ℕ) (r : ρ) :
    lastGate (p.send (.instruction s r)).history = lastGate p.history := by
  rw [history_send, List.filterMap_cons_none rfl, List.filterMap_nil, List.append_nil]

@[simp] theorem lastGate_send_slotComplete (p : StreamProcess ρ) (s : ℕ) (hash : Option String) :
    lastGate (p.send (.slotComplete s hash)).history = lastGate p.history := by
  rw [history_send]
  exact lastGate_slot p.history s hash

@[simp] theorem lastGate_send_regate (p : StreamProcess ρ) (fromSlot target : ℕ) :
    lastGate (p.send (.regate fromSlot target)).history = some target := by
  rw [history_send]
  exact lastGate_regate p.history fromSlot target

theorem reported_send (p : StreamProcess ρ) (s : ℕ) (hash : Option String) :
    Reported (p.send (.slotComplete s hash)).history s := by
  refine ⟨hash, ?_⟩
  rw [history_send]
  exact List.mem_append_right p.history (List.mem_cons_self : _ ∈ [CheckpointMsg.slot s hash])

theorem sent_send (w : StreamWorld ρ) (p : StreamProcess ρ) (s : ℕ) (r : ρ) :
    Sent w (p.send (.instruction s r)) s r :=
  .inl (List.mem_append_right _ List.mem_cons_self)

/-- A row owed for a slot stays owed or sent when the next one is sent. -/
theorem owed_send {slot : ℕ} {row r : ρ} {pending : List ρ}
    (h : r ∈ row :: pending ∨ Sent w p slot r) :
    r ∈ pending ∨ Sent w (p.send (.instruction slot row)) slot r := by
  rcases h with hpending | hsent
  · rcases List.mem_cons.mp hpending with rfl | hpending
    · exact .inr (sent_send w p slot r)
    · exact .inl hpending
  · exact .inr ((grows_send w p _).sent _ _ hsent)

theorem Pipeline.send_instruction (h : Pipeline chain w p) (s : ℕ) (r : ρ) :
    Pipeline chain w (p.send (.instruction s r)) :=
  h.send (fun _ hm => nomatch hm) (fun _ _ hm => nomatch hm)

/-- A completed slot is sent from a covered base on, or from the newest gate on. -/
theorem Pipeline.send_slotComplete (h : Pipeline chain w p) {c : ℕ} (hash : Option String)
    (hbase : Covered chain w c ∨ lastGate p.history = some c)
    (hbetween : ∀ t, c < t → t < s → Settled chain p.history t)
    (hrows : ∀ r ∈ chain.rowsAt s, Sent w p s r) :
    Pipeline chain w (p.send (.slotComplete s hash)) := by
  refine h.send ?_ ?_
  · rintro m ⟨⟩
    exact ⟨c, hbase, hbetween⟩
  · rintro t hash' ⟨⟩
    exact hrows

variable {fromSlot : ℕ}

theorem Pipeline.send_regate (h : Pipeline chain w p) (target : ℕ)
    (hfrom : Covered chain w fromSlot) : Pipeline chain w (p.send (.regate fromSlot target)) := by
  refine h.send ?_ (fun _ _ hm => nomatch hm)
  rintro m ⟨⟩
  exact hfrom

/-- Past its start a process may send and change its fills in every phase. -/
theorem PhaseInv.later (h : PhaseInv chain w p) (hstarted : p.phase ≠ .starting)
    (hphase : p'.phase = p.phase) (hconnection : p'.connection = p.connection) :
    PhaseInv chain w p' := by
  unfold PhaseInv at h ⊢
  rw [hphase, hconnection]
  split <;> rename_i hcase
  · exact absurd hcase hstarted
  · rw [hcase] at h
    exact h
  · rw [hcase] at h
    exact h
  · trivial

/-- An attempt starts from a slot that is covered: the stored checkpoint or the floor. -/
theorem covered_gapFillCheckpoint
    (hstored : ∀ f, w.row.lastCommittedSlot = some f → Covered chain w f) {floor : Option ℕ}
    (hfloor : ∀ f ∈ floor, Covered chain w f) {read : Except Unit (Option ℕ)}
    (hread : read = .ok w.row.lastCommittedSlot ∨ read = .error ()) {checkpoint : ℕ}
    (h : gapFillCheckpoint read floor = some checkpoint) : Covered chain w checkpoint := by
  rcases hread with rfl | rfl
  · cases hrow : w.row.lastCommittedSlot with
    | none =>
      rw [hrow] at h
      exact hfloor checkpoint h
    | some slot =>
      rw [hrow] at h
      obtain rfl : _ = checkpoint := Option.some.inj h
      cases hcase : floor with
      | none => exact hstored slot hrow
      | some f =>
        rcases max_choice f slot with heq | heq
        · simp only [Option.elim_some, heq]
          exact hfloor f hcase
        · simp only [Option.elim_some, heq]
          exact hstored slot hrow
  · exact hfloor checkpoint h

/-- Between a block and its parent the chain is empty. -/
theorem blockAt_eq_none (hb : b ∈ chain.blocks)
    (hlo : b.parentSlot < s) (hhi : s < b.slot) : chain.blockAt s = none := by
  refine List.find?_eq_none.mpr fun c hc heq => ?_
  have heq : c.slot = s := of_decide_eq_true heq
  have := chain.linked.le_parent hb hc (by omega)
  omega

/-- A block whose parent is covered by the gate, or was the last one forwarded, leaves
nothing out. -/
theorem ConnectionInv.settled_of_link (h : ConnectionInv chain w p c)
    (hb : b ∈ chain.blocks)
    (hlink : checkBlockLink c.lastForwarded c.gateTarget b.slot b.parentSlot b.parentBlockhash
      = .ok ()) :
    ∀ target ∈ c.gateTarget, ∀ s, target < s → s < b.slot → Settled chain p.history s := by
  intro target htarget s hlo hhi
  rw [Option.mem_def.mp htarget] at hlink
  rcases checkBlockLink_ok hlink with hparent | hlate | ⟨prev, hprev, hparent⟩
  · exact .inr (blockAt_eq_none hb (by omega) hhi)
  · omega
  · rcases Nat.lt_or_ge b.parentSlot s with habove | hbelow
    · exact .inr (blockAt_eq_none hb habove hhi)
    · exact h.forwarded prev hprev target htarget s hlo (by omega)

theorem covered_ge_gateTarget {target : ℕ}
    (htarget : c.gateTarget = some target) : ∃ n, c.covered = some n ∧ target ≤ n := by
  unfold Connection.covered
  rw [htarget]
  cases c.lastForwarded with
  | none => exact ⟨target, rfl, le_rfl⟩
  | some b => exact ⟨_, rfl, le_max_right _ _⟩

variable {filling : Bool}

/-- A later arm goes past the gate in force. -/
theorem lt_armSlot {tSub target : ℕ} (harms : c.armSlot filling = some tSub)
    (harmed : c.armed = true) (htarget : c.gateTarget = some target) : target < tSub := by
  unfold Connection.armSlot at harms
  split at harms
  · rw [if_pos harmed] at harms
    split at harms
    · rename_i hwithheld
      cases harms
      obtain ⟨n, hcovered, hle⟩ := covered_ge_gateTarget htarget
      have hpast := ((Bool.and_eq_true _ _).mp hwithheld).2
      rw [hcovered, Option.any_some] at hpast
      have hpast : n + withheldBlockSlots < _ := of_decide_eq_true hpast
      omega
    · cases harms
  · rw [if_pos harmed] at harms
    split at harms
    · rename_i hhole
      cases harms
      rw [htarget] at hhole
      exact checkBlockLink_hole hhole
    · cases harms
  · cases harms

/-- Of a block whose parent is the new gate nothing is sent yet, and nothing is owed. -/
theorem taskInv_forwarding (hb : b ∈ chain.blocks) {gateTarget : Option ℕ}
    (hgate : gateTarget.isSome)
    (hbelow : ∀ target ∈ gateTarget, ∀ s, target < s → s < b.slot → Settled chain p.history s) :
    TaskInv chain w p gateTarget (.forwarding b b.rows) := by
  refine ⟨hb, hbelow, hgate, fun r hr => .inl ?_⟩
  rwa [chain.rowsAt_slot hb] at hr

/-- Where a later arm starts, as its message says. -/
theorem armSlot_block {tSub : ℕ}
    (harms : c.armSlot filling = some tSub) (harmed : c.armed = true) (htask : c.task = .block b) :
    tSub = b.parentSlot := by
  unfold Connection.armSlot at harms
  rw [htask] at harms
  simp only [harmed, if_true] at harms
  split at harms
  · exact (Option.some.inj harms).symm
  · cases harms

/-- Once the gate is in the channel the connection goes on under it. -/
theorem ConnectionInv.afterArm (h : ConnectionInv chain w p c) {tSub : ℕ}
    (harms : c.armSlot filling = some tSub) (hgrows : Grows w p w p')
    (hgate : lastGate p'.history = some (Connection.armTarget p.startupFloor tSub))
    (hfloor : p'.startupFloor = none) :
    ConnectionInv chain w p' (c.afterArm (Connection.armTarget p.startupFloor tSub)) := by
  cases harmed : c.armed with
  | false =>
    have hnone : c.gateTarget = none := by
      rw [h.gate, harmed]
      rfl
    have hlast := h.unarmed harmed
    refine ⟨?_, fun _ => ⟨rfl, hfloor⟩, nofun, nofun, ?_, ?_⟩
    · simp [Connection.afterArm, hnone, hgate]
    · intro last hmem
      exact nomatch hlast.symm.trans hmem
    · have htask := hgrows.taskInv h.task
      simp only [Connection.afterArm, harmed]
      cases hcase : c.task with
      | block b =>
        rw [hcase] at htask
        exact htask
      | forwarding b pending =>
        rw [hcase, hnone] at htask
        exact nomatch htask.2.2.1
      | _ => trivial
  | true =>
    obtain ⟨hsome, hspent⟩ := h.armed harmed
    obtain ⟨old, hold⟩ := Option.isSome_iff_exists.mp hsome
    have hlt := lt_armSlot harms harmed hold
    have htarget : Connection.armTarget p.startupFloor tSub = tSub := by
      simp [Connection.armTarget, hspent]
    rw [htarget] at hgate ⊢
    have hnew : (c.afterArm tSub).gateTarget = some tSub := by
      simp [Connection.afterArm, hold, max_eq_right hlt.le]
    refine ⟨?_, fun _ => ⟨rfl, hfloor⟩, nofun, nofun, ?_, ?_⟩
    · rw [hnew, hgate]
      rfl
    · intro last hlast target htarget s hlo hhi
      cases hnew.symm.trans htarget
      exact hgrows.settled (h.forwarded last hlast old hold s (hlt.trans hlo) hhi)
    · rw [hnew]
      have htask := h.task
      simp only [Connection.afterArm, harmed, if_true]
      cases hcase : c.task with
      | block b =>
        rw [hcase] at htask
        have hb : b ∈ chain.blocks := htask
        refine taskInv_forwarding hb rfl fun target htarget s hlo hhi => .inr ?_
        cases htarget
        rw [armSlot_block harms harmed hcase] at hlo
        exact blockAt_eq_none hb hlo hhi
      | _ => trivial

theorem ConnectionInv.isArmed (h : ConnectionInv chain w p c)
    (hgate : c.gateTarget.isSome) : c.armed = true := by
  cases harmed : c.armed with
  | true => rfl
  | false =>
    rw [h.gate, harmed] at hgate
    cases hgate

/-- A block was forwarded whole. -/
theorem ConnectionInv.afterForward (h : ConnectionInv chain w p c)
    (htask : c.task = .forwarding b []) :
    ConnectionInv chain w (p.send (.slotComplete b.slot none)) (c.afterForward b) := by
  have hgrows := grows_send w p (.slotComplete b.slot none)
  have hforwarding := h.task
  rw [htask] at hforwarding
  obtain ⟨_, hbelow, hgate, _⟩ := hforwarding
  refine ⟨?_, h.armed, ?_, h.anchor, ?_, trivial⟩
  · rw [lastGate_send_slotComplete]
    exact h.gate
  · intro harmed
    exact nomatch harmed.symm.trans (h.isArmed hgate)
  · intro last hlast target htarget s hlo hhi
    simp only [Connection.afterForward] at hlast
    split at hlast
    · cases hlast
      rcases Nat.lt_or_eq_of_le hhi with hlt | rfl
      · exact hgrows.settled (hbelow target htarget s hlo hlt)
      · exact .inl (reported_send p _ none)
    · exact hgrows.settled (h.forwarded last hlast target htarget s hlo hhi)

/-- The floor of a start is the stored checkpoint, or where indexing begins. -/
theorem startFloor_covered {setting : String} {programType : ProgramType}
    {configuredStart : Option ℕ} {floor : ℕ}
    (hstored : ∀ f, w.row.lastCommittedSlot = some f → Covered chain w f)
    (hinitial : w.row.lastCommittedSlot = none → w.anchor = configuredStart.getD 0 - 1)
    (h : startFloor setting programType w.row.lastCommittedSlot configuredStart = .ok floor) :
    Covered chain w floor ∧ (w.row.lastCommittedSlot = none → floor = w.anchor) := by
  cases hrow : w.row.lastCommittedSlot with
  | none =>
    rw [hrow] at h
    have hfloor : configuredStart.getD 0 - 1 = floor := Except.ok.inj h
    have heq : floor = w.anchor := by rw [← hfloor, hinitial hrow]
    exact ⟨heq ▸ covered_anchor, fun _ => heq⟩
  | some checkpoint =>
    rw [hrow] at h
    obtain rfl := startFloor_some h
    exact ⟨hstored _ hrow, nofun⟩

theorem fillInv_startupFill (target : ℕ) (hfrom : Covered chain w fromSlot) :
    FillInv chain w p (startupFill chain fromSlot target) := by
  refine ⟨nofun, hfrom, fun s hlo hhi => ?_, fun r hr => .inl hr⟩
  omega

section

variable (h : ProcessInv chain w p)
include h

/-- A message sent by a process past its start. -/
theorem ProcessInv.sent {message : ProcessorMessage ρ}
    (hpipeline : Pipeline chain w (p.send message))
    (hgate : ∀ c, p.connection = some c → lastGate (p.send message).history = lastGate p.history)
    (hphase : p.phase ≠ .starting) : ProcessInv chain w (p.send message) := by
  have hgrows := grows_send w p message
  refine ⟨hpipeline, fun f hf => hgrows.fillInv (h.fills f hf), h.floor, ?_, ?_, h.initial⟩
  · exact fun c hc => hgrows.connectionInv (hgate c hc) id (h.connection c hc)
  · exact h.phase.later hphase rfl rfl

/-- Fills are independent of each other and of the connection. -/
theorem ProcessInv.setFills {fills : List (Fill ρ)} (hphase : p.phase ≠ .starting)
    (hfills : ∀ f ∈ fills, FillInv chain w p f) : ProcessInv chain w { p with fills := fills } := by
  refine ⟨{ h.pipeline with }, hfills, h.floor, ?_, ?_, h.initial⟩
  · exact fun c hc => { h.connection c hc with }
  · exact h.phase.later hphase rfl rfl

theorem ProcessInv.addFill (target : ℕ) (floor : Option ℕ) (retries : Bool)
    (hphase : p.phase ≠ .starting) (hfloor : ∀ f ∈ floor, Covered chain w f) :
    ProcessInv chain w { p with fills := ⟨target, floor, retries, .waiting⟩ :: p.fills } := by
  exact h.setFills hphase (List.forall_mem_cons.mpr ⟨⟨hfloor, trivial⟩, h.fills⟩)

/-- One fill of several changes its state. -/
theorem ProcessInv.setFill {before after : List (Fill ρ)} {fill fill' : Fill ρ}
    (hamong : p.fills = before ++ fill :: after) (hphase : p.phase ≠ .starting)
    (hfill : FillInv chain w p fill') :
    ProcessInv chain w { p with fills := before ++ fill' :: after } :=
  h.setFills hphase (forall_mem_replace hamong h.fills hfill)

/-- A gap fill keeps the invariant. -/
theorem ProcessInv.fill (hstored : ∀ f, w.row.lastCommittedSlot = some f → Covered chain w f)
    (hstep : FillStep chain w p p') : ProcessInv chain w p' := by
  have hphase {before after : List (Fill ρ)} {fill : Fill ρ}
      (hamong : p.fills = before ++ fill :: after) : p.phase ≠ .starting := by
    intro hcase
    rw [(h.starting hcase).2.1] at hamong
    exact absurd hamong (by simp)
  have hself {before after : List (Fill ρ)} {fill : Fill ρ}
      (hamong : p.fills = before ++ fill :: after) : FillInv chain w p fill :=
    h.fills fill (hamong ▸ List.mem_append_right _ List.mem_cons_self)
  cases hstep with
  | attempt hamong _ hanswered hplan =>
    refine h.setFill hamong (hphase hamong) ?_
    obtain ⟨hcheckpoint, rfl⟩ := gapFillPlan_fillFrom hplan
    have hfloor := (hself hamong).1
    refine ⟨hfloor, covered_gapFillCheckpoint hstored hfloor hanswered hcheckpoint, ?_, ?_⟩
    · intro s hlo hhi
      omega
    · exact fun r hr => .inl hr
  | @sendRow before after fill base slot row pending hamong hstate _ =>
    have hsent := h.sent (h.pipeline.send_instruction slot row)
      (fun _ _ => lastGate_send_instruction p slot row) (hphase hamong)
    refine hsent.setFill hamong (hphase hamong) ?_
    obtain ⟨hfloor, hrunning⟩ := hself hamong
    rw [hstate] at hrunning
    obtain ⟨hbase, hbelow, hrows⟩ := hrunning
    exact ⟨hfloor, hbase, fun s hlo hhi => (grows_send w p _).reported (hbelow s hlo hhi),
      fun r hr => owed_send (hrows r hr)⟩
  | @sendComplete before after fill base slot hamong hstate _ =>
    obtain ⟨hfloor, hrunning⟩ := hself hamong
    rw [hstate] at hrunning
    obtain ⟨hbase, hbelow, hrows⟩ := hrunning
    have hpipeline := h.pipeline.send_slotComplete ((chain.blockAt slot).map (·.blockhash))
      (.inl hbase) (fun t hlo hhi => .inl (hbelow t hlo hhi))
      fun r hr => (hrows r hr).resolve_left List.not_mem_nil
    have hsent := h.sent hpipeline (fun _ _ => lastGate_send_slotComplete p slot _) (hphase hamong)
    refine hsent.setFill hamong (hphase hamong) ?_
    refine ⟨hfloor, hbase, fun s hlo hhi => ?_, fun r hr => .inl hr⟩
    rcases Nat.lt_succ_iff_lt_or_eq.mp hhi with hlt | rfl
    · exact (grows_send w p _).reported (hbelow s hlo hlt)
    · exact reported_send p s _
  | failed hamong _ => exact h.setFill hamong (hphase hamong) ⟨(hself hamong).1, trivial⟩
  | @ended before after fill hamong =>
    refine h.setFills (hphase hamong) fun f hf => h.fills f ?_
    rw [hamong]
    rcases List.mem_append.mp hf with hbefore | hafter
    · exact List.mem_append_left _ hbefore
    · exact List.mem_append_right _ (List.mem_cons_of_mem _ hafter)

theorem ProcessInv.streaming (hc : p.connection = some c) : p.phase = .streaming := by
  have hphase := h.phase
  unfold PhaseInv at hphase
  split at hphase
  · exact nomatch hphase.1.symm.trans hc
  · exact nomatch hphase.symm.trans hc
  · exact nomatch hphase.1.symm.trans hc
  · assumption

theorem ProcessInv.setConnection (hphase : p.phase = .streaming) (hc : ConnectionInv chain w p c) :
    ProcessInv chain w { p with connection := some c } := by
  refine ⟨{ h.pipeline with }, h.fills, h.floor, ?_, ?_, h.initial⟩
  · rintro c' ⟨⟩
    exact { hc with }
  · simp [PhaseInv, hphase]

theorem ProcessInv.disconnect : ProcessInv chain w { p with connection := none } := by
  refine ⟨{ h.pipeline with }, h.fills, h.floor, nofun, ?_, h.initial⟩
  · have hold := h.phase
    cases hcase : p.phase with
    | filling target anchor | streaming => simp only [PhaseInv]
    | _ =>
      rw [PhaseInv, hcase] at hold
      simpa only [PhaseInv, hcase, true_and] using hold.2

/-- The startup floor is spent when no connection is open. -/
theorem ProcessInv.spendFloor (hclosed : p.connection = none) (hphase : p.phase = .streaming) :
    ProcessInv chain w { p with startupFloor := none } := by
  refine ⟨{ h.pipeline with }, h.fills, nofun, ?_, ?_, h.initial⟩
  · intro c hc
    exact nomatch hclosed.symm.trans hc
  · simp [PhaseInv, hphase]

/-- Arming puts the connection back only once the gate is in the channel. -/
theorem ProcessInv.connectionStep
    (hstored : ∀ f, w.row.lastCommittedSlot = some f → Covered chain w f)
    (hstep : ConnectionStep chain w p p') : ProcessInv chain w p' := by
  cases hstep with
  | connect hstreaming _ =>
    exact h.setConnection hstreaming ⟨rfl, nofun, fun _ => rfl, nofun, nofun, trivial⟩
  | disconnect => exact h.disconnect
  | slotUpdate hopened _ | slotDone hopened _ _ _ _ =>
    have hc := h.connection _ hopened
    exact h.setConnection (h.streaming hopened) { hc with task := trivial }
  | block hopened _ hfinalized =>
    have hc := h.connection _ hopened
    exact h.setConnection (h.streaming hopened) { hc with task := hfinalized }
  | readAnchor hopened _ hread =>
    have hc := h.connection _ hopened
    refine h.setConnection (h.streaming hopened) { hc with anchor := ?_ }
    rintro a ⟨⟩
    exact hstored _ hread
  | linked hopened htask harmed hlink =>
    have hc := h.connection _ hopened
    have hb := hc.task
    rw [htask] at hb
    exact h.setConnection (h.streaming hopened)
      { hc with task := taskInv_forwarding hb (hc.armed harmed).1 (hc.settled_of_link hb hlink) }
  | @sendRow c b row pending hopened htask =>
    have hstreaming := h.streaming hopened
    have hc := h.connection _ hopened
    have hsent := h.sent (h.pipeline.send_instruction b.slot row)
      (fun _ _ => lastGate_send_instruction p b.slot row) (by rw [hstreaming]; exact nofun)
    have hconn := hsent.connection c hopened
    have hforwarding := hc.task
    rw [htask] at hforwarding
    obtain ⟨hb, hbelow, hgate, hrows⟩ := hforwarding
    refine hsent.setConnection hstreaming { hconn with task := ⟨hb, ?_, hgate, ?_⟩ }
    · exact fun target htarget s hlo hhi =>
        (grows_send w p _).settled (hbelow target htarget s hlo hhi)
    · exact fun r hr => owed_send (hrows r hr)
  | @sendComplete c b hopened htask =>
    have hstreaming := h.streaming hopened
    have hc := h.connection _ hopened
    have hforwarding := hc.task
    rw [htask] at hforwarding
    obtain ⟨hb, hbelow, hgate, hrows⟩ := hforwarding
    obtain ⟨target, htarget⟩ := Option.isSome_iff_exists.mp hgate
    have hlast : lastGate p.history = some target := by
      rw [← htarget, hc.gate, hc.isArmed hgate]
      rfl
    have hpipeline := h.pipeline.send_slotComplete none (.inr hlast) (hbelow target htarget)
      fun r hr => (hrows r hr).resolve_left List.not_mem_nil
    have hsent := h.sent hpipeline (fun _ _ => lastGate_send_slotComplete p b.slot none)
      (by rw [hstreaming]; exact nofun)
    exact hsent.setConnection hstreaming (hc.afterForward htask)
  | @arm c filling tSub anchor hopened harms hread =>
    have hstreaming := h.streaming hopened
    have hc := h.connection _ hopened
    let target := Connection.armTarget p.startupFloor tSub
    let closed : StreamProcess ρ := { p with connection := none }
    have hclosed : ProcessInv chain w closed := h.disconnect
    have hstarted : closed.phase ≠ .starting := fun hcase => nomatch hstreaming.symm.trans hcase
    have hsent := hclosed.sent (hclosed.pipeline.send_regate target (hc.anchor anchor hread))
      (fun _ hnone => nomatch hnone) hstarted
    have hfills := hsent.addFill target p.startupFloor true hstarted h.floor
    have hspent := hfills.spendFloor rfl hstreaming
    refine hspent.setConnection hstreaming ?_
    refine hc.afterArm harms ?_ ?_ rfl
    · have hgrows := grows_send w p (.regate anchor target)
      exact ⟨rfl, hgrows.rows, hgrows.history, hgrows.sent⟩
    · exact lastGate_send_regate p anchor target

/-- A process without a connection may change its phase. -/
theorem ProcessInv.setPhase (hclosed : p.connection = none) (phase : StartPhase)
    (hphase : PhaseInv chain w { p with phase := phase }) :
    ProcessInv chain w { p with phase := phase } := by
  refine ⟨{ h.pipeline with }, h.fills, h.floor, fun c hc => ?_, hphase, h.initial⟩
  exact nomatch hclosed.symm.trans hc

theorem ProcessInv.closed (hphase : p.phase ≠ .streaming) : p.connection = none := by
  cases hc : p.connection with
  | none => rfl
  | some c => exact absurd (h.streaming hc) hphase

theorem ProcessInv.armAndFill (hclosed : p.connection = none) (target : ℕ)
    (hfrom : Covered chain w fromSlot) :
    ProcessInv chain w (armAndFill chain fromSlot target p) := by
  have hfilling := h.setPhase hclosed (.filling target fromSlot) hclosed
  have hsent := hfilling.sent (hfilling.pipeline.send_regate target hfrom)
    (fun c hc => nomatch hclosed.symm.trans hc) nofun
  exact hsent.setFills nofun
    (List.forall_mem_cons.mpr ⟨fillInv_startupFill target hfrom, hsent.fills⟩)

/-- The gate is armed and the fill starts. -/
theorem ProcessInv.gateAndFill (hphase : p.phase = .starting) (target : ℕ)
    (hfrom : Covered chain w fromSlot) :
    ProcessInv chain w (gateAndFill chain fromSlot target p) := by
  obtain ⟨hclosed, -, -, hreports, hinstructions⟩ := h.starting hphase
  have hhistory : (Indexer.gateAndFill chain fromSlot target p).history
      = [.regate fromSlot target] := by
    simp [StreamProcess.history, Indexer.gateAndFill, hreports, hinstructions]
  refine ⟨⟨?_, ?_, ?_, rfl, ?_, hfrom⟩, ?_, h.floor, ?_, hclosed, h.initial⟩
  · intro i message hm
    rw [hhistory] at hm ⊢
    have hm := List.mem_singleton.mp (List.mem_of_getElem? hm)
    rw [hm]
    exact hfrom
  · exact h.pipeline.rows_sent
  · rintro s ⟨hash, hin⟩
    simp [Indexer.gateAndFill, hreports] at hin
  · intro s hs
    exact absurd hs (Finset.notMem_empty s)
  · intro f hf
    rw [List.mem_singleton.mp hf]
    exact fillInv_startupFill target hfrom
  · intro c hc
    exact nomatch hclosed.symm.trans hc

end

theorem ensureStartupAnchor_some {row : IndexerStateRow} {resolved f : ℕ}
    (h : (ensureStartupAnchor row resolved).lastCommittedSlot = some f) :
    row.lastCommittedSlot = some f ∨ row.lastCommittedSlot = none ∧ f = resolved := by
  unfold ensureStartupAnchor at h
  split at h
  · exact .inl h
  · rename_i hnone
    simp only [updateCommittedCheckpoint, hnone, Option.elim_none, Option.some.injEq] at h
    exact .inr ⟨hnone, h.symm⟩

theorem ensureStartupAnchor_ne_none (row : IndexerStateRow) (resolved : ℕ) :
    (ensureStartupAnchor row resolved).lastCommittedSlot ≠ none := by
  intro h
  unfold ensureStartupAnchor at h
  split at h
  · rename_i hsome
    exact nomatch hsome.symm.trans h
  · cases h

/-- The startup anchor is the slot indexing begins above. -/
theorem StreamInv.anchored (h : StreamInv chain w) {resolved f : ℕ}
    (hanchor : w.row.lastCommittedSlot = none → resolved = w.anchor)
    (hf : (ensureStartupAnchor w.row resolved).lastCommittedSlot = some f) : Covered chain w f := by
  rcases ensureStartupAnchor_some hf with hstored | ⟨hnone, rfl⟩
  · exact h.stored f hstored
  · rw [hanchor hnone]
    exact covered_anchor

/-- The stream opens over an anchored store with its floor. -/
theorem ProcessInv.openStream (h : ProcessInv chain w p) (hclosed : p.connection = none)
    {floor : ℕ} (hfloor : Covered chain w floor) (resolved : ℕ) (q : Option (StreamProcess ρ)) :
    ProcessInv chain { w with row := ensureStartupAnchor w.row resolved, process := q }
      { p with phase := .streaming, startupFloor := some floor } := by
  refine ⟨{ h.pipeline with }, h.fills, ?_, ?_, trivial, ?_⟩
  · rintro f ⟨⟩
    exact hfloor
  · intro c hc
    exact nomatch hclosed.symm.trans hc
  · intro hnone
    exact absurd hnone (ensureStartupAnchor_ne_none _ _)

/-- The start keeps the invariant. -/
theorem StreamInv.startup (h : StreamInv chain w) (hp : ProcessInv chain w p)
    (hstep : StartupStep chain w p w') : StreamInv chain w' := by
  have hresolved {configuredStart : Option ℕ} {currentSlot maxGapSlots : ℕ} {range : StartupRange}
      (hmode : p.mode.initialAnchor = configuredStart.getD 0 - 1)
      (h' : resolveRange .escrow w.row.lastCommittedSlot configuredStart currentSlot maxGapSlots
        = .ok range) :
      Covered chain w range.anchor ∧ (w.row.lastCommittedSlot = none → range.anchor = w.anchor) :=
    startFloor_covered h.stored (fun hnone => (hp.initial hnone).trans hmode) (resolveRange_ok h').1
  have hwaiting
      (hphase : p.phase = .starting ∨ ∃ ledgerEnd anchor, p.phase = .ready ledgerEnd anchor) :
      p.connection = none := by
    refine hp.closed fun hcase => ?_
    rcases hphase with hphase | ⟨_, _, hphase⟩ <;> exact nomatch hphase.symm.trans hcase
  cases hstep with
  | fill hmode hphase hrange _ _ =>
    have hcovered := (hresolved (by rw [hmode]; rfl) hrange).1
    exact h.withProcess (hp.armAndFill (hwaiting hphase) _ hcovered)
  | noGap hmode hphase hrange _ _ =>
    have hclosed := hwaiting hphase
    exact h.withProcess (hp.setPhase hclosed (.ready _ _)
      ⟨hclosed, hresolved (by rw [hmode]; rfl) hrange⟩)
  | committed _ hphase hstored hreached =>
    have hclosed : p.connection = none := hp.closed fun hcase => nomatch hphase.symm.trans hcase
    exact h.withProcess (hp.setPhase hclosed (.ready _ _) ⟨hclosed,
      (h.stored _ hstored).anti hreached, fun hnone => nomatch hnone.symm.trans hstored⟩)
  | fillOnly hmode hphase hrange _ hgap =>
    have hcovered := (hresolved (by rw [hmode]; rfl) hrange).1
    rcases (resolveRange_ok hrange).2 with ⟨hnone, -⟩ | ⟨hsome, -, -⟩
    · exact nomatch hnone.symm.trans hgap
    · cases Option.some.inj (hsome.symm.trans hgap)
      exact h.withProcess (hp.gateAndFill hphase _ hcovered)
  | streamAfterFill hphase _ =>
    have hready := hp.phase
    rw [PhaseInv, hphase] at hready
    obtain ⟨hclosed, hend, hanchor⟩ := hready
    refine ⟨fun f hf => h.anchored hanchor hf, ?_⟩
    rintro q ⟨⟩
    exact hp.openStream hclosed hend _ _
  | @stream tip floor hmode hphase hanchored =>
    have hanchor (hnone : w.row.lastCommittedSlot = none) : tip = w.anchor := by
      have hinitial := hp.initial hnone
      rw [hmode] at hinitial
      exact hinitial.symm
    refine ⟨fun f hf => h.anchored hanchor hf, ?_⟩
    rintro q ⟨⟩
    have hclosed : p.connection = none := hp.closed fun hcase => nomatch hphase.symm.trans hcase
    exact hp.openStream hclosed (h.anchored hanchor hanchored) _ _

/-- A restart keeps the invariant. -/
theorem StreamInv.boot (h : StreamInv chain w) (mode : StartMode) :
    StreamInv chain
      { w with
        anchor := if w.row.lastCommittedSlot.isSome then w.anchor else mode.initialAnchor
        process := some (.booted mode) } := by
  refine ⟨fun f hf => ?_, ?_⟩
  · have hsome : w.row.lastCommittedSlot = some f := hf
    have hcovered := h.stored f hsome
    simp only [hsome, Option.isSome_some, if_true]
    exact hcovered
  · rintro q ⟨⟩
    refine ⟨⟨nofun, ?_, ?_, rfl, ?_, covered_zero⟩, nofun, nofun, nofun, ?_, ?_⟩
    · intro before s hash after hsplit
      exact absurd hsplit (by simp [StreamProcess.booted])
    · rintro s ⟨hash, hin⟩
      exact absurd hin List.not_mem_nil
    · intro s hs
      exact absurd hs (Finset.notMem_empty s)
    · exact ⟨rfl, rfl, rfl, rfl, rfl⟩
    · intro hnone
      have hnone : w.row.lastCommittedSlot = none := hnone
      simp only [hnone, Option.isSome_none]
      rfl

/-- Every step keeps the invariant. -/
theorem StreamInv.step {event : StreamEvent} (h : StreamInv chain w)
    (hstep : StreamStep chain w event w') : StreamInv chain w' := by
  cases hstep with
  | @boot mode _ => exact h.boot mode
  | startup hup hstep => exact h.startup (h.process _ hup) hstep
  | connection hup hstep =>
    exact h.withProcess ((h.process _ hup).connectionStep h.stored hstep)
  | fill hup hstep => exact h.withProcess ((h.process _ hup).fill h.stored hstep)
  | pipeline hup hstep => exact h.pipeline hup hstep
  | stop =>
    refine ⟨h.stored, ?_⟩
    rintro q ⟨⟩

/-- No step lowers a stored checkpoint or moves the anchor below it. -/
theorem StreamStep.keeps_checkpoint {event : StreamEvent} (hstep : StreamStep chain w event w')
    {f : ℕ} (hf : w.row.lastCommittedSlot = some f) :
    (∃ f', w'.row.lastCommittedSlot = some f' ∧ f ≤ f') ∧ w'.anchor = w.anchor := by
  have hsame : ∃ f', w.row.lastCommittedSlot = some f' ∧ f ≤ f' := ⟨f, hf, le_rfl⟩
  have hensured (resolved : ℕ) :
      ∃ f', (ensureStartupAnchor w.row resolved).lastCommittedSlot = some f' ∧ f ≤ f' := by
    rw [ensureStartupAnchor, hf]
    exact hsame
  cases hstep with
  | boot _ => exact ⟨hsame, by simp only [hf, Option.isSome_some, if_true]⟩
  | startup _ hstep =>
    cases hstep with
    | streamAfterFill _ _ | stream _ _ _ => exact ⟨hensured _, rfl⟩
    | _ => exact ⟨hsame, rfl⟩
  | pipeline _ hstep =>
    cases hstep with
    | @flush landed _ _ _ =>
      refine ⟨?_, rfl⟩
      cases landed with
      | false => exact hsame
      | true =>
        refine ⟨_, rfl, ?_⟩
        rw [hf]
        exact le_max_left _ _
    | _ => exact ⟨hsame, rfl⟩
  | _ => exact ⟨hsame, rfl⟩

/-- The checkpoint never falls. -/
theorem keeps_checkpoint_of_run {events : List StreamEvent}
    (hrun : Run (StreamStep chain) w events w') {f : ℕ} (hf : w.row.lastCommittedSlot = some f) :
    (∃ f', w'.row.lastCommittedSlot = some f' ∧ f ≤ f') ∧ w'.anchor = w.anchor := by
  refine hrun.stateInvariant
    (P := fun t => (∃ f', t.row.lastCommittedSlot = some f' ∧ f ≤ f') ∧ t.anchor = w.anchor)
    ⟨⟨f, hf, le_rfl⟩, rfl⟩ ?_
  rintro t event u ⟨⟨f', hf', hle⟩, hanchor⟩ hstep
  obtain ⟨⟨f'', hf'', hle'⟩, hkept⟩ := hstep.keeps_checkpoint hf'
  exact ⟨⟨f'', hf'', hle.trans hle'⟩, hkept.trans hanchor⟩

theorem streamInv_of_run {events : List StreamEvent}
    (hrun : Run (StreamStep chain) .fresh events w) : StreamInv chain w := by
  have hfresh : StreamInv chain .fresh := by
    constructor
    · rintro f ⟨⟩
    · rintro q ⟨⟩
  exact hrun.stateInvariant hfresh fun _ _ _ h hstep => h.step hstep

/-- Whenever a checkpoint `f` is stored, every slot above the initial anchor and at or below `f`
has all its rows or holds no block, and the checkpoint never falls below `f` again. -/
theorem checkpoint_covers_finalized_chain (chain : FinalizedChain ρ)
    {events later : List StreamEvent} {w w' : StreamWorld ρ}
    (hrun : Run (StreamStep chain) .fresh events w) (hlater : Run (StreamStep chain) w later w')
    {f : ℕ} (hf : w.row.lastCommittedSlot = some f) :
    ((∃ f', w'.row.lastCommittedSlot = some f' ∧ f ≤ f') ∧ w'.anchor = w.anchor) ∧
      ∀ s, w.anchor < s → s ≤ f →
        chain.blockAt s = none ∨ ∀ r ∈ chain.rowsAt s, (s, r) ∈ w.rows := by
  refine ⟨keeps_checkpoint_of_run hlater hf, fun s hlo hhi => .inr ?_⟩
  exact (streamInv_of_run hrun).stored f hf s hlo hhi

/-- A source chain with blocks at slots 1 and 3, each of one row. -/
def twoRowChain : FinalizedChain ℕ :=
  ⟨[⟨1, "a", 0, "g", [7]⟩, ⟨3, "b", 1, "a", [8]⟩], by simp [Linked]⟩

/-- The checkpoint of the first block is stored at the second attempt; that of the second covers
the slot in between, and a restart keeps it. -/
theorem checkpoint_covers_two_rows :
    ∃ events later w w', Run (StreamStep twoRowChain) .fresh events w ∧
      Run (StreamStep twoRowChain) w later w' ∧ w.row.lastCommittedSlot = some 1 ∧
      w'.row.lastCommittedSlot = some 3 ∧ (∃ f', w'.row.lastCommittedSlot = some f' ∧ 1 ≤ f') ∧
      (1, 7) ∈ w'.rows ∧ twoRowChain.blockAt 2 = none ∧ (3, 8) ∈ w'.rows := by
  have h1 := Run.nil.snoc (@StreamStep.boot _ twoRowChain .fresh (.streamOnly 0) rfl)
  have h2 := h1.snoc (.startup rfl (@StartupStep.stream _ _ _ _ 0 0 rfl rfl rfl))
  have h3 := h2.snoc (.connection rfl (.connect rfl rfl))
  have h4 := h3.snoc (.connection rfl
    (@ConnectionStep.block _ _ _ _ _ ⟨1, "a", 0, "g", [7]⟩ rfl rfl List.mem_cons_self))
  have h5 := h4.snoc (.connection rfl
    (@ConnectionStep.readAnchor _ _ _ _ _ false 1 0 rfl rfl rfl))
  have h6 := h5.snoc (.connection rfl (@ConnectionStep.arm _ _ _ _ _ false 1 0 rfl rfl rfl))
  have h7 := h6.snoc (.connection rfl (.linked rfl rfl rfl rfl))
  have h8 := h7.snoc (.connection rfl (.sendRow rfl rfl))
  have h9 := h8.snoc (.connection rfl (.sendComplete rfl rfl))
  have h10 := h9.snoc (.pipeline rfl (.forwardRegate rfl rfl))
  have h11 := h10.snoc (.pipeline rfl (.buffer rfl rfl))
  have h12 := h11.snoc (.pipeline rfl (.finalize rfl rfl))
  have h13 := h12.snoc (.pipeline rfl (.report rfl))
  have h14 := h13.snoc (.pipeline rfl (.report rfl))
  have h15 := h14.snoc (.pipeline rfl (@PipelineStep.flush _ _ _ false false rfl nofun))
  have hrun := h15.snoc (.pipeline rfl (@PipelineStep.flush _ _ _ true true rfl fun _ => rfl))
  have h16 := hrun.here.snoc (.connection rfl
    (@ConnectionStep.block _ _ _ _ _ ⟨3, "b", 1, "a", [8]⟩ rfl rfl (.tail _ (.head _))))
  have h17 := h16.snoc (.connection rfl (.linked rfl rfl rfl rfl))
  have h18 := h17.snoc (.connection rfl (.sendRow rfl rfl))
  have h19 := h18.snoc (.connection rfl (.sendComplete rfl rfl))
  have h20 := h19.snoc (.pipeline rfl (.buffer rfl rfl))
  have h21 := h20.snoc (.pipeline rfl (.finalize rfl rfl))
  have h22 := h21.snoc (.pipeline rfl (.report rfl))
  have h23 := h22.snoc (.pipeline rfl (@PipelineStep.flush _ _ _ true true rfl fun _ => rfl))
  have h24 := h23.snoc .stop
  have hlater := h24.snoc (@StreamStep.boot _ _ _ (.streamOnly 9) rfl)
  obtain ⟨⟨hkept, -⟩, -⟩ := checkpoint_covers_finalized_chain twoRowChain hrun hlater (f := 1) rfl
  have hcovers :=
    (checkpoint_covers_finalized_chain twoRowChain (hrun.append hlater) .nil (f := 3) rfl).2
  refine ⟨_, _, _, _, hrun, hlater, rfl, rfl, hkept, ?_, by decide, ?_⟩
  · exact (hcovers 1 (by decide) (by decide)).resolve_left nofun 7 (by decide)
  · exact (hcovers 3 (by decide) (by decide)).resolve_left nofun 8 (by decide)

end PrivateChannels.Indexer
