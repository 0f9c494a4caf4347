import PrivateChannels.Core.PipelineInvariant

/-!
# No message is committed twice

Hashes enter the window once, so while a message's hash is in the window its note is in
the cache; and a rebuilt window holds every block after the one the message names.
-/

namespace PrivateChannels.Core

open scoped List

/-- Forwarded and neither dropped nor committed. -/
def Process.inFlight (p : Process) : Multiset SanitizedTransaction :=
  p.transit + p.executor.held + (p.outstanding.flatMap (·.transactions) : List _) +
    p.settler.buffer

/-- Forwarded and not in a block. -/
def Node.inFlight (s : Node) : Multiset SanitizedTransaction := s.process.elim 0 (·.inFlight)

/-- The messages of the chain. -/
def Node.committed (s : Node) : List Hash := s.chain.flatMap (·.transactionMessageHashes)

/-- The messages in flight and on the chain. -/
def Node.messages (s : Node) : Multiset Hash :=
  s.committed + s.inFlight.map (·.messageHash)

section InFlight

variable {config : PipelineConfig} {p p' : Process} {label : PipelineLabel}

theorem retainLive_le (transactions : List SanitizedTransaction) (live : List Hash) :
    (retainLive transactions live : Multiset SanitizedTransaction) ≤ transactions :=
  Multiset.coe_le.mpr List.filter_sublist.subperm

theorem checkedTransactions_le (live : List Hash)
    (transactions oversized : List SanitizedTransaction) :
    (checkedTransactions config live transactions oversized : Multiset SanitizedTransaction) ≤
      transactions + oversized := by
  have hsplit : checkedTransactions config live transactions oversized ~
      retainLive transactions live ++ retainLive oversized live := by
    rw [checkedTransactions, ← List.append_assoc]
    exact (List.filter_append_perm _ _).append_right _
  rw [Multiset.coe_eq_coe.mpr hsplit, ← Multiset.coe_add]
  exact add_le_add (retainLive_le _ _) (retainLive_le _ _)

theorem Executor.held_resume_le (live : List Hash) (deferred : List SanitizedTransaction) :
    ((Executor.resume live deferred).held : Multiset SanitizedTransaction) ≤ deferred := by
  unfold Executor.resume
  split
  · exact Multiset.zero_le _
  · exact retainLive_le _ _

/-- Only dedup adds to what is in flight. -/
theorem ProcessStep.inFlight_le (hstep : ProcessStep config p label p')
    (hlabel : ∀ tx, label ≠ .forward tx) : p'.inFlight ≤ p.inFlight := by
  cases hstep with
  | forward _ _ _ => exact absurd rfl (hlabel _)
  | @take batch rest hidle htransit =>
    have hmoved : (rest : Multiset SanitizedTransaction) + retainLive batch p.live ≤ p.transit := by
      rw [Multiset.coe_eq_coe.mpr htransit, ← Multiset.coe_add, add_comm]
      exact add_le_add_left (retainLive_le _ _) _
    simp only [Process.inFlight, Process.outstanding, hidle, Executor.held, Executor.unsent,
      Multiset.coe_nil, add_zero]
    exact add_le_add_left (add_le_add_left hmoved _) _
  | @admission batch transactions oversized deferred bytes rows byteCap rowCap admission progress
      hloading hplan _ =>
    have hheld : (deferred : Multiset SanitizedTransaction) +
        checkedTransactions config p.live transactions oversized ≤ batch := by
      rw [Multiset.coe_eq_coe.mpr hplan, ← Multiset.coe_add, ← Multiset.coe_add, add_comm]
      exact add_le_add_left (checkedTransactions_le _ _ _) _
    simp only [Process.inFlight, Process.outstanding, hloading, Executor.held, Executor.unsent,
      List.flatMap_append, batchMessages_transactions, ← Multiset.coe_add, List.append_nil]
    have hsum := add_le_add_left (add_le_add_left (add_le_add_right hheld (p.transit : Multiset _))
      (p.results.flatMap (·.transactions) : List _)) (p.settler.buffer : Multiset _)
    refine le_trans (le_of_eq ?_) hsum
    rw [checkedTransactions, ← Multiset.coe_add, ← Multiset.coe_add]
    abel
  | send hsending =>
    refine le_of_eq ?_
    simp [Process.inFlight, Process.outstanding, hsending, Executor.held, Executor.unsent]
  | @resume deferred hsending =>
    simp only [Process.inFlight, Process.outstanding, hsending, Executor.unsent_resume]
    exact add_le_add_left (add_le_add_left (add_le_add_right
      (Executor.held_resume_le p.live deferred) _) _) _
  | stop hunsent =>
    simp only [Process.inFlight, Process.outstanding, hunsent]
    exact add_le_add_left (add_le_add_left (add_le_add_right (Multiset.zero_le _) _) _) _
  | @receive message results hresults _ =>
    refine le_of_eq ?_
    simp only [Process.inFlight, Process.outstanding, hresults, Settler.bufferBatch,
      List.cons_append, List.flatMap_cons, ← Multiset.coe_add]
    abel
  | halt => exact add_le_add_right (Multiset.zero_le _) _
  | _ => exact le_rfl

theorem Process.inFlight_forward (p : Process) (cache : DedupCache) (tx : SanitizedTransaction) :
    Process.inFlight { p with cache := cache, transit := p.transit ++ [tx] } =
      tx ::ₘ p.inFlight := by
  simp only [Process.inFlight, Process.outstanding, ← Multiset.coe_add, Multiset.coe_singleton,
    ← Multiset.singleton_add]
  abel

end InFlight

/-- A hash that was in the window at some time. -/
structure Entered (chain : List BlockInfo) (p : Process) (blockhash : Hash) : Prop where
  settled : blockhash ∈ chain.map (·.blockhash)
  ingested : blockhash ∉ p.channel
  published : blockhash ∉ p.settler.phase.unpublished

/-- The message's hash does not enter the window again, and while it is in it the message is
noted. -/
structure Noted (config : PipelineConfig) (chain : List BlockInfo) (p : Process)
    (message : Hash) : Prop where
  entered : Entered chain p (config.recent message)
  noted : config.recent message ∈ p.live → message ∈ p.cache (config.recent message)

/-- The messages of a block name blocks before it. -/
def BlocksNamed (config : PipelineConfig) (chain : List BlockInfo) : Prop :=
  ∀ front block back, chain = front ++ block :: back → ∀ message ∈ block.transactionMessageHashes,
    (message, config.recent message) ∈ block.messages ∧
      config.recent message ∈ front.map (·.blockhash)

/-- No message twice, in blocks or in flight. -/
structure ReplayInv (config : PipelineConfig) (s : Node) : Prop where
  once : s.messages.Nodup
  named : BlocksNamed config s.chain
  hashed : ∀ tx ∈ s.inFlight, tx.recentBlockhash = config.recent tx.messageHash
  noted : ∀ p, s.process = some p → ∀ message ∈ s.messages, Noted config s.chain p message

section Steps

variable {config : PipelineConfig} {s s' : Node} {p p' : Process} {label : PipelineLabel}
  {message : Hash}

theorem Node.mem_committed :
    message ∈ s.committed ↔ ∃ block ∈ s.chain, message ∈ block.transactionMessageHashes :=
  List.mem_flatMap

/-- A hash of the window is not also on its way to it. -/
theorem NodeOk.entered (h : NodeOk s) (hup : s.process = some p) {blockhash : Hash}
    (hlive : blockhash ∈ p.live) : Entered s.chain p blockhash := by
  obtain ⟨gone, rest, hwindow⟩ := (h.process p hup).window
  have hnodup := h.distinct
  rw [hwindow.hashes, List.append_assoc, List.append_assoc, List.nodup_append] at hnodup
  have hdisjoint := List.nodup_append.mp hnodup.2.1
  refine ⟨?_, fun hin => ?_, fun hin => ?_⟩
  · rw [hwindow.hashes]
    simp [hlive]
  · exact hdisjoint.2.2 _ hlive _ (List.mem_append_left _ hin) rfl
  · have hrunning : p.settler.phase ≠ .stopped := by
      intro hstopped
      rw [hstopped] at hin
      cases hin
    rw [← hwindow.unpublished hrunning] at hin
    exact hdisjoint.2.2 _ hlive _ (List.mem_append_right _ hin) rfl

theorem Noted.of_eq (h : Noted config s.chain p message)
    (hlive : p'.live ⊆ p.live) (hcache : p'.cache = p.cache) (hchannel : p'.channel = p.channel)
    (hphase : p'.settler.phase.unpublished ⊆ p.settler.phase.unpublished) :
    Noted config s.chain p' message :=
  ⟨⟨h.entered.settled, hchannel ▸ h.entered.ingested, fun hin => h.entered.published (hphase hin)⟩,
    fun hin => hcache ▸ h.noted (hlive hin)⟩

/-- No step forgets a message while its hash is in the window. -/
theorem Noted.step (h : NodeOk s) (hup : s.process = some p)
    (hnoted : Noted config s.chain p message) (hstep : ProcessStep config p label p') :
    Noted config s.chain p' message := by
  cases hstep with
  | @forward tx _ _ _ =>
    refine ⟨⟨hnoted.entered.settled, hnoted.entered.ingested, hnoted.entered.published⟩,
      fun hlive => ?_⟩
    have hold := hnoted.noted hlive
    by_cases hsame : config.recent message = tx.recentBlockhash
    · rw [hsame] at hold ⊢
      simp [hold]
    · simpa [hsame] using hold
  | ingest hingest =>
    obtain ⟨k, _, rfl, _, hcache⟩ := ingestBlockhashes_eq hingest
    obtain ⟨gone, rest, hwindow⟩ := (h.process p hup).window
    have hnodup : (p.live ++ p.channel).Nodup := by
      have hall := h.distinct
      rw [hwindow.hashes, List.append_assoc gone] at hall
      exact (List.nodup_append.mp (List.nodup_append.mp hall).1).2.1
    refine ⟨⟨hnoted.entered.settled, List.not_mem_nil, hnoted.entered.published⟩, fun hlive => ?_⟩
    have hin : config.recent message ∈ p.live :=
      (List.mem_append.mp (List.mem_of_mem_drop hlive)).resolve_right hnoted.entered.ingested
    dsimp only
    rw [hcache hnodup _ hlive]
    exact hnoted.noted hin
  | retire hwaiting hretire =>
    obtain ⟨rfl, _, _, _⟩ := retireExpiringBlockhashes_eq hretire
    refine hnoted.of_eq (List.drop_subset _ _) rfl rfl ?_
    split <;> exact List.nil_subset _
  | collected _ _ | halt => exact hnoted.of_eq (List.Subset.refl _) rfl rfl (List.nil_subset _)
  | publish hphase _ =>
    have hpublished := hnoted.entered.published
    rw [hphase] at hpublished
    refine ⟨⟨hnoted.entered.settled, fun hin => ?_, List.not_mem_nil⟩, hnoted.noted⟩
    exact (List.mem_append.mp hin).elim hnoted.entered.ingested hpublished
  | _ => exact hnoted.of_eq (List.Subset.refl _) rfl rfl (List.Subset.refl _)

theorem BlocksNamed.snoc {chain : List BlockInfo} {block : BlockInfo}
    (h : BlocksNamed config chain)
    (hnew : ∀ message ∈ block.transactionMessageHashes,
      (message, config.recent message) ∈ block.messages ∧
        config.recent message ∈ chain.map (·.blockhash)) :
    BlocksNamed config (chain ++ [block]) := by
  intro front other back heq
  obtain ⟨rfl, rfl⟩ | ⟨back, heq⟩ := snoc_eq_append_cons heq
  · exact hnew
  · exact h front other back heq

/-- What is committed was in flight. -/
theorem PipelineStep.commit_messages (hstep : PipelineStep config s .commit s') :
    s'.messages = s.messages := by
  cases hstep with
  | running _ hstep => cases hstep
  | @commit p _ _ _ block hup _ hblock _ =>
  have hcarried : block.transactionMessageHashes = p.settler.buffer.map (·.messageHash) := by
    rw [hblock]
    rfl
  simp only [Node.messages, Node.committed, Node.inFlight, hup, Option.elim_some,
    Process.inFlight, Process.outstanding, List.flatMap_append, List.flatMap_singleton, hcarried,
    Multiset.map_add, ← Multiset.coe_add, Multiset.map_coe, Multiset.coe_nil, Multiset.map_zero]
  abel

section

variable (h : ReplayInv config s)
include h

/-- A forwarded message is neither in flight nor committed. -/
theorem ReplayInv.new (hup : s.process = some p) {tx : SanitizedTransaction}
    (hstep : ProcessStep config p (.forward tx) p') : tx.messageHash ∉ s.messages := by
  cases hstep with
  | forward hmessage hlive hnew =>
    intro hin
    rw [hmessage] at hlive hnew
    exact hnew ((h.noted p hup _ hin).noted hlive)

/-- A step that forwards nothing. -/
theorem ReplayInv.running (hok : NodeOk s) (hup : s.process = some p)
    (hstep : ProcessStep config p label p') (hlabel : ∀ tx, label ≠ .forward tx) :
    ReplayInv config { s with process := some p' } := by
  have hle : Node.inFlight { s with process := some p' } ≤ s.inFlight := by
    rw [Node.inFlight, Node.inFlight, hup]
    exact hstep.inFlight_le hlabel
  have hmessages : Node.messages { s with process := some p' } ≤ s.messages :=
    add_le_add_right (Multiset.map_le_map hle) _
  refine ⟨Multiset.nodup_of_le hmessages h.once, h.named,
    fun tx htx => h.hashed tx (Multiset.mem_of_le hle htx), fun q hq message hm => ?_⟩
  cases hq
  have hold := h.noted p hup message (Multiset.mem_of_le hmessages hm)
  have hkept := hold.step hok hup hstep
  exact hkept

/-- A new message is forwarded. -/
theorem ReplayInv.forward (hok : NodeOk s) (hup : s.process = some p) {tx : SanitizedTransaction}
    (hstep : ProcessStep config p (.forward tx) p') :
    ReplayInv config { s with process := some p' } := by
  have hnew := h.new hup hstep
  have hkept : ∀ message ∈ s.messages, Noted config s.chain p' message :=
    fun message hm => (h.noted p hup message hm).step hok hup hstep
  have hflight : Node.inFlight { s with process := some p' } = tx ::ₘ s.inFlight := by
    cases hstep
    rw [Node.inFlight, Node.inFlight, hup]
    exact Process.inFlight_forward p _ tx
  have hmessages : Node.messages { s with process := some p' } = tx.messageHash ::ₘ s.messages := by
    rw [Node.messages, hflight, Multiset.map_cons, Multiset.add_cons]
    rfl
  cases hstep with
  | forward hmessage hlive _ =>
    refine ⟨?_, h.named, fun other hother => ?_, fun q hq message hm => ?_⟩
    · rw [hmessages]
      exact Multiset.nodup_cons.mpr ⟨hnew, h.once⟩
    · rw [hflight] at hother
      rcases Multiset.mem_cons.mp hother with rfl | hother
      · exact hmessage
      · exact h.hashed other hother
    · cases hq
      rw [hmessages] at hm
      rcases Multiset.mem_cons.mp hm with rfl | hm
      · have hentered := hok.entered hup hlive
        refine ⟨?_, fun _ => ?_⟩
        · rw [← hmessage]
          exact ⟨hentered.settled, hentered.ingested, hentered.published⟩
        · rw [← hmessage]
          simp
      · exact hkept message hm

/-- A block is committed. -/
theorem ReplayInv.commit (hstep : PipelineStep config s .commit s') : ReplayInv config s' := by
  have hmessages := hstep.commit_messages
  cases hstep with
  | running _ hstep => cases hstep
  | @commit p _ _ _ block hup _ hblock hdistinct =>
  have hbuffer : ∀ tx ∈ p.settler.buffer, tx ∈ s.inFlight := by
    intro tx htx
    rw [Node.inFlight, hup]
    exact Multiset.mem_add.mpr (.inr htx)
  refine ⟨hmessages ▸ h.once, h.named.snoc fun message hm => ?_, fun tx htx => ?_,
    fun q hq message hm => ?_⟩
  · rw [hblock] at hm
    obtain ⟨tx, htx, rfl⟩ := List.mem_map.mp hm
    have hmember : tx.messageHash ∈ s.messages :=
      Multiset.mem_add.mpr (.inr (Multiset.mem_map_of_mem _ (hbuffer tx htx)))
    refine ⟨?_, (h.noted p hup _ hmember).entered.settled⟩
    rw [← h.hashed tx (hbuffer tx htx), hblock]
    simp only [BlockInfo.messages, nextBlock, List.zip_map']
    exact List.mem_map_of_mem htx
  · refine h.hashed tx ?_
    rw [Node.inFlight, hup]
    simp only [Node.inFlight, Option.elim_some, Process.inFlight, Process.outstanding,
      Multiset.coe_nil, add_zero] at htx
    exact Multiset.mem_add.mpr (.inl htx)
  · cases hq
    rw [hmessages] at hm
    have hold := h.noted p hup message hm
    refine ⟨⟨?_, hold.entered.ingested, fun hin => ?_⟩, hold.noted⟩
    · rw [List.map_append]
      exact List.mem_append_left _ hold.entered.settled
    · have hsettled := hold.entered.settled
      rw [List.mem_singleton.mp hin] at hsettled
      exact hdistinct hsettled

/-- A block before the rebuilt window names only hashes before the window. -/
theorem ReplayInv.boot (hok : NodeOk s) (hstep : PipelineStep config s .boot s') :
    ReplayInv config s' := by
  cases hstep with
  | running _ hstep => cases hstep
  | @boot state hdown _ hload =>
  obtain ⟨live, cache⟩ := state
  obtain ⟨front, tail, hchain, rfl, _, hcache⟩ := hok.ledger.loadDedupState_ok hload
  have hmessages : Node.messages
      { s with process := some (.boot s.stored s.durableHeight (tail.map (·.blockhash), cache)) } =
        s.messages := by
    simp [Node.messages, Node.inFlight, hdown, Process.inFlight, Process.boot, Process.outstanding,
      Executor.held, Executor.unsent, Node.committed]
  refine ⟨hmessages ▸ h.once, h.named, fun tx htx => ?_, fun q hq message hm => ?_⟩
  · simp [Node.inFlight, Process.inFlight, Process.boot, Process.outstanding, Executor.held,
      Executor.unsent] at htx
  · cases hq
    rw [hmessages] at hm
    have hcommitted : message ∈ s.committed := by
      simpa [Node.messages, Node.inFlight, hdown] using hm
    obtain ⟨block, hblock, hcarried⟩ := Node.mem_committed.mp hcommitted
    obtain ⟨before, after, hsplit⟩ := List.append_of_mem hblock
    obtain ⟨hnamed, hearlier⟩ := h.named before block after hsplit message hcarried
    refine ⟨⟨?_, List.not_mem_nil, List.not_mem_nil⟩, fun hlive => ?_⟩
    · rw [hsplit, List.map_append]
      exact List.mem_append_left _ hearlier
    · refine hcache block ?_ message _ hnamed hlive
      rcases List.append_eq_append_iff.mp (hchain.symm.trans hsplit) with
        ⟨between, rfl, htail⟩ | ⟨between, rfl, hback⟩
      · rw [htail]
        exact List.mem_append_right _ List.mem_cons_self
      · cases between with
        | nil =>
          rw [List.nil_append] at hback
          exact hback ▸ List.mem_cons_self
        | cons other between =>
          have hnodup := hok.distinct
          rw [hchain, List.map_append, List.nodup_append] at hnodup
          refine absurd rfl (hnodup.2.2 _ ?_ _ hlive)
          rw [List.map_append]
          exact List.mem_append_left _ hearlier

/-- Every step keeps the invariant. -/
theorem ReplayInv.step (hok : NodeOk s) (hstep : PipelineStep config s label s') :
    ReplayInv config s' := by
  cases hstep with
  | running hup hstep =>
    by_cases hlabel : ∃ tx, label = .forward tx
    · obtain ⟨tx, rfl⟩ := hlabel
      exact h.forward hok hup hstep
    · exact h.running hok hup hstep fun tx heq => hlabel ⟨tx, heq⟩
  | commit hup hphase hblock hdistinct => exact h.commit (.commit hup hphase hblock hdistinct)
  | crash =>
    have hle : Node.messages { s with process := none } ≤ s.messages :=
      add_le_add_right (Multiset.map_le_map (Multiset.zero_le _)) _
    exact ⟨Multiset.nodup_of_le hle h.once, h.named, nofun, nofun⟩
  | prune _ => exact ⟨h.once, h.named, h.hashed, h.noted⟩
  | boot hdown hwindow hload => exact h.boot hok (.boot hdown hwindow hload)

end

theorem ReplayInv.fresh : ReplayInv config Node.fresh :=
  ⟨Multiset.nodup_zero, fun front block back heq => by simp [Node.fresh] at heq, nofun, nofun⟩

end Steps

/-- Over crashes, restarts and lost rows: a message is not forwarded while a copy is in flight
or in a block, and no two blocks hold it. -/
theorem message_committed_once (config : PipelineConfig) {labels : List PipelineLabel} {s : Node}
    (hrun : Run (PipelineStep config) Node.fresh labels s) :
    s.committed.Nodup ∧
      ∀ tx s', PipelineStep config s (.forward tx) s' →
        tx.messageHash ∉ s.committed ∧ tx.messageHash ∉ s.inFlight.map (·.messageHash) := by
  obtain ⟨_, hreplay⟩ := hrun.stateInvariant (P := fun s => NodeOk s ∧ ReplayInv config s)
    ⟨NodeOk.fresh, ReplayInv.fresh⟩ fun _ _ _ h hstep => ⟨h.1.step hstep, h.2.step h.1 hstep⟩
  refine ⟨(Multiset.nodup_add.mp hreplay.once).1, fun tx s' hstep => ?_⟩
  cases hstep with
  | running hup hstep =>
    have hnew := hreplay.new hup hstep
    exact ⟨fun hin => hnew (Multiset.mem_add.mpr (.inl hin)),
      fun hin => hnew (Multiset.mem_add.mpr (.inr hin))⟩

/-- A window of two blocks, and messages that name the first one. -/
def pairConfig : PipelineConfig := ⟨2, fun _ => 0, fun _ => false⟩

/-- A message on the first block. -/
def payment : SanitizedTransaction := ⟨7, 5, 0⟩

/-- The payment is committed, and the node restarts from the two blocks. -/
theorem payment_run : ∃ labels s, Run (PipelineStep pairConfig) Node.fresh labels s ∧
    s.committed = [5] ∧ s.process ≠ none := by
  have h0 : Run (PipelineStep pairConfig) Node.fresh [] Node.fresh := .nil
  have h1 := h0.snoc (@PipelineStep.boot pairConfig _ ([], fun _ => ∅) rfl (by decide) rfl)
  have h2 := h1.snoc (.running rfl (@ProcessStep.retire pairConfig _ [] ⟨1, 0, 0⟩ 0 0 rfl rfl))
  have h3 := h2.snoc (@PipelineStep.commit pairConfig _ _ 0 0 0 _ rfl rfl rfl (by decide))
  have h4 := h3.snoc (.running rfl (.publish rfl (by decide)))
  have h5 := h4.snoc (.running rfl (.ingest rfl))
  have h6 := h5.snoc (.running rfl (@ProcessStep.forward pairConfig _ payment rfl
    (by decide) (by decide)))
  have h7 := h6.snoc (.running rfl (@ProcessStep.take pairConfig _ [payment] [] rfl (.refl _)))
  have h8 := h7.snoc (.running rfl (@ProcessStep.admission pairConfig _ [payment] [payment] [] []
    (fun _ => 1) (fun _ => 1) 8 8 (some 1) ⟨1, 1, 1⟩ rfl (.refl _) rfl))
  have h9 := h8.snoc (.running rfl (.send rfl))
  have h10 := h9.snoc (.running rfl (.receive rfl (.inl rfl)))
  have h11 := h10.snoc (.running rfl (@ProcessStep.retire pairConfig _ [0] ⟨2, 1, 1⟩ 0 1 rfl rfl))
  have h12 := h11.snoc (@PipelineStep.commit pairConfig _ _ 1 3 0 _ rfl rfl rfl (by decide))
  have h13 := h12.snoc .crash
  have h14 := h13.snoc (@PipelineStep.boot pairConfig _ _ rfl (by decide) rfl)
  exact ⟨_, _, h14, rfl, nofun⟩

theorem message_committed_once_payment :
    ∃ labels s, Run (PipelineStep pairConfig) Node.fresh labels s ∧ s.process ≠ none ∧
      s.committed = [5] ∧ ∀ s', ¬ PipelineStep pairConfig s (.forward payment) s' := by
  obtain ⟨labels, s, hrun, hcommitted, hup⟩ := payment_run
  refine ⟨labels, s, hrun, hup, hcommitted, fun s' hstep => ?_⟩
  have hnew := ((message_committed_once pairConfig hrun).2 payment s' hstep).1
  exact hnew (hcommitted ▸ List.mem_singleton_self _)

end PrivateChannels.Core
