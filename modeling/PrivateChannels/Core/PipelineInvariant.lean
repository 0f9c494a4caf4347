import PrivateChannels.Core.DedupRebuild
import PrivateChannels.Core.Pipeline

/-!
# What every run of the pipeline keeps

The hashes of the chain are those that left the window, the window, the queue to dedup and
the one being sent, in this order. The executor's messages are the admissions one after
another.
-/

namespace PrivateChannels.Core

open scoped List

section Messages

variable {bytes rows : SanitizedTransaction → ℕ} {byteCap rowCap : ℕ}

/-- The number is on the last message only. -/
def IsAdmission (number : Option ℕ) (messages : List ExecutedBatch) : Prop :=
  ∃ front last, messages = front ++ [last] ∧ (∀ message ∈ front, message.admission = none) ∧
    last.admission = number

theorem executedBatches_isAdmission (transactions : List SanitizedTransaction)
    (admission : Option ℕ) :
    IsAdmission admission (executedBatches bytes rows byteCap rowCap transactions admission) := by
  obtain ⟨front, last, hmessages, hlast, hfront⟩ :=
    (@Chunking.sendResultsChunked_delivers _ _ ⟨fun _ => bytes, rows, byteCap, rowCap⟩
      transactions transactions 0 admission rfl).admission
  rw [executedBatches, hmessages, List.map_append]
  exact ⟨_, _, rfl, List.forall_mem_map.mpr hfront, hlast⟩

theorem executedBatches_transactions (transactions : List SanitizedTransaction)
    (admission : Option ℕ) :
    (executedBatches bytes rows byteCap rowCap transactions admission).flatMap
      (·.transactions) = transactions := by
  rw [executedBatches, List.flatMap_map]
  exact (Chunking.sendResultsChunked_delivers rfl).transactions

variable {messages front : List ExecutedBatch}

theorem IsAdmission.append {number : Option ℕ}
    (h : IsAdmission number messages) (hfront : ∀ message ∈ front, message.admission = none) :
    IsAdmission number (front ++ messages) := by
  obtain ⟨init, last, rfl, hinit, hlast⟩ := h
  refine ⟨front ++ init, last, by rw [List.append_assoc], fun message hm => ?_, hlast⟩
  exact (List.mem_append.mp hm).elim (hfront message) (hinit message)

theorem IsAdmission.untagged (h : IsAdmission none messages) :
    ∀ message ∈ messages, message.admission = none := by
  obtain ⟨front, last, rfl, hfront, hlast⟩ := h
  exact forall_mem_snoc hfront hlast

/-- The messages of one batch. -/
theorem batchMessages_isAdmission {admin regular : List SanitizedTransaction} (admission : Option ℕ)
    (hsome : admin ++ regular ≠ []) :
    IsAdmission admission (batchMessages bytes rows byteCap rowCap admin regular admission) := by
  unfold batchMessages
  by_cases hregular : regular = []
  · have hadmin : admin ≠ [] := by
      rintro rfl
      exact hsome (by simp [hregular])
    rw [if_neg hadmin, if_pos hregular, if_pos hregular, List.append_nil]
    exact executedBatches_isAdmission admin admission
  · rw [if_neg hregular, if_neg hregular]
    refine (executedBatches_isAdmission regular admission).append fun message hm => ?_
    split at hm
    · cases hm
    · exact (executedBatches_isAdmission admin none).untagged message hm

theorem batchMessages_transactions (admin regular : List SanitizedTransaction)
    (admission : Option ℕ) :
    (batchMessages bytes rows byteCap rowCap admin regular admission).flatMap (·.transactions) =
      admin ++ regular := by
  unfold batchMessages
  rw [List.flatMap_append]
  congr 1
  · split
    · next hnil => rw [hnil]; rfl
    · exact executedBatches_transactions admin _
  · split
    · next hnil => rw [hnil]; rfl
    · exact executedBatches_transactions regular admission

/-- The transactions of one final check, in the order they are sent. -/
def checkedTransactions (config : PipelineConfig) (live : List Hash)
    (transactions oversized : List SanitizedTransaction) : List SanitizedTransaction :=
  (retainLive transactions live).filter config.isAdmin ++
    (((retainLive transactions live).filter fun tx => !config.isAdmin tx) ++
      retainLive oversized live)

variable {config : PipelineConfig}

variable {transactions oversized : List SanitizedTransaction} {live : List Hash}
  {progress progress' : BlockhashProgress}

theorem mem_checkedTransactions {tx : SanitizedTransaction} :
    tx ∈ checkedTransactions config live transactions oversized ↔
      tx ∈ transactions ++ oversized ∧ tx.recentBlockhash ∈ live := by
  cases hadmin : config.isAdmin tx <;> simp [checkedTransactions, retainLive, hadmin, or_and_right]

theorem checkedTransactions_eq_nil :
    checkedTransactions config live transactions oversized = [] ↔
      ∀ tx ∈ transactions ++ oversized, tx.recentBlockhash ∉ live := by
  simp only [List.eq_nil_iff_forall_not_mem, mem_checkedTransactions, not_and]

/-- The final check hands out the next number exactly when it sends something. -/
theorem snapshotAndAdmit_messages {admission : Option ℕ}
    (h : snapshotAndAdmit live transactions oversized progress = (admission, progress')) :
    (checkedTransactions config live transactions oversized = [] ∧ admission = none ∧
      progress' = progress) ∨
    (checkedTransactions config live transactions oversized ≠ [] ∧
      admission = some (progress.admissions + 1) ∧
      progress' = { progress with admissions := progress.admissions + 1 }) := by
  unfold snapshotAndAdmit at h
  dsimp only at h
  split at h
  · next hadmits =>
    cases h
    refine .inr ⟨fun hnil => ?_, rfl, rfl⟩
    simp only [List.any_eq_true, decide_eq_true_eq] at hadmits
    obtain ⟨tx, hm, hlive⟩ := hadmits
    exact checkedTransactions_eq_nil.mp hnil tx hm hlive
  · next hnone =>
    cases h
    refine .inl ⟨checkedTransactions_eq_nil.mpr fun tx hm hlive => hnone ?_, rfl, rfl⟩
    simp only [List.any_eq_true, decide_eq_true_eq]
    exact ⟨tx, hm, hlive⟩

/-- The messages of all admissions so far, one list each. -/
def Numbered (batches : List (List ExecutedBatch)) : Prop :=
  ∀ k (hk : k < batches.length), IsAdmission (some (k + 1)) batches[k]

variable {batches : List (List ExecutedBatch)}

theorem numbered_snoc :
    Numbered (batches ++ [messages]) ↔
      Numbered batches ∧ IsAdmission (some (batches.length + 1)) messages := by
  simp only [Numbered, List.length_append, List.length_singleton, Nat.forall_lt_succ_right']
  refine and_congr (forall₂_congr fun k hk => ?_) ?_
  · rw [List.getElem_append_left hk]
  · rw [List.getElem_append_right le_rfl]
    simp

theorem IsAdmission.tags {number : Option ℕ}
    (h : IsAdmission number messages) : messages.filterMap (·.admission) = number.toList := by
  obtain ⟨front, last, rfl, hfront, rfl⟩ := h
  have hnil : front.filterMap (·.admission) = [] := by
    rw [List.filterMap_eq_nil_iff]
    exact hfront
  rw [List.filterMap_append, hnil, List.nil_append]
  cases hlast : last.admission <;> simp [hlast]

theorem Numbered.tags (h : Numbered batches) :
    batches.flatten.filterMap (·.admission) = List.range' 1 batches.length := by
  induction batches using List.reverseRecOn with
  | nil => rfl
  | append_singleton batches messages ih =>
    obtain ⟨hfront, hlast⟩ := numbered_snoc.mp h
    rw [List.flatten_append, List.filterMap_append, ih hfront, List.flatten_singleton, hlast.tags,
      List.length_append, List.length_singleton, List.range'_concat]
    simp [Nat.add_comm]

theorem Numbered.take (h : Numbered batches) (n : ℕ) : Numbered (batches.take n) := by
  intro k hk
  rw [List.getElem_take]
  exact h k (by rw [List.length_take] at hk; omega)

/-- The last message carries the newest number. -/
theorem Numbered.last (h : Numbered batches)
    {last : ExecutedBatch} (hlast : batches.flatten = front ++ [last]) :
    last.admission = some batches.length := by
  rcases List.eq_nil_or_concat batches with rfl | ⟨init, batch, rfl⟩
  · simp at hlast
  · rw [List.concat_eq_append] at h hlast ⊢
    obtain ⟨-, before, final, rfl, _, hfinal⟩ := numbered_snoc.mp h
    rw [List.flatten_append, List.flatten_singleton, ← List.append_assoc] at hlast
    obtain ⟨_, heq⟩ := List.append_inj' hlast rfl
    obtain rfl : final = last := by simpa using heq
    rw [hfinal, List.length_append, List.length_singleton]

end Messages

/-- The hash that is committed and not yet in the queue to dedup. -/
def SettlePhase.unpublished : SettlePhase → List Hash
  | .publishing blockhash => [blockhash]
  | _ => []

/-- One between the retire step and the commit. -/
def SettlePhase.announced : SettlePhase → ℕ
  | .collecting _ => 1
  | .cutting => 1
  | _ => 0

/-- Messages that are not received yet, oldest first. -/
def Process.outstanding (p : Process) : List ExecutedBatch := p.results ++ p.executor.unsent

/-- The window is a run of the chain that the queue continues. -/
structure WindowOk (chain : List BlockInfo) (p : Process) (gone rest : List Hash) : Prop where
  hashes : chain.map (·.blockhash) = gone ++ p.live ++ p.channel ++ rest
  unpublished : p.settler.phase ≠ .stopped → rest = p.settler.phase.unpublished
  counted : p.settler.phase ≠ .stopped → p.progress.announced =
    p.progress.ingested + p.channel.length + rest.length + p.settler.phase.announced
  height : p.settler.phase ≠ .stopped →
    p.settler.lastBlock.elim 0 (·.blockHeight + 1) = chain.length

/-- The messages so far are those of the admissions so far. -/
structure MessagesOk (p : Process) (batches : List (List ExecutedBatch)) : Prop where
  numbered : Numbered batches
  count : batches.length = p.progress.admissions
  messages : p.settler.received ++ p.outstanding = batches.flatten
  through : p.settler.receivedThrough = (p.settler.received.filterMap (·.admission)).length

/-- What every process keeps. -/
structure ProcessOk (chain : List BlockInfo) (p : Process) : Prop where
  window : ∃ gone rest, WindowOk chain p gone rest
  messages : ∃ batches, MessagesOk p batches

/-- What every node keeps. -/
structure NodeOk (s : Node) : Prop where
  ledger : LedgerOk s.chain s.stored s.durableHeight
  distinct : (s.chain.map (·.blockhash)).Nodup
  process : ∀ p, s.process = some p → ProcessOk s.chain p

namespace MessagesOk

variable {p : Process} {batches : List (List ExecutedBatch)}

/-- The numbers still to be received follow the last one that was. -/
theorem outstanding_tags (h : MessagesOk p batches) :
    p.outstanding.filterMap (·.admission) =
      List.range' (p.settler.receivedThrough + 1)
        (p.progress.admissions - p.settler.receivedThrough) := by
  have htags := h.numbered.tags
  rw [← h.messages, List.filterMap_append, h.count] at htags
  have hlen := congrArg List.length htags
  have hdrop := congrArg (List.drop p.settler.receivedThrough) htags
  rw [List.drop_left' h.through.symm, List.drop_range', Nat.mul_one, Nat.add_comm] at hdrop
  exact hdrop

/-- The number on the next message is the next one. -/
theorem next_tag (h : MessagesOk p batches) {message : ExecutedBatch}
    {outstanding : List ExecutedBatch} (hnext : p.outstanding = message :: outstanding) {n : ℕ}
    (hn : message.admission = some n) : n = p.settler.receivedThrough + 1 := by
  have htags := h.outstanding_tags
  rw [hnext, List.filterMap_cons_some hn] at htags
  cases hk : p.progress.admissions - p.settler.receivedThrough with
  | zero =>
    rw [hk] at htags
    cases htags
  | succ k =>
    rw [hk, List.range'_succ] at htags
    exact (List.cons.inj htags).1

/-- What is outstanding ends with the newest number. -/
theorem outstanding_last (h : MessagesOk p batches)
    {last : ExecutedBatch} (hlast : p.outstanding = front ++ [last]) :
    last.admission = some p.progress.admissions := by
  have hmessages := h.messages
  rw [hlast, ← List.append_assoc] at hmessages
  rw [h.numbered.last hmessages.symm, h.count]

/-- Once a number is received, so are all messages up to it. -/
theorem received_of_le (h : MessagesOk p batches) {n : ℕ}
    (hn : n ≤ p.settler.receivedThrough) : (batches.take n).flatten <+: p.settler.received := by
  have htake : (batches.take n).flatten <+: batches.flatten := by
    refine ⟨(batches.drop n).flatten, ?_⟩
    rw [← List.flatten_append, List.take_append_drop]
  have hreceived : p.settler.received <+: batches.flatten := ⟨p.outstanding, h.messages⟩
  rcases List.prefix_or_prefix_of_prefix htake hreceived with hle | ⟨more, hmore⟩
  · exact hle
  rcases List.eq_nil_or_concat more with rfl | ⟨init, last, rfl⟩
  · rw [List.append_nil] at hmore
    exact hmore ▸ List.prefix_rfl
  exfalso
  have hnumbered := h.numbered.take n
  have htags := congrArg List.length hnumbered.tags
  rw [List.concat_eq_append, ← List.append_assoc] at hmore
  have hlast := hnumbered.last hmore.symm
  rw [← hmore] at htags
  simp only [List.filterMap_append, List.filterMap_cons_some hlast, List.filterMap_nil,
    List.length_append, List.length_range', List.length_take, List.length_singleton, ← h.through]
    at htags
  omega

end MessagesOk

/-- Dedup appends the queue and drops from the front down to its window. -/
theorem ingestBlockhashes_eq {hashes live live' : List Hash} {cache cache' : DedupCache}
    {maxBlockhashes : ℕ} {progress progress' : BlockhashProgress}
    (h : ingestBlockhashes hashes live cache maxBlockhashes progress = (live', cache', progress')) :
    ∃ k ≤ (live ++ hashes).length - maxBlockhashes, live' = (live ++ hashes).drop k ∧
      progress' = { progress with ingested := progress.ingested + hashes.length } ∧
      ((live ++ hashes).Nodup → ∀ blockhash ∈ live', cache' blockhash = cache blockhash) := by
  cases hashes with
  | nil =>
    obtain ⟨rfl, rfl, rfl⟩ := h
    exact ⟨0, Nat.zero_le _, by simp, by simp, fun _ _ _ => rfl⟩
  | cons first hashes =>
    obtain ⟨rfl, rfl, rfl⟩ := h
    refine ⟨_, le_rfl, rfl, rfl, fun hnodup blockhash hin => ?_⟩
    have hkept := List.disjoint_take_drop hnodup (le_refl
      ((live ++ first :: hashes).length - maxBlockhashes))
    dsimp only
    rw [if_pos hin, if_neg fun hout => hkept hout hin]

theorem retireExpiringBlockhashes_eq {live live' : List Hash} {maxBlockhashes popped admissions : ℕ}
    {progress progress' : BlockhashProgress}
    (h : retireExpiringBlockhashes live maxBlockhashes progress =
      (live', progress', popped, admissions)) :
    live' = live.drop popped ∧ progress' = { progress with announced := progress.announced + 1 } ∧
      popped = min live.length
        (live.length + (progress.announced + 1 - progress.ingested) - maxBlockhashes) ∧
      admissions = progress.admissions := by
  obtain ⟨rfl, rfl, rfl, rfl⟩ := h
  exact ⟨rfl, rfl, rfl, rfl⟩

section Steps

variable {config : PipelineConfig} {chain : List BlockInfo} {p p' : Process}
  {label : PipelineLabel} {gone rest : List Hash}

/-- Every step keeps the hashes in order. -/
theorem WindowOk.step (h : WindowOk chain p gone rest) (hstep : ProcessStep config p label p') :
    ∃ gone' rest', WindowOk chain p' gone' rest' := by
  cases hstep with
  | ingest hingest =>
    obtain ⟨k, _, rfl, rfl, _⟩ := ingestBlockhashes_eq hingest
    refine ⟨gone ++ (p.live ++ p.channel).take k, rest, ?_, h.unpublished, fun hup => ?_, h.height⟩
    · rw [h.hashes, List.append_nil, List.append_assoc gone (List.take _ _), List.take_append_drop,
        ← List.append_assoc gone]
    · have hcounted := h.counted hup
      omega
  | admission _ _ hadmission =>
    rcases @snapshotAndAdmit_messages config _ _ _ _ _ _ hadmission with
      ⟨_, _, rfl⟩ | ⟨_, _, rfl⟩
    · exact ⟨gone, rest, h.hashes, h.unpublished, h.counted, h.height⟩
    · exact ⟨gone, rest, h.hashes, h.unpublished, h.counted, h.height⟩
  | @retire live progress popped admissions hwaiting hretire =>
    obtain ⟨rfl, rfl, _, rfl⟩ := retireExpiringBlockhashes_eq hretire
    have hup : p.settler.phase ≠ .stopped := by simp [hwaiting]
    refine ⟨gone ++ p.live.take popped, rest, ?_, fun _ => ?_, fun _ => ?_, fun _ => h.height hup⟩
    · rw [h.hashes, List.append_assoc gone (List.take _ _), List.take_append_drop]
    · rw [h.unpublished hup, hwaiting]
      split <;> rfl
    · have hcounted := h.counted hup
      rw [hwaiting] at hcounted
      have hone : (if popped > 0 then SettlePhase.collecting p.progress.admissions
          else SettlePhase.cutting).announced = 1 := by split <;> rfl
      simp only [SettlePhase.announced] at hcounted
      simp only [hone]
      omega
  | collected hphase _ =>
    have hup : p.settler.phase ≠ .stopped := by simp [hphase]
    refine ⟨gone, rest, h.hashes, fun _ => ?_, fun _ => ?_, fun _ => h.height hup⟩
    · rw [h.unpublished hup, hphase]
      rfl
    · rw [h.counted hup, hphase]
      rfl
  | publish hphase _ =>
    have hup : p.settler.phase ≠ .stopped := by simp [hphase]
    have hrest := h.unpublished hup
    rw [hphase, SettlePhase.unpublished] at hrest
    have hcounted := h.counted hup
    rw [hphase] at hcounted
    refine ⟨gone, [], ?_, fun _ => rfl, fun _ => ?_, fun _ => h.height hup⟩
    · rw [h.hashes, hrest, List.append_nil, List.append_assoc _ p.channel]
    · rw [hcounted, hrest]
      simp [SettlePhase.announced]
      omega
  | halt => exact ⟨gone, rest, h.hashes, fun hup => absurd rfl hup, fun hup => absurd rfl hup,
      fun hup => absurd rfl hup⟩
  | _ => exact ⟨gone, rest, h.hashes, h.unpublished, h.counted, h.height⟩

theorem Executor.unsent_resume (live : List Hash) (deferred : List SanitizedTransaction) :
    (Executor.resume live deferred).unsent = [] := by
  unfold Executor.resume
  split <;> rfl

theorem MessagesOk.of_eq (h : MessagesOk p batches)
    (hadmissions : p'.progress.admissions = p.progress.admissions)
    (hout : p'.outstanding = p.outstanding) (hreceived : p'.settler.received = p.settler.received)
    (hthrough : p'.settler.receivedThrough = p.settler.receivedThrough) : MessagesOk p' batches :=
  ⟨h.numbered, by rw [h.count, hadmissions], by rw [hreceived, hout, h.messages],
    by rw [hthrough, h.through, hreceived]⟩

/-- The settler receives a message. -/
theorem MessagesOk.receive (h : MessagesOk p batches) {message : ExecutedBatch}
    {results : List ExecutedBatch} (hresults : p.results = message :: results) :
    MessagesOk { p with results := results, settler := p.settler.bufferBatch message } batches := by
  have hnext : p.outstanding = message :: (results ++ p.executor.unsent) := by
    rw [Process.outstanding, hresults, List.cons_append]
  refine ⟨h.numbered, h.count, ?_, ?_⟩
  · rw [← h.messages, hnext]
    simp [Settler.bufferBatch, Process.outstanding]
  · dsimp only [Settler.bufferBatch]
    rw [List.filterMap_append, List.length_append, ← h.through]
    cases hn : message.admission with
    | none => simp [hn]
    | some n =>
      have heq := h.next_tag hnext hn
      simp only [List.filterMap_cons_some hn, List.filterMap_nil, List.length_singleton]
      omega

/-- Every step keeps the messages in order. -/
theorem MessagesOk.step (h : MessagesOk p batches)
    (hstep : ProcessStep config p label p') : ∃ batches', MessagesOk p' batches' := by
  cases hstep with
  | ingest hingest =>
    obtain ⟨_, _, _, rfl, _⟩ := ingestBlockhashes_eq hingest
    exact ⟨batches, h.of_eq rfl rfl rfl rfl⟩
  | take hidle _ =>
    refine ⟨batches, h.of_eq rfl ?_ rfl rfl⟩
    simp [Process.outstanding, hidle, Executor.unsent]
  | @admission batch transactions oversized deferred bytes rows byteCap rowCap admission progress
      hloading _ hadmission =>
    have hout : p.outstanding = p.results := by
      simp [Process.outstanding, hloading, Executor.unsent]
    rcases @snapshotAndAdmit_messages config _ _ _ _ _ _ hadmission with
      ⟨hnil, rfl, rfl⟩ | ⟨hsome, rfl, rfl⟩
    · refine ⟨batches, h.of_eq rfl ?_ rfl rfl⟩
      obtain ⟨hadmin, hregular⟩ := List.append_eq_nil_iff.mp hnil
      simp [Process.outstanding, Executor.unsent, hadmin, hregular, hloading, batchMessages]
    · have hnew := @batchMessages_isAdmission bytes rows byteCap rowCap _ _
        (some (p.progress.admissions + 1)) hsome
      rw [← h.count] at hnew
      refine ⟨batches ++ [_], numbered_snoc.mpr ⟨h.numbered, hnew⟩, ?_, ?_, h.through⟩
      · rw [List.length_append, h.count, List.length_singleton]
      · rw [List.flatten_append, ← h.messages, hout, List.flatten_singleton, List.append_assoc,
          h.count]
        rfl
  | send hsending =>
    refine ⟨batches, h.of_eq rfl ?_ rfl rfl⟩
    simp [Process.outstanding, hsending, Executor.unsent]
  | resume hsending =>
    refine ⟨batches, h.of_eq rfl ?_ rfl rfl⟩
    rw [Process.outstanding, Process.outstanding, hsending, Executor.unsent_resume]
    rfl
  | stop hunsent =>
    refine ⟨batches, h.of_eq rfl ?_ rfl rfl⟩
    rw [Process.outstanding, Process.outstanding, hunsent]
    rfl
  | receive hresults _ => exact ⟨batches, h.receive hresults⟩
  | retire _ hretire =>
    obtain ⟨_, rfl, _, _⟩ := retireExpiringBlockhashes_eq hretire
    exact ⟨batches, h.of_eq rfl rfl rfl rfl⟩
  | _ => exact ⟨batches, h.of_eq rfl rfl rfl rfl⟩

theorem ProcessOk.step (h : ProcessOk chain p) (hstep : ProcessStep config p label p') :
    ProcessOk chain p' := by
  obtain ⟨gone, rest, hwindow⟩ := h.window
  obtain ⟨batches, hmessages⟩ := h.messages
  exact ⟨hwindow.step hstep, hmessages.step hstep⟩

end Steps

section Ledger

variable {config : PipelineConfig} {s s' : Node} {p : Process} {label : PipelineLabel}

/-- The block that is cut has the next height. -/
theorem WindowOk.nextBlock_height {gone rest : List Hash} (h : WindowOk s.chain p gone rest)
    (hup : p.settler.phase ≠ .stopped) {nextSlot : ℕ} {computed : Hash} {blockTime : ℤ} :
    (nextBlock nextSlot p.settler.lastBlock computed blockTime p.settler.buffer).blockHeight =
      some s.chain.length := by
  rw [← h.height hup]
  rfl

/-- One more block. -/
theorem LedgerOk.snoc {chain stored : List BlockInfo} {durableHeight : Option ℕ}
    (h : LedgerOk chain stored durableHeight) {block : BlockInfo}
    (hheight : block.blockHeight = some chain.length) :
    LedgerOk (chain ++ [block]) (stored ++ [block]) block.blockHeight := by
  refine ⟨?_, ?_, h.stored.append (List.Sublist.refl _)⟩
  · rw [List.map_append, h.heights, List.map_singleton, hheight, List.length_append,
      List.length_singleton, List.range_succ, List.map_append, List.map_singleton]
  · rw [hheight, if_neg (by simp)]
    simp

/-- A block is committed. -/
theorem ProcessOk.commit {nextSlot : ℕ} {computed : Hash} {blockTime : ℤ} {block : BlockInfo}
    (h : ProcessOk s.chain p) (hphase : p.settler.phase = .cutting)
    (hblock : block = nextBlock nextSlot p.settler.lastBlock computed blockTime
      p.settler.buffer) :
    ProcessOk (s.chain ++ [block]) { p with
      settler := { p.settler with
        buffer := []
        lastBlock := some (.of block (block.blockHeight.getD 0))
        phase := .publishing block.blockhash } } := by
  obtain ⟨gone, rest, hwindow⟩ := h.window
  obtain ⟨batches, hmessages⟩ := h.messages
  have hup : p.settler.phase ≠ .stopped := by simp [hphase]
  have hrest : rest = [] := by
    rw [hwindow.unpublished hup, hphase]
    rfl
  have hcounted := hwindow.counted hup
  rw [hphase, hrest] at hcounted
  refine ⟨⟨gone, [block.blockhash], ?_, fun _ => rfl, fun _ => ?_, fun _ => ?_⟩, batches,
    hmessages.of_eq rfl rfl rfl rfl⟩
  · rw [List.map_append, hwindow.hashes, hrest, List.append_nil, List.map_singleton]
  · rw [hcounted]
    rfl
  · have hheight : block.blockHeight = some s.chain.length :=
      hblock ▸ hwindow.nextBlock_height hup
    simp [LastBlock.of, hheight]

/-- A load that succeeds over a written ledger finds a row. -/
theorem loadDedupState_stored {stored : List BlockInfo} {height limit : ℕ} {state : DedupState}
    (h : loadDedupState stored (some height) limit = .ok state) : stored ≠ [] := by
  rintro rfl
  simp [loadDedupState, getLastBlocks, verifiedDedupTail, bind, Except.bind] at h

/-- A restart rebuilds a sound process. -/
theorem NodeOk.boot (h : NodeOk s) {state : DedupState}
    (hload : loadDedupState s.stored s.durableHeight config.maxBlockhashes = .ok state) :
    ProcessOk s.chain (.boot s.stored s.durableHeight state) := by
  obtain ⟨live, cache⟩ := state
  obtain ⟨front, tail, hchain, hlive, _, _⟩ := h.ledger.loadDedupState_ok hload
  refine ⟨⟨front.map (·.blockhash), [], ?_, fun _ => rfl, fun _ => rfl, fun _ => ?_⟩,
    [], nofun, rfl, rfl, rfl⟩
  · simp [Process.boot, hchain, hlive]
  · have hdurable := h.ledger.durable
    by_cases hnil : s.chain = []
    · have hstored : s.stored = [] := List.sublist_nil.mp (hnil ▸ h.ledger.stored)
      simp [Process.boot, hstored, hnil]
    · rw [if_neg hnil] at hdurable
      rw [hdurable] at hload
      have hpos := List.length_pos_iff.mpr hnil
      obtain ⟨tip, htip⟩ : ∃ tip, s.stored.getLast? = some tip :=
        ⟨_, List.getLast?_eq_some_getLast (loadDedupState_stored hload)⟩
      simp only [Process.boot, htip, hdurable, LastBlock.of, Option.map_some, Option.elim_some,
        Option.getD_some]
      omega

theorem NodeOk.fresh : NodeOk Node.fresh :=
  ⟨⟨rfl, rfl, List.Sublist.refl _⟩, List.nodup_nil, nofun⟩

/-- Every step keeps a node sound. -/
theorem NodeOk.step (h : NodeOk s) (hstep : PipelineStep config s label s') : NodeOk s' := by
  cases hstep with
  | running hup hstep =>
    refine ⟨h.ledger, h.distinct, fun q hq => ?_⟩
    cases hq
    exact (h.process _ hup).step hstep
  | commit hup hphase hblock hdistinct =>
    have hok := h.process _ hup
    obtain ⟨gone, rest, hwindow⟩ := hok.window
    have hheight := hblock ▸ hwindow.nextBlock_height (by simp [hphase])
    refine ⟨h.ledger.snoc hheight, ?_, fun q hq => ?_⟩
    · rw [List.map_append, List.map_singleton, List.nodup_append_comm, List.singleton_append]
      exact List.nodup_cons.mpr ⟨hdistinct, h.distinct⟩
    · cases hq
      exact hok.commit hphase hblock
  | crash => exact ⟨h.ledger, h.distinct, nofun⟩
  | prune hsub => exact ⟨⟨h.ledger.heights, h.ledger.durable, hsub.trans h.ledger.stored⟩,
      h.distinct, h.process⟩
  | boot _ _ hload =>
    refine ⟨h.ledger, h.distinct, fun q hq => ?_⟩
    cases hq
    exact h.boot hload

end Ledger

end PrivateChannels.Core
