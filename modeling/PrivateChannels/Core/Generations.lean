import PrivateChannels.Core.BobEntries
import PrivateChannels.Core.PipelineInvariant

/-!
# Generations on the way to the settler

`execute_batch` takes a generation for each of its two paths, and `buffer_batch` asserts
that generations reach it in order. A regular path of oversized transactions only is left
at generation 0.
-/

namespace PrivateChannels.Core

open scoped List

/-- What `execute_batch` returns. -/
structure ExecutionResult where
  adminTransactions : List SanitizedTransaction
  regularTransactions : List SanitizedTransaction
  adminGeneration : ℕ
  regularGeneration : ℕ
  admission : Option ℕ

/-- `execute_batch` past its partition: a path that runs nothing stays at generation 0, and the
oversized transactions join the regular path. -/
def executeBatch (bob : Bob) (admin regular oversized : List SanitizedTransaction)
    (adminResults regularResults : List (MessageAccounts × TransactionProcessingResult))
    (admission : Option ℕ) : ExecutionResult × Bob :=
  let afterAdmin := if admin = [] then (bob, 0) else bob.updateAccounts adminResults
  let afterRegular :=
    if regular = [] then (afterAdmin.1, 0) else afterAdmin.1.updateAccounts regularResults
  ({ adminTransactions := admin
     regularTransactions := regular ++ oversized
     adminGeneration := afterAdmin.2
     regularGeneration := afterRegular.2
     admission := admission }, afterRegular.1)

/-- A message with the generation of its path. -/
structure StampedBatch where
  batch : ExecutedBatch
  generation : ℕ
  deriving DecidableEq, Repr

section Messages

variable (bytes rows : SanitizedTransaction → ℕ) (byteCap rowCap : ℕ) {history : List StreamLabel}

/-- The messages of one path. -/
def pathMessages (transactions : List SanitizedTransaction) (generation : ℕ)
    (admission : Option ℕ) : List StampedBatch :=
  if transactions = [] then []
  else (executedBatches bytes rows byteCap rowCap transactions admission).map (⟨·, generation⟩)

/-- What `process_batch` sends for one sub-batch. -/
def ExecutionResult.messages (result : ExecutionResult) : List StampedBatch :=
  pathMessages bytes rows byteCap rowCap result.adminTransactions result.adminGeneration
      (if result.regularTransactions = [] then result.admission else none) ++
    pathMessages bytes rows byteCap rowCap result.regularTransactions result.regularGeneration
      result.admission

end Messages

/-- BOB, the messages the executor owes, the queue, and the settler's buffer. `received` is
history, and `asserted` is whether `buffer_batch`'s assertion has held so far. -/
structure ResultStream where
  bob : Bob
  unsent : List StampedBatch
  queue : List StampedBatch
  received : List StampedBatch
  buffer : List (SanitizedTransaction × ℕ)
  asserted : Bool

namespace ResultStream

/-- A process that has just started: BOB has stamped nothing. -/
structure Fresh (s : ResultStream) : Prop where
  bob : s.bob.nextGeneration = 0
  unsent : s.unsent = []
  queue : s.queue = []
  received : s.received = []
  buffer : s.buffer = []
  asserted : s.asserted = true

/-- `buffer_batch` -/
def bufferBatch (s : ResultStream) (message : StampedBatch) : ResultStream :=
  { s with
    received := s.received ++ [message]
    buffer := s.buffer ++ message.batch.transactions.map (·, message.generation)
    asserted := s.asserted && s.buffer.getLast?.all (·.2 ≤ message.generation) }

/-- Every message of this process, in the order the settler gets them. -/
def sent (s : ResultStream) : List StampedBatch := s.received ++ s.queue ++ s.unsent

/-- Messages have reached `buffer_batch` in generation order, and it has noticed none
that did not. -/
structure InOrder (s : ResultStream) : Prop where
  received : (s.received.map (·.generation)).Pairwise (· ≤ ·)
  asserted : s.asserted = true

end ResultStream

/-- The steps of the result stream. -/
inductive StreamLabel where
  | execute (admin regular oversized : List SanitizedTransaction)
  | cache
  | send
  | receive
  | cut
  deriving DecidableEq, Repr

/-- One step of executor or settler. -/
inductive StreamStep : ResultStream → StreamLabel → ResultStream → Prop
  /-- The next sub-batch runs once the last one is sent; results, deferrals, chunk
  weights and caps are arbitrary. -/
  | execute {s : ResultStream} {admin regular oversized : List SanitizedTransaction}
      {adminResults regularResults : List (MessageAccounts × TransactionProcessingResult)}
      {admission : Option ℕ} {bytes rows : SanitizedTransaction → ℕ} {byteCap rowCap : ℕ}
      (hidle : s.unsent = []) :
      StreamStep s (.execute admin regular oversized)
        { s with
          bob := (executeBatch s.bob admin regular oversized adminResults regularResults
            admission).2
          unsent := (executeBatch s.bob admin regular oversized adminResults regularResults
            admission).1.messages bytes rows byteCap rowCap }
  /-- Loads, evictions and acknowledgements; only `update_accounts` counts generations. -/
  | cache {s : ResultStream} {bob : Bob} (hkept : bob.nextGeneration = s.bob.nextGeneration) :
      StreamStep s .cache { s with bob := bob }
  | send {s : ResultStream} {message : StampedBatch} {rest : List StampedBatch}
      (hnext : s.unsent = message :: rest) :
      StreamStep s .send { s with unsent := rest, queue := s.queue ++ [message] }
  | receive {s : ResultStream} {message : StampedBatch} {rest : List StampedBatch}
      (hnext : s.queue = message :: rest) :
      StreamStep s .receive { s.bufferBatch message with queue := rest }
  /-- A block takes the whole buffer. -/
  | cut {s : ResultStream} : StreamStep s .cut { s with buffer := [] }

/-- No oversized transactions alone come after a sub-batch that ran, or beside an admin path
that did. -/
def InputsInOrder (history : List StreamLabel) : Prop :=
  ∀ before admin regular oversized after,
    history = before ++ .execute admin regular oversized :: after →
    oversized = [] ∨ regular ≠ [] ∨ admin = [] ∧ ∀ admin' regular' oversized',
      .execute admin' regular' oversized' ∈ before → admin' = [] ∧ regular' = []

theorem updateAccounts_generation (bob : Bob)
    (batch : List (MessageAccounts × TransactionProcessingResult)) :
    (bob.updateAccounts batch).2 = bob.nextGeneration + 1 ∧
      (bob.updateAccounts batch).1.nextGeneration = bob.nextGeneration + 1 := by
  generalize hupdate : bob.updateAccounts batch = updated
  obtain ⟨bob', generation⟩ := updated
  obtain ⟨hgeneration, hnext, -, -⟩ := Bob.updateAccounts_spec hupdate
  exact ⟨hgeneration, hnext.trans hgeneration⟩

/-- Each path that runs takes the next generation. -/
theorem executeBatch_spec {bob bob' : Bob} {admin regular oversized : List SanitizedTransaction}
    {adminResults regularResults : List (MessageAccounts × TransactionProcessingResult)}
    {admission : Option ℕ} {result : ExecutionResult}
    (h : executeBatch bob admin regular oversized adminResults regularResults admission =
      (result, bob')) :
    result.adminTransactions = admin ∧ result.regularTransactions = regular ++ oversized ∧
      result.adminGeneration = (if admin = [] then 0 else bob.nextGeneration + 1) ∧
      result.regularGeneration = (if regular = [] then 0 else bob'.nextGeneration) ∧
      bob'.nextGeneration = bob.nextGeneration + (if admin = [] then 0 else 1) +
        if regular = [] then 0 else 1 := by
  cases h
  refine ⟨rfl, rfl, ?_, ?_, ?_⟩
  · dsimp only
    split
    · rfl
    · exact (updateAccounts_generation bob adminResults).1
  · dsimp only
    split
    · rfl
    · rw [(updateAccounts_generation _ regularResults).1,
        (updateAccounts_generation _ regularResults).2]
  · by_cases ha : admin = [] <;> by_cases hr : regular = [] <;>
      simp [ha, hr, updateAccounts_generation]

section Path

variable {bytes rows : SanitizedTransaction → ℕ} {byteCap rowCap : ℕ}
  {transactions : List SanitizedTransaction} {generation : ℕ} {admission : Option ℕ}

/-- A path with transactions sends at least one message, and all of them under its
generation. -/
theorem forall_pathMessages {P : ℕ → Prop} :
    (∀ sent ∈ (pathMessages bytes rows byteCap rowCap transactions generation admission).map
      (·.generation), P sent) ↔ (transactions ≠ [] → P generation) := by
  obtain ⟨front, last, hmessages, -, -⟩ :=
    @executedBatches_isAdmission bytes rows byteCap rowCap transactions admission
  rw [List.forall_mem_map, pathMessages]
  split
  · next hnil => simp [hnil]
  · next hne =>
    rw [List.forall_mem_map]
    exact ⟨fun h _ => h last (by simp [hmessages]), fun h _ _ => h hne⟩

theorem pathMessages_pairwise :
    ((pathMessages bytes rows byteCap rowCap transactions generation admission).map
      (·.generation)).Pairwise (· ≤ ·) := by
  have hall := (@forall_pathMessages bytes rows byteCap rowCap transactions generation admission
    (· = generation)).mpr fun _ => rfl
  exact List.pairwise_of_forall_mem_list fun a ha b hb => ((hall a ha).trans (hall b hb).symm).le

end Path

section Messages

variable {bytes rows : SanitizedTransaction → ℕ} {byteCap rowCap : ℕ} {bob bob' : Bob}
  {admin regular oversized : List SanitizedTransaction}
  {adminResults regularResults : List (MessageAccounts × TransactionProcessingResult)}
  {admission : Option ℕ} {result : ExecutionResult}

section

variable
    (h : executeBatch bob admin regular oversized adminResults regularResults admission =
      (result, bob'))

include h

theorem forall_messages {P : ℕ → Prop} :
    (∀ sent ∈ (result.messages bytes rows byteCap rowCap).map (·.generation), P sent) ↔
      (admin ≠ [] → P (bob.nextGeneration + 1)) ∧
        (regular ++ oversized ≠ [] → P (if regular = [] then 0 else bob'.nextGeneration)) := by
  obtain ⟨hat, hrt, hadmin, hregular, -⟩ := executeBatch_spec h
  rw [ExecutionResult.messages, List.map_append, List.forall_mem_append, forall_pathMessages,
    forall_pathMessages, hat, hrt, hadmin, hregular]
  exact and_congr_left' (forall_congr' fun hne => by rw [if_neg hne])

theorem messages_le :
    ∀ sent ∈ (result.messages bytes rows byteCap rowCap).map (·.generation),
      sent ≤ bob'.nextGeneration := by
  obtain ⟨-, -, -, -, hnext⟩ := executeBatch_spec h
  refine (forall_messages h).mpr ⟨fun hadmin => ?_, fun _ => ?_⟩
  · rw [hnext, if_neg hadmin]
    exact Nat.le_add_right _ _
  · split_ifs <;> omega

/-- A sub-batch that ran something sends a positive generation. -/
theorem exists_positive (hran : admin ≠ [] ∨ regular ≠ []) :
    ∃ message ∈ result.messages bytes rows byteCap rowCap, 0 < message.generation := by
  obtain ⟨-, -, -, -, hnext⟩ := executeBatch_spec h
  by_contra hnone
  push Not at hnone
  obtain ⟨hadmin, hregular⟩ := (forall_messages h (P := (· ≤ 0))).mp (List.forall_mem_map.mpr hnone)
  rcases hran with ha | hr
  · exact absurd (hadmin ha) (Nat.not_succ_le_zero _)
  · have hzero := hregular (List.append_ne_nil_of_left_ne_nil hr _)
    rw [if_neg hr, hnext, if_neg hr] at hzero
    omega

/-- The messages are in order unless oversized transactions alone come behind a positive
generation. -/
theorem messages_pairwise_iff {older : List StampedBatch}
    (hle : ∀ message ∈ older, message.generation ≤ bob.nextGeneration)
    (hpositive : bob.nextGeneration ≠ 0 → ∃ message ∈ older, 0 < message.generation)
    (holder : (older.map (·.generation)).Pairwise (· ≤ ·)) :
    ((older ++ result.messages bytes rows byteCap rowCap).map (·.generation)).Pairwise (· ≤ ·) ↔
      oversized = [] ∨ regular ≠ [] ∨ admin = [] ∧ bob.nextGeneration = 0 := by
  obtain ⟨hat, hrt, hadmin, hregular, hnext⟩ := executeBatch_spec h
  simp only [ExecutionResult.messages, List.map_append, List.pairwise_append, holder,
    pathMessages_pairwise, forall_pathMessages, List.forall_mem_append, hat, hrt, hadmin, hregular,
    true_and]
  constructor
  · rintro ⟨hpaths, holder⟩
    by_contra hbad
    push Not at hbad
    obtain ⟨hover, rfl, hran⟩ := hbad
    by_cases hnone : bob.nextGeneration = 0
    · have ha : admin ≠ [] := fun ha => hran ha hnone
      have := hpaths ha hover
      simp [ha] at this
    · obtain ⟨message, hmem, hpos⟩ := hpositive hnone
      exact absurd ((holder _ (List.mem_map_of_mem hmem)).2 hover) (Nat.not_le.mpr hpos)
  · intro hgood
    have hle := List.forall_mem_map (P := (· ≤ bob.nextGeneration)).mpr hle
    have hstamp : regular ++ oversized ≠ [] →
        regular ≠ [] ∨ admin = [] ∧ bob.nextGeneration = 0 := by
      intro hne
      rcases hgood with rfl | hgood
      · exact .inl (List.append_nil regular ▸ hne)
      · exact hgood
    refine ⟨fun ha hne => ?_, fun a hmem => ⟨fun ha => ?_, fun hne => ?_⟩⟩
    · have hr := (hstamp hne).resolve_right fun hnil => ha hnil.1
      rw [hnext, if_neg ha, if_neg hr, if_neg ha]
      omega
    · rw [if_neg ha]
      exact (hle a hmem).trans (Nat.le_succ _)
    · have hole := hle a hmem
      obtain hr | ⟨-, hzero⟩ := hstamp hne
      · rw [hnext, if_neg hr]
        omega
      · omega

end

end Messages

/-- What every run keeps of its history and its messages. -/
structure StreamInv (history : List StreamLabel) (s : ResultStream) : Prop where
  stamped : s.bob.nextGeneration = 0 ↔ ∀ admin regular oversized,
    .execute admin regular oversized ∈ history → admin = [] ∧ regular = []
  bounded : ∀ message ∈ s.sent, message.generation ≤ s.bob.nextGeneration
  positive : s.bob.nextGeneration ≠ 0 → ∃ message ∈ s.sent, 0 < message.generation
  buffered : ∀ entry ∈ s.buffer, ∃ message ∈ s.received, message.generation = entry.2
  ordered : (s.sent.map (·.generation)).Pairwise (· ≤ ·) ↔ InputsInOrder history
  asserted : (s.sent.map (·.generation)).Pairwise (· ≤ ·) → s.asserted = true

variable {label : StreamLabel}

/-- One more sub-batch in order. -/
theorem inputsInOrder_append :
    InputsInOrder (history ++ [label]) ↔ InputsInOrder history ∧
      ∀ admin regular oversized, label = .execute admin regular oversized →
        oversized = [] ∨ regular ≠ [] ∨ admin = [] ∧ ∀ admin' regular' oversized',
          .execute admin' regular' oversized' ∈ history → admin' = [] ∧ regular' = [] := by
  constructor
  · intro h
    refine ⟨fun before admin regular oversized after he => ?_, fun admin regular oversized hl => ?_⟩
    · exact h before admin regular oversized (after ++ [label]) (by rw [he]; simp)
    · exact h history admin regular oversized [] (by rw [hl])
  · rintro ⟨hhistory, hlabel⟩ before admin regular oversized after he
    obtain ⟨rfl, hl⟩ | ⟨rest, he⟩ := snoc_eq_append_cons he
    · exact hlabel admin regular oversized hl
    · exact hhistory before admin regular oversized rest he

/-- A step that runs nothing adds nothing to what is asked of the inputs. -/
theorem inputsInOrder_other
    (hother : ∀ admin regular oversized, label ≠ .execute admin regular oversized) :
    InputsInOrder (history ++ [label]) ↔ InputsInOrder history := by
  rw [inputsInOrder_append]
  exact and_iff_left fun admin regular oversized hl => absurd hl (hother _ _ _)

variable {s : ResultStream}

/-- Before the first sub-batch. -/
theorem StreamInv.fresh (h : s.Fresh) : StreamInv [] s := by
  have hsent : s.sent = [] := by
    unfold ResultStream.sent
    rw [h.received, h.queue, h.unsent]
    rfl
  refine ⟨⟨fun _ _ _ _ => nofun, fun _ => h.bob⟩, ?_, fun hne => absurd h.bob hne, ?_, ?_,
    fun _ => h.asserted⟩
  · rw [hsent]
    exact fun _ hmem => absurd hmem List.not_mem_nil
  · rw [h.buffer]
    exact fun _ hmem => absurd hmem List.not_mem_nil
  · rw [hsent]
    exact ⟨fun _ before _ _ _ after he => by simp at he, fun _ => .nil⟩

variable {t : ResultStream}

/-- A step that hands messages on, or touches neither them nor the generations. -/
theorem StreamInv.moved (h : StreamInv history s)
    (hother : ∀ admin regular oversized, label ≠ .execute admin regular oversized)
    (hbob : t.bob.nextGeneration = s.bob.nextGeneration) (hsent : t.sent = s.sent)
    (hbuffered : ∀ entry ∈ t.buffer, ∃ message ∈ t.received, message.generation = entry.2)
    (hasserted : (s.sent.map (·.generation)).Pairwise (· ≤ ·) → t.asserted = true) :
    StreamInv (history ++ [label]) t := by
  refine ⟨?_, ?_, ?_, hbuffered, ?_, ?_⟩
  · rw [hbob, h.stamped]
    refine forall_congr' fun admin => forall_congr' fun regular => forall_congr' fun oversized => ?_
    rw [List.mem_append, List.mem_singleton, or_iff_left (Ne.symm (hother _ _ _))]
  · rw [hbob, hsent]
    exact h.bounded
  · rw [hbob, hsent]
    exact h.positive
  · rw [hsent, inputsInOrder_other hother]
    exact h.ordered
  · rw [hsent]
    exact hasserted

/-- The next sub-batch is executed. -/
theorem StreamInv.execute (h : StreamInv history s)
    {bytes rows : SanitizedTransaction → ℕ} {byteCap rowCap : ℕ}
    {admin regular oversized : List SanitizedTransaction}
    {adminResults regularResults : List (MessageAccounts × TransactionProcessingResult)}
    {admission : Option ℕ} {result : ExecutionResult} {bob : Bob} (hidle : s.unsent = [])
    (hrun : executeBatch s.bob admin regular oversized adminResults regularResults admission =
      (result, bob)) :
    StreamInv (history ++ [.execute admin regular oversized])
      { s with bob := bob, unsent := result.messages bytes rows byteCap rowCap } := by
  obtain ⟨-, -, -, -, hnext⟩ := executeBatch_spec hrun
  have hsent : ({ s with bob := bob, unsent := result.messages bytes rows byteCap rowCap } :
      ResultStream).sent = s.sent ++ result.messages bytes rows byteCap rowCap := by
    simp [ResultStream.sent, hidle]
  have hzero : bob.nextGeneration = 0 ↔ s.bob.nextGeneration = 0 ∧ admin = [] ∧ regular = [] := by
    rw [hnext]
    by_cases ha : admin = [] <;> by_cases hr : regular = [] <;> simp [ha, hr]
  refine ⟨?_, ?_, ?_, h.buffered, ?_, ?_⟩
  · rw [hzero, h.stamped]
    constructor
    · rintro ⟨hold, hnew⟩ admin' regular' oversized' hmem
      rcases List.mem_append.mp hmem with hmem | hmem
      · exact hold admin' regular' oversized' hmem
      · cases List.mem_singleton.mp hmem
        exact hnew
    · intro hall
      refine ⟨fun admin' regular' oversized' hmem => ?_, ?_⟩
      · exact hall admin' regular' oversized' (List.mem_append_left _ hmem)
      · exact hall admin regular oversized (List.mem_append_right _ List.mem_cons_self)
  · rw [hsent]
    intro message hmem
    rcases List.mem_append.mp hmem with hmem | hmem
    · exact (h.bounded message hmem).trans (by dsimp only; omega)
    · exact messages_le hrun _ (List.mem_map_of_mem hmem)
  · rw [hsent]
    intro hne
    by_cases hran : admin = [] ∧ regular = []
    · obtain ⟨message, hmem, hpos⟩ := h.positive fun hs => hne (hzero.mpr ⟨hs, hran⟩)
      exact ⟨message, List.mem_append_left _ hmem, hpos⟩
    · obtain ⟨message, hmem, hpos⟩ := exists_positive hrun (by tauto)
      exact ⟨message, List.mem_append_right _ hmem, hpos⟩
  · rw [hsent, inputsInOrder_append]
    constructor
    · intro hsorted
      have holder := (List.pairwise_append.mp (List.map_append ▸ hsorted)).1
      refine ⟨h.ordered.mp holder, fun admin' regular' oversized' he => ?_⟩
      cases he
      rw [← h.stamped]
      exact (messages_pairwise_iff hrun h.bounded h.positive holder).mp hsorted
    · rintro ⟨hhistory, hlabel⟩
      have hgood := hlabel admin regular oversized rfl
      rw [← h.stamped] at hgood
      exact (messages_pairwise_iff hrun h.bounded h.positive (h.ordered.mpr hhistory)).mpr hgood
  · rw [hsent, List.map_append]
    exact fun hsorted => h.asserted (List.pairwise_append.mp hsorted).1

/-- What is buffered was received before, so no later generation is below it. -/
theorem StreamStep.inv
    (hstep : StreamStep s label t) (h : StreamInv history s) :
    StreamInv (history ++ [label]) t := by
  cases hstep with
  | execute hidle => exact h.execute hidle rfl
  | cache hkept => exact h.moved nofun hkept rfl h.buffered h.asserted
  | @send message rest hnext =>
    refine h.moved nofun rfl ?_ h.buffered h.asserted
    simp [ResultStream.sent, hnext]
  | @receive message rest hnext =>
    refine h.moved nofun rfl ?_ ?_ fun hsorted => ?_
    · simp [ResultStream.sent, ResultStream.bufferBatch, hnext]
    · intro entry hmem
      rcases List.mem_append.mp hmem with hmem | hmem
      · obtain ⟨older, holder, hgen⟩ := h.buffered entry hmem
        exact ⟨older, List.mem_append_left _ holder, hgen⟩
      · obtain ⟨tx, -, rfl⟩ := List.mem_map.mp hmem
        exact ⟨message, List.mem_append_right _ List.mem_cons_self, rfl⟩
    · have hlast : s.buffer.getLast?.all (·.2 ≤ message.generation) = true := by
        refine (Option.all_eq_true _ _).mpr fun entry hentry => ?_
        obtain ⟨older, holder, hgen⟩ := h.buffered entry (List.mem_of_getLast? hentry)
        have hsplit : s.sent = s.received ++ message :: (rest ++ s.unsent) := by
          simp [ResultStream.sent, hnext]
        rw [hsplit, List.map_append, List.pairwise_append] at hsorted
        have hle := hsorted.2.2 _ (List.mem_map_of_mem holder) message.generation List.mem_cons_self
        exact decide_eq_true (hgen ▸ hle)
      simp [ResultStream.bufferBatch, h.asserted hsorted, hlast]
  | cut => exact h.moved nofun rfl rfl (fun _ hmem => absurd hmem List.not_mem_nil) h.asserted

theorem run_streamInv {s₀ : ResultStream} {l : List StreamLabel} (hfresh : s₀.Fresh)
    (hrun : Run StreamStep s₀ l s) : StreamInv l s :=
  hrun.invariant (P := StreamInv) (.fresh hfresh) fun _ _ _ _ h hstep => hstep.inv h

/-- Nothing new runs: messages already made are sent and received. -/
def OnlyDelivers (labels : List StreamLabel) : Prop :=
  ∀ label ∈ labels, label = .send ∨ label = .receive

/-- Delivery adds no message and changes none. -/
theorem delivery_sent {l : List StreamLabel} (hrun : Run StreamStep s l t)
    (hdelivers : OnlyDelivers l) : t.sent = s.sent := by
  induction hrun with
  | nil => rfl
  | @snoc l t u label hrun hstep ih =>
    have hsent := ih fun label hmem => hdelivers label (List.mem_append_left _ hmem)
    rw [← hsent]
    rcases hdelivers label (List.mem_append_right _ List.mem_cons_self) with rfl | rfl
    · cases hstep with
      | send hnext => simp [ResultStream.sent, hnext]
    · cases hstep with
      | receive hnext => simp [ResultStream.sent, ResultStream.bufferBatch, hnext]

/-- Every message the executor has made can reach the settler. -/
theorem exists_delivery (s : ResultStream) :
    ∃ l t, Run StreamStep s l t ∧ OnlyDelivers l ∧ t.received = s.sent := by
  induction hunsent : s.unsent generalizing s with
  | nil =>
    induction hqueue : s.queue generalizing s with
    | nil => exact ⟨[], s, .nil, nofun, by simp [ResultStream.sent, hqueue, hunsent]⟩
    | cons message rest ih =>
      obtain ⟨l, t, hrun, hdelivers, hreceived⟩ :=
        ih { s.bufferBatch message with queue := rest } hunsent rfl
      refine ⟨.receive :: l, t, .cons (.receive hqueue) hrun, ?_, ?_⟩
      · exact List.forall_mem_cons.mpr ⟨.inr rfl, hdelivers⟩
      · rw [hreceived]
        simp [ResultStream.sent, ResultStream.bufferBatch, hqueue]
  | cons message rest ih =>
    obtain ⟨l, t, hrun, hdelivers, hreceived⟩ :=
      ih { s with unsent := rest, queue := s.queue ++ [message] } rfl
    refine ⟨.send :: l, t, .cons (.send hunsent) hrun, ?_, ?_⟩
    · exact List.forall_mem_cons.mpr ⟨.inl rfl, hdelivers⟩
    · rw [hreceived]
      simp [ResultStream.sent, hunsent]

/-- The messages reach `buffer_batch` in generation order, and its assertion holds, exactly when
no sub-batch of oversized transactions alone came after or beside one that ran. -/
theorem generations_in_order_iff {s₀ s : ResultStream} {l : List StreamLabel} (hfresh : s₀.Fresh)
    (hrun : Run StreamStep s₀ l s) :
    (∀ l' t, Run StreamStep s l' t → OnlyDelivers l' → t.InOrder) ↔ InputsInOrder l := by
  have hinv := run_streamInv hfresh hrun
  rw [← hinv.ordered]
  constructor
  · intro hall
    obtain ⟨l', t, hrun', hdelivers, hreceived⟩ := exists_delivery s
    rw [← hreceived]
    exact (hall l' t hrun' hdelivers).received
  · intro hsorted l' t hrun' hdelivers
    have hsent := delivery_sent hrun' hdelivers
    rw [← hsent] at hsorted
    refine ⟨?_, (run_streamInv hfresh (hrun.append hrun')).asserted hsorted⟩
    unfold ResultStream.sent at hsorted
    rw [List.map_append, List.map_append, List.append_assoc] at hsorted
    exact (List.pairwise_append.mp hsorted).1

/-- A process that has just started. -/
def streamStart : ResultStream where
  bob := .new (fun _ => none) 10 100
  unsent := []
  queue := []
  received := []
  buffer := []
  asserted := true

theorem streamStart_fresh : streamStart.Fresh := ⟨rfl, rfl, rfl, rfl, rfl, rfl⟩

/-- A sub-batch of one small transaction or of one oversized one. -/
def smallTransaction : SanitizedTransaction := ⟨1, 1, 0⟩

def oversizedTransaction : SanitizedTransaction := ⟨2, 2, 0⟩

/-- Beside a transaction that runs, an oversized one takes its generation. -/
theorem generations_in_order_mixed :
    ∃ l s, Run StreamStep streamStart l s ∧
      l = [.execute [] [smallTransaction] [oversizedTransaction]] ∧
      ∀ l' t, Run StreamStep s l' t → OnlyDelivers l' → t.InOrder := by
  have hrun := Run.single (@StreamStep.execute streamStart [] [smallTransaction]
    [oversizedTransaction] [] [] none (fun _ => 0) (fun _ => 1) 10 10 rfl)
  refine ⟨_, _, hrun, rfl, (generations_in_order_iff streamStart_fresh hrun).mpr ?_⟩
  intro before admin regular oversized after he
  cases before with
  | nil =>
    cases (List.cons.inj he).1
    exact .inr (.inl (by decide))
  | cons first rest => simp at he

/-- Generation 0 follows 1, and the assertion fails. -/
theorem oversized_alone_out_of_order :
    ∃ l s, streamStart.Fresh ∧ Run StreamStep streamStart l s ∧
      s.received.map (·.generation) = [1, 0] ∧ s.asserted = false ∧ ¬s.InOrder := by
  have h1 := Run.nil.snoc (@StreamStep.execute streamStart [] [smallTransaction] [] [] [] none
    (fun _ => 0) (fun _ => 1) 10 10 rfl)
  have h2 := h1.snoc (.send rfl)
  have h3 := h2.snoc (.receive rfl)
  have h4 := h3.snoc (@StreamStep.execute _ [] [] [oversizedTransaction] [] [] none
    (fun _ => 0) (fun _ => 1) 10 10 rfl)
  have h5 := h4.snoc (.send rfl)
  have h6 := h5.snoc (.receive rfl)
  exact ⟨_, _, streamStart_fresh, h6, rfl, rfl, fun h => absurd h.asserted (by decide)⟩

end PrivateChannels.Core
