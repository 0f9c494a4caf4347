import PrivateChannels.Core.DagGraph
import PrivateChannels.Foundation.Reordering
import PrivateChannels.Foundation.Transition

/-!
# The batches are a serial order

Every unprocessed transaction whose dependencies are processed is queued, so a pass always
finds one and the search for a cycle is never entered.
-/

namespace PrivateChannels.Core

open Listing Reordering
open scoped List

variable {κ : Type*} {txs : List (Transaction κ)} {graph : DependencyGraph κ} {order : ℕ → List ℕ}

/-- The order lists the dependents of every transaction once. -/
structure Iterates (order : ℕ → List ℕ) (graph : DependencyGraph κ) : Prop where
  nodup : ∀ i, (order i).Nodup
  mem : ∀ i j, j ∈ order i ↔ j ∈ graph.transactionDependents i

/-- The transaction with this index is in one of the batches. -/
def Placed (batches : List (List (TransactionWithIndex κ))) (i : ℕ) : Prop :=
  ∃ entry ∈ batches.flatten, entry.index = i

/-- The variables of a pass, after the batches `done`. -/
structure BatchInv (graph : DependencyGraph κ) (txs : List (Transaction κ))
    (done : List (List (TransactionWithIndex κ))) (state : BatchState κ) : Prop where
  indexed : ∀ entry ∈ done.flatten ++ state.currentBatch,
    txs[entry.index]? = some entry.transaction
  processed : ∀ i, i ∈ state.processed ↔
    ∃ entry ∈ done.flatten ++ state.currentBatch, entry.index = i
  nodup : ((done.flatten ++ state.currentBatch).map (·.index)).Nodup
  reads : ∀ key, key ∈ state.batchReadAccounts ↔
    ∃ entry ∈ state.currentBatch, key ∈ entry.transaction.readAccounts
  writes : ∀ key, key ∈ state.batchWriteAccounts ↔
    ∃ entry ∈ state.currentBatch, key ∈ entry.transaction.writeAccounts
  free : state.currentBatch.Pairwise fun a b => ¬ Conflicts a.transaction b.transaction
  waited : ∀ entry ∈ state.currentBatch,
    ∀ i ∈ graph.transactionDependencies entry.index, Placed done i
  ready : ∀ i ∈ state.readyQueue ++ state.nextReady,
    i < txs.length ∧ graph.transactionDependencies i ⊆ state.processed
  queued : ∀ i < txs.length, i ∉ state.processed →
    graph.transactionDependencies i ⊆ state.processed → i ∈ state.readyQueue ++ state.nextReady
  unblocked : state.currentBatch = [] → state.nextReady = []

namespace BatchInv

variable {done : List (List (TransactionWithIndex κ))} {state : BatchState κ} {i : ℕ}
  {rest : List ℕ} {tx : Transaction κ}

section

variable (h : BatchInv graph txs done state)
include h

theorem processed_subset : state.processed ⊆ Finset.range txs.length := by
  intro i hi
  obtain ⟨entry, he, rfl⟩ := (h.processed i).mp hi
  exact Finset.mem_range.mpr (List.getElem?_eq_some_iff.mp (h.indexed entry he)).1

theorem card_processed_le : state.processed.card ≤ txs.length := by
  simpa using Finset.card_le_card h.processed_subset

/-- A transaction already processed is dropped from the queue. -/
theorem skip (hqueue : state.readyQueue = i :: rest) (hi : i ∈ state.processed) :
    BatchInv graph txs done { state with readyQueue := rest } := by
  refine ⟨h.indexed, h.processed, h.nodup, h.reads, h.writes, h.free, h.waited, fun j hj => ?_,
    fun j hj hnew hdeps => ?_, h.unblocked⟩
  · exact h.ready j (by rw [hqueue]; exact List.mem_cons_of_mem i hj)
  · have hmem := h.queued j hj hnew hdeps
    rw [hqueue, List.cons_append] at hmem
    exact (List.mem_cons.mp hmem).resolve_left fun heq => hnew (heq ▸ hi)

/-- What a ready transaction waits for is in earlier batches, if it is free of the
current one. -/
theorem placed_of_ready (hg : GraphOk txs graph) (hi : i ∈ state.readyQueue ++ state.nextReady)
    (htx : txs[i]? = some tx)
    (hfree : ∀ entry ∈ state.currentBatch, ¬ Conflicts entry.transaction tx) :
    ∀ dep ∈ graph.transactionDependencies i, Placed done dep := by
  intro dep hdep
  obtain ⟨entry, he, hindex⟩ := (h.processed dep).mp ((h.ready i hi).2 hdep)
  rcases List.mem_append.mp he with hdone | hcurrent
  · exact ⟨entry, hdone, hindex⟩
  · obtain ⟨_, a, b, ha, hb, hconflict⟩ := hg.earlier dep i hdep
    obtain rfl : b = tx := Option.some.inj (hb.symm.trans htx)
    rw [← hindex, h.indexed entry he] at ha
    cases ha
    exact absurd hconflict (hfree entry hcurrent)

variable [DecidableEq κ]

/-- The check against the batch's accounts finds the conflicts with its members. -/
theorem hasConflict_iff :
    hasConflict state tx = true ↔
      ∃ entry ∈ state.currentBatch, Conflicts entry.transaction tx := by
  simp only [hasConflict, Bool.or_eq_true, List.any_eq_true, decide_eq_true_eq, h.writes, h.reads]
  constructor
  · rintro ((⟨key, hkey, entry, he, hw⟩ | ⟨key, hkey, entry, he, hr⟩) | ⟨key, hkey, entry, he, hw⟩)
    · exact ⟨entry, he, key, .inl ⟨hw, .inl hkey⟩⟩
    · exact ⟨entry, he, key, .inr ⟨hr, hkey⟩⟩
    · exact ⟨entry, he, key, .inl ⟨hw, .inr hkey⟩⟩
  · rintro ⟨entry, he, key, ⟨hw, hkey | hkey⟩ | ⟨hr, hkey⟩⟩
    · exact .inl (.inl ⟨key, hkey, entry, he, hw⟩)
    · exact .inr ⟨key, hkey, entry, he, hw⟩
    · exact .inl (.inr ⟨key, hkey, entry, he, hr⟩)

/-- One that conflicts with the batch waits for the next pass. -/
theorem postpone (hqueue : state.readyQueue = i :: rest)
    (hconflict : hasConflict { state with readyQueue := rest } tx = true) :
    BatchInv graph txs done { state with
      readyQueue := rest, nextReady := state.nextReady ++ [i] } := by
  have hsame : ∀ j, j ∈ rest ++ (state.nextReady ++ [i]) ↔
      j ∈ state.readyQueue ++ state.nextReady := by
    intro j
    simp only [hqueue, List.mem_append, List.mem_cons, List.not_mem_nil, or_false]
    tauto
  refine ⟨h.indexed, h.processed, h.nodup, h.reads, h.writes, h.free, h.waited,
    fun j hj => h.ready j ((hsame j).mp hj),
    fun j hj hnew hdeps => (hsame j).mpr (h.queued j hj hnew hdeps), fun hnil => ?_⟩
  obtain ⟨entry, he, _⟩ := h.hasConflict_iff.mp hconflict
  have hempty : state.currentBatch = [] := hnil
  rw [hempty] at he
  cases he

/-- A transaction free of the batch joins it; whoever waited for it is among its dependents. -/
theorem join (hg : GraphOk txs graph) (hiter : Iterates order graph)
    (hqueue : state.readyQueue = i :: rest) (hi : i ∉ state.processed) (htx : txs[i]? = some tx)
    (hconflict : hasConflict { state with readyQueue := rest } tx = false) :
    BatchInv graph txs done (addToBatch graph order { state with readyQueue := rest } i tx) := by
  have hmem : i ∈ state.readyQueue ++ state.nextReady := by simp [hqueue]
  have hfree : ∀ entry ∈ state.currentBatch, ¬ Conflicts entry.transaction tx := by
    intro entry he hc
    have htrue : hasConflict { state with readyQueue := rest } tx = true :=
      h.hasConflict_iff.mpr ⟨entry, he, hc⟩
    rw [hconflict] at htrue
    cases htrue
  have hassoc : done.flatten ++ (state.currentBatch ++ [⟨tx, i⟩]) =
      (done.flatten ++ state.currentBatch) ++ [⟨tx, i⟩] := (List.append_assoc _ _ _).symm
  refine ⟨fun entry he => ?_, fun j => ?_, ?_, fun key => ?_, fun key => ?_, ?_, fun entry he => ?_,
    fun j hj => ?_, fun j hj hnew hdeps => ?_, fun hnil => ?_⟩
  · simp only [addToBatch] at he
    rw [hassoc] at he
    rcases List.mem_append.mp he with he | he
    · exact h.indexed entry he
    · rw [List.mem_singleton.mp he]
      exact htx
  · simp only [addToBatch, Finset.mem_insert, h.processed j]
    rw [hassoc]
    simp only [List.mem_append, List.mem_singleton]
    constructor
    · rintro (rfl | ⟨entry, he, rfl⟩)
      · exact ⟨⟨tx, j⟩, .inr rfl, rfl⟩
      · exact ⟨entry, .inl he, rfl⟩
    · rintro ⟨entry, he | rfl, rfl⟩
      · exact .inr ⟨entry, he, rfl⟩
      · exact .inl rfl
  · simp only [addToBatch]
    rw [hassoc, List.map_append, List.nodup_append]
    refine ⟨h.nodup, by simp, fun a ha b hb heq => ?_⟩
    obtain ⟨entry, he, rfl⟩ := List.mem_map.mp ha
    simp only [List.map_cons, List.map_nil, List.mem_singleton] at hb
    exact hi ((h.processed i).mpr ⟨entry, he, heq.trans hb⟩)
  · simp [addToBatch, h.reads key]
  · simp [addToBatch, h.writes key]
  · simp only [addToBatch]
    exact List.pairwise_append.mpr ⟨h.free, List.pairwise_singleton _ _,
      fun a ha b hb => by rw [List.mem_singleton.mp hb]; exact hfree a ha⟩
  · simp only [addToBatch, List.mem_append, List.mem_singleton] at he
    rcases he with he | rfl
    · exact h.waited entry he
    · exact h.placed_of_ready hg hmem htx hfree
  · simp only [addToBatch, List.mem_append, List.mem_filter, decide_eq_true_eq] at hj
    rcases hj with (hj | ⟨hj, hdeps, _⟩) | hj
    · obtain ⟨hlt, hsub⟩ := h.ready j (by simp [hqueue, hj])
      exact ⟨hlt, hsub.trans (Finset.subset_insert _ _)⟩
    · obtain ⟨_, _, b, _, hb, _⟩ := hg.earlier i j ((hg.dependents i j).mp ((hiter.mem i j).mp hj))
      exact ⟨(List.getElem?_eq_some_iff.mp hb).1, hdeps⟩
    · obtain ⟨hlt, hsub⟩ := h.ready j (by simp [hj])
      exact ⟨hlt, hsub.trans (Finset.subset_insert _ _)⟩
  · simp only [addToBatch] at hnew hdeps ⊢
    have hne : j ≠ i := fun heq => hnew (by simp [heq])
    have hold : j ∉ state.processed := fun hp => hnew (Finset.mem_insert_of_mem hp)
    by_cases hbefore : graph.transactionDependencies j ⊆ state.processed
    · have hin := h.queued j hj hold hbefore
      simp only [hqueue, List.mem_append, List.mem_cons, hne, false_or] at hin
      simp only [List.mem_append]
      exact hin.imp_left .inl
    · have hwaited : i ∈ graph.transactionDependencies j := by
        obtain ⟨dep, hdep, hout⟩ := Finset.not_subset.mp hbefore
        rcases Finset.mem_insert.mp (hdeps hdep) with rfl | hin
        · exact hdep
        · exact absurd hin hout
      have hlisted := (hiter.mem i j).mpr ((hg.dependents i j).mpr hwaited)
      refine List.mem_append_left _ (List.mem_append_right _ (List.mem_filter.mpr ⟨hlisted, ?_⟩))
      simp [hdeps, hold, hne]
  · simp [addToBatch] at hnil

end

end BatchInv

/-- Bounds the pops that are left. -/
def work (txs : List (Transaction κ)) (processed : Finset ℕ) (queued : ℕ) : ℕ :=
  (txs.length - processed.card) * (txs.length + 1) + queued

theorem Iterates.length_le (hg : GraphOk txs graph) (hiter : Iterates order graph) (i : ℕ) :
    (order i).length ≤ txs.length := by
  have hsub : (order i).toFinset ⊆ Finset.range txs.length := by
    intro j hj
    have hdep := (hg.dependents i j).mp ((hiter.mem i j).mp (List.mem_toFinset.mp hj))
    obtain ⟨_, _, b, _, hb, _⟩ := hg.earlier i j hdep
    exact Finset.mem_range.mpr (List.getElem?_eq_some_iff.mp hb).1
  have hcard := Finset.card_le_card hsub
  rwa [List.toFinset_card_of_nodup (hiter.nodup i), Finset.card_range] at hcard

variable [DecidableEq κ] {done : List (List (TransactionWithIndex κ))} {state : BatchState κ}

/-- One pop keeps the invariant and leaves less to do. -/
theorem visitReady_inv (hg : GraphOk txs graph) (hiter : Iterates order graph) {i : ℕ}
    {rest : List ℕ} (h : BatchInv graph txs done state) (hqueue : state.readyQueue = i :: rest) :
    ∃ next, visitReady graph order txs { state with readyQueue := rest } i = some next ∧
      BatchInv graph txs done next ∧ state.processed ⊆ next.processed ∧
      work txs next.processed next.readyQueue.length <
        work txs state.processed state.readyQueue.length ∧
      work txs next.processed (next.readyQueue.length + next.nextReady.length) ≤
        work txs state.processed (state.readyQueue.length + state.nextReady.length) := by
  have hlt : i < txs.length := (h.ready i (by simp [hqueue])).1
  have htx : txs[i]? = some txs[i] := List.getElem?_eq_getElem hlt
  unfold visitReady
  split
  · next hi =>
    refine ⟨_, rfl, h.skip hqueue hi, subset_rfl, ?_, ?_⟩ <;> simp [work, hqueue]
  · next hi =>
    rw [htx]
    dsimp only
    split
    · next hconflict =>
      refine ⟨_, rfl, h.postpone hqueue hconflict, subset_rfl, ?_, ?_⟩ <;> simp [work, hqueue]
      omega
    · next hconflict =>
      have hjoin := h.join hg hiter hqueue hi htx (by simpa using hconflict)
      refine ⟨_, rfl, hjoin, Finset.subset_insert _ _, ?_⟩
      have hcard : (insert i state.processed).card = state.processed.card + 1 :=
        Finset.card_insert_of_notMem hi
      have hle := hjoin.card_processed_le
      have hpushed : ((order i).filter fun dependent =>
          graph.transactionDependencies dependent ⊆ insert i state.processed ∧
            dependent ∉ insert i state.processed).length ≤ txs.length :=
        (List.length_filter_le _ _).trans (hiter.length_le hg i)
      simp only [addToBatch] at hle ⊢
      have hwork : (txs.length - state.processed.card) * (txs.length + 1) =
          (txs.length - (state.processed.card + 1)) * (txs.length + 1) + (txs.length + 1) := by
        obtain ⟨k, hk⟩ := Nat.exists_eq_add_of_le hle
        have h1 : txs.length - state.processed.card = k + 1 := by omega
        have h2 : txs.length - (state.processed.card + 1) = k := by omega
        rw [h1, h2]
        ring
      simp only [work, hcard, hwork, hqueue, List.length_append, List.length_cons]
      omega

/-- Filling one batch keeps the invariant. -/
theorem fillBatch_inv (hg : GraphOk txs graph) (hiter : Iterates order graph) {fuel : ℕ}
    (h : BatchInv graph txs done state)
    (hfuel : work txs state.processed state.readyQueue.length < fuel) :
    ∃ filled, fillBatch graph order txs fuel state = some filled ∧
      BatchInv graph txs done filled ∧ filled.readyQueue = [] ∧
      state.processed ⊆ filled.processed ∧
      work txs filled.processed filled.nextReady.length ≤
        work txs state.processed (state.readyQueue.length + state.nextReady.length) := by
  induction fuel generalizing state with
  | zero => exact absurd hfuel (Nat.not_lt_zero _)
  | succ fuel ih =>
    rw [fillBatch]
    cases hqueue : state.readyQueue with
    | nil => exact ⟨state, rfl, h, hqueue, subset_rfl, by simp⟩
    | cons i rest =>
      obtain ⟨next, hvisit, hnext, hsub, hless, htotal⟩ := visitReady_inv hg hiter h hqueue
      obtain ⟨filled, hfill, hfilled, hempty, hsub', htotal'⟩ := ih hnext (by omega)
      simp only [hvisit]
      refine ⟨filled, hfill, hfilled, hempty, hsub.trans hsub', ?_⟩
      rw [hqueue] at htotal
      exact htotal'.trans htotal

/-- Each batch is free of conflicts, and what its members wait for is in earlier ones. -/
def Ordered (graph : DependencyGraph κ) (batches : List (List (TransactionWithIndex κ))) : Prop :=
  ∀ front batch back, batches = front ++ batch :: back →
    (batch.Pairwise fun a b => ¬ Conflicts a.transaction b.transaction) ∧
    ∀ entry ∈ batch, ∀ i ∈ graph.transactionDependencies entry.index, Placed front i

omit [DecidableEq κ] in
theorem Ordered.snoc {batches : List (List (TransactionWithIndex κ))}
    {batch : List (TransactionWithIndex κ)} (h : Ordered graph batches)
    (hfree : batch.Pairwise fun a b => ¬ Conflicts a.transaction b.transaction)
    (hwaited : ∀ entry ∈ batch, ∀ i ∈ graph.transactionDependencies entry.index,
      Placed batches i) : Ordered graph (batches ++ [batch]) := by
  intro front other back heq
  obtain ⟨rfl, rfl⟩ | ⟨back, heq⟩ := snoc_eq_append_cons heq
  · exact ⟨hfree, hwaited⟩
  · exact h front other back heq

/-- The variables of the outer loop between passes. -/
structure ScheduleInv (graph : DependencyGraph κ) (txs : List (Transaction κ))
    (state : ScheduleState κ) : Prop where
  pass : BatchInv graph txs state.batches ⟨[], ∅, ∅, [], state.processed, state.readyQueue⟩
  ordered : Ordered graph state.batches
  fallbacks : state.fallbacks = 0

omit [DecidableEq κ] in
/-- The least unprocessed transaction is queued. -/
theorem BatchInv.exists_queued (h : BatchInv graph txs done state) (hg : GraphOk txs graph)
    (hleft : state.processed.card < txs.length) :
    ∃ i, i ∉ state.processed ∧ i ∈ state.readyQueue ++ state.nextReady := by
  have hexists : ∃ i, i < txs.length ∧ i ∉ state.processed := by
    by_contra hnone
    push Not at hnone
    have hsub : Finset.range txs.length ⊆ state.processed :=
      fun i hi => hnone i (Finset.mem_range.mp hi)
    have hcard := Finset.card_le_card hsub
    rw [Finset.card_range] at hcard
    omega
  obtain ⟨hlt, hnew⟩ := Nat.find_spec hexists
  refine ⟨Nat.find hexists, hnew, h.queued _ hlt hnew fun dep hdep => ?_⟩
  have hless := (hg.earlier dep _ hdep).1
  by_contra hout
  exact Nat.find_min hexists hless ⟨hless.trans hlt, hout⟩

/-- A pass with work left fills a batch. -/
theorem nextBatch_inv (hg : GraphOk txs graph) (hiter : Iterates order graph) {fuel : ℕ}
    {state : ScheduleState κ} (h : ScheduleInv graph txs state)
    (hleft : state.processed.card < txs.length)
    (hfuel : work txs state.processed state.readyQueue.length < fuel) :
    ∃ next, nextBatch graph order txs fuel state = some (next, false) ∧
      ScheduleInv graph txs next ∧ state.processed.card < next.processed.card ∧
      work txs next.processed next.readyQueue.length ≤
        work txs state.processed state.readyQueue.length := by
  obtain ⟨filled, hfill, hfilled, hempty, hsub, htotal⟩ := fillBatch_inv hg hiter h.pass hfuel
  have hqueue : ∀ queue : List ℕ, filled.nextReady.foldl (fun queue i => i :: queue) queue =
      filled.nextReady.reverse ++ queue := by
    intro queue
    induction filled.nextReady generalizing queue with
    | nil => rfl
    | cons i rest ih => simp [ih]
  have hnonempty : filled.currentBatch ≠ [] := by
    intro hnil
    have hsame : filled.processed = state.processed := by
      ext i
      rw [hfilled.processed i, h.pass.processed i, hnil]
    obtain ⟨i, _, hi⟩ := hfilled.exists_queued hg (hsame ▸ hleft)
    rw [hempty, hfilled.unblocked hnil] at hi
    cases hi
  have hnew : state.processed.card < filled.processed.card := by
    obtain ⟨entry, he⟩ := List.exists_mem_of_ne_nil _ hnonempty
    refine Finset.card_lt_card (Finset.ssubset_iff_subset_ne.mpr ⟨hsub, fun heq => ?_⟩)
    have hin : entry.index ∈ state.processed := by
      rw [heq]
      exact (hfilled.processed _).mpr ⟨entry, List.mem_append_right _ he, rfl⟩
    obtain ⟨other, ho, hindex⟩ := (h.pass.processed _).mp hin
    have hnodup := hfilled.nodup
    rw [List.map_append, List.nodup_append] at hnodup
    simp only [List.append_nil] at ho
    exact hnodup.2.2 _ (List.mem_map_of_mem ho) _ (List.mem_map_of_mem he) hindex
  have hflat : (state.batches ++ [filled.currentBatch]).flatten ++ [] =
      state.batches.flatten ++ filled.currentBatch := by simp
  unfold nextBatch
  rw [hfill]
  simp only [hempty, hqueue, List.append_nil]
  rw [if_pos (by simpa using hnonempty)]
  refine ⟨_, rfl, ⟨?_, h.ordered.snoc hfilled.free hfilled.waited, h.fallbacks⟩, hnew, ?_⟩
  · refine ⟨?_, ?_, ?_, by simp, by simp, .nil, nofun, fun i hi => ?_, fun i hi hout hdeps => ?_,
      fun _ => rfl⟩
    · rw [hflat]
      exact hfilled.indexed
    · rw [hflat]
      exact hfilled.processed
    · rw [hflat]
      exact hfilled.nodup
    · exact hfilled.ready i (by simpa [hempty] using hi)
    · simpa [hempty] using hfilled.queued i hi hout hdeps
  · simpa using htotal

/-- Enough fuel processes every transaction. -/
theorem scheduleLoop_inv (hg : GraphOk txs graph) (hiter : Iterates order graph) {fuel : ℕ}
    {state : ScheduleState κ} (h : ScheduleInv graph txs state)
    (hfuel : (txs.length - state.processed.card) +
      work txs state.processed state.readyQueue.length < fuel) :
    ∃ final, scheduleLoop graph order txs fuel state = some final ∧ ScheduleInv graph txs final ∧
      txs.length ≤ final.processed.card := by
  induction fuel generalizing state with
  | zero => exact absurd hfuel (Nat.not_lt_zero _)
  | succ fuel ih =>
    rw [scheduleLoop]
    split
    · next hleft =>
      obtain ⟨next, hnext, hinv, hmore, hless⟩ :=
        nextBatch_inv hg hiter h hleft (show _ < fuel + 1 by omega)
      rw [hnext]
      exact ih hinv (by omega)
    · next hdone => exact ⟨state, rfl, h, not_lt.mp hdone⟩

end PrivateChannels.Core
