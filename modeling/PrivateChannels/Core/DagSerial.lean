import PrivateChannels.Core.DagCorrect

/-!
# Batches against the serial order

Conflicting transactions keep their order across batches. Those that may change places do
not touch each other's accounts, so the batches compute what the list computes.
-/

namespace PrivateChannels.Core

open Listing Reordering
open scoped List

variable {κ : Type*} {txs : List (Transaction κ)} {graph : DependencyGraph κ}
  {order : ℕ → List ℕ} {batches : List (List (TransactionWithIndex κ))} {i j : ℕ}

/-- One is in a batch and the other in an earlier one. -/
def Before (batches : List (List (TransactionWithIndex κ))) (i j : ℕ) : Prop :=
  ∃ front batch back, batches = front ++ batch :: back ∧ Placed front i ∧
    ∃ entry ∈ batch, entry.index = j

theorem Placed.split (h : Placed batches i) :
    ∃ front batch back, batches = front ++ batch :: back ∧ ∃ entry ∈ batch, entry.index = i := by
  obtain ⟨entry, he, hi⟩ := h
  obtain ⟨batch, hbatch, hmem⟩ := List.mem_flatten.mp he
  obtain ⟨front, back, rfl⟩ := List.append_of_mem hbatch
  exact ⟨front, batch, back, rfl, entry, hmem, hi⟩

theorem Before.placed (h : Before batches i j) : Placed batches i := by
  obtain ⟨front, batch, back, rfl, ⟨entry, he, hi⟩, _⟩ := h
  exact ⟨entry, by simp [List.flatten_append, he], hi⟩

theorem Ordered.front {front back : List (List (TransactionWithIndex κ))}
    (h : Ordered graph (front ++ back)) : Ordered graph front := by
  intro first batch rest heq
  exact h first batch (rest ++ back) (by rw [heq, List.append_assoc, List.cons_append])

variable {a b : Transaction κ}

/-- Conflicting transactions stay in the order of the list. -/
theorem Ordered.before (hg : GraphOk txs graph) (hordered : Ordered graph batches)
    (hplaced : Placed batches j) (hlt : i < j) (ha : txs[i]? = some a) (hb : txs[j]? = some b)
    (hconflict : Conflicts a b) : Before batches i j := by
  induction j using Nat.strong_induction_on generalizing batches b with
  | _ j ih =>
    obtain ⟨front, batch, back, rfl, entry, he, rfl⟩ := hplaced.split
    have hdeps := (hordered front batch back rfl).2 entry he
    refine ⟨front, batch, back, rfl, ?_, entry, he, rfl⟩
    rcases hg.reached i _ a b hlt ha hb hconflict with hdep | ⟨l, c, hil, hdep, hc, hac⟩
    · exact hdeps i hdep
    · exact (ih l (hg.earlier l _ hdep).1 hordered.front (hdeps l hdep) hil hc hac).placed

section Fuel

variable [DecidableEq κ]

/-- More fuel does not change a batch. -/
theorem fillBatch_mono {fuel more : ℕ} (hle : fuel ≤ more) {state filled : BatchState κ}
    (h : fillBatch graph order txs fuel state = some filled) :
    fillBatch graph order txs more state = some filled := by
  induction fuel generalizing more state with
  | zero => simp [fillBatch] at h
  | succ fuel ih =>
    obtain ⟨more, rfl⟩ := Nat.exists_eq_add_of_le' (Nat.succ_pos fuel |>.trans_le hle)
    rw [fillBatch] at h ⊢
    split at h
    · exact h
    · split at h
      · cases h
      · exact ih (by omega) h

variable {state : ScheduleState κ}

theorem nextBatch_mono {fuel more : ℕ} (hle : fuel ≤ more)
    {result : ScheduleState κ × Bool} (h : nextBatch graph order txs fuel state = some result) :
    nextBatch graph order txs more state = some result := by
  unfold nextBatch at h ⊢
  cases hfill : fillBatch graph order txs fuel
    ⟨[], ∅, ∅, [], state.processed, state.readyQueue⟩ with
  | none => simp [hfill] at h
  | some filled =>
    rw [hfill] at h
    rw [fillBatch_mono hle hfill]
    exact h

/-- More fuel does not change the batches. -/
theorem scheduleLoop_mono {fuel more : ℕ} (hle : fuel ≤ more) {final : ScheduleState κ}
    (h : scheduleLoop graph order txs fuel state = some final) :
    scheduleLoop graph order txs more state = some final := by
  induction fuel generalizing more state with
  | zero => simp [scheduleLoop] at h
  | succ fuel ih =>
    obtain ⟨more, rfl⟩ := Nat.exists_eq_add_of_le' (Nat.succ_pos fuel |>.trans_le hle)
    rw [scheduleLoop] at h ⊢
    split at h
    · next hleft =>
      rw [if_pos hleft]
      cases hnext : nextBatch graph order txs (fuel + 1) state with
      | none => simp [hnext] at h
      | some result =>
        obtain ⟨next, stop⟩ := result
        rw [hnext] at h
        rw [nextBatch_mono hle hnext]
        cases stop with
        | false => exact ih (by omega) h
        | true => exact h
    · next hdone =>
      rw [if_neg hdone]
      exact h

end Fuel

/-- Before the first batch. -/
theorem initial_inv (graph : DependencyGraph κ) (txs : List (Transaction κ)) :
    ScheduleInv graph txs ⟨[], ∅, (List.range txs.length).filter fun i =>
      graph.transactionDependencies i = ∅, 0⟩ := by
  refine ⟨⟨nofun, by simp, .nil, by simp, by simp, .nil, nofun, fun i hi => ?_,
    fun i hi _ hdeps => ?_, fun _ => rfl⟩, ?_, rfl⟩
  · simp only [List.append_nil, List.mem_filter, List.mem_range, decide_eq_true_eq] at hi
    exact ⟨hi.1, hi.2.subset⟩
  · simpa using ⟨hi, Finset.subset_empty.mp hdeps⟩
  · intro front batch back heq
    simp at heq

/-- With everything processed each index stands in the batches once. -/
theorem ScheduleInv.indices (h : ScheduleInv graph txs state)
    (hall : txs.length ≤ state.processed.card) :
    state.batches.flatten.map (·.index) ~ List.range txs.length := by
  have hprocessed : state.processed = Finset.range txs.length :=
    Finset.eq_of_subset_of_card_le h.pass.processed_subset (by simpa using hall)
  have hnodup := h.pass.nodup
  rw [List.append_nil] at hnodup
  refine (List.perm_ext_iff_of_nodup hnodup List.nodup_range).mpr fun i => ?_
  have hiff := h.pass.processed i
  rw [List.append_nil] at hiff
  rw [List.mem_range, List.mem_map, ← hiff]
  simp [hprocessed]

/-- Each transaction is in one batch. -/
theorem ScheduleInv.transactions (h : ScheduleInv graph txs state)
    (hall : txs.length ≤ state.processed.card) :
    state.batches.flatten.map (·.transaction) ~ txs := by
  have hindexed : (state.batches.flatten.map (·.index)).map (fun i => txs[i]?) =
      (state.batches.flatten.map (·.transaction)).map some := by
    rw [List.map_map, List.map_map]
    refine List.map_congr_left fun entry he => ?_
    exact h.pass.indexed entry (List.mem_append_left _ he)
  have hrange : (List.range txs.length).map (fun i => txs[i]?) = txs.map some := by
    refine List.ext_getElem? fun i => ?_
    by_cases hi : i < txs.length
    · simp [hi]
    · simp [hi]
  have hperm := (h.indices hall).map fun i => txs[i]?
  rw [hindexed, hrange] at hperm
  exact (List.map_perm_map_iff (Option.some_injective _)).mp hperm

/-- `schedule` returns, without its search for a cycle. -/
theorem schedule_returns [DecidableEq κ] (txs : List (Transaction κ)) (order : ℕ → List ℕ)
    (hiter : Iterates order (buildDependencyGraph txs)) :
    ∃ state : ScheduleState κ, ScheduleInv (buildDependencyGraph txs) txs state ∧
      txs.length ≤ state.processed.card ∧
      ∀ fuel, (txs.length + 2) * (txs.length + 2) ≤ fuel →
        schedule order fuel txs = some (state.batches, 0) := by
  have hg := buildDependencyGraph_ok txs
  have hinit := initial_inv (buildDependencyGraph txs) txs
  cases txs with
  | nil => exact ⟨_, hinit, Nat.zero_le _, fun fuel _ => rfl⟩
  | cons tx rest =>
    have hready : ((List.range (tx :: rest).length).filter fun i =>
        (buildDependencyGraph (tx :: rest)).transactionDependencies i = ∅).length ≤
        (tx :: rest).length := (List.length_filter_le _ _).trans_eq List.length_range
    have hbound : ((tx :: rest).length + 2) * ((tx :: rest).length + 2) =
        (tx :: rest).length * ((tx :: rest).length + 1) + 3 * (tx :: rest).length + 4 := by ring
    obtain ⟨final, hloop, hfinal, hall⟩ := scheduleLoop_inv hg hiter hinit
      (show _ < ((tx :: rest).length + 2) * ((tx :: rest).length + 2) by
        simp only [work, Finset.card_empty, Nat.sub_zero]
        omega)
    refine ⟨final, hfinal, hall, fun fuel hfuel => ?_⟩
    simp only [schedule, List.isEmpty_cons, Bool.false_eq_true, if_false,
      scheduleLoop_mono hfuel hloop, Option.map_some, hfinal.fallbacks]

section Execution

variable {ν : Type*}

/-- A step writes only the keys its transaction writes, from the keys it lists. -/
structure Confined (step : (κ → ν) → κ → ν) (tx : Transaction κ) : Prop where
  frame : ∀ m key, key ∉ tx.writeAccounts → step m key = m key
  listed : ∀ m m', (∀ key, key ∈ tx.readAccounts ∨ key ∈ tx.writeAccounts → m key = m' key) →
    ∀ key ∈ tx.writeAccounts, step m key = step m' key

/-- Without a conflict a step does not see the other one. -/
theorem Confined.unseen {f g : (κ → ν) → κ → ν} (hf : Confined f a) (hg : Confined g b)
    (hfree : ¬ Conflicts a b) (m : κ → ν) {key : κ} (hkey : key ∈ a.writeAccounts) :
    f (g m) key = g (f m) key := by
  have hout : key ∉ b.writeAccounts := fun hb => hfree ⟨key, .inl ⟨hkey, .inl hb⟩⟩
  rw [hg.frame (f m) key hout]
  refine hf.listed (g m) m (fun other hother => hg.frame m other fun hb => ?_) key hkey
  rcases hother with hreads | hwrites
  · exact hfree ⟨other, .inr ⟨hreads, hb⟩⟩
  · exact hfree ⟨other, .inl ⟨hwrites, .inl hb⟩⟩

theorem Confined.commute {f g : (κ → ν) → κ → ν} (hf : Confined f a) (hg : Confined g b)
    (hfree : ¬ Conflicts a b) (m : κ → ν) : g (f m) = f (g m) := by
  ext key
  by_cases ha : key ∈ a.writeAccounts
  · exact (hf.unseen hg hfree m ha).symm
  by_cases hb : key ∈ b.writeAccounts
  · exact hg.unseen hf (fun h => hfree h.symm) m hb
  rw [hg.frame _ key hb, hf.frame _ key ha, hf.frame _ key ha, hg.frame _ key hb]

/-- `runs` executes each batch in an order of its own. -/
def Executes (runs : List (List ℕ)) (batches : List (List (TransactionWithIndex κ))) : Prop :=
  List.Forall₂ (fun run batch => run ~ batch.map (·.index)) runs batches

variable {runs : List (List ℕ)}

theorem Executes.perm (h : Executes runs batches) :
    runs.flatten ~ batches.flatten.map (·.index) := by
  induction h with
  | nil => rfl
  | cons hrun _ ih =>
    rw [List.flatten_cons, List.flatten_cons, List.map_append]
    exact hrun.append ih

/-- Earlier batches run earlier. -/
theorem Executes.precedes (h : Executes runs batches)
    (hbefore : Before batches i j) : Precedes runs.flatten i j := by
  obtain ⟨front, batch, back, rfl, ⟨entry, he, rfl⟩, later, hlater, rfl⟩ := hbefore
  have hfront : Executes (runs.take front.length) front := List.forall₂_take_append _ _ _ h
  have hback : Executes (runs.drop front.length) (batch :: back) :=
    List.forall₂_drop_append _ _ _ h
  have hi : entry.index ∈ (runs.take front.length).flatten :=
    hfront.perm.mem_iff.mpr (List.mem_map_of_mem he)
  have hj : later.index ∈ (runs.drop front.length).flatten :=
    hback.perm.mem_iff.mpr (List.mem_map_of_mem (by simp [hlater]))
  rw [← List.take_append_drop front.length runs, List.flatten_append]
  exact (List.singleton_sublist.mpr hi).append (List.singleton_sublist.mpr hj)

/-- Orders that keep conflicting transactions apart compute the same. -/
theorem Executes.foldl_eq (h : Executes runs batches)
    (hperm : batches.flatten.map (·.index) ~ List.range txs.length)
    (hbefore : ∀ i j a b, i < j → txs[i]? = some a → txs[j]? = some b → Conflicts a b →
      Before batches i j)
    {step : ℕ → (κ → ν) → κ → ν} (hstep : ∀ i tx, txs[i]? = some tx → Confined (step i) tx)
    (m : κ → ν) :
    runs.flatten.foldl (fun m i => step i m) m =
      (List.range txs.length).foldl (fun m i => step i m) m := by
  refine foldl_reorder List.nodup_range (h.perm.trans hperm) (fun i j hij => ?_) m
  have hlt : i < j := by
    have hpairs := List.pairwise_lt_range.sublist hij
    simpa using hpairs
  have hj : j < txs.length := List.mem_range.mp hij.mem
  have ha : txs[i]? = some txs[i] := List.getElem?_eq_getElem _
  have hb : txs[j]? = some txs[j] := List.getElem?_eq_getElem _
  by_cases hconflict : Conflicts txs[i] txs[j]
  · exact .inl (h.precedes (hbefore i j _ _ hlt ha hb hconflict))
  · exact .inr fun m => (hstep i _ ha).commute (hstep j _ hb) hconflict m

end Execution

/-- `schedule` returns, each transaction in one batch; batches are free of conflicts and
conflicting transactions keep the order of the list. Running the batches, each in any order, is
running the list. -/
theorem schedule_is_serial [DecidableEq κ] (txs : List (Transaction κ)) (order : ℕ → List ℕ)
    (hiter : Iterates order (buildDependencyGraph txs)) :
    ∃ batches : List (List (TransactionWithIndex κ)),
      (∀ fuel, (txs.length + 2) * (txs.length + 2) ≤ fuel →
        schedule order fuel txs = some (batches, 0)) ∧
      batches.flatten.map (·.transaction) ~ txs ∧
      batches.flatten.map (·.index) ~ List.range txs.length ∧
      (∀ entry ∈ batches.flatten, txs[entry.index]? = some entry.transaction) ∧
      (∀ batch ∈ batches, batch.Pairwise fun a b => ¬ Conflicts a.transaction b.transaction) ∧
      (∀ i j a b, i < j → txs[i]? = some a → txs[j]? = some b → Conflicts a b →
        Before batches i j) ∧
      ∀ (ν : Type*) (step : ℕ → (κ → ν) → κ → ν),
        (∀ i tx, txs[i]? = some tx → Confined (step i) tx) →
        ∀ (runs : List (List ℕ)), Executes runs batches → ∀ m,
          runs.flatten.foldl (fun m i => step i m) m =
            (List.range txs.length).foldl (fun m i => step i m) m := by
  obtain ⟨final, hfinal, hall, hreturns⟩ := schedule_returns txs order hiter
  have hbefore : ∀ i j a b, i < j → txs[i]? = some a → txs[j]? = some b → Conflicts a b →
      Before final.batches i j := by
    intro i j a b hlt ha hb hconflict
    have hplaced : Placed final.batches j := by
      have hj : j < txs.length := (List.getElem?_eq_some_iff.mp hb).1
      have hmem := (hfinal.indices hall).mem_iff.mpr (List.mem_range.mpr hj)
      exact List.mem_map.mp hmem
    exact hfinal.ordered.before (buildDependencyGraph_ok txs) hplaced hlt ha hb hconflict
  refine ⟨final.batches, hreturns, hfinal.transactions hall, hfinal.indices hall,
    fun entry he => ?_, fun batch hbatch => ?_, hbefore, fun ν step hstep runs hruns m => ?_⟩
  · exact hfinal.pass.indexed entry (List.mem_append_left _ he)
  · obtain ⟨front, back, heq⟩ := List.append_of_mem hbatch
    exact (hfinal.ordered front batch back heq).1
  · exact hruns.foldl_eq (hfinal.indices hall) hbefore hstep m

/-- Two transfers through account `1`, and one apart from them. -/
def transfers : List (Transaction ℕ) := [⟨[9], [0, 1]⟩, ⟨[9], [1, 2]⟩, ⟨[9], [3, 4, 3]⟩]

example : schedule (fun i => if i = 0 then [1] else []) 25 transfers =
    some ([[⟨⟨[9], [0, 1]⟩, 0⟩, ⟨⟨[9], [3, 4, 3]⟩, 2⟩], [⟨⟨[9], [1, 2]⟩, 1⟩]], 0) := by decide

/-- Two transfers through one account. -/
theorem schedule_is_serial_transfers :
    ∃ batches, schedule (fun i => ((buildDependencyGraph transfers).transactionDependents i).sort)
        25 transfers = some (batches, 0) ∧
      Before batches 0 1 := by
  have hserial := schedule_is_serial.{0, 0} transfers
    (fun i => ((buildDependencyGraph transfers).transactionDependents i).sort)
    ⟨fun i => Finset.sort_nodup _ _, fun i j => Finset.mem_sort _⟩
  obtain ⟨batches, hreturns, _, _, _, _, hbefore, _⟩ := hserial
  refine ⟨batches, hreturns 25 (by decide), ?_⟩
  exact hbefore 0 1 ⟨[9], [0, 1]⟩ ⟨[9], [1, 2]⟩ (by decide) rfl rfl
    ⟨1, .inl ⟨by decide, .inl (by decide)⟩⟩

end PrivateChannels.Core
