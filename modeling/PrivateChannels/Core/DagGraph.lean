import PrivateChannels.Core.DagScheduler

/-!
# What the dependency graph records

A transaction waits for some of the earlier transactions it conflicts with, and every
other one is reached through a later writer it waits for.
-/

namespace PrivateChannels.Core

variable {κ : Type*} {graph : DependencyGraph κ}

/-- One of the two writes a key the other reads or writes. -/
def Conflicts (a b : Transaction κ) : Prop :=
  ∃ key, (key ∈ a.writeAccounts ∧ (key ∈ b.writeAccounts ∨ key ∈ b.readAccounts)) ∨
    (key ∈ a.readAccounts ∧ key ∈ b.writeAccounts)

theorem Conflicts.symm {a b : Transaction κ} (h : Conflicts a b) : Conflicts b a := by
  obtain ⟨key, ⟨ha, hb | hb⟩ | ⟨ha, hb⟩⟩ := h
  · exact ⟨key, .inl ⟨hb, .inl ha⟩⟩
  · exact ⟨key, .inr ⟨hb, ha⟩⟩
  · exact ⟨key, .inl ⟨hb, .inr ha⟩⟩

variable {txs : List (Transaction κ)} {tx : Transaction κ} {i : ℕ}

theorem getElem?_snoc {other : Transaction κ} :
    (txs ++ [tx])[i]? = some other ↔ txs[i]? = some other ∨ (i = txs.length ∧ other = tx) := by
  rw [List.getElem?_append]
  split
  · next hi => simp [hi.ne]
  · next hi =>
    rw [List.getElem?_eq_none (not_lt.mp hi)]
    rcases Nat.lt_or_ge txs.length i with hgt | hle
    · rw [List.getElem?_eq_none (by simp; omega)]
      simp [hgt.ne']
    · obtain rfl : i = txs.length := le_antisymm hle (not_lt.mp hi)
      simp [eq_comm]

theorem exists_snoc {P : Transaction κ → Prop} :
    (∃ other, (txs ++ [tx])[i]? = some other ∧ P other) ↔
      (∃ other, txs[i]? = some other ∧ P other) ∨ (i = txs.length ∧ P tx) := by
  simp only [getElem?_snoc, or_and_right, exists_or, and_assoc, exists_and_left, exists_eq_left]

variable [DecidableEq κ]

/-- The locks after these transactions: the readers of each key and its last writer. -/
structure LocksOk (txs : List (Transaction κ)) (locks : κ → AccountLocks) : Prop where
  readers : ∀ key i, i ∈ (locks key).readLocks ↔ ∃ tx, txs[i]? = some tx ∧ key ∈ tx.readAccounts
  writer : ∀ key i, (locks key).writeLock = some i →
    ∃ tx, txs[i]? = some tx ∧ key ∈ tx.writeAccounts
  last : ∀ key i tx, txs[i]? = some tx → key ∈ tx.writeAccounts →
    ∃ l, (locks key).writeLock = some l ∧ i ≤ l

theorem mem_waitForWriter {txIndex : ℕ} {locks : AccountLocks} {deps : Finset ℕ} :
    i ∈ waitForWriter txIndex locks deps ↔
      i ∈ deps ∨ (locks.writeLock = some i ∧ i ≠ txIndex) := by
  unfold waitForWriter
  cases hlock : locks.writeLock with
  | none => simp
  | some j =>
    by_cases hj : j = txIndex
    · simp only [hj, ne_eq, not_true, if_false, Option.some.injEq]
      constructor
      · exact .inl
      · rintro (hi | ⟨rfl, hne⟩)
        · exact hi
        · exact absurd rfl hne
    · simp only [ne_eq, hj, not_false_eq_true, if_true, Finset.mem_insert, Option.some.injEq]
      constructor
      · rintro (rfl | hi)
        · exact .inr ⟨rfl, hj⟩
        · exact .inl hi
      · rintro (hi | ⟨rfl, _⟩)
        · exact .inr hi
        · exact .inl rfl

/-- The write locks taken, and everyone waited for: each key's readers and last writer. -/
theorem foldl_lockWrite (txIndex : ℕ) (accounts : List κ) (locks : κ → AccountLocks)
    (deps : Finset ℕ) :
    (∀ key, (accounts.foldl (lockWrite txIndex) (locks, deps)).1 key =
      if key ∈ accounts then { locks key with writeLock := some txIndex } else locks key) ∧
    ∀ i, i ∈ (accounts.foldl (lockWrite txIndex) (locks, deps)).2 ↔
      i ∈ deps ∨ ∃ key ∈ accounts, i ∈ (locks key).readLocks ∨
        ((locks key).writeLock = some i ∧ i ≠ txIndex) := by
  induction accounts generalizing locks deps with
  | nil => simp
  | cons account accounts ih =>
    obtain ⟨hlocks, hdeps⟩ := ih (lockWrite txIndex (locks, deps) account).1
      (lockWrite txIndex (locks, deps) account).2
    refine ⟨fun key => ?_, fun i => ?_⟩
    · rw [List.foldl_cons, hlocks key]
      by_cases hkey : key = account
      · subst hkey
        by_cases hmem : key ∈ accounts <;> simp [lockWrite, hmem]
      · by_cases hmem : key ∈ accounts <;> simp [lockWrite, hmem, hkey]
    · rw [List.foldl_cons, hdeps i]
      simp only [lockWrite, mem_waitForWriter, Finset.mem_union, List.mem_cons, exists_eq_or_imp]
      constructor
      · rintro (((hi | hi) | hi) | ⟨key, hkey, hi⟩)
        · exact .inl hi
        · exact .inr (.inl (.inl hi))
        · exact .inr (.inl (.inr hi))
        · by_cases heq : key = account
          · subst heq
            simp only [Function.update_self, Option.some.injEq] at hi
            rcases hi with hi | ⟨rfl, hne⟩
            · exact .inr (.inl (.inl hi))
            · exact absurd rfl hne
          · rw [Function.update_of_ne heq] at hi
            exact .inr (.inr ⟨key, hkey, hi⟩)
      · rintro (hi | (hi | hi) | ⟨key, hkey, hi⟩)
        · exact .inl (.inl (.inl hi))
        · exact .inl (.inl (.inr hi))
        · exact .inl (.inr hi)
        · by_cases heq : key = account
          · subst heq
            rcases hi with hi | hi
            · exact .inl (.inl (.inr hi))
            · exact .inl (.inr hi)
          · exact .inr ⟨key, hkey, by rwa [Function.update_of_ne heq]⟩

/-- The read locks taken, and the writers waited for. -/
theorem foldl_lockRead (txIndex : ℕ) (accounts : List κ) (locks : κ → AccountLocks)
    (deps : Finset ℕ) :
    (∀ key, (accounts.foldl (lockRead txIndex) (locks, deps)).1 key =
      if key ∈ accounts then { locks key with readLocks := insert txIndex (locks key).readLocks }
      else locks key) ∧
    ∀ i, i ∈ (accounts.foldl (lockRead txIndex) (locks, deps)).2 ↔
      i ∈ deps ∨ ∃ key ∈ accounts, (locks key).writeLock = some i ∧ i ≠ txIndex := by
  induction accounts generalizing locks deps with
  | nil => simp
  | cons account accounts ih =>
    obtain ⟨hlocks, hdeps⟩ := ih (lockRead txIndex (locks, deps) account).1
      (lockRead txIndex (locks, deps) account).2
    refine ⟨fun key => ?_, fun i => ?_⟩
    · rw [List.foldl_cons, hlocks key]
      by_cases hkey : key = account
      · subst hkey
        by_cases hmem : key ∈ accounts <;> simp [lockRead, hmem]
      · by_cases hmem : key ∈ accounts <;> simp [lockRead, hmem, hkey]
    · rw [List.foldl_cons, hdeps i]
      have hsame : ∀ key, ((lockRead txIndex (locks, deps) account).1 key).writeLock =
          (locks key).writeLock := by
        intro key
        by_cases hkey : key = account
        · subst hkey
          simp [lockRead]
        · simp [lockRead, hkey]
      simp only [hsame]
      simp only [lockRead, mem_waitForWriter, List.mem_cons, exists_eq_or_imp, or_assoc]

/-- Whom a new transaction waits for. -/
theorem mem_addTransaction_dependencies (hlocks : LocksOk txs graph.accountLocks) :
    i ∈ (addTransaction graph (tx, txs.length)).transactionDependencies txs.length ↔
      (∃ key ∈ tx.writeAccounts, i ∈ (graph.accountLocks key).readLocks) ∨
        ∃ key, (key ∈ tx.writeAccounts ∨ key ∈ tx.readAccounts) ∧
          (graph.accountLocks key).writeLock = some i := by
  obtain ⟨hwlocks, hwdeps⟩ := foldl_lockWrite txs.length tx.writeAccounts graph.accountLocks ∅
  obtain ⟨_, hrdeps⟩ := foldl_lockRead txs.length tx.readAccounts
    (tx.writeAccounts.foldl (lockWrite txs.length) (graph.accountLocks, ∅)).1
    (tx.writeAccounts.foldl (lockWrite txs.length) (graph.accountLocks, ∅)).2
  have hlt : ∀ {key j}, (graph.accountLocks key).writeLock = some j → j ≠ txs.length := by
    rintro key j hj rfl
    obtain ⟨tx', hget, _⟩ := hlocks.writer key _ hj
    simp at hget
  simp only [addTransaction, Function.update_self]
  rw [hrdeps i, hwdeps i]
  constructor
  · rintro ((hi | ⟨key, hkey, hi | ⟨hi, _⟩⟩) | ⟨key, hkey, hi, hne⟩)
    · simp at hi
    · exact .inl ⟨key, hkey, hi⟩
    · exact .inr ⟨key, .inl hkey, hi⟩
    · rw [hwlocks key] at hi
      split at hi
      · exact absurd (Option.some.inj hi).symm hne
      · exact .inr ⟨key, .inr hkey, hi⟩
  · rintro (⟨key, hkey, hi⟩ | ⟨key, hkey, hi⟩)
    · exact .inl (.inr ⟨key, hkey, .inl hi⟩)
    · by_cases hwrites : key ∈ tx.writeAccounts
      · exact .inl (.inr ⟨key, hwrites, .inr ⟨hi, hlt hi⟩⟩)
      · refine .inr ⟨key, hkey.resolve_left hwrites, ?_, hlt hi⟩
        rw [hwlocks key, if_neg hwrites]
        exact hi

/-- The locks after one more transaction. -/
theorem LocksOk.add (h : LocksOk txs graph.accountLocks) :
    LocksOk (txs ++ [tx]) (addTransaction graph (tx, txs.length)).accountLocks := by
  obtain ⟨hwlocks, _⟩ := foldl_lockWrite txs.length tx.writeAccounts graph.accountLocks ∅
  obtain ⟨hrlocks, _⟩ := foldl_lockRead txs.length tx.readAccounts
    (tx.writeAccounts.foldl (lockWrite txs.length) (graph.accountLocks, ∅)).1
    (tx.writeAccounts.foldl (lockWrite txs.length) (graph.accountLocks, ∅)).2
  have hreaders : ∀ key, ((addTransaction graph (tx, txs.length)).accountLocks key).readLocks =
      if key ∈ tx.readAccounts then insert txs.length (graph.accountLocks key).readLocks
      else (graph.accountLocks key).readLocks := by
    intro key
    simp only [addTransaction]
    rw [hrlocks key, hwlocks key]
    split_ifs <;> rfl
  have hwriter : ∀ key, ((addTransaction graph (tx, txs.length)).accountLocks key).writeLock =
      if key ∈ tx.writeAccounts then some txs.length else (graph.accountLocks key).writeLock := by
    intro key
    simp only [addTransaction]
    rw [hrlocks key, hwlocks key]
    split_ifs <;> rfl
  refine ⟨fun key i => ?_, fun key i hi => ?_, fun key i other hi hkey => ?_⟩
  · rw [hreaders key, exists_snoc, ← h.readers key i]
    split
    · next hkey => rw [Finset.mem_insert, or_comm, and_iff_left hkey]
    · next hkey => simp [hkey]
  · rw [hwriter key] at hi
    split at hi
    · next hkey =>
      cases hi
      exact ⟨tx, getElem?_snoc.mpr (.inr ⟨rfl, rfl⟩), hkey⟩
    · obtain ⟨other, hother, hwrites⟩ := h.writer key i hi
      exact ⟨other, getElem?_snoc.mpr (.inl hother), hwrites⟩
  · rw [hwriter key]
    rcases getElem?_snoc.mp hi with hother | ⟨rfl, rfl⟩
    · split
      · exact ⟨txs.length, rfl, (List.getElem?_eq_some_iff.mp hother).1.le⟩
      · exact h.last key i other hother hkey
    · rw [if_pos hkey]
      exact ⟨txs.length, rfl, le_rfl⟩

/-- The graph after these transactions. -/
structure GraphOk (txs : List (Transaction κ)) (graph : DependencyGraph κ) : Prop where
  locks : LocksOk txs graph.accountLocks
  earlier : ∀ i j, i ∈ graph.transactionDependencies j →
    i < j ∧ ∃ a b, txs[i]? = some a ∧ txs[j]? = some b ∧ Conflicts a b
  /-- A conflict that is not waited for is with the elder of a writer that is. -/
  reached : ∀ i j a b, i < j → txs[i]? = some a → txs[j]? = some b → Conflicts a b →
    i ∈ graph.transactionDependencies j ∨
      ∃ l c, i < l ∧ l ∈ graph.transactionDependencies j ∧ txs[l]? = some c ∧ Conflicts a c
  dependents : ∀ i j, j ∈ graph.transactionDependents i ↔ i ∈ graph.transactionDependencies j

/-- Only conflicts are waited for. -/
theorem LocksOk.conflict_of_dependency (h : LocksOk txs graph.accountLocks)
    (hi : i ∈ (addTransaction graph (tx, txs.length)).transactionDependencies txs.length) :
    ∃ a, txs[i]? = some a ∧ Conflicts a tx := by
  rcases (mem_addTransaction_dependencies h).mp hi with ⟨key, hkey, hi⟩ | ⟨key, hkey, hi⟩
  · obtain ⟨a, ha, hreads⟩ := (h.readers key i).mp hi
    exact ⟨a, ha, key, .inr ⟨hreads, hkey⟩⟩
  · obtain ⟨a, ha, hwrites⟩ := h.writer key i hi
    exact ⟨a, ha, key, .inl ⟨hwrites, hkey⟩⟩

/-- Every earlier conflict is waited for. -/
theorem LocksOk.dependency_of_conflict {a : Transaction κ}
    (h : LocksOk txs graph.accountLocks) (ha : txs[i]? = some a) (hconflict : Conflicts a tx) :
    i ∈ (addTransaction graph (tx, txs.length)).transactionDependencies txs.length ∨
      ∃ l c, i < l ∧
        l ∈ (addTransaction graph (tx, txs.length)).transactionDependencies txs.length ∧
        txs[l]? = some c ∧ Conflicts a c := by
  rw [mem_addTransaction_dependencies h]
  obtain ⟨key, ⟨hwrites, hkey⟩ | ⟨hreads, hkey⟩⟩ := hconflict
  · obtain ⟨l, hl, hle⟩ := h.last key i a ha hwrites
    rcases hle.lt_or_eq with hlt | rfl
    · obtain ⟨c, hc, hwrites'⟩ := h.writer key l hl
      refine .inr ⟨l, c, hlt, ?_, hc, key, .inl ⟨hwrites, .inl hwrites'⟩⟩
      exact (mem_addTransaction_dependencies h).mpr (.inr ⟨key, hkey, hl⟩)
    · exact .inl (.inr ⟨key, hkey, hl⟩)
  · exact .inl (.inl ⟨key, hkey, (h.readers key i).mpr ⟨a, ha, hreads⟩⟩)

theorem addTransaction_dependencies_of_ne {j n : ℕ} (hj : j ≠ n) :
    (addTransaction graph (tx, n)).transactionDependencies j =
      graph.transactionDependencies j := by
  simp [addTransaction, hj]

theorem mem_addTransaction_dependents {j n : ℕ} :
    j ∈ (addTransaction graph (tx, n)).transactionDependents i ↔
      (j = n ∧ i ∈ (addTransaction graph (tx, n)).transactionDependencies n) ∨
        j ∈ graph.transactionDependents i := by
  simp only [addTransaction, Function.update_self]
  split
  · next hi => simp [hi]
  · next hi => simp [hi]

/-- One more transaction in the graph. -/
theorem GraphOk.add (h : GraphOk txs graph) :
    GraphOk (txs ++ [tx]) (addTransaction graph (tx, txs.length)) := by
  have hlt : ∀ {i a}, txs[i]? = some a → i < txs.length :=
    fun hget => (List.getElem?_eq_some_iff.mp hget).1
  refine ⟨h.locks.add, fun i j hi => ?_, fun i j a b hij ha hb hconflict => ?_, fun i j => ?_⟩
  · by_cases hj : j = txs.length
    · subst hj
      obtain ⟨a, ha, hconflict⟩ := h.locks.conflict_of_dependency hi
      exact ⟨hlt ha, a, tx, getElem?_snoc.mpr (.inl ha), getElem?_snoc.mpr (.inr ⟨rfl, rfl⟩),
        hconflict⟩
    · rw [addTransaction_dependencies_of_ne hj] at hi
      obtain ⟨hij, a, b, ha, hb, hconflict⟩ := h.earlier i j hi
      exact ⟨hij, a, b, getElem?_snoc.mpr (.inl ha), getElem?_snoc.mpr (.inl hb), hconflict⟩
  · rcases getElem?_snoc.mp hb with hb | ⟨rfl, rfl⟩
    · have hj := hlt hb
      have ha : txs[i]? = some a :=
        (getElem?_snoc.mp ha).resolve_right fun ⟨hi, _⟩ => by omega
      rw [addTransaction_dependencies_of_ne hj.ne]
      refine (h.reached i j a b hij ha hb hconflict).imp_right ?_
      rintro ⟨l, c, hil, hl, hc, hac⟩
      exact ⟨l, c, hil, hl, getElem?_snoc.mpr (.inl hc), hac⟩
    · have ha : txs[i]? = some a :=
        (getElem?_snoc.mp ha).resolve_right fun ⟨hi, _⟩ => by omega
      refine (h.locks.dependency_of_conflict ha hconflict).imp_right ?_
      rintro ⟨l, c, hil, hl, hc, hac⟩
      exact ⟨l, c, hil, hl, getElem?_snoc.mpr (.inl hc), hac⟩
  · rw [mem_addTransaction_dependents, h.dependents i j]
    by_cases hj : j = txs.length
    · subst hj
      refine ⟨fun hor => hor.elim (·.2) fun hi => ?_, fun hi => .inl ⟨rfl, hi⟩⟩
      obtain ⟨_, _, b, _, hb, _⟩ := h.earlier i _ hi
      exact absurd (hlt hb) (lt_irrefl _)
    · rw [addTransaction_dependencies_of_ne hj]
      simp [hj]

/-- The graph of a whole list. -/
theorem buildDependencyGraph_ok (txs : List (Transaction κ)) :
    GraphOk txs (buildDependencyGraph txs) := by
  induction txs using List.reverseRecOn with
  | nil => exact ⟨⟨by simp [buildDependencyGraph], by simp [buildDependencyGraph], by simp⟩,
      by simp [buildDependencyGraph], by simp, by simp [buildDependencyGraph]⟩
  | append_singleton txs tx ih =>
    have hstep : buildDependencyGraph (txs ++ [tx]) =
        addTransaction (buildDependencyGraph txs) (tx, txs.length) := by
      simp [buildDependencyGraph, List.zipIdx_append]
    rw [hstep]
    exact ih.add

end PrivateChannels.Core
