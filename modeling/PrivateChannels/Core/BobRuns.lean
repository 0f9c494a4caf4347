import PrivateChannels.Core.BobCoherence

/-!
# BOB over whole runs

The three guarantees of the cache in every reachable state. A precompile is served from
memory whatever its row says, and a clean hit survives its own preload only while the two
clock readings are at most an hour apart.
-/

namespace PrivateChannels.Core

open WriteLog

/-- The three guarantees of the cache. -/
structure Coherent (s : CacheSystem) : Prop where
  /-- A key that has just been preloaded is its newest write, or its row if the executor
  never wrote it. -/
  preloaded : ∀ {pubkeys missKeys : List Pubkey} {now later : ℕ}
    {rows : List (Option AccountSharedData)} {s' : CacheSystem},
    s.phase = .fetched pubkeys missKeys now later rows → CacheStep s .finishPreload s' →
    later ≤ now + oldestSyncedAccountAge → ∀ k ∈ pubkeys, s.bob.precompiles k = none →
    s'.bob.getAccountSharedData k = match lastWrite s'.log k with
      | some write => if write.2.lamports = 0 then none else some write.2
      | none => readRow s'.rows k
  /-- A write that is not durable is resident, and only a newer write replaces it. -/
  kept : ∀ k ∈ s.pending, ∃ write, lastWrite s.log k = some write ∧
    s.bob.accounts.lookup k = some (writtenEntry write) ∧
    ∀ {label : CacheLabel} {s' : CacheSystem}, CacheStep s label s' →
      s'.bob.accounts.lookup k = some (writtenEntry write) ∨
        label = .update ∧ ∃ newer : ℕ × AccountSharedData, s.bob.nextGeneration < newer.1 ∧
          lastWrite s'.log k = some newer ∧
          s'.bob.accounts.lookup k = some (writtenEntry newer)
  /-- An entry that counts as clean is its row. -/
  clean : ∀ k entry, s.bob.accounts.lookup k = some entry → entry.syncedSince.isSome →
    entry.deleted = false ∧ readRow s.rows k = some entry.account

/-- The cache is coherent in every run. -/
theorem bob_coherent {precompiles rows : Pubkey → Option AccountSharedData}
    {maxCacheEntries maxCacheBytes : ℕ} {labels : List CacheLabel} {s : CacheSystem}
    (hrun : Run CacheStep (.start precompiles maxCacheEntries maxCacheBytes rows) labels s) :
    Coherent s := by
  have h : CacheInv s := hrun.stateInvariant
    (CacheInv.start precompiles maxCacheEntries maxCacheBytes rows) fun _ _ _ hinv => hinv.step
  refine ⟨fun hphase hstep hclock k hk hordinary => ?_, fun k hk => ?_,
    fun k entry hentry hclean => h.clean_eq_row hentry hclean⟩
  · exact h.preloaded hphase hclock hstep hk hordinary
  · obtain ⟨write, hlast, hentry⟩ := h.pending_entry hk
    exact ⟨write, hlast, hentry, fun hstep => h.pending_kept hstep hk hentry⟩

def wallet (lamports : ℕ) : AccountSharedData := ⟨lamports, [1], 9, false, 0⟩

/-- A transaction that pays from 3, closes 4 and reads 5, and one that failed. -/
def payBatch : ConflictFreeBatch where
  results := [
    (⟨[true, true, false]⟩,
      .ok (.executed ⟨.ok (), [(3, wallet 6), (4, wallet 0), (5, wallet 1)]⟩)),
    (⟨[true]⟩, .ok (.executed ⟨.error (.other 1), [(6, wallet 2)]⟩)),
    (⟨[true]⟩, .error (.other 2))]
  disjoint := by decide

/-- Rows of two accounts. -/
def walletRows : Pubkey → Option AccountSharedData := fun k =>
  if k = 3 then some (wallet 5) else if k = 4 then some (wallet 1) else none

/-- A second payment, from 3 alone. -/
def secondBatch : ConflictFreeBatch where
  results := [(⟨[true]⟩, .ok (.executed ⟨.ok (), [(3, wallet 2)]⟩))]
  disjoint := by decide

/-- The first payment is durable and acknowledged, the second is not. -/
theorem bob_coherent_payment : ∃ labels s,
    Run CacheStep (.start (fun _ => none) 1 1 walletRows) labels s ∧ Coherent s ∧
    s.pending = [3] ∧ ∃ rows, s.phase = .fetched [3, 4] [] 20 21 rows := by
  have h0 : Run CacheStep (.start (fun _ => none) 1 1 walletRows) [] _ := .nil
  have h1 := h0.snoc (@CacheStep.beginPreload _ [3, 4] [3, 4] 0 0 _ rfl rfl)
  have h2 := h1.snoc (.read rfl)
  have h3 := h2.snoc (@CacheStep.finishPreload _ _ _ _ _ _ _ _ [] [] rfl rfl
    (by unfold Bob.CapOrder; decide) rfl (by unfold Bob.ByteOrder; decide))
  have h4 := h3.snoc (@CacheStep.update _ payBatch _ 1 rfl rfl)
  have h5 := h4.snoc (@CacheStep.update _ secondBatch _ 2 rfl rfl)
  have h6 := h5.snoc (@CacheStep.commit _ (stamp payBatch.results 1) _ rfl)
  have h7 := h6.snoc (@CacheStep.publish _ [] [] _ rfl)
  have h8 := h7.snoc (@CacheStep.beginPreload _ [3, 4] [] 20 21 _ rfl rfl)
  have h9 := h8.snoc (.read rfl)
  exact ⟨_, _, h9, bob_coherent h9, by decide, _, rfl⟩

/-- Garbage collection with an empty inbox only counts, until the sweep is due. -/
theorem exists_run_collects {first s : CacheSystem} {labels : List CacheLabel}
    (hrun : Run CacheStep first labels s) (hidle : s.phase = .idle) (hinbox : s.inbox = ∅)
    (n : ℕ) (hn : s.bob.batchesSinceEviction + n < gcEvictionInterval) :
    ∃ labels, Run CacheStep first labels { s with
      bob := { s.bob with batchesSinceEviction := s.bob.batchesSinceEviction + n } } := by
  induction n with
  | zero => exact ⟨labels, hrun⟩
  | succ n ih =>
    obtain ⟨labels, hrun⟩ := ih (by omega)
    obtain ⟨bob, inbox, rows, phase, queue, unpublished, committed⟩ := s
    obtain rfl : inbox = ∅ := hinbox
    obtain rfl : phase = .idle := hidle
    dsimp only at hn hrun ⊢
    have hcollect : ({ bob with
        batchesSinceEviction := bob.batchesSinceEviction + n } : Bob).garbageCollect ∅ 0 =
          { bob with batchesSinceEviction := bob.batchesSinceEviction + (n + 1) } := by
      rw [Bob.garbageCollect, if_neg (by simp only [AList.empty_entries, List.foldl_nil]; omega)]
      rfl
    rw [← hcollect]
    exact ⟨_, hrun.snoc (.garbageCollect rfl)⟩

/-- A precompile answers without a row, and a clean hit is gone when the clock moves on by more
than an hour. -/
theorem preloaded_not_current :
    (∃ labels s s', Run CacheStep (.start (fun k => if k = 7 then some (wallet 1) else none) 8 8
        fun _ => none) labels s ∧
      s.phase = .fetched [7] [] 0 0 [] ∧ CacheStep s .finishPreload s' ∧
      s'.log = [] ∧ s'.rows 7 = none ∧ s'.bob.getAccountSharedData 7 = some (wallet 1)) ∧
    ∃ labels s s', Run CacheStep (.start (fun _ => none) 8 8 walletRows) labels s ∧
      s.phase = .fetched [3] [] 0 3601 [] ∧ CacheStep s .finishPreload s' ∧
      s'.log = [] ∧ s'.rows 3 = some (wallet 5) ∧ s'.bob.getAccountSharedData 3 = none := by
  refine ⟨?_, ?_⟩
  · have h0 : Run CacheStep (.start (fun k => if k = 7 then some (wallet 1) else none) 8 8
      fun _ => none) [] _ := .nil
    have h1 := h0.snoc (@CacheStep.beginPreload _ [7] [] 0 0 _ rfl rfl)
    have h2 := h1.snoc (.read rfl)
    exact ⟨_, _, _, h2, rfl, @CacheStep.finishPreload _ _ _ _ _ _ _ _ [] [] rfl rfl
      (by unfold Bob.CapOrder; decide) rfl (by unfold Bob.ByteOrder; decide), rfl, rfl, rfl⟩
  · have h0 : Run CacheStep (.start (fun _ => none) 8 8 walletRows) [] _ := .nil
    have h1 := h0.snoc (@CacheStep.beginPreload _ [3] [3] 0 0 _ rfl rfl)
    have h2 := h1.snoc (.read rfl)
    have h3 := h2.snoc (@CacheStep.finishPreload _ _ _ _ _ _ _ _ [] [] rfl rfl
      (by unfold Bob.CapOrder; decide) rfl (by unfold Bob.ByteOrder; decide))
    obtain ⟨_, h4⟩ := exists_run_collects h3 rfl rfl 98 (by decide)
    have h5 := h4.snoc (@CacheStep.beginPreload _ [3] [] 0 3601 _ rfl rfl)
    have h6 := h5.snoc (.read rfl)
    exact ⟨_, _, _, h6, rfl, @CacheStep.finishPreload _ _ _ _ _ _ _ _ [] [] rfl rfl
      (by unfold Bob.CapOrder; decide) rfl (by unfold Bob.ByteOrder; decide), rfl, rfl, rfl⟩

end PrivateChannels.Core
