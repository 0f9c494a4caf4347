import PrivateChannels.Core.BobRuns

/-!
# Two derivations of an account

BOB derives the accounts of a batch when it executes, the settler once more when it
commits. The two agree on every key.
-/

namespace PrivateChannels.Core

open WriteLog

/-- BOB after some batches, and the results the settler is handed. -/
def executeBatches (bob : Bob) :
    List (List (MessageAccounts × TransactionProcessingResult)) → Bob × List BufferedResult
  | [] => (bob, [])
  | batch :: batches =>
    let updated := bob.updateAccounts batch
    let rest := executeBatches updated.1 batches
    (rest.1, stamp batch updated.2 ++ rest.2)

/-- The entry BOB keeps of a settled write. -/
def SettledEntry.entry (settled : SettledEntry) : AccountWithMeta :=
  { account := settled.settlement.account
    deleted := settled.settlement.deleted
    syncedSince := none
    generation := some settled.generation }

/-- Of two blocks, the later one decides an account it writes. -/
theorem finalAccounts_append_lookup (earlier later : List BufferedResult) (k : Pubkey) :
    (finalAccounts (earlier ++ later)).lookup k =
      ((finalAccounts later).lookup k).or ((finalAccounts earlier).lookup k) := by
  rw [finalAccounts_lookup, stampedWrites_append, lastWrite_append, Option.map_or,
    ← finalAccounts_lookup, ← finalAccounts_lookup]

/-- BOB holds what the settler derives. -/
theorem executeBatches_lookup (bob : Bob)
    (batches : List (List (MessageAccounts × TransactionProcessingResult))) (k : Pubkey) :
    (executeBatches bob batches).1.accounts.lookup k =
      (((finalAccounts (executeBatches bob batches).2).lookup k).map SettledEntry.entry).or
        (bob.accounts.lookup k) := by
  rw [finalAccounts_lookup]
  induction batches generalizing bob with
  | nil => rfl
  | cons batch batches ih =>
    rw [executeBatches]
    cases hupdate : bob.updateAccounts batch with
    | mk bob' generation =>
      obtain ⟨-, -, -, hlookup⟩ := Bob.updateAccounts_spec hupdate
      rw [ih bob', hlookup k, stampedWrites_append, lastWrite_append, stampedWrites_stamp,
        lastWrite_stamp]
      cases lastWrite (stampedWrites (executeBatches bob' batches).2) k with
      | some write => rfl
      | none => cases lastWrite (batch.flatMap fun tx => writtenAccounts tx.1 tx.2) k <;> rfl

/-- The acknowledgement covers a live entry whose bytes differ. -/
def diverges (bob : Bob) (settled : (_ : Pubkey) × SettledEntry) : Bool :=
  (bob.accounts.lookup settled.1).any fun entry =>
    !settled.2.settlement.deleted && !entry.deleted && Bob.covered entry settled.2.generation &&
      entry.account ≠ settled.2.settlement.account

/-- The drain of `garbage_collect`, with `settlement_divergences`. -/
def drainCounting (now : ℕ) (inbox : SettledInbox) (state : Bob × ℕ) : Bob × ℕ :=
  inbox.entries.foldl (fun state settled => (Bob.acknowledge now state.1 settled,
    if diverges state.1 settled then state.2 + 1 else state.2)) state

/-- An acknowledgement does not reach the entry of another key. -/
theorem drainCounting_snd {now : ℕ} {inbox : SettledInbox} {bob : Bob}
    (h : ∀ k settled, inbox.lookup k = some settled → diverges bob ⟨k, settled⟩ = false) (n : ℕ) :
    (drainCounting now inbox (bob, n)).2 = n := by
  have hkeys := inbox.nodupKeys
  have hagree : ∀ settled ∈ inbox.entries, diverges bob settled = false :=
    fun settled hmem => h _ _ (AList.mem_lookup_iff.mpr hmem)
  clear h
  rw [drainCounting]
  generalize inbox.entries = entries at hagree hkeys
  induction entries generalizing bob with
  | nil => rfl
  | cons settled rest ih =>
    obtain ⟨hfresh, hkeys⟩ := List.nodupKeys_cons.mp hkeys
    rw [List.foldl_cons, hagree settled List.mem_cons_self, if_neg Bool.false_ne_true]
    refine ih (fun other hother => ?_) hkeys
    have hne : other.1 ≠ settled.1 := fun heq => hfresh (heq ▸ List.mem_map_of_mem hother)
    rw [diverges, Bob.acknowledge_lookup_ne bob other.1 settled.1 now settled.2 hne]
    exact hagree other (List.mem_cons_of_mem _ hother)

variable {s : CacheSystem} {bob : Bob}

/-- In a reachable state an acknowledgement that covers an entry is of its bytes. -/
theorem CacheInv.not_diverges (h : CacheInv s) (hbob : Recached s bob) {k : Pubkey}
    {settled : SettledEntry} (hsettled : s.inbox.lookup k = some settled) :
    diverges bob ⟨k, settled⟩ = false := by
  unfold diverges
  cases hentry : bob.accounts.lookup k with
  | none => rfl
  | some entry =>
    cases hbob.entries k entry hentry with
    | @written write _ hlast _ =>
      by_cases hcovered : write.1 ≤ settled.generation
      · have hsettlement := (h.acknowledged hsettled hlast hcovered).2
        simp [writtenEntry, hsettlement]
      · simp [Bob.covered, writtenEntry, hcovered]
    | fetched _ _ => simp [Bob.covered, Bob.fetchedEntry]

/-- Whatever block is cut from the results of some batches, the settler derives BOB's accounts,
and in every reachable state a drain counts no divergence, neither alone nor after the hits of a
preload were refreshed. -/
theorem settlement_agrees {precompiles rows : Pubkey → Option AccountSharedData}
    {maxCacheEntries maxCacheBytes : ℕ} {labels : List CacheLabel}
    (hrun : Run CacheStep (.start precompiles maxCacheEntries maxCacheBytes rows) labels s) :
    (∀ bob batches before block after,
      (executeBatches bob batches).2 = before ++ (block ++ after) → ∀ k,
        (executeBatches bob batches).1.accounts.lookup k =
          (((((finalAccounts after).lookup k).or ((finalAccounts block).lookup k)).or
            ((finalAccounts before).lookup k)).map SettledEntry.entry).or
              (bob.accounts.lookup k)) ∧
    ∀ (count now later : ℕ) (pubkeys : List Pubkey),
      (drainCounting later s.inbox (s.bob, count)).2 = count ∧
      (drainCounting later s.inbox ((pubkeys.foldl (Bob.visitKey now) (s.bob, [])).1, count)).2 =
        count := by
  have h : CacheInv s := hrun.stateInvariant
    (CacheInv.start precompiles maxCacheEntries maxCacheBytes rows) fun _ _ _ hinv => hinv.step
  refine ⟨fun bob batches before block after hqueue k => ?_,
    fun count now later pubkeys => ⟨?_, ?_⟩⟩
  · rw [executeBatches_lookup, hqueue, finalAccounts_append_lookup, finalAccounts_append_lookup]
  · exact drainCounting_snd (fun _ _ hsettled => h.not_diverges h.recached hsettled) count
  · have hsplit := h.recached.split (Bob.Split.start.foldl pubkeys : Bob.Split now s.bob _ _)
    exact drainCounting_snd (fun _ _ hsettled => h.not_diverges hsplit hsettled) count

/-- A payment that the settler has committed and acknowledged; a closed account is a deletion to
both. -/
theorem settlement_agrees_payment : ∃ labels s,
    Run CacheStep (.start (fun _ => none) 8 8 walletRows) labels s ∧ s.inbox.lookup 3 ≠ none ∧
    (drainCounting 0 s.inbox (s.bob, 0)).2 = 0 ∧
    (∀ k, (executeBatches (.new (fun _ => none) 8 8) [payBatch.results]).1.accounts.lookup k =
      ((finalAccounts (stamp payBatch.results 1)).lookup k).map SettledEntry.entry) ∧
    (finalAccounts (stamp payBatch.results 1)).lookup 4 = some ⟨1, .default, true⟩ := by
  have h0 : Run CacheStep (.start (fun _ => none) 8 8 walletRows) [] _ := .nil
  have h1 := h0.snoc (@CacheStep.update _ payBatch _ 1 rfl rfl)
  have h2 := h1.snoc (@CacheStep.commit _ (stamp payBatch.results 1) [] rfl)
  have h3 := h2.snoc (@CacheStep.publish _ [] [] _ rfl)
  obtain ⟨hequal, hcount⟩ := settlement_agrees h3
  refine ⟨_, _, h3, by decide, (hcount 0 0 0 []).1, fun k => ?_, by decide⟩
  have hk := hequal (.new (fun _ => none) 8 8) [payBatch.results] []
    (stamp payBatch.results 1) [] rfl k
  exact hk.trans (Option.or_none.trans (congrArg _ Option.or_none))

end PrivateChannels.Core
