import PrivateChannels.Core.Account

/-!
# BOB, the executor's account cache

BOB keeps the newest state of each account; an entry with no `syncedSince` is ahead of the
database. Metrics counters are left out. Candidates for eviction come from a hash map, so
the order they are visited in is an argument.
-/

namespace PrivateChannels.Core

/-- `OLDEST_SYNCED_ACCOUNT_AGE`, in seconds. -/
def oldestSyncedAccountAge : ℕ := 60 * 60

/-- `GC_EVICTION_INTERVAL`, in preloads. -/
def gcEvictionInterval : ℕ := 100

/-- An entry of the cache. -/
structure AccountWithMeta where
  account : AccountSharedData
  syncedSince : Option ℕ
  deleted : Bool
  generation : Option ℕ
  deriving DecidableEq, Repr

/-- The cache of the executor. -/
structure Bob where
  accounts : AList fun _ : Pubkey => AccountWithMeta
  precompiles : Pubkey → Option AccountSharedData
  batchesSinceEviction : ℕ
  maxCacheEntries : ℕ
  maxCacheBytes : ℕ
  cacheBytes : ℕ
  nextGeneration : ℕ

/-- `BOB::new`, at any caps. -/
def Bob.new (precompiles : Pubkey → Option AccountSharedData) (maxCacheEntries maxCacheBytes : ℕ) :
    Bob :=
  ⟨∅, precompiles, 0, maxCacheEntries, maxCacheBytes, 0, 0⟩

/-- What the settler made of an account. -/
structure AccountSettlement where
  account : AccountSharedData
  deleted : Bool
  deriving DecidableEq, Repr

/-- A settlement and the generation it covers. -/
structure SettledEntry where
  generation : ℕ
  settlement : AccountSettlement
  deriving DecidableEq, Repr

/-- The settlements BOB has not drained yet. -/
abbrev SettledInbox := AList fun _ : Pubkey => SettledEntry

namespace Bob

/-- `note_removed`; `note_added` is the first summand of `insertEntry`. -/
def noteRemoved (bob : Bob) (old : AccountWithMeta) : Bob :=
  { bob with cacheBytes := bob.cacheBytes - old.account.data.length }

def insertEntry (bob : Bob) (pubkey : Pubkey) (entry : AccountWithMeta) : Bob :=
  let added := { bob with
    cacheBytes := bob.cacheBytes + entry.account.data.length
    accounts := bob.accounts.insert pubkey entry }
  match bob.accounts.lookup pubkey with
  | some old => added.noteRemoved old
  | none => added

def removeEntry (bob : Bob) (pubkey : Pubkey) : Bob :=
  match bob.accounts.lookup pubkey with
  | some old => { bob with accounts := bob.accounts.erase pubkey }.noteRemoved old
  | none => bob

/-- A change through `get_mut`, which leaves the bytes alone. -/
def setSyncedSince (bob : Bob) (pubkey : Pubkey) (entry : AccountWithMeta) (now : ℕ) : Bob :=
  { bob with accounts := bob.accounts.insert pubkey { entry with syncedSince := some now } }

def getAccountSharedData (bob : Bob) (pubkey : Pubkey) : Option AccountSharedData :=
  match bob.precompiles pubkey with
  | some precompile => some precompile
  | none =>
    match bob.accounts.lookup pubkey with
    | some entry => if entry.deleted then none else some entry.account
    | none => none

def accountLamports (bob : Bob) (pubkey : Pubkey) : Option ℕ :=
  match bob.precompiles pubkey with
  | some precompile => some precompile.lamports
  | none =>
    ((bob.accounts.lookup pubkey).filter fun entry => !entry.deleted).map (·.account.lamports)

/-- One writable account of a successful transaction. -/
def writeAccount (generation : ℕ) (bob : Bob) (written : Pubkey × AccountSharedData) : Bob :=
  let deleted := written.2.lamports == 0
  bob.insertEntry written.1
    { account := if deleted then .default else written.2
      deleted := deleted
      syncedSince := none
      generation := some generation }

/-- A batch's writes, under one generation. -/
def updateAccounts (bob : Bob) (batch : List (MessageAccounts × TransactionProcessingResult)) :
    Bob × ℕ :=
  let generation := bob.nextGeneration + 1
  (batch.foldl (fun bob tx => (writtenAccounts tx.1 tx.2).foldl (writeAccount generation) bob)
    { bob with nextGeneration := generation }, generation)

/-- The entry holds a write, and the acknowledgement covers it. -/
def covered (entry : AccountWithMeta) (generation : ℕ) : Bool :=
  entry.generation.any (· ≤ generation)

/-- One acknowledgement of the inbox. An entry of other bytes is a divergence and stays dirty. -/
def acknowledge (now : ℕ) (bob : Bob) (settled : (_ : Pubkey) × SettledEntry) : Bob :=
  match bob.accounts.lookup settled.1 with
  | none => bob
  | some entry =>
    if settled.2.settlement.deleted then
      if entry.deleted && covered entry settled.2.generation then bob.removeEntry settled.1 else bob
    else if !entry.deleted && covered entry settled.2.generation then
      if entry.account = settled.2.settlement.account then bob.setSyncedSince settled.1 entry now
      else bob
    else bob

/-- Survives the age sweep. -/
def keepSynced (now : ℕ) (entry : AccountWithMeta) : Bool :=
  match entry.syncedSince with
  | some syncedSince => now ≤ syncedSince + oldestSyncedAccountAge
  | none => true

/-- The periodic sweep, which also counts the bytes afresh. -/
def ageSweep (now : ℕ) (bob : Bob) : Bob :=
  let stale := bob.accounts.entries.filter fun entry => !keepSynced now entry.2
  let accounts := stale.foldl (fun accounts entry => accounts.erase entry.1) bob.accounts
  { bob with
    accounts := accounts
    batchesSinceEviction := 0
    cacheBytes := (accounts.entries.map fun entry => entry.2.account.data.length).sum }

/-- `garbage_collect`, on what it takes from the inbox. -/
def garbageCollect (bob : Bob) (inbox : SettledInbox) (now : ℕ) : Bob :=
  let drained := inbox.entries.foldl (acknowledge now) bob
  if drained.batchesSinceEviction + 1 ≥ gcEvictionInterval then drained.ageSweep now
  else { drained with batchesSinceEviction := drained.batchesSinceEviction + 1 }

/-- The clean entries outside `protectedKeys`, each with its age. -/
def capCandidates (bob : Bob) (protectedKeys : List Pubkey) : List (Pubkey × ℕ) :=
  bob.accounts.entries.filterMap fun entry =>
    (entry.2.syncedSince.filter fun _ => entry.1 ∉ protectedKeys).map fun t => (entry.1, t)

def capRemoveCount (bob : Bob) (protectedKeys : List Pubkey) : ℕ :=
  min (bob.accounts.entries.length - max (bob.maxCacheEntries * 9 / 10) 1)
    (bob.capCandidates protectedKeys).length

/-- The candidates as `select_nth_unstable_by_key` leaves them: the oldest in front. -/
def CapOrder (bob : Bob) (protectedKeys : List Pubkey) (clean : List (Pubkey × ℕ)) : Prop :=
  clean.Perm (bob.capCandidates protectedKeys) ∧
    ∀ old ∈ clean.take (bob.capRemoveCount protectedKeys),
      ∀ kept ∈ clean.drop (bob.capRemoveCount protectedKeys), old.2 ≤ kept.2

/-- Evicts down to the entry cap. -/
def capEvict (bob : Bob) (protectedKeys : List Pubkey) (clean : List (Pubkey × ℕ)) : Bob :=
  if bob.accounts.entries.length ≤ bob.maxCacheEntries then bob
  else
    (clean.take (bob.capRemoveCount protectedKeys)).foldl
      (fun bob candidate => bob.removeEntry candidate.1) bob

/-- The clean entries with data outside `protectedKeys`, each with its size. -/
def byteCandidates (bob : Bob) (protectedKeys : List Pubkey) : List (Pubkey × ℕ) :=
  (bob.accounts.entries.filter fun entry =>
    entry.2.syncedSince.isSome && !entry.2.account.data.isEmpty && entry.1 ∉ protectedKeys).map
      fun entry => (entry.1, entry.2.account.data.length)

/-- The candidates as `sort_unstable_by_key` leaves them: the largest in front. -/
def ByteOrder (bob : Bob) (protectedKeys : List Pubkey) (candidates : List (Pubkey × ℕ)) : Prop :=
  candidates.Perm (bob.byteCandidates protectedKeys) ∧
    candidates.Pairwise fun a b => b.2 ≤ a.2

/-- The loop of `evict_to_byte_cap`. -/
def evictLargest (target : ℕ) : List (Pubkey × ℕ) → Bob → Bob
  | [], bob => bob
  | candidate :: candidates, bob =>
    if bob.cacheBytes ≤ target then bob
    else evictLargest target candidates (bob.removeEntry candidate.1)

/-- Evicts down to the byte cap. -/
def evictToByteCap (bob : Bob) (candidates : List (Pubkey × ℕ)) : Bob :=
  if bob.cacheBytes ≤ bob.maxCacheBytes then bob
  else evictLargest (bob.maxCacheBytes * 9 / 10) candidates bob

/-- One key of the loop that splits hits from misses. -/
def visitKey (now : ℕ) (state : Bob × List Pubkey) (pubkey : Pubkey) : Bob × List Pubkey :=
  if (state.1.precompiles pubkey).isSome then state
  else
    match state.1.accounts.lookup pubkey with
    | some entry =>
      if entry.syncedSince.isSome then (state.1.setSyncedSince pubkey entry now, state.2) else state
    | none => (state.1, state.2 ++ [pubkey])

/-- `preload_accounts` up to its read of the database. `later` is the clock as `garbage_collect`
reads it. -/
def beginPreload (bob : Bob) (inbox : SettledInbox) (pubkeys : List Pubkey) (now later : ℕ) :
    Bob × List Pubkey :=
  let split := pubkeys.foldl (visitKey now) (bob, [])
  (split.1.garbageCollect inbox later, split.2)

/-- One row of the answer. -/
def insertFetched (now : ℕ) (bob : Bob) (fetched : Pubkey × Option AccountSharedData) : Bob :=
  match fetched.2 with
  | some account =>
    bob.insertEntry fetched.1
      { account := account, syncedSince := some now, deleted := false, generation := none }
  | none => bob

/-- Fetched rows become clean entries. -/
def insertRows (bob : Bob) (missKeys : List Pubkey) (rows : List (Option AccountSharedData))
    (now : ℕ) : Bob :=
  (missKeys.zip rows).foldl (insertFetched now) bob

end Bob

/-- A result on its way to a block. -/
structure BufferedResult where
  result : TransactionProcessingResult
  message : MessageAccounts
  generation : ℕ

/-- `BufferedResult::stamp`. -/
def stamp (batch : List (MessageAccounts × TransactionProcessingResult)) (generation : ℕ) :
    List BufferedResult :=
  batch.map fun tx => ⟨tx.2, tx.1, generation⟩

/-- One writable account of a successful result, as the settler records it. -/
def settleAccount (generation : ℕ) (final : SettledInbox) (written : Pubkey × AccountSharedData) :
    SettledInbox :=
  let deleted := written.2.lamports == 0
  final.insert written.1
    ⟨generation, { account := if deleted then .default else written.2, deleted := deleted }⟩

/-- `final_accounts_actual` of a block. -/
def finalAccounts (block : List BufferedResult) : SettledInbox :=
  block.foldl (fun final buffered =>
    (writtenAccounts buffered.message buffered.result).foldl (settleAccount buffered.generation)
      final) ∅

/-- The account rows after the commit of a block. -/
def writeRows (rows : Pubkey → Option AccountSharedData) (final : SettledInbox) :
    Pubkey → Option AccountSharedData := fun pubkey =>
  match final.lookup pubkey with
  | some entry => if entry.settlement.deleted then none else some entry.settlement.account
  | none => rows pubkey

/-- One settlement of `SettledInbox::publish`. -/
def mergeSettlement (inbox : SettledInbox) (settled : (_ : Pubkey) × SettledEntry) : SettledInbox :=
  match inbox.lookup settled.1 with
  | some slot =>
    if slot.generation ≤ settled.2.generation then inbox.insert settled.1 settled.2 else inbox
  | none => inbox.insert settled.1 settled.2

def SettledInbox.publish (inbox settlements : SettledInbox) : SettledInbox :=
  settlements.entries.foldl mergeSettlement inbox

/-- A row with no lamports describes an account that no longer exists. -/
def readRow (rows : Pubkey → Option AccountSharedData) (pubkey : Pubkey) :
    Option AccountSharedData :=
  (rows pubkey).filter fun account => account.lamports ≠ 0

/-- `get_accounts_within`; a key asked for twice is answered at its first position. -/
def getAccountsWithin (rows : Pubkey → Option AccountSharedData) (pubkeys : List Pubkey) :
    List (Option AccountSharedData) :=
  pubkeys.zipIdx.map fun entry =>
    if pubkeys.idxOf entry.1 = entry.2 then readRow rows entry.1 else none

end PrivateChannels.Core
