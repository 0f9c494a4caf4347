import PrivateChannels.Core.BobEntries
import PrivateChannels.Foundation.Transition

/-!
# BOB, the settler and the database

The executor updates BOB and hands the results on in order; the settler commits any prefix
of them and publishes later, in any order. Commits and publishes may fall between the two
halves of a preload.
-/

namespace PrivateChannels.Core

open WriteLog
open scoped List

/-- The results of transactions of which no two write a common key. -/
structure ConflictFreeBatch where
  results : List (MessageAccounts × TransactionProcessingResult)
  disjoint : ((results.flatMap fun tx => writtenAccounts tx.1 tx.2).map Prod.fst).Nodup

/-- Where the executor is in a preload. `later` is the clock as `garbage_collect` read
it. -/
inductive PreloadPhase where
  | idle
  | fetching (pubkeys missKeys : List Pubkey) (now later : ℕ)
  | fetched (pubkeys missKeys : List Pubkey) (now later : ℕ)
      (rows : List (Option AccountSharedData))
  | stopped

/-- `committed` only records what the settler has made durable. -/
structure CacheSystem where
  bob : Bob
  inbox : SettledInbox
  rows : Pubkey → Option AccountSharedData
  phase : PreloadPhase
  queue : List BufferedResult
  unpublished : List SettledInbox
  committed : List BufferedResult

/-- The steps of the cache's system. -/
inductive CacheLabel where
  | update
  | commit
  | publish
  | beginPreload
  | read
  | finishPreload
  | fail
  | garbageCollect
  | capEvict
  | byteEvict
  deriving DecidableEq, Repr

/-- One step of the executor or the settler. -/
inductive CacheStep (s : CacheSystem) : CacheLabel → CacheSystem → Prop
  | update {batch : ConflictFreeBatch} {bob : Bob} {generation : ℕ} :
      s.phase = .idle → s.bob.updateAccounts batch.results = (bob, generation) →
      CacheStep s .update
        { s with bob := bob, queue := s.queue ++ stamp batch.results generation }
  | commit {block rest : List BufferedResult} : s.queue = block ++ rest →
      CacheStep s .commit { s with
        rows := writeRows s.rows (finalAccounts block)
        queue := rest
        unpublished := s.unpublished ++ [finalAccounts block]
        committed := s.committed ++ block }
  | publish {earlier later : List SettledInbox} {settlements : SettledInbox} :
      s.unpublished = earlier ++ settlements :: later →
      CacheStep s .publish
        { s with inbox := s.inbox.publish settlements, unpublished := earlier ++ later }
  | beginPreload {pubkeys missKeys : List Pubkey} {now later : ℕ} {bob : Bob} :
      s.phase = .idle → s.bob.beginPreload s.inbox pubkeys now later = (bob, missKeys) →
      CacheStep s .beginPreload
        { s with bob := bob, inbox := ∅, phase := .fetching pubkeys missKeys now later }
  | read {pubkeys missKeys : List Pubkey} {now later : ℕ} :
      s.phase = .fetching pubkeys missKeys now later →
      CacheStep s .read { s with
        phase := .fetched pubkeys missKeys now later (getAccountsWithin s.rows missKeys) }
  | finishPreload {pubkeys missKeys : List Pubkey} {now later : ℕ}
      {rows : List (Option AccountSharedData)} {filled capped : Bob}
      {clean candidates : List (Pubkey × ℕ)} :
      s.phase = .fetched pubkeys missKeys now later rows →
      s.bob.insertRows missKeys rows now = filled →
      filled.CapOrder pubkeys clean → filled.capEvict pubkeys clean = capped →
      capped.ByteOrder pubkeys candidates →
      CacheStep s .finishPreload
        { s with bob := capped.evictToByteCap candidates, phase := .idle }
  /-- A read that fails is fatal to the executor. -/
  | fail {pubkeys missKeys : List Pubkey} {now later : ℕ} :
      s.phase = .fetching pubkeys missKeys now later →
      CacheStep s .fail { s with phase := .stopped }
  | garbageCollect {now : ℕ} : s.phase = .idle →
      CacheStep s .garbageCollect
        { s with bob := s.bob.garbageCollect s.inbox now, inbox := ∅ }
  | capEvict {protectedKeys : List Pubkey} {clean : List (Pubkey × ℕ)} : s.phase = .idle →
      s.bob.CapOrder protectedKeys clean →
      CacheStep s .capEvict { s with bob := s.bob.capEvict protectedKeys clean }
  | byteEvict {protectedKeys : List Pubkey} {candidates : List (Pubkey × ℕ)} : s.phase = .idle →
      s.bob.ByteOrder protectedKeys candidates →
      CacheStep s .byteEvict { s with bob := s.bob.evictToByteCap candidates }

namespace CacheSystem

/-- A new process over any database, at any caps. -/
def start (precompiles : Pubkey → Option AccountSharedData) (maxCacheEntries maxCacheBytes : ℕ)
    (rows : Pubkey → Option AccountSharedData) : CacheSystem :=
  { bob := .new precompiles maxCacheEntries maxCacheBytes
    inbox := ∅
    rows := rows
    phase := .idle
    queue := []
    unpublished := []
    committed := [] }

variable (s : CacheSystem)

/-- Every write of the executor, oldest first. -/
def log : List (Pubkey × ℕ × AccountSharedData) := stampedWrites (s.committed ++ s.queue)

/-- The keys with a write that is not durable. -/
def pending : List Pubkey := (stampedWrites s.queue).map Prod.fst

/-- What the account is: the newest write of the executor, or else the row. -/
def current (k : Pubkey) : Option AccountSharedData :=
  match lastWrite s.log k with
  | some write => liveAccount write.2
  | none => readRow s.rows k

end CacheSystem

end PrivateChannels.Core
