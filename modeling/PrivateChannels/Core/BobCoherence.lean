import PrivateChannels.Core.BobSystem

/-!
# Coherence of BOB

An entry with a generation holds the newest write of its key, and an acknowledgement that
covers it finds that write durable. So an entry is marked clean, or a tombstone dropped,
only when the row says the same.
-/

namespace PrivateChannels.Core

open WriteLog

variable {s s' : CacheSystem} {k : Pubkey} {entry : AccountWithMeta}

/-- What an entry of BOB may be. -/
inductive EntryOk (s : CacheSystem) (k : Pubkey) : AccountWithMeta → Prop
  /-- The newest write of the key, durable if it counts as clean. -/
  | written {write : ℕ × AccountSharedData} {syncedSince : Option ℕ} :
      lastWrite s.log k = some write →
      (syncedSince.isSome → k ∉ s.pending ∧ write.2.lamports ≠ 0) →
      EntryOk s k { writtenEntry write with syncedSince := syncedSince }
  /-- The row of a key whose writes are all durable. -/
  | fetched {now : ℕ} {account : AccountSharedData} : k ∉ s.pending →
      readRow s.rows k = some account → EntryOk s k (Bob.fetchedEntry now account)

/-- What a preload missed is not resident, and the rest is, unless there is no such account. -/
structure Loading (s : CacheSystem) (pubkeys missKeys : List Pubkey) (now later : ℕ) : Prop where
  missed : ∀ k ∈ missKeys, s.bob.accounts.lookup k = none
  found : later ≤ now + oldestSyncedAccountAge → ∀ k ∈ pubkeys, s.bob.precompiles k = none →
    k ∉ missKeys → s.bob.accounts.lookup k = none → readRow s.rows k = none

/-- The preload under way is sound. -/
def PhaseOk (s : CacheSystem) : Prop :=
  match s.phase with
  | .idle => True
  | .fetching pubkeys missKeys now later => Loading s pubkeys missKeys now later
  | .fetched pubkeys missKeys now later rows =>
    Loading s pubkeys missKeys now later ∧ rows = getAccountsWithin s.rows missKeys
  | .stopped => True

/-- The acknowledgement of a write that is durable. -/
def Acknowledges (s : CacheSystem) (settlements : SettledInbox) : Prop :=
  ∀ k settled, settlements.lookup k = some settled →
    ∃ account, (k, settled.generation, account) ∈ stampedWrites s.committed ∧
      settled.settlement = settlementOf account

/-- What every step of the cache keeps. -/
structure CacheInv (s : CacheSystem) : Prop where
  rows : ∀ k write, lastWrite (stampedWrites s.committed) k = some write →
    s.rows k = liveAccount write.2
  rising : Rising s.log
  bounded : ∀ write ∈ s.log, write.2.1 ≤ s.bob.nextGeneration
  inbox : Acknowledges s s.inbox
  unpublished : ∀ settlements ∈ s.unpublished, Acknowledges s settlements
  entries : ∀ k entry, s.bob.accounts.lookup k = some entry → EntryOk s k entry
  absent : ∀ k, s.bob.accounts.lookup k = none → k ∉ s.pending
  phase : PhaseOk s

theorem readRow_liveAccount {rows : Pubkey → Option AccountSharedData} {account : AccountSharedData}
    (h : rows k = liveAccount account) : readRow rows k = liveAccount account := by
  rw [readRow, h, liveAccount]
  by_cases hzero : account.lamports = 0
  · simp [hzero]
  · simp [hzero]

theorem CacheSystem.log_eq (s : CacheSystem) :
    s.log = stampedWrites s.committed ++ stampedWrites s.queue :=
  stampedWrites_append _ _

theorem EntryOk.durable (h : EntryOk s k entry) (hclean : entry.syncedSince.isSome) :
    k ∉ s.pending := by
  cases h with
  | written _ hsynced => exact (hsynced hclean).1
  | fetched hdurable _ => exact hdurable

variable {write : ℕ × AccountSharedData}

/-- An entry stays right when neither its newest write nor its row changes and no write is
queued. -/
theorem EntryOk.of_eq (h : EntryOk s k entry) (hlog : lastWrite s'.log k = lastWrite s.log k)
    (hpending : k ∉ s.pending → k ∉ s'.pending)
    (hrows : k ∉ s.pending → s'.rows k = s.rows k) : EntryOk s' k entry := by
  cases h with
  | written hlast hsynced =>
    exact .written (hlog.trans hlast) fun hclean =>
      ⟨hpending (hsynced hclean).1, (hsynced hclean).2⟩
  | fetched hdurable hrow =>
    refine .fetched (hpending hdurable) ?_
    rw [readRow, hrows hdurable]
    exact hrow

theorem EntryOk.refresh (h : EntryOk s k entry) (hclean : entry.syncedSince.isSome) (now : ℕ) :
    EntryOk s k { entry with syncedSince := some now } := by
  cases h with
  | written hlast hsynced => exact .written hlast fun _ => hsynced hclean
  | fetched hdurable hrow => exact .fetched hdurable hrow

variable {now : ℕ}

/-- BOB after an operation that writes no account. -/
structure Recached (s : CacheSystem) (bob : Bob) : Prop where
  keeps : Bob.Keeps s.bob bob
  entries : ∀ k entry, bob.accounts.lookup k = some entry → EntryOk s k entry
  absent : ∀ k, bob.accounts.lookup k = none → k ∉ s.pending

variable {bob : Bob}

theorem Acknowledges.empty : Acknowledges s ∅ := by
  intro k settled hsettled
  cases hsettled

/-- Eviction leaves right entries. -/
theorem Recached.evicts {bob' : Bob} (hbob : Recached s bob) {protectedKeys : List Pubkey}
    (hevicts : Bob.Evicts protectedKeys bob bob') : Recached s bob' := by
  refine ⟨hbob.keeps.trans hevicts.toKeeps, fun k entry hentry => ?_, fun k hnone => ?_⟩
  · rcases hevicts.entries k with heq | ⟨hgone, _⟩
    · exact hbob.entries k entry (heq ▸ hentry)
    · rw [hgone] at hentry
      cases hentry
  · rcases hevicts.entries k with heq | ⟨_, _, old, hold, hclean⟩
    · exact hbob.absent k (heq ▸ hnone)
    · exact (hbob.entries k old hold).durable hclean

/-- The preload's loop changes no account. -/
theorem Recached.split (hbob : Recached s bob) {seen : List Pubkey}
    {state : Bob × List Pubkey} (hsplit : Bob.Split now bob seen state) : Recached s state.1 := by
  refine ⟨hbob.keeps.trans hsplit.toKeeps, fun k entry hentry => ?_, fun k hnone => ?_⟩
  · cases hold : bob.accounts.lookup k with
    | none =>
      rw [hsplit.absent k hold] at hentry
      cases hentry
    | some old =>
      rcases hsplit.entries k old hold with heq | ⟨hclean, heq⟩
      · obtain rfl : old = entry := Option.some.inj (heq.symm.trans hentry)
        exact hbob.entries k old hold
      · cases heq.symm.trans hentry
        exact (hbob.entries k old hold).refresh hclean now
  · cases hold : bob.accounts.lookup k with
    | none => exact hbob.absent k hold
    | some old =>
      rcases hsplit.entries k old hold with heq | ⟨_, heq⟩ <;>
        · rw [hnone] at heq
          cases heq

variable {later : ℕ}

variable {missKeys pubkeys : List Pubkey}

theorem stampedWrites_stamp (batch : List (MessageAccounts × TransactionProcessingResult))
    (generation : ℕ) :
    stampedWrites (stamp batch generation) =
      (batch.flatMap fun tx => writtenAccounts tx.1 tx.2).map
        (fun written => (written.1, generation, written.2)) := by
  simp only [stampedWrites, stamp, List.flatMap_map, List.map_flatMap]

theorem Acknowledges.mono {settlements : SettledInbox} (h : Acknowledges s settlements)
    (hsub : stampedWrites s.committed ⊆ stampedWrites s'.committed) :
    Acknowledges s' settlements := by
  intro k settled hsettled
  obtain ⟨account, hin, heq⟩ := h k settled hsettled
  exact ⟨account, hsub hin, heq⟩

theorem getAccountsWithin_congr {rows rows' : Pubkey → Option AccountSharedData}
    (h : ∀ k ∈ pubkeys, rows' k = rows k) :
    getAccountsWithin rows' pubkeys = getAccountsWithin rows pubkeys := by
  refine List.map_congr_left fun e he => ?_
  rw [readRow, readRow, h e.1 (List.fst_mem_of_mem_zipIdx he)]

/-- A preload goes on while rows of resident keys change. -/
theorem PhaseOk.of_rows (h : PhaseOk s) (hphase : s'.phase = s.phase) (hbob : s'.bob = s.bob)
    (hrows : ∀ k, s.bob.accounts.lookup k = none → s'.rows k = s.rows k) : PhaseOk s' := by
  have hloading {pubkeys missKeys : List Pubkey} {now later : ℕ}
      (hold : Loading s pubkeys missKeys now later) : Loading s' pubkeys missKeys now later := by
    refine ⟨fun k hk => hbob ▸ hold.missed k hk, fun hclock k hk hordinary hmissed hnone => ?_⟩
    rw [hbob] at hordinary hnone
    rw [readRow, hrows k hnone]
    exact hold.found hclock k hk hordinary hmissed hnone
  rw [PhaseOk, hphase]
  rw [PhaseOk] at h
  split
  · trivial
  · rename_i heq
    rw [heq] at h
    exact hloading h
  · rename_i heq
    rw [heq] at h
    refine ⟨hloading h.1, h.2.trans (getAccountsWithin_congr fun k hk => ?_).symm⟩
    exact hrows k (h.1.missed k hk)
  · trivial

theorem CacheInv.start (precompiles : Pubkey → Option AccountSharedData)
    (maxCacheEntries maxCacheBytes : ℕ) (rows : Pubkey → Option AccountSharedData) :
    CacheInv (.start precompiles maxCacheEntries maxCacheBytes rows) where
  rows := nofun
  rising := List.Pairwise.nil
  bounded := nofun
  inbox := Acknowledges.empty
  unpublished := nofun
  entries := nofun
  absent := nofun
  phase := trivial

theorem evicts_pending {bob' : Bob} {protectedKeys : List Pubkey}
    (hevicts : Bob.Evicts protectedKeys bob bob')
    (hentry : bob.accounts.lookup k = some (writtenEntry write)) :
    bob'.accounts.lookup k = some (writtenEntry write) := by
  rcases hevicts.entries k with heq | ⟨_, _, entry, hsame, hclean⟩
  · rw [heq, hentry]
  · cases hentry.symm.trans hsame
    cases hclean

section

variable (h : CacheInv s)
include h

/-- A key whose writes are all durable is what its row says. -/
theorem CacheInv.current_of_durable (hdurable : k ∉ s.pending) :
    s.current k = readRow s.rows k := by
  rw [CacheSystem.current, s.log_eq, lastWrite_append_of_notMem hdurable]
  cases hlast : lastWrite (stampedWrites s.committed) k with
  | none => rfl
  | some write => exact (readRow_liveAccount (h.rows k write hlast)).symm

/-- The entry of a key is what the key is. -/
theorem CacheInv.current_of_entry (hentry : s.bob.accounts.lookup k = some entry) :
    (if entry.deleted then none else some entry.account) = s.current k := by
  cases h.entries k entry hentry with
  | written hlast _ =>
    rw [CacheSystem.current, hlast]
    exact settlementOf_live _
  | fetched hdurable hrow => rw [h.current_of_durable hdurable, hrow]; rfl

/-- A clean entry is its row. -/
theorem CacheInv.clean_eq_row (hentry : s.bob.accounts.lookup k = some entry)
    (hclean : entry.syncedSince.isSome) :
    entry.deleted = false ∧ readRow s.rows k = some entry.account := by
  have hok := h.entries k entry hentry
  have hlive : entry.deleted = false := by
    cases hok with
    | written _ hsynced => simpa [writtenEntry, settlementOf] using (hsynced hclean).2
    | fetched _ _ => rfl
  refine ⟨hlive, ?_⟩
  rw [← h.current_of_durable (hok.durable hclean), ← h.current_of_entry hentry, hlive]
  rfl

/-- An acknowledgement that covers a key's newest write is of that write, and none of the key is
queued. -/
theorem CacheInv.acknowledged {settled : SettledEntry} (hsettled : s.inbox.lookup k = some settled)
    (hlast : lastWrite s.log k = some write) (hcovered : write.1 ≤ settled.generation) :
    k ∉ s.pending ∧ settled.settlement = settlementOf write.2 := by
  obtain ⟨account, hdurable, hsettlement⟩ := h.inbox k settled hsettled
  have hmem : (k, settled.generation, account) ∈ s.log := by
    rw [s.log_eq]
    exact List.mem_append_left _ hdurable
  obtain ⟨hgen, rfl⟩ := h.rising.eq_last hlast hmem hcovered
  refine ⟨fun hpending => ?_, hsettlement⟩
  obtain ⟨⟨key, generation, later⟩, hin, hkey⟩ := List.mem_map.mp hpending
  obtain rfl : key = k := hkey
  have hrising := h.rising
  rw [s.log_eq] at hrising
  have hlt : settled.generation < generation :=
    (List.pairwise_append.mp hrising).2.2 _ hdurable _ hin rfl
  have hin' : (key, generation, later) ∈ s.log := by
    rw [s.log_eq]
    exact List.mem_append_right _ hin
  have heq := h.rising.eq_last hlast hin' (by omega)
  omega

/-- What garbage collection leaves is right, and a key it drops has no queued write. -/
theorem CacheInv.collected (hok : EntryOk s k entry) {left : Option AccountWithMeta}
    (hleft : Bob.Collected s.inbox now k entry left) :
    (∀ entry', left = some entry' → EntryOk s k entry') ∧ (left = none → k ∉ s.pending) := by
  cases hleft with
  | kept =>
    refine ⟨fun entry' heq => ?_, nofun⟩
    cases heq
    exact hok
  | dropped hsettled _ hdeleted hcovered =>
    refine ⟨nofun, fun _ => ?_⟩
    cases hok with
    | written hlast _ =>
      exact (h.acknowledged hsettled hlast (by simpa [Bob.covered, writtenEntry] using hcovered)).1
    | fetched _ _ => cases hdeleted
  | synced hsettled _ hlive hcovered _ =>
    refine ⟨fun entry' heq => ?_, nofun⟩
    cases heq
    cases hok with
    | written hlast _ =>
      have hdurable :=
        (h.acknowledged hsettled hlast (by simpa [Bob.covered, writtenEntry] using hcovered)).1
      exact .written hlast fun _ => ⟨hdurable, by simpa [writtenEntry, settlementOf] using hlive⟩
    | fetched hdurable hrow => exact .fetched hdurable hrow
  | swept hsynced _ =>
    exact ⟨nofun, fun _ => hok.durable (by simp [hsynced])⟩

/-- The state of the system outside BOB and the inbox decides which entries are right. -/
theorem CacheInv.recache (hbob : Recached s bob) {inbox : SettledInbox}
    (hinbox : Acknowledges s inbox) {phase : PreloadPhase}
    (hphase : PhaseOk { s with bob := bob, inbox := inbox, phase := phase }) :
    CacheInv { s with bob := bob, inbox := inbox, phase := phase } where
  rows := h.rows
  rising := h.rising
  bounded := fun write hwrite => hbob.keeps.nextGeneration ▸ h.bounded write hwrite
  inbox := hinbox
  unpublished := h.unpublished
  entries := fun k entry hentry => (hbob.entries k entry hentry).of_eq rfl id fun _ => rfl
  absent := hbob.absent
  phase := hphase

/-- Collection leaves right entries. -/
theorem Recached.garbageCollect (hbob : Recached s bob) (now : ℕ) :
    Recached s (bob.garbageCollect s.inbox now) := by
  refine ⟨hbob.keeps.trans (bob.garbageCollect_keeps s.inbox now), fun k entry hentry => ?_,
    fun k hnone => ?_⟩
  · cases hold : bob.accounts.lookup k with
    | none =>
      rw [Bob.garbageCollect_absent hold] at hentry
      cases hentry
    | some old =>
      exact (h.collected (hbob.entries k old hold)
        (Bob.garbageCollect_collected hold)).1 entry hentry
  · cases hold : bob.accounts.lookup k with
    | none => exact hbob.absent k hold
    | some old =>
      exact (h.collected (hbob.entries k old hold) (Bob.garbageCollect_collected hold)).2 hnone

theorem CacheInv.recached : Recached s s.bob :=
  ⟨Bob.Keeps.refl s.bob, h.entries, h.absent⟩

/-- A hit that garbage collection drops is a durable deletion: the preload has just refreshed
it. -/
theorem CacheInv.hit_dropped (hok : EntryOk s k entry)
    (hclock : later ≤ now + oldestSyncedAccountAge)
    (hfresh : entry.syncedSince = none ∨ entry.syncedSince = some now)
    (hleft : Bob.Collected s.inbox later k entry none) : readRow s.rows k = none := by
  cases hleft with
  | dropped hsettled _ hdeleted hcovered =>
    cases hok with
    | @written write _ hlast _ =>
      have hdurable :=
        (h.acknowledged hsettled hlast (by simpa [Bob.covered, writtenEntry] using hcovered)).1
      rw [← h.current_of_durable hdurable, CacheSystem.current, hlast]
      have hzero : write.2.lamports = 0 := by
        simpa [writtenEntry, settlementOf] using hdeleted
      simp [liveAccount, hzero]
    | fetched _ _ => cases hdeleted
  | swept hsynced hold =>
    rcases hfresh with hnone | hnow
    · rw [hnone] at hsynced
      cases hsynced
    · cases hnow.symm.trans hsynced
      omega

/-- The first half of a preload. -/
theorem CacheInv.beginPreload
    (hbegin : s.bob.beginPreload s.inbox pubkeys now later = (bob, missKeys)) :
    CacheInv { s with bob := bob, inbox := ∅, phase := .fetching pubkeys missKeys now later } := by
  obtain ⟨rfl, rfl⟩ := hbegin
  have hsplit : Bob.Split now s.bob pubkeys (pubkeys.foldl (Bob.visitKey now) (s.bob, [])) :=
    Bob.Split.start.foldl pubkeys
  generalize pubkeys.foldl (Bob.visitKey now) (s.bob, []) = state at hsplit ⊢
  have hstate : Recached s state.1 := h.recached.split hsplit
  have hkeeps := (hstate.garbageCollect h later).keeps
  refine h.recache (hstate.garbageCollect h later) Acknowledges.empty ⟨fun k hk => ?_, ?_⟩
  · exact Bob.garbageCollect_absent (hsplit.absent k (hsplit.missed k hk))
  · intro hclock k hk hordinary hmissed hnone
    rw [hkeeps.precompiles] at hordinary
    obtain ⟨entry, hentry, hfresh⟩ := (hsplit.hit k hk hordinary).resolve_left hmissed
    have hcollected : Bob.Collected s.inbox later k entry none :=
      hnone ▸ Bob.garbageCollect_collected hentry
    exact h.hit_dropped (hstate.entries k entry hentry) hclock hfresh hcollected

/-- The rows of an answer may be put where nothing is resident. -/
theorem Recached.insertRows (hmissed : ∀ k ∈ missKeys, s.bob.accounts.lookup k = none) :
    Recached s (s.bob.insertRows missKeys (getAccountsWithin s.rows missKeys) now) := by
  refine ⟨Bob.Keeps.foldl (fun bob _ => Bob.insertFetched_keeps _) _ _, fun k entry hentry => ?_,
    fun k hnone => ?_⟩
  · rw [Bob.insertRows_lookup, Bob.lastWrite_presentRows] at hentry
    by_cases hk : k ∈ missKeys
    · rw [if_pos hk, hmissed k hk, Option.or_none] at hentry
      obtain ⟨account, hrow, rfl⟩ := Option.map_eq_some_iff.mp hentry
      exact .fetched (h.absent k (hmissed k hk)) hrow
    · rw [if_neg hk] at hentry
      exact h.entries k entry (by simpa using hentry)
  · rw [Bob.insertRows_lookup, Option.or_eq_none_iff] at hnone
    exact h.absent k hnone.2

/-- The finished preload, before the caps: each key is what it should be. -/
theorem CacheInv.loaded (hloading : Loading s pubkeys missKeys now later)
    (hclock : later ≤ now + oldestSyncedAccountAge) (hk : k ∈ pubkeys)
    (hordinary : s.bob.precompiles k = none)
    (hnone : (s.bob.insertRows missKeys (getAccountsWithin s.rows missKeys) now).accounts.lookup k =
      none) : s.current k = none := by
  rw [Bob.insertRows_lookup, Bob.lastWrite_presentRows, Option.or_eq_none_iff] at hnone
  obtain ⟨hrow, hold⟩ := hnone
  rw [h.current_of_durable (h.absent k hold)]
  by_cases hmiss : k ∈ missKeys
  · rw [if_pos hmiss] at hrow
    exact Option.map_eq_none_iff.mp hrow
  · exact hloading.found hclock k hk hordinary hmiss hold

/-- The executor writes a batch into BOB. -/
theorem CacheInv.update {batch : ConflictFreeBatch} {generation : ℕ} (hidle : s.phase = .idle)
    (hupdate : s.bob.updateAccounts batch.results = (bob, generation)) :
    CacheInv { s with bob := bob, queue := s.queue ++ stamp batch.results generation } := by
  obtain ⟨hgen, hnext, _, hlookup⟩ := Bob.updateAccounts_spec hupdate
  set writes := batch.results.flatMap fun tx => writtenAccounts tx.1 tx.2 with hwrites
  have hstamped : stampedWrites (stamp batch.results generation) =
      writes.map fun written => (written.1, generation, written.2) := stampedWrites_stamp _ _
  have hkeys : (stampedWrites (stamp batch.results generation)).map Prod.fst =
      writes.map Prod.fst := by simp [hstamped]
  have hlog : CacheSystem.log { s with
      bob := bob, queue := s.queue ++ stamp batch.results generation } =
        s.log ++ stampedWrites (stamp batch.results generation) := by
    simp [CacheSystem.log]
  have hpending : CacheSystem.pending { s with
      bob := bob, queue := s.queue ++ stamp batch.results generation } =
        s.pending ++ writes.map Prod.fst := by
    simp [CacheSystem.pending, hkeys]
  refine ⟨h.rows, ?_, ?_, h.inbox, h.unpublished, fun k entry hentry => ?_, fun k hnone => ?_, ?_⟩
  · rw [hlog]
    refine @Rising.append_batch _ _ _ _ h.rising generation (fun write hwrite => ?_)
      (fun write hwrite => ?_) (hkeys ▸ batch.disjoint)
    · have hle := h.bounded write hwrite
      omega
    · rw [hstamped] at hwrite
      obtain ⟨_, _, rfl⟩ := List.mem_map.mp hwrite
      rfl
  · intro write hwrite
    rw [hlog] at hwrite
    rcases List.mem_append.mp hwrite with hold | hnew
    · have hle := h.bounded write hold
      dsimp only
      omega
    · rw [hstamped] at hnew
      obtain ⟨_, _, rfl⟩ := List.mem_map.mp hnew
      exact hnext.ge
  · rw [hlookup] at hentry
    cases hlast : lastWrite writes k with
    | some account =>
      obtain rfl : writtenEntry (generation, account) = entry := by simpa [hlast] using hentry
      refine @EntryOk.written _ _ (generation, account) none ?_ (by simp)
      rw [hlog, hstamped, lastWrite_append, lastWrite_stamp, hlast]
      rfl
    | none =>
      have hfree : k ∉ writes.map Prod.fst := lastWrite_eq_none.mp hlast
      refine (h.entries k entry (by simpa [hlast] using hentry)).of_eq ?_ (fun hold => ?_)
        fun _ => rfl
      · rw [hlog, lastWrite_append_of_notMem (hkeys ▸ hfree)]
      · rw [hpending, List.mem_append]
        exact fun hin => hin.elim hold hfree
  · rw [hlookup, Option.or_eq_none_iff, Option.map_eq_none_iff] at hnone
    rw [hpending, List.mem_append]
    exact fun hin => hin.elim (h.absent k hnone.2) (lastWrite_eq_none.mp hnone.1)
  · simp [PhaseOk, hidle]

/-- The settler commits a block. -/
theorem CacheInv.commit {block rest : List BufferedResult} (hqueue : s.queue = block ++ rest) :
    CacheInv { s with
      rows := writeRows s.rows (finalAccounts block)
      queue := rest
      unpublished := s.unpublished ++ [finalAccounts block]
      committed := s.committed ++ block } := by
  have hlog : stampedWrites (s.committed ++ block ++ rest) = s.log := by
    rw [CacheSystem.log, hqueue, List.append_assoc]
  have hpending : s.pending = (stampedWrites block).map Prod.fst ++
      (stampedWrites rest).map Prod.fst := by
    simp [CacheSystem.pending, hqueue]
  have hrows : ∀ k, k ∉ s.pending → writeRows s.rows (finalAccounts block) k = s.rows k := by
    intro k hk
    rw [hpending, List.mem_append, not_or] at hk
    rw [writeRows_finalAccounts, applyWrites_apply, lastWrite_eq_none.mpr hk.1]
    rfl
  have hdurable : ∀ k, k ∉ s.pending → k ∉ (stampedWrites rest).map Prod.fst := by
    intro k hk hin
    exact hk (hpending ▸ List.mem_append_right _ hin)
  have hgrows : stampedWrites s.committed ⊆ stampedWrites (s.committed ++ block) := by
    rw [stampedWrites_append]
    exact List.subset_append_left _ _
  refine ⟨fun k write hlast => ?_, ?_, ?_, h.inbox.mono hgrows, fun settlements hin => ?_,
    fun k entry hentry => ?_, fun k hnone => hdurable k (h.absent k hnone), ?_⟩
  · rw [stampedWrites_append, lastWrite_append] at hlast
    dsimp only
    rw [writeRows_finalAccounts, applyWrites_apply]
    cases hblock : lastWrite (stampedWrites block) k with
    | some newer =>
      obtain rfl : newer = write := by simpa [hblock] using hlast
      rfl
    | none =>
      rw [hblock, Option.none_or] at hlast
      exact h.rows k write hlast
  · rw [CacheSystem.log, hlog]
    exact h.rising
  · intro write hwrite
    rw [CacheSystem.log, hlog] at hwrite
    exact h.bounded write hwrite
  · rcases List.mem_append.mp hin with hold | hnew
    · exact (h.unpublished settlements hold).mono hgrows
    · obtain rfl := List.mem_singleton.mp hnew
      intro k settled hsettled
      rw [finalAccounts_lookup] at hsettled
      obtain ⟨write, hlast, rfl⟩ := Option.map_eq_some_iff.mp hsettled
      refine ⟨write.2, ?_, rfl⟩
      rw [stampedWrites_append]
      exact List.mem_append_right _ (lastWrite_mem hlast)
  · exact (h.entries k entry hentry).of_eq (congrArg (lastWrite · k) hlog) (hdurable k) (hrows k)
  · exact h.phase.of_rows rfl rfl fun k hnone => hrows k (h.absent k hnone)

/-- The settler publishes a block. -/
theorem CacheInv.publish {earlier later : List SettledInbox} {settlements : SettledInbox}
    (hblocks : s.unpublished = earlier ++ settlements :: later) :
    CacheInv { s with
      inbox := s.inbox.publish settlements, unpublished := earlier ++ later } where
  rows := h.rows
  rising := h.rising
  bounded := h.bounded
  inbox := by
    intro k settled hsettled
    rcases publish_lookup hsettled with hold | hnew
    · exact h.inbox k settled hold
    · exact h.unpublished settlements (by rw [hblocks]; simp) k settled hnew
  unpublished := by
    intro others hin
    refine h.unpublished others ?_
    rw [hblocks]
    rcases List.mem_append.mp hin with hin | hin
    · exact List.mem_append_left _ hin
    · exact List.mem_append_right _ (List.mem_cons_of_mem _ hin)
  entries := fun k entry hentry => (h.entries k entry hentry).of_eq rfl id fun _ => rfl
  absent := h.absent
  phase := h.phase.of_rows rfl rfl fun _ _ => rfl

/-- Every step keeps the invariant. -/
theorem CacheInv.step {label : CacheLabel} (hstep : CacheStep s label s') : CacheInv s' := by
  cases hstep with
  | update hidle hupdate => exact h.update hidle hupdate
  | commit hqueue => exact h.commit hqueue
  | publish hblocks => exact h.publish hblocks
  | beginPreload _ hbegin => exact h.beginPreload hbegin
  | @read pubkeys missKeys now later hphase =>
    have hloading : Loading s pubkeys missKeys now later := by
      have hok := h.phase
      rwa [PhaseOk, hphase] at hok
    exact h.recache h.recached h.inbox ⟨⟨hloading.missed, hloading.found⟩, rfl⟩
  | finishPreload hphase hfill hcap hcapped hbyte =>
    have hok := h.phase
    rw [PhaseOk, hphase] at hok
    obtain ⟨hloading, rfl⟩ := hok
    subst hfill hcapped
    exact h.recache (((Recached.insertRows h hloading.missed).evicts
      (Bob.capEvict_evicts hcap)).evicts (Bob.evictToByteCap_evicts hbyte)) h.inbox trivial
  | fail _ => exact h.recache h.recached h.inbox trivial
  | garbageCollect hidle =>
    exact h.recache (h.recached.garbageCollect h _) Acknowledges.empty
      (by simp only [PhaseOk, hidle])
  | capEvict hidle horder =>
    exact h.recache (h.recached.evicts (Bob.capEvict_evicts horder)) h.inbox
      (by simp only [PhaseOk, hidle])
  | byteEvict hidle horder =>
    exact h.recache (h.recached.evicts (Bob.evictToByteCap_evicts horder)) h.inbox
      (by simp only [PhaseOk, hidle])

/-- The entry of a key with a write in the queue is its newest write, and not clean. -/
theorem CacheInv.pending_entry (hpending : k ∈ s.pending) :
    ∃ write, lastWrite s.log k = some write ∧
      s.bob.accounts.lookup k = some (writtenEntry write) := by
  cases hentry : s.bob.accounts.lookup k with
  | none => exact absurd hpending (h.absent k hentry)
  | some entry =>
    cases h.entries k entry hentry with
    | @written write syncedSince hlast hsynced =>
      cases syncedSince with
      | none => exact ⟨write, hlast, rfl⟩
      | some t => exact absurd hpending (hsynced rfl).1
    | fetched hdurable _ => exact absurd hpending hdurable

theorem CacheInv.collected_pending (hpending : k ∈ s.pending) (hok : EntryOk s k entry)
    {left : Option AccountWithMeta} (hleft : Bob.Collected s.inbox now k entry left) :
    left = some entry := by
  have hcollected := h.collected hok hleft
  cases hleft with
  | kept => rfl
  | synced _ _ _ _ _ => exact absurd hpending ((hcollected.1 _ rfl).durable rfl)
  | _ => exact absurd hpending (hcollected.2 rfl)

/-- Only a newer write of the executor replaces a write that is not durable. -/
theorem CacheInv.pending_kept {label : CacheLabel} (hstep : CacheStep s label s')
    (hpending : k ∈ s.pending) (hentry : s.bob.accounts.lookup k = some (writtenEntry write)) :
    s'.bob.accounts.lookup k = some (writtenEntry write) ∨
      label = .update ∧ ∃ newer : ℕ × AccountSharedData, s.bob.nextGeneration < newer.1 ∧
        lastWrite s'.log k = some newer ∧
        s'.bob.accounts.lookup k = some (writtenEntry newer) := by
  cases hstep with
  | @update batch bob generation hidle hupdate =>
    obtain ⟨hgen, _, _, hlookup⟩ := Bob.updateAccounts_spec hupdate
    cases hlast : lastWrite (batch.results.flatMap fun tx => writtenAccounts tx.1 tx.2) k with
    | none => exact Or.inl (by simp [hlookup, hlast, hentry])
    | some account =>
      refine Or.inr ⟨rfl, (generation, account), by simp [hgen], ?_, by simp [hlookup, hlast]⟩
      rw [CacheSystem.log, ← List.append_assoc, stampedWrites_append, stampedWrites_stamp,
        lastWrite_append, lastWrite_stamp, hlast]
      rfl
  | @beginPreload pubkeys _ now later _ _ hbegin =>
    obtain ⟨rfl, rfl⟩ := hbegin
    have hsplit : Bob.Split now s.bob pubkeys (pubkeys.foldl (Bob.visitKey now) (s.bob, [])) :=
      Bob.Split.start.foldl pubkeys
    have hkept := (hsplit.entries k _ hentry).resolve_right fun hclean => by cases hclean.1
    exact Or.inl (h.collected_pending hpending ((h.recached.split hsplit).entries k _ hkept)
      (Bob.garbageCollect_collected hkept))
  | @finishPreload _ missKeys _ _ _ _ _ _ _ hphase hfill hcap hcapped hbyte =>
    have hok := h.phase
    rw [PhaseOk, hphase] at hok
    obtain ⟨hloading, rfl⟩ := hok
    subst hfill hcapped
    refine Or.inl (evicts_pending (Bob.evictToByteCap_evicts hbyte)
      (evicts_pending (Bob.capEvict_evicts hcap) ?_))
    have hresident : k ∉ missKeys := fun hin => by
      rw [hloading.missed k hin] at hentry
      cases hentry
    rw [Bob.insertRows_lookup, Bob.lastWrite_presentRows, if_neg hresident, hentry]
    rfl
  | garbageCollect _ =>
    exact Or.inl (h.collected_pending hpending (h.entries k _ hentry)
      (Bob.garbageCollect_collected hentry))
  | capEvict _ horder => exact Or.inl (evicts_pending (Bob.capEvict_evicts horder) hentry)
  | byteEvict _ horder => exact Or.inl (evicts_pending (Bob.evictToByteCap_evicts horder) hentry)
  | _ => exact Or.inl hentry

/-- What BOB returns for a key that a preload has just loaded. -/
theorem CacheInv.preloaded {rows : List (Option AccountSharedData)}
    (hphase : s.phase = .fetched pubkeys missKeys now later rows)
    (hclock : later ≤ now + oldestSyncedAccountAge) (hstep : CacheStep s .finishPreload s')
    (hk : k ∈ pubkeys) (hordinary : s.bob.precompiles k = none) :
    s'.bob.getAccountSharedData k = s'.current k := by
  have hnext := h.step hstep
  cases hstep with
  | finishPreload hphase' hfill hcap hcapped hbyte =>
    cases hphase.symm.trans hphase'
    have hok := h.phase
    rw [PhaseOk, hphase] at hok
    obtain ⟨hloading, rfl⟩ := hok
    subst hfill hcapped
    have hevicts := (Bob.capEvict_evicts hcap).trans (Bob.evictToByteCap_evicts hbyte)
    have hsame := (hevicts.entries k).resolve_right fun hgone => hgone.2.1 hk
    have hkeeps := (((Recached.insertRows h hloading.missed).evicts
      (Bob.capEvict_evicts hcap)).evicts (Bob.evictToByteCap_evicts hbyte)).keeps
    rw [Bob.getAccountSharedData, hkeeps.precompiles, hordinary]
    cases hentry : Bob.accounts (Bob.evictToByteCap _ _) |>.lookup k with
    | some entry => exact hnext.current_of_entry hentry
    | none =>
      rw [hsame] at hentry
      exact (h.loaded hloading hclock hk hordinary hentry).symm

end

end PrivateChannels.Core
