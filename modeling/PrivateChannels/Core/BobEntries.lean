import PrivateChannels.Core.Bob
import PrivateChannels.Foundation.Transition
import PrivateChannels.Foundation.WriteLog

/-!
# What each operation does to an entry

Every operation of BOB is described by the entry it leaves at each key. Nothing after this
module looks into the loops.
-/

namespace PrivateChannels.Core

open WriteLog

/-- The writes of a queue of results, oldest first, each with its generation. -/
def stampedWrites (results : List BufferedResult) : List (Pubkey × ℕ × AccountSharedData) :=
  results.flatMap fun buffered =>
    (writtenAccounts buffered.message buffered.result).map fun written =>
      (written.1, buffered.generation, written.2)

/-- An account as it is kept: one without lamports is gone. -/
def settlementOf (account : AccountSharedData) : AccountSettlement :=
  { account := if account.lamports == 0 then .default else account
    deleted := account.lamports == 0 }

/-- The account, unless it is closed. -/
def liveAccount (account : AccountSharedData) : Option AccountSharedData :=
  if account.lamports = 0 then none else some account

/-- The entry of a write. -/
def writtenEntry (write : ℕ × AccountSharedData) : AccountWithMeta :=
  { account := (settlementOf write.2).account
    deleted := (settlementOf write.2).deleted
    syncedSince := none
    generation := some write.1 }

@[simp] theorem stampedWrites_append (results later : List BufferedResult) :
    stampedWrites (results ++ later) = stampedWrites results ++ stampedWrites later := by
  simp [stampedWrites]

theorem settlementOf_live (account : AccountSharedData) :
    (if (settlementOf account).deleted then none else some (settlementOf account).account) =
      liveAccount account := by
  by_cases h : account.lamports = 0
  · simp [settlementOf, liveAccount, h]
  · simp [settlementOf, liveAccount, h]

namespace Bob

/-- What only a write of the executor changes. -/
structure Keeps (bob bob' : Bob) : Prop where
  precompiles : bob'.precompiles = bob.precompiles
  nextGeneration : bob'.nextGeneration = bob.nextGeneration

theorem Keeps.refl (bob : Bob) : Keeps bob bob := ⟨rfl, rfl⟩

theorem Keeps.trans {a b c : Bob} (h : Keeps a b) (h' : Keeps b c) : Keeps a c :=
  ⟨h'.precompiles.trans h.precompiles, h'.nextGeneration.trans h.nextGeneration⟩

theorem Keeps.foldl {α : Type*} {f : Bob → α → Bob} (hf : ∀ bob a, Keeps bob (f bob a))
    (l : List α) (bob : Bob) : Keeps bob (l.foldl f bob) :=
  l.foldlRecOn f (Keeps.refl bob) fun b h a _ => h.trans (hf b a)

variable (bob : Bob) (k pubkey : Pubkey) (entry : AccountWithMeta)

theorem insertEntry_keeps : Keeps bob (bob.insertEntry pubkey entry) := by
  rw [insertEntry]
  split <;> exact ⟨rfl, rfl⟩

theorem removeEntry_keeps : Keeps bob (bob.removeEntry pubkey) := by
  rw [removeEntry]
  split <;> exact ⟨rfl, rfl⟩

theorem insertEntry_accounts :
    (bob.insertEntry pubkey entry).accounts = bob.accounts.insert pubkey entry := by
  rw [insertEntry]
  split <;> rfl

theorem removeEntry_accounts : (bob.removeEntry pubkey).accounts = bob.accounts.erase pubkey := by
  rw [removeEntry]
  split
  · rfl
  · rename_i hnone
    refine AList.ext ?_
    exact (List.kerase_of_notMem_keys (List.dlookup_eq_none.mp hnone)).symm

theorem lookup_erase_eq (accounts : AList fun _ : Pubkey => AccountWithMeta) :
    (accounts.erase pubkey).lookup k = if k = pubkey then none else accounts.lookup k := by
  by_cases h : k = pubkey
  · subst h
    rw [if_pos rfl, AList.lookup_erase]
  · rw [if_neg h, AList.lookup_erase_ne h]

theorem writeAll_lookup (generation : ℕ) (writes : List (Pubkey × AccountSharedData)) :
    (writes.foldl (writeAccount generation) bob).accounts.lookup k =
      ((lastWrite writes k).map fun account => writtenEntry (generation, account)).or
        (bob.accounts.lookup k) :=
  look_foldl_writes (fun k bob => bob.accounts.lookup k)
    (fun bob written k => by rw [writeAccount, insertEntry_accounts, lookup_insert_eq]; rfl)
    writes bob k

theorem writeAll_keeps (generation : ℕ) (writes : List (Pubkey × AccountSharedData)) :
    Keeps bob (writes.foldl (writeAccount generation) bob) :=
  Keeps.foldl (fun bob _ => insertEntry_keeps bob _ _) writes bob

variable {bob} in
/-- After an update every written key holds its write, and the others are as before. -/
theorem updateAccounts_spec {batch : List (MessageAccounts × TransactionProcessingResult)}
    {bob' : Bob} {generation : ℕ} (h : bob.updateAccounts batch = (bob', generation)) :
    generation = bob.nextGeneration + 1 ∧ bob'.nextGeneration = generation ∧
      bob'.precompiles = bob.precompiles ∧
      ∀ k, bob'.accounts.lookup k =
        ((lastWrite (batch.flatMap fun tx => writtenAccounts tx.1 tx.2) k).map
          fun account => writtenEntry (generation, account)).or (bob.accounts.lookup k) := by
  simp only [updateAccounts, ← List.foldl_flatMap, Prod.mk.injEq] at h
  obtain ⟨rfl, rfl⟩ := h
  have hkeeps := writeAll_keeps { bob with nextGeneration := bob.nextGeneration + 1 }
    (bob.nextGeneration + 1) (batch.flatMap fun tx => writtenAccounts tx.1 tx.2)
  exact ⟨rfl, hkeeps.nextGeneration, hkeeps.precompiles, fun k => writeAll_lookup _ k _ _⟩

/-- What an acknowledgement does to the entry it finds. -/
def acknowledgedEntry (now : ℕ) (settled : SettledEntry) : Option AccountWithMeta →
    Option AccountWithMeta
  | none => none
  | some entry =>
    if settled.settlement.deleted then
      if entry.deleted && covered entry settled.generation then none else some entry
    else if !entry.deleted && covered entry settled.generation &&
        entry.account = settled.settlement.account then
      some { entry with syncedSince := some now }
    else some entry

theorem acknowledge_keeps (now : ℕ) (settled : (_ : Pubkey) × SettledEntry) :
    Keeps bob (acknowledge now bob settled) := by
  rw [acknowledge]
  repeat' split
  all_goals first
    | exact Keeps.refl bob
    | exact removeEntry_keeps bob settled.1
    | exact ⟨rfl, rfl⟩

theorem acknowledge_lookup_self (now : ℕ) (settled : SettledEntry) :
    (acknowledge now bob ⟨k, settled⟩).accounts.lookup k =
      acknowledgedEntry now settled (bob.accounts.lookup k) := by
  rw [acknowledge]
  cases hentry : bob.accounts.lookup k with
  | none => simp [acknowledgedEntry, hentry]
  | some entry =>
    simp only [acknowledgedEntry]
    by_cases hdel : settled.settlement.deleted
    · rw [if_pos hdel, if_pos hdel]
      split
      · rw [removeEntry_accounts, AList.lookup_erase]
      · exact hentry
    · rw [if_neg hdel, if_neg hdel]
      by_cases hcov : (!entry.deleted && covered entry settled.generation) = true
      · by_cases heq : entry.account = settled.settlement.account
        · simp [hcov, heq, setSyncedSince]
        · simp [hcov, heq, hentry]
      · simp [hcov, hentry]

theorem acknowledge_lookup_ne (now : ℕ) (settled : SettledEntry) (h : k ≠ pubkey) :
    (acknowledge now bob ⟨pubkey, settled⟩).accounts.lookup k = bob.accounts.lookup k := by
  rw [acknowledge]
  repeat' split
  all_goals first
    | rfl
    | rw [removeEntry_accounts, AList.lookup_erase_ne h]
    | rw [setSyncedSince, AList.lookup_insert_ne h]

theorem drain_lookup (inbox : SettledInbox) (now : ℕ) :
    (inbox.entries.foldl (acknowledge now) bob).accounts.lookup k =
      (inbox.lookup k).elim (bob.accounts.lookup k) fun settled =>
        acknowledgedEntry now settled (bob.accounts.lookup k) :=
  look_foldl (fun k bob => bob.accounts.lookup k)
    (fun bob k settled => acknowledge_lookup_self bob k now settled)
    (fun bob pubkey k settled h => acknowledge_lookup_ne bob k pubkey now settled h)
    inbox.nodupKeys bob k

theorem eraseAll_lookup (keys : List ((_ : Pubkey) × AccountWithMeta))
    (accounts : AList fun _ : Pubkey => AccountWithMeta) :
    (keys.foldl (fun accounts entry => accounts.erase entry.1) accounts).lookup k =
      if k ∈ keys.map Sigma.fst then none else accounts.lookup k := by
  induction keys generalizing accounts with
  | nil => simp
  | cons e keys ih =>
    rw [List.foldl_cons, ih, lookup_erase_eq]
    by_cases hk : k = e.1
    · simp [hk]
    · rw [List.map_cons, if_neg hk]
      simp only [List.mem_cons, hk, false_or]

theorem ageSweep_lookup (now : ℕ) :
    (bob.ageSweep now).accounts.lookup k = (bob.accounts.lookup k).filter (keepSynced now) := by
  rw [ageSweep, eraseAll_lookup]
  cases hentry : bob.accounts.lookup k with
  | none => simp
  | some entry =>
    have hmem : ⟨k, entry⟩ ∈ bob.accounts.entries := List.of_mem_dlookup hentry
    by_cases hkeep : keepSynced now entry
    · rw [if_neg, Option.filter_some_pos hkeep]
      intro hin
      obtain ⟨⟨_, other⟩, hother, rfl⟩ := List.mem_map.mp hin
      obtain ⟨hin, hstale⟩ := List.mem_filter.mp hother
      obtain rfl : entry = other := bob.accounts.nodupKeys.eq_of_mk_mem hmem hin
      simp [hkeep] at hstale
    · rw [if_pos, Option.filter_some_neg (Bool.eq_false_iff.mpr hkeep)]
      exact List.mem_map.mpr ⟨_, List.mem_filter.mpr ⟨hmem, by simpa using hkeep⟩, rfl⟩

theorem garbageCollect_keeps (inbox : SettledInbox) (now : ℕ) :
    Keeps bob (bob.garbageCollect inbox now) := by
  have hdrain := Keeps.foldl (fun bob settled => acknowledge_keeps bob now settled)
    inbox.entries bob
  rw [garbageCollect]
  split
  · exact hdrain.trans ⟨rfl, rfl⟩
  · exact hdrain.trans ⟨rfl, rfl⟩

/-- What is left of an entry when the inbox has been drained and the sweep has run. -/
inductive Collected (inbox : SettledInbox) (now : ℕ) (pubkey : Pubkey) (entry : AccountWithMeta) :
    Option AccountWithMeta → Prop
  | kept : Collected inbox now pubkey entry (some entry)
  | dropped {settled : SettledEntry} : inbox.lookup pubkey = some settled →
      settled.settlement.deleted = true → entry.deleted = true →
      covered entry settled.generation = true → Collected inbox now pubkey entry none
  | synced {settled : SettledEntry} : inbox.lookup pubkey = some settled →
      settled.settlement.deleted = false → entry.deleted = false →
      covered entry settled.generation = true → entry.account = settled.settlement.account →
      Collected inbox now pubkey entry (some { entry with syncedSince := some now })
  | swept {syncedSince : ℕ} : entry.syncedSince = some syncedSince →
      syncedSince + oldestSyncedAccountAge < now → Collected inbox now pubkey entry none

variable {bob k entry} in
variable {inbox : SettledInbox}

/-- An entry once the inbox is drained. -/
theorem drain_collected {now : ℕ} (hentry : bob.accounts.lookup k = some entry) :
    Collected inbox now k entry
      ((inbox.entries.foldl (acknowledge now) bob).accounts.lookup k) := by
  rw [drain_lookup, hentry]
  cases hsettled : inbox.lookup k with
  | none => exact .kept
  | some settled =>
    simp only [Option.elim, acknowledgedEntry]
    by_cases hdel : settled.settlement.deleted
    · rw [if_pos hdel]
      split
      · rename_i hcov
        obtain ⟨hentry, hcov⟩ := Bool.and_eq_true_iff.mp hcov
        exact .dropped hsettled hdel hentry hcov
      · exact .kept
    · rw [if_neg hdel]
      split
      · rename_i hcov
        simp only [Bool.and_eq_true, Bool.not_eq_true', decide_eq_true_eq] at hcov
        obtain ⟨⟨hlive, hcov⟩, haccount⟩ := hcov
        exact .synced hsettled (Bool.eq_false_iff.mpr hdel) hlive hcov haccount
      · exact .kept

variable {bob k entry} in
/-- An entry marked clean by the drain is too young for the sweep that follows. -/
theorem garbageCollect_collected {now : ℕ} (hentry : bob.accounts.lookup k = some entry) :
    Collected inbox now k entry ((bob.garbageCollect inbox now).accounts.lookup k) := by
  have hdrain := @drain_collected bob k entry inbox now hentry
  rw [garbageCollect]
  split
  · rw [ageSweep_lookup]
    generalize (inbox.entries.foldl (acknowledge now) bob).accounts.lookup k = drained at hdrain
    cases hdrain with
    | kept =>
      by_cases hkeep : keepSynced now entry
      · rw [Option.filter_some_pos hkeep]
        exact .kept
      · rw [Option.filter_some_neg (Bool.eq_false_iff.mpr hkeep)]
        cases hsynced : entry.syncedSince with
        | none => simp [keepSynced, hsynced] at hkeep
        | some syncedSince => exact .swept hsynced (by simpa [keepSynced, hsynced] using hkeep)
    | dropped hsettled hdel hentry hcov => exact .dropped hsettled hdel hentry hcov
    | synced hsettled hdel hlive hcov haccount =>
      rw [Option.filter_some_pos (by simp [keepSynced])]
      exact .synced hsettled hdel hlive hcov haccount
    | swept hsynced hold => exact .swept hsynced hold
  · exact hdrain

variable {bob k} in
theorem garbageCollect_absent {now : ℕ} (hnone : bob.accounts.lookup k = none) :
    (bob.garbageCollect inbox now).accounts.lookup k = none := by
  have hdrain : (inbox.entries.foldl (acknowledge now) bob).accounts.lookup k = none := by
    rw [drain_lookup, hnone]
    cases inbox.lookup k <;> rfl
  rw [garbageCollect]
  split
  · rw [ageSweep_lookup, hdrain]
    rfl
  · exact hdrain

/-- The second cache is the first without some clean entries outside the protected keys. -/
structure Evicts (protectedKeys : List Pubkey) (bob bob' : Bob) : Prop extends Keeps bob bob' where
  entries : ∀ k, bob'.accounts.lookup k = bob.accounts.lookup k ∨
    bob'.accounts.lookup k = none ∧ k ∉ protectedKeys ∧
      ∃ entry, bob.accounts.lookup k = some entry ∧ entry.syncedSince.isSome

variable (protectedKeys : List Pubkey)

theorem Evicts.refl : Evicts protectedKeys bob bob := ⟨Keeps.refl bob, fun _ => Or.inl rfl⟩

variable {protectedKeys} in
theorem Evicts.trans {a b c : Bob} (h : Evicts protectedKeys a b) (h' : Evicts protectedKeys b c) :
    Evicts protectedKeys a c := by
  refine ⟨h.toKeeps.trans h'.toKeeps, fun k => ?_⟩
  rcases h'.entries k with heq | ⟨hnone, hfree, entry, hentry, hclean⟩
  · rw [heq]
    exact h.entries k
  · rcases h.entries k with heq | hgone
    · exact Or.inr ⟨hnone, hfree, entry, heq ▸ hentry, hclean⟩
    · rw [hgone.1] at hentry
      cases hentry

/-- A clean key outside the protected ones may be removed. -/
theorem removeEntry_evicts (hfree : pubkey ∉ protectedKeys)
    (hclean : ∀ entry, bob.accounts.lookup pubkey = some entry → entry.syncedSince.isSome) :
    Evicts protectedKeys bob (bob.removeEntry pubkey) := by
  refine ⟨removeEntry_keeps bob pubkey, fun k => ?_⟩
  rw [removeEntry_accounts, lookup_erase_eq]
  by_cases hk : k = pubkey
  · subst hk
    rw [if_pos rfl]
    cases hentry : bob.accounts.lookup k with
    | none => exact Or.inl rfl
    | some entry => exact Or.inr ⟨rfl, hfree, entry, rfl, hclean entry hentry⟩
  · exact Or.inl (if_neg hk)

/-- A list of keys that are clean and outside the protected ones. -/
def Evictable (keys : List Pubkey) : Prop :=
  ∀ k ∈ keys, k ∉ protectedKeys ∧
    ∀ entry, bob.accounts.lookup k = some entry → entry.syncedSince.isSome

variable {bob protectedKeys}

theorem Evictable.tail {keys : List Pubkey} {victim : Pubkey}
    (h : Evictable bob protectedKeys (victim :: keys)) :
    Evictable (bob.removeEntry victim) protectedKeys keys := by
  intro k hk
  obtain ⟨hfree, hclean⟩ := h k (List.mem_cons_of_mem _ hk)
  refine ⟨hfree, fun entry hentry => ?_⟩
  rw [removeEntry_accounts, lookup_erase_eq] at hentry
  by_cases heq : k = victim
  · rw [if_pos heq] at hentry
    cases hentry
  · rw [if_neg heq] at hentry
    exact hclean entry hentry

variable {candidates : List (Pubkey × ℕ)}

theorem removeAll_evicts (h : Evictable bob protectedKeys (candidates.map Prod.fst)) :
    Evicts protectedKeys bob
      (candidates.foldl (fun bob candidate => bob.removeEntry candidate.1) bob) := by
  induction candidates generalizing bob with
  | nil => exact Evicts.refl bob protectedKeys
  | cons candidate candidates ih =>
    obtain ⟨hfree, hclean⟩ := h candidate.1 List.mem_cons_self
    exact (removeEntry_evicts bob candidate.1 protectedKeys hfree hclean).trans (ih h.tail)

/-- Eviction by size. -/
theorem evictLargest_evicts {target : ℕ}
    (h : Evictable bob protectedKeys (candidates.map Prod.fst)) :
    Evicts protectedKeys bob (evictLargest target candidates bob) := by
  induction candidates generalizing bob with
  | nil => exact Evicts.refl bob protectedKeys
  | cons candidate candidates ih =>
    rw [evictLargest]
    split
    · exact Evicts.refl bob protectedKeys
    · obtain ⟨hfree, hclean⟩ := h candidate.1 List.mem_cons_self
      exact (removeEntry_evicts bob candidate.1 protectedKeys hfree hclean).trans (ih h.tail)

/-- Only clean entries go. -/
theorem CapOrder.evictable {clean : List (Pubkey × ℕ)} (h : bob.CapOrder protectedKeys clean) :
    Evictable bob protectedKeys (clean.map Prod.fst) := by
  intro k hk
  obtain ⟨candidate, hin, rfl⟩ := List.mem_map.mp hk
  obtain ⟨e, he, hsome⟩ := List.mem_filterMap.mp (h.1.subset hin)
  obtain ⟨t, ht, rfl⟩ := Option.map_eq_some_iff.mp hsome
  obtain ⟨hsynced, hfree⟩ := Option.filter_eq_some_iff.mp ht
  refine ⟨by simpa using hfree, fun entry hentry => ?_⟩
  obtain rfl : e.2 = entry := bob.accounts.nodupKeys.eq_of_mk_mem he (List.of_mem_dlookup hentry)
  rw [hsynced]
  rfl

theorem capEvict_evicts {clean : List (Pubkey × ℕ)} (h : bob.CapOrder protectedKeys clean) :
    Evicts protectedKeys bob (bob.capEvict protectedKeys clean) := by
  rw [capEvict]
  split
  · exact Evicts.refl bob protectedKeys
  · refine removeAll_evicts fun k hk => h.evictable k ?_
    exact ((List.take_sublist _ clean).map Prod.fst).subset hk

theorem ByteOrder.evictable (h : bob.ByteOrder protectedKeys candidates) :
    Evictable bob protectedKeys (candidates.map Prod.fst) := by
  intro k hk
  obtain ⟨candidate, hin, rfl⟩ := List.mem_map.mp hk
  obtain ⟨e, he, rfl⟩ := List.mem_map.mp (h.1.subset hin)
  obtain ⟨he, hcond⟩ := List.mem_filter.mp he
  simp only [Bool.and_eq_true, decide_eq_true_eq] at hcond
  refine ⟨hcond.2, fun entry hentry => ?_⟩
  obtain rfl : e.2 = entry := bob.accounts.nodupKeys.eq_of_mk_mem he (List.of_mem_dlookup hentry)
  exact hcond.1.1

theorem evictToByteCap_evicts (h : bob.ByteOrder protectedKeys candidates) :
    Evicts protectedKeys bob (bob.evictToByteCap candidates) := by
  rw [evictToByteCap]
  split
  · exact Evicts.refl bob protectedKeys
  · exact evictLargest_evicts h.evictable

/-- A preload after the keys in `seen`: clean hits are refreshed, the rest but precompiles is
missed. -/
structure Split (now : ℕ) (bob : Bob) (seen : List Pubkey) (state : Bob × List Pubkey) : Prop
    extends Keeps bob state.1 where
  absent : ∀ k, bob.accounts.lookup k = none → state.1.accounts.lookup k = none
  entries : ∀ k entry, bob.accounts.lookup k = some entry →
    state.1.accounts.lookup k = some entry ∨
      entry.syncedSince.isSome ∧
        state.1.accounts.lookup k = some { entry with syncedSince := some now }
  missed : ∀ k ∈ state.2, bob.accounts.lookup k = none
  hit : ∀ k ∈ seen, bob.precompiles k = none → k ∈ state.2 ∨
    ∃ entry, state.1.accounts.lookup k = some entry ∧
      (entry.syncedSince = none ∨ entry.syncedSince = some now)

variable {now : ℕ} {seen : List Pubkey} {state : Bob × List Pubkey}

theorem Split.start : Split now bob [] (bob, []) :=
  ⟨Keeps.refl bob, fun _ h => h, fun _ _ h => Or.inl h, nofun, nofun⟩

/-- Setting the age of a clean entry keeps the others. -/
theorem Split.refresh (h : Split now bob seen state) {entry : AccountWithMeta} (k : Pubkey)
    (hentry : state.1.accounts.lookup k = some entry) (hclean : entry.syncedSince.isSome) :
    Split now bob (seen ++ [k]) (state.1.setSyncedSince k entry now, state.2) := by
  refine ⟨h.toKeeps.trans ⟨rfl, rfl⟩, fun k' hnone => ?_, fun k' old hold => ?_, h.missed,
    fun k' hk' hordinary => ?_⟩
  all_goals simp only [setSyncedSince, lookup_insert_eq]
  all_goals by_cases hkk : k' = k
  · subst hkk
    rw [h.absent k' hnone] at hentry
    cases hentry
  · rw [if_neg hkk]
    exact h.absent k' hnone
  · subst hkk
    rw [if_pos rfl]
    rcases h.entries k' old hold with heq | ⟨hold', heq⟩
    · obtain rfl : old = entry := Option.some.inj (heq.symm.trans hentry)
      exact Or.inr ⟨hclean, rfl⟩
    · cases heq.symm.trans hentry
      exact Or.inr ⟨hold', rfl⟩
  · rw [if_neg hkk]
    exact h.entries k' old hold
  · rw [if_pos hkk]
    exact Or.inr ⟨_, rfl, Or.inr rfl⟩
  · rw [if_neg hkk]
    refine h.hit k' ?_ hordinary
    rcases List.mem_append.mp hk' with hin | hin
    · exact hin
    · exact absurd (List.mem_singleton.mp hin) hkk

/-- One key of a preload. -/
theorem Split.visit (h : Split now bob seen state) (k : Pubkey) :
    Split now bob (seen ++ [k]) (visitKey now state k) := by
  rw [visitKey, h.precompiles]
  by_cases hpre : (bob.precompiles k).isSome
  · rw [if_pos hpre]
    refine ⟨h.toKeeps, h.absent, h.entries, h.missed, forall_mem_snoc h.hit fun hordinary => ?_⟩
    simp [hordinary] at hpre
  · rw [if_neg hpre]
    cases hentry : state.1.accounts.lookup k with
    | some entry =>
      dsimp only
      by_cases hclean : entry.syncedSince.isSome
      · rw [if_pos hclean]
        exact h.refresh k hentry hclean
      · rw [if_neg hclean]
        refine ⟨h.toKeeps, h.absent, h.entries, h.missed, forall_mem_snoc h.hit fun _ => ?_⟩
        exact Or.inr ⟨entry, hentry, Or.inl (by simpa using hclean)⟩
    | none =>
      refine ⟨h.toKeeps, h.absent, h.entries, forall_mem_snoc h.missed ?_,
        forall_mem_snoc (fun k' hin hordinary => ?_) fun _ => ?_⟩
      · cases hold : bob.accounts.lookup k with
        | none => rfl
        | some old =>
          rcases h.entries k old hold with heq | ⟨_, heq⟩ <;>
            · rw [hentry] at heq
              cases heq
      · exact (h.hit k' hin hordinary).imp_left (List.mem_append_left _)
      · exact Or.inl (List.mem_append_right _ (List.mem_singleton_self k))

theorem Split.foldl (h : Split now bob seen state) (pubkeys : List Pubkey) :
    Split now bob (seen ++ pubkeys) (pubkeys.foldl (visitKey now) state) := by
  induction pubkeys generalizing seen state with
  | nil => simpa using h
  | cons k pubkeys ih =>
    have hrest := ih (h.visit k)
    rwa [List.append_assoc, List.singleton_append] at hrest

/-- The entry of a row. -/
def fetchedEntry (now : ℕ) (account : AccountSharedData) : AccountWithMeta :=
  { account := account, syncedSince := some now, deleted := false, generation := none }

/-- The rows of an answer that are there. -/
def presentRows (missKeys : List Pubkey) (rows : List (Option AccountSharedData)) :
    List (Pubkey × AccountSharedData) :=
  (missKeys.zip rows).filterMap fun fetched => fetched.2.map (Prod.mk fetched.1)

theorem insertFetched_keeps (fetched : Pubkey × Option AccountSharedData) :
    Keeps bob (insertFetched now bob fetched) := by
  rw [insertFetched]
  split
  · exact insertEntry_keeps _ _ _
  · exact Keeps.refl bob

variable (bob now) in
theorem insertRows_lookup (missKeys : List Pubkey) (rows : List (Option AccountSharedData)) :
    (bob.insertRows missKeys rows now).accounts.lookup k =
      ((lastWrite (presentRows missKeys rows) k).map (fetchedEntry now)).or
        (bob.accounts.lookup k) := by
  have hrows : bob.insertRows missKeys rows now = (presentRows missKeys rows).foldl
      (fun bob row => bob.insertEntry row.1 (fetchedEntry now row.2)) bob := by
    rw [presentRows, List.foldl_filterMap, insertRows]
    congr 1
    funext bob fetched
    cases hrow : fetched.2 <;> simp [insertFetched, fetchedEntry, hrow]
  rw [hrows]
  exact look_foldl_writes (fun k bob => bob.accounts.lookup k)
    (fun bob row k => by rw [insertEntry_accounts, lookup_insert_eq]) _ bob k

variable {rows : Pubkey → Option AccountSharedData}

/-- What a fetch returns. -/
theorem mem_presentRows {missKeys : List Pubkey} {k : Pubkey} {account : AccountSharedData} :
    (k, account) ∈ presentRows missKeys (getAccountsWithin rows missKeys) ↔
      k ∈ missKeys ∧ readRow rows k = some account := by
  simp only [presentRows, getAccountsWithin, List.mem_filterMap, Option.map_eq_some_iff,
    Prod.mk.injEq, Prod.exists]
  constructor
  · rintro ⟨k', row, hzip, account', hrow, rfl, rfl⟩
    obtain ⟨i, hi⟩ := List.mem_iff_getElem?.mp hzip
    obtain ⟨hk, hentry⟩ := List.getElem?_zip_eq_some.mp hi
    simp only [List.getElem?_map, List.getElem?_zipIdx, hk, Option.map_some, Option.some.injEq,
      Nat.zero_add] at hentry
    refine ⟨List.mem_of_getElem? hk, ?_⟩
    split at hentry
    · rw [hentry, hrow]
    · rw [← hentry] at hrow
      cases hrow
  · rintro ⟨hk, hrow⟩
    refine ⟨k, some account, ?_, account, rfl, rfl, rfl⟩
    have hidx : missKeys[missKeys.idxOf k]? = some k :=
      List.getElem?_eq_some_iff.mpr ⟨List.idxOf_lt_length_iff.mpr hk, List.getElem_idxOf _⟩
    refine List.mem_of_getElem? (List.getElem?_zip_eq_some.mpr ⟨hidx, ?_⟩)
    simp [hidx, hrow]

/-- The answer holds the row of every key asked for, and nothing else. -/
theorem lastWrite_presentRows {missKeys : List Pubkey} {k : Pubkey} :
    lastWrite (presentRows missKeys (getAccountsWithin rows missKeys)) k =
      if k ∈ missKeys then readRow rows k else none := by
  cases hlast : lastWrite (presentRows missKeys (getAccountsWithin rows missKeys)) k with
  | some account =>
    obtain ⟨hk, hrow⟩ := mem_presentRows.mp (lastWrite_mem hlast)
    rw [if_pos hk, hrow]
  | none =>
    have hnone := lastWrite_eq_none.mp hlast
    split
    · rename_i hk
      cases hrow : readRow rows k with
      | none => rfl
      | some account =>
        exact absurd (List.mem_map.mpr ⟨_, mem_presentRows.mpr ⟨hk, hrow⟩, rfl⟩) hnone
    · rfl

end Bob

theorem lastWrite_stamp (generation : ℕ) (writes : List (Pubkey × AccountSharedData)) (k : Pubkey) :
    lastWrite (writes.map fun written => (written.1, generation, written.2)) k =
      (lastWrite writes k).map (Prod.mk generation) := by
  induction writes with
  | nil => rfl
  | cons written writes ih =>
    simp only [List.map_cons, lastWrite, ih]
    by_cases h : written.1 = k
    · cases lastWrite writes k <;> simp [h]
    · cases lastWrite writes k <;> simp [h]

/-- A block settles the newest write of each key it touches, at its generation. -/
theorem finalAccounts_lookup (block : List BufferedResult) (k : Pubkey) :
    (finalAccounts block).lookup k =
      (lastWrite (stampedWrites block) k).map fun write => ⟨write.1, settlementOf write.2⟩ := by
  have hstamped : finalAccounts block = (stampedWrites block).foldl
      (fun final write => settleAccount write.2.1 final (write.1, write.2.2)) ∅ := by
    simp only [finalAccounts, stampedWrites, List.foldl_flatMap, List.foldl_map]
  rw [hstamped]
  refine (look_foldl_writes (fun k (final : SettledInbox) => final.lookup k)
    (fun final write k => ?_) (stampedWrites block) ∅ k).trans (Option.or_none)
  exact lookup_insert_eq k write.1 _ final

/-- The rows after a commit are the rows with the writes of the block applied. -/
theorem writeRows_finalAccounts (rows : Pubkey → Option AccountSharedData)
    (block : List BufferedResult) :
    writeRows rows (finalAccounts block) =
      applyWrites (fun write => liveAccount write.2) rows (stampedWrites block) := by
  funext k
  rw [writeRows, finalAccounts_lookup, applyWrites_apply]
  cases lastWrite (stampedWrites block) k with
  | none => rfl
  | some write => exact settlementOf_live write.2

/-- The inbox holds, for each key, what it held or what is published. -/
theorem publish_lookup {inbox settlements : SettledInbox} {k : Pubkey} {settled : SettledEntry}
    (h : (inbox.publish settlements).lookup k = some settled) :
    inbox.lookup k = some settled ∨ settlements.lookup k = some settled := by
  have hlook := look_foldl (fun k (inbox : SettledInbox) => inbox.lookup k)
    (f := mergeSettlement)
    (g := fun settled slot => some (slot.elim settled fun old =>
      if old.generation ≤ settled.generation then settled else old))
    (fun inbox k settled => ?_) (fun inbox pubkey k settled hne => ?_) settlements.nodupKeys inbox k
  · rw [SettledInbox.publish, hlook] at h
    change Option.elim (settlements.lookup k) _ _ = _ at h
    cases hnew : settlements.lookup k with
    | none => exact Or.inl (by simpa [hnew] using h)
    | some new =>
      rw [hnew] at h
      cases hold : inbox.lookup k with
      | none => exact Or.inr (by simpa [hold] using h)
      | some old =>
        simp only [Option.elim, hold, Option.some.injEq] at h
        split at h
        · exact Or.inr (congrArg some h)
        · exact Or.inl (congrArg some h)
  · rw [mergeSettlement]
    cases hold : inbox.lookup k with
    | none => simp
    | some old =>
      dsimp only [Option.elim]
      split
      · rw [AList.lookup_insert]
      · exact hold
  · rw [mergeSettlement]
    split
    · split
      · rw [AList.lookup_insert_ne hne]
      · rfl
    · rw [AList.lookup_insert_ne hne]

end PrivateChannels.Core
