import PrivateChannels.Core.WriteBatch
import PrivateChannels.Foundation.LinkedBlocks

/-!
# Histories of commits

A committed call leaves the database as a second run of it would, so its retry changes
nothing while its epoch is the current one, and is refused once another writer has claimed
an epoch.
-/

namespace PrivateChannels.Core

open WriteLog
open scoped List

/-- Each block builds on the one stored before it. -/
def BlocksLinked (blocks : List BlockInfo) : Prop :=
  Linked BlockInfo.slot BlockInfo.parentSlot blocks

section Chain

variable {blocks blocks' : List BlockInfo} {block tip : BlockInfo} {inserted : Bool}
  {call : WriteCall}

section

variable (h : BlocksLinked blocks)
include h

/-- No slot is above that of the last block, and no other block is in its slot. -/
theorem BlocksLinked.slot_le_last (hlast : blocks.getLast? = some tip) :
    ∀ stored ∈ blocks, stored.slot ≤ tip.slot ∧ (stored.slot = tip.slot → stored = tip) := by
  obtain ⟨older, rfl⟩ := List.getLast?_eq_some_iff.mp hlast
  refine forall_mem_snoc (fun stored hold => ?_) ⟨le_rfl, fun _ => rfl⟩
  have hlt := (List.pairwise_append.mp (Linked.ascending h)).2.2 stored hold tip (by simp)
  exact ⟨hlt.le, fun heq => absurd heq hlt.ne⟩

theorem BlocksLinked.max_slot (hlast : blocks.getLast? = some tip) :
    (blocks.map (·.slot)).max? = some tip.slot := by
  rw [List.max?_eq_some_iff]
  refine ⟨List.mem_map.mpr ⟨tip, List.mem_of_getLast? hlast, rfl⟩, fun slot hslot => ?_⟩
  obtain ⟨stored, hstored, rfl⟩ := List.mem_map.mp hslot
  exact (h.slot_le_last hlast stored hstored).1

/-- The insert finds the block at the tip, or puts it on top of the tip. -/
theorem BlocksLinked.insertBlock_cases
    (hinsert : insertBlock blocks block = some (blocks', inserted)) :
    inserted = false ∧ blocks' = blocks ∧ blocks.getLast? = some block ∨
      inserted = true ∧ blocks' = blocks ++ [block] ∧
        ∀ tip ∈ blocks.getLast?, block.parentSlot = tip.slot ∧ tip.slot < block.slot := by
  rw [insertBlock] at hinsert
  split at hinsert
  · cases hinsert
  · next hbelow =>
    have hle : ∀ stored ∈ blocks, stored.slot ≤ block.slot := by simpa using hbelow
    split at hinsert
    · next hparent =>
      cases hfind : blocks.find? fun stored => stored.slot = block.slot with
      | some stored =>
        rw [hfind] at hinsert
        dsimp only at hinsert
        split at hinsert
        · next heq =>
          subst heq
          obtain ⟨rfl, rfl⟩ : blocks = blocks' ∧ false = inserted := by simpa using hinsert
          refine Or.inl ⟨rfl, rfl, ?_⟩
          have hmem := List.mem_of_find?_eq_some hfind
          cases hlast : blocks.getLast? with
          | none =>
            rw [List.getLast?_eq_none_iff.mp hlast] at hmem
            cases hmem
          | some tip =>
            have htip := h.slot_le_last hlast stored hmem
            have hslot : stored.slot = tip.slot :=
              le_antisymm htip.1 (hle tip (List.mem_of_getLast? hlast))
            rw [htip.2 hslot]
        · cases hinsert
      | none =>
        rw [hfind] at hinsert
        obtain ⟨rfl, rfl⟩ : blocks ++ [block] = blocks' ∧ true = inserted := by simpa using hinsert
        refine Or.inr ⟨rfl, rfl, fun tip hlast => ?_⟩
        have hmem := List.mem_of_getLast? hlast
        have hne : tip.slot ≠ block.slot := by simpa using List.find?_eq_none.mp hfind tip hmem
        rw [h.max_slot hlast] at hparent
        have hparent : tip.slot = block.slot ∨ tip.slot = block.parentSlot := by simpa using hparent
        exact ⟨(hparent.resolve_left hne).symm, lt_of_le_of_ne (hle tip hmem) hne⟩
    · cases hinsert

theorem BlocksLinked.insertBlock (hinsert : insertBlock blocks block = some (blocks', inserted)) :
    BlocksLinked blocks' ∧ blocks'.getLast? = some block := by
  rcases h.insertBlock_cases hinsert with ⟨_, rfl, hlast⟩ | ⟨_, rfl, hlink⟩
  · exact ⟨h, hlast⟩
  · refine ⟨List.isChain_append.mpr ⟨h, List.IsChain.singleton block, fun tip htip b hb => ?_⟩,
      by simp⟩
    obtain rfl : block = b := by simpa using hb
    exact (hlink tip htip).symm

end

end Chain

section Call

variable {readOnly : Bool} {held : ℕ} {batch : WriteBatch} {db db' : Postgres}

/-- Counting changes the counter only. -/
theorem countTransactions_eq (db : Postgres) (txCount : ℕ) (slotIsNew : Bool) :
    ∃ count, db.countTransactions txCount slotIsNew = { db with transactionCount := count } := by
  rw [Postgres.countTransactions]
  split
  · exact ⟨_, rfl⟩
  · exact ⟨_, rfl⟩

/-- The block step of a commit. -/
theorem storeBlock_ok {blockInfo : Option BlockInfo} {stored : Postgres} {slotIsNew : Bool}
    (h : db.storeBlock blockInfo = .ok (stored, slotIsNew)) :
    blockInfo = none ∧ stored = db ∧ slotIsNew = true ∨
      ∃ block blocks, blockInfo = some block ∧
        insertBlock db.blocks block = some (blocks, slotIsNew) ∧
        stored = { db with blocks := blocks, tip := tipOf block } := by
  cases blockInfo with
  | none =>
    cases Except.ok.inj h
    exact Or.inl ⟨rfl, rfl, rfl⟩
  | some block =>
    rw [Postgres.storeBlock] at h
    cases hinsert : insertBlock db.blocks block with
    | none => rw [hinsert] at h; cases h
    | some result =>
      rw [hinsert] at h
      cases Except.ok.inj h
      exact Or.inr ⟨block, result.1, rfl, hinsert, rfl⟩

/-- What a call does to the epoch, the blocks and the counter. -/
inductive Committed (batch : WriteBatch) (db db' : Postgres) : Prop
  /-- Nothing new is stored. -/
  | again : db'.writerEpoch = db.writerEpoch → db'.blocks = db.blocks →
      db'.transactionCount = db.transactionCount → Committed batch db db'
  | inserted {block : BlockInfo} : batch.blockInfo = some block →
      insertBlock db.blocks block = some (db'.blocks, true) → db'.writerEpoch = db.writerEpoch →
      db'.transactionCount.getD 0 =
        increment (db.transactionCount.getD 0) batch.transactions.length →
      Committed batch db db'
  /-- Without a block there is no slot to count by. -/
  | blockless : batch.blockInfo = none → db'.writerEpoch = db.writerEpoch →
      db'.blocks = db.blocks →
      db'.transactionCount.getD 0 =
        increment (db.transactionCount.getD 0) batch.transactions.length →
      Committed batch db db'

/-- The counter stays in range. -/
def CountOk (db : Postgres) : Prop := db.transactionCount.getD 0 < 2 ^ 64

theorem increment_zero {count : ℕ} (h : count < 2 ^ 64) : increment count 0 = count := by
  rw [increment]
  omega

theorem countTransactions_new (db : Postgres) (hcount : CountOk db) (txCount : ℕ) :
    (db.countTransactions txCount true).transactionCount.getD 0 =
      increment (db.transactionCount.getD 0) txCount := by
  rw [Postgres.countTransactions]
  split
  · rfl
  · next hzero =>
    obtain rfl : txCount = 0 := by simpa using hzero
    exact (increment_zero hcount).symm

theorem countTransactions_replayed (db : Postgres) (txCount : ℕ) :
    db.countTransactions txCount false = db := by
  simp [Postgres.countTransactions]

variable {block : BlockInfo}

section

variable (h : writeBatchPostgres readOnly (some held) batch db = .ok db')
include h

/-- A call that ends well did nothing, or ran all its statements under its epoch. -/
theorem writeBatchPostgres_ok :
    db' = db ∧ (readOnly = true ∨ batch.transactions = [] ∧ batch.blockInfo = none) ∨
      readOnly = false ∧ db.writerEpoch.read = some held ∧ ∃ stored slotIsNew,
        (db.writeRows batch).storeBlock batch.blockInfo = .ok (stored, slotIsNew) ∧
        db' = stored.countTransactions batch.transactions.length slotIsNew := by
  rw [writeBatchPostgres] at h
  split at h
  · next hreadOnly => exact Or.inl ⟨(Except.ok.inj h).symm, Or.inl hreadOnly⟩
  · next hwrites =>
    split at h
    · next hempty =>
      simp only [Bool.and_eq_true, List.isEmpty_iff, Option.isNone_iff_eq_none] at hempty
      exact Or.inl ⟨(Except.ok.inj h).symm, Or.inr ⟨hempty.1.2, hempty.2⟩⟩
    · refine Or.inr ⟨Bool.eq_false_iff.mpr hwrites, ?_⟩
      cases hfence : db.refuses (some held) with
      | some error => rw [hfence] at h; cases h
      | none =>
        rw [hfence] at h
        have hepoch : db.writerEpoch.read = some held := by
          simpa [Postgres.refuses] using hfence
        refine ⟨hepoch, ?_⟩
        cases hstore : (db.writeRows batch).storeBlock batch.blockInfo with
        | error error => rw [hstore] at h; cases h
        | ok result =>
          rw [hstore] at h
          exact ⟨result.1, result.2, rfl, (Except.ok.inj h).symm⟩

/-- One that has a block inserts it next to the rows, and may count. -/
theorem writeBatchPostgres_block (hblock : batch.blockInfo = some block) :
    db' = db ∧ readOnly = true ∨
      readOnly = false ∧ db.writerEpoch.read = some held ∧ ∃ blocks slotIsNew count,
        insertBlock db.blocks block = some (blocks, slotIsNew) ∧ db' = { db.writeRows batch with
          blocks := blocks, tip := tipOf block, transactionCount := count } := by
  rcases writeBatchPostgres_ok h with
    ⟨heq, hreadOnly | ⟨_, hnone⟩⟩ | ⟨hwrites, hepoch, _, slotIsNew, hstore, rfl⟩
  · exact Or.inl ⟨heq, hreadOnly⟩
  · cases hblock.symm.trans hnone
  · rcases storeBlock_ok hstore with ⟨hnone, _⟩ | ⟨other, blocks, hother, hinsert, rfl⟩
    · cases hblock.symm.trans hnone
    · cases hblock.symm.trans hother
      obtain ⟨count, hcount⟩ := countTransactions_eq
        { db.writeRows batch with blocks := blocks, tip := tipOf block }
        batch.transactions.length slotIsNew
      exact Or.inr ⟨hwrites, hepoch, blocks, slotIsNew, count, hinsert, hcount⟩

/-- A writer whose epoch is not the current one changes nothing. -/
theorem writeBatchPostgres_superseded (hepoch : db.writerEpoch.read ≠ some held) : db' = db := by
  rcases writeBatchPostgres_ok h with ⟨heq, _⟩ | ⟨_, hcurrent, _⟩
  · exact heq
  · exact absurd hcurrent hepoch

/-- What a committed call has done. -/
theorem writeBatchPostgres_committed (hlinked : BlocksLinked db.blocks) (hcount : CountOk db) :
    Committed batch db db' := by
  rcases writeBatchPostgres_ok h with ⟨rfl, _⟩ | ⟨_, _, stored, slotIsNew, hstore, rfl⟩
  · exact .again rfl rfl rfl
  · obtain ⟨count, heq⟩ := countTransactions_eq stored batch.transactions.length slotIsNew
    rcases storeBlock_ok hstore with ⟨hblock, rfl, rfl⟩ | ⟨block, blocks, hblock, hinsert, rfl⟩
    · refine .blockless hblock ?_ ?_ (countTransactions_new (db.writeRows batch) hcount _)
      · rw [heq]; rfl
      · rw [heq]; rfl
    · rcases hlinked.insertBlock_cases hinsert with ⟨rfl, rfl, _⟩ | ⟨rfl, rfl, _⟩
      · rw [countTransactions_replayed]
        exact .again rfl rfl rfl
      · refine .inserted hblock ?_ ?_ (countTransactions_new
          { db.writeRows batch with blocks := db.blocks ++ [block], tip := tipOf block } hcount _)
        · rw [heq]; exact hinsert
        · rw [heq]; rfl

end

end Call

section Steps

variable {db db' : Postgres} {label : StoreLabel}

/-- What every history of commits keeps. -/
structure StoreOk (db : Postgres) : Prop where
  linked : BlocksLinked db.blocks
  count : CountOk db

/-- A bump raises the epoch. -/
theorem bump_ok {step epoch : ℕ} (h : bump step db = some (db', epoch)) :
    db' = { db with writerEpoch := .value epoch } ∧
      ∀ current, db.writerEpoch.read = some current → epoch = current + step := by
  rw [bump] at h
  cases hrow : db.writerEpoch with
  | corrupt => simp [hrow] at h
  | missing =>
    simp only [hrow] at h
    split at h
    · cases Option.some.inj h
      exact ⟨rfl, nofun⟩
    · cases h
  | value current =>
    simp only [hrow] at h
    split at h
    · cases Option.some.inj h
      exact ⟨rfl, fun other hother => by rw [Option.some.inj hother]⟩
    · cases h

/-- A commit keeps the chain. -/
theorem StoreOk.committed (h : StoreOk db) {batch : WriteBatch}
    (hcommitted : Committed batch db db') : StoreOk db' := by
  cases hcommitted with
  | again _ hblocks hcount =>
    refine ⟨hblocks ▸ h.linked, ?_⟩
    rw [CountOk, hcount]
    exact h.count
  | inserted _ hinsert _ hcount =>
    refine ⟨(h.linked.insertBlock hinsert).1, ?_⟩
    rw [CountOk, hcount, increment]
    omega
  | blockless _ _ hblocks hcount =>
    refine ⟨hblocks ▸ h.linked, ?_⟩
    rw [CountOk, hcount, increment]
    omega

theorem StoreOk.step (h : StoreOk db) (hstep : StoreStep db label db') : StoreOk db' := by
  cases hstep with
  | bump _ _ hbump =>
    obtain ⟨rfl, _⟩ := bump_ok hbump
    exact ⟨h.linked, h.count⟩
  | committed hcall => exact h.committed (writeBatchPostgres_committed hcall h.linked h.count)
  | _ => exact h

/-- A newer epoch than this one has been claimed. -/
def Superseded (epoch : ℕ) (db : Postgres) : Prop :=
  ∃ current, db.writerEpoch = .value current ∧ epoch < current

/-- Only a bump moves the epoch, and up. -/
theorem StoreStep.writerEpoch (h : StoreOk db) (hstep : StoreStep db label db') :
    db'.writerEpoch = db.writerEpoch ∧ (∀ epoch, label ≠ .bump epoch) ∨
      ∃ epoch, label = .bump epoch ∧ db'.writerEpoch = .value epoch ∧
        ∀ current, db.writerEpoch = .value current → current < epoch := by
  cases hstep with
  | @bump step epoch _ hone _ hbump =>
    obtain ⟨rfl, hnext⟩ := bump_ok hbump
    refine Or.inr ⟨epoch, rfl, rfl, fun current hcurrent => ?_⟩
    rw [hnext current (by rw [hcurrent]; rfl)]
    omega
  | committed hcall =>
    cases writeBatchPostgres_committed hcall h.linked h.count with
    | again hepoch _ _ | inserted _ _ hepoch _ | blockless _ hepoch _ _ =>
      exact Or.inl ⟨hepoch, nofun⟩
  | _ => exact Or.inl ⟨rfl, nofun⟩

theorem Superseded.step {epoch : ℕ} (hsuperseded : Superseded epoch db) (h : StoreOk db)
    (hstep : StoreStep db label db') : Superseded epoch db' := by
  obtain ⟨current, hcurrent, hlt⟩ := hsuperseded
  rcases hstep.writerEpoch h with ⟨heq, _⟩ | ⟨next, _, hnext, hgrows⟩
  · exact ⟨current, heq.trans hcurrent, hlt⟩
  · exact ⟨next, hnext, hlt.trans (hgrows current hcurrent)⟩

/-- Blocks are never removed. -/
theorem StoreStep.blocks_subset (h : StoreOk db) (hstep : StoreStep db label db') :
    db.blocks ⊆ db'.blocks := by
  cases hstep with
  | bump _ _ hbump =>
    obtain ⟨rfl, _⟩ := bump_ok hbump
    exact List.Subset.refl _
  | committed hcall =>
    cases writeBatchPostgres_committed hcall h.linked h.count with
    | again _ hblocks _ | blockless _ _ hblocks _ => rw [hblocks]; exact List.Subset.refl _
    | inserted _ hinsert _ _ =>
      rcases h.linked.insertBlock_cases hinsert with ⟨hfalse, _⟩ | ⟨_, hblocks, _⟩
      · cases hfalse
      · rw [hblocks]; exact List.subset_append_left _ _
  | _ => exact List.Subset.refl _

/-- A block is stored above that of the call. -/
def Passed (call : WriteCall) (db : Postgres) : Prop :=
  ∃ block, call.batch.blockInfo = some block ∧ ∃ stored ∈ db.blocks, block.slot < stored.slot

/-- A newer epoch has been claimed, or a block stored above its own, or running it again changes
nothing. -/
def Done (call : WriteCall) (db : Postgres) : Prop :=
  call.readOnly = true ∨ Superseded call.held db ∨ Passed call db ∨
    db.writerEpoch = .value call.held ∧
      writeBatchPostgres call.readOnly (some call.held) call.batch db = .ok db

/-- Another call of the writer stores its own block on top, or nothing. -/
theorem Done.step_other (h : StoreOk db) {call other : WriteCall} (hwrites : call.readOnly = false)
    (hagain : writeBatchPostgres call.readOnly (some call.held) call.batch db = .ok db)
    (hblock : call.batch.blockInfo.isSome) (hother : other.batch.blockInfo = some block)
    (hne : call.batch.blockInfo ≠ some block)
    (hcall : writeBatchPostgres other.readOnly (some other.held) other.batch db = .ok db') :
    db' = db ∨ Passed call db' := by
  obtain ⟨own, hown⟩ := Option.isSome_iff_exists.mp hblock
  have hlast : db.blocks.getLast? = some own := by
    rcases writeBatchPostgres_block hagain hown with
      ⟨_, hreadOnly⟩ | ⟨_, _, blocks, _, _, hinsert, heq⟩
    · rw [hwrites] at hreadOnly
      cases hreadOnly
    · have hblocks : db.blocks = blocks := congrArg Postgres.blocks heq
      rw [hblocks]
      exact (h.linked.insertBlock hinsert).2
  rcases writeBatchPostgres_block hcall hother with ⟨heq, _⟩ | ⟨_, _, blocks, _, _, hinsert, rfl⟩
  · exact Or.inl heq
  · rcases h.linked.insertBlock_cases hinsert with ⟨_, _, hsame⟩ | ⟨_, rfl, hlink⟩
    · obtain rfl : own = block := Option.some.inj (hlast.symm.trans hsame)
      exact absurd hown hne
    · exact Or.inr ⟨own, hown, block, List.mem_append_right _ List.mem_cons_self,
        (hlink own hlast).2⟩

/-- What another call of the same writer may be while a call is retried. -/
def Apart (call other : WriteCall) : Prop :=
  other.held = call.held → other = call ∨
    ∃ block, other.batch.blockInfo = some block ∧ call.batch.blockInfo ≠ some block

/-- Neither a new writer nor another one nor the call itself undoes this. -/
theorem Done.step (hdone : Done call db) (h : StoreOk db)
    (hblock : call.batch.blockInfo.isSome) (hstep : StoreStep db label db')
    (hapart : ∀ other outcome, label = .write other outcome → Apart call other) :
    Done call db' := by
  rcases hdone with hreadOnly | hsuperseded | ⟨block, hblock, stored, hstored, hlt⟩ |
    ⟨hcurrent, hagain⟩
  · exact Or.inl hreadOnly
  · exact Or.inr (Or.inl (hsuperseded.step h hstep))
  · exact Or.inr (Or.inr (Or.inl ⟨block, hblock, stored, hstep.blocks_subset h hstored, hlt⟩))
  · by_cases hreadOnly : call.readOnly = true
    · exact Or.inl hreadOnly
    have hkept : db' = db → Done call db' := by
      rintro rfl
      exact Or.inr (Or.inr (Or.inr ⟨hcurrent, hagain⟩))
    cases hstep with
    | bump hone _ hbump =>
      obtain ⟨rfl, hnext⟩ := bump_ok hbump
      have hepoch := hnext call.held (by rw [hcurrent]; rfl)
      exact Or.inr (Or.inl ⟨_, rfl, by omega⟩)
    | @committed other acknowledged _ hcall =>
      by_cases hheld : other.held = call.held
      · rcases hapart other _ rfl hheld with rfl | ⟨block, hother, hne⟩
        · exact hkept (Except.ok.inj (hcall.symm.trans hagain))
        · rcases Done.step_other h (Bool.eq_false_iff.mpr hreadOnly) hagain hblock hother
            hne hcall with heq | hpassed
          · exact hkept heq
          · exact Or.inr (Or.inr (Or.inl hpassed))
      · refine hkept (writeBatchPostgres_superseded hcall fun heq => ?_)
        rw [hcurrent] at heq
        exact hheld (Option.some.inj heq).symm
    | _ => exact hkept rfl

end Steps

/-- The calls of a history that committed, acknowledged or not. -/
def committedCalls (labels : List StoreLabel) : List WriteCall :=
  labels.filterMap fun label =>
    match label with
    | .write call (.committed _) => some call
    | _ => none

theorem committedCalls_append (labels more : List StoreLabel) :
    committedCalls (labels ++ more) = committedCalls labels ++ committedCalls more :=
  List.filterMap_append

/-- The first calls of their blocks: the blocks are stored, and the counter has grown by their
transactions. -/
def CountedOnce (first : Postgres) (labels : List StoreLabel) (db : Postgres) : Prop :=
  ∃ applied : List WriteCall, applied <+ committedCalls labels ∧
    db.blocks = first.blocks ++ applied.filterMap (·.batch.blockInfo) ∧
    db.transactionCount.getD 0 = increment (first.transactionCount.getD 0)
      (applied.map (·.batch.transactions.length)).sum

theorem increment_increment (count a b : ℕ) :
    increment (increment count a) b = increment count (a + b) := by
  simp only [increment]
  omega

section Runs

variable {first db db' : Postgres} {labels more : List StoreLabel} {label : StoreLabel}

theorem CountedOnce.again (h : CountedOnce first labels db) (hblocks : db'.blocks = db.blocks)
    (hcount : db'.transactionCount = db.transactionCount) (label : StoreLabel) :
    CountedOnce first (labels ++ [label]) db' := by
  obtain ⟨applied, hsub, hstored, hcounted⟩ := h
  refine ⟨applied, hsub.trans ?_, hblocks.trans hstored, by rw [hcount]; exact hcounted⟩
  rw [committedCalls_append]
  exact List.sublist_append_left _ _

/-- The first call of a block. -/
theorem CountedOnce.apply (h : CountedOnce first labels db) {acknowledged : Bool}
    (hblocks : db'.blocks = db.blocks ++ [call].filterMap (·.batch.blockInfo))
    (hcount : db'.transactionCount.getD 0 =
      increment (db.transactionCount.getD 0) call.batch.transactions.length) :
    CountedOnce first (labels ++ [.write call (.committed acknowledged)]) db' := by
  obtain ⟨applied, hsub, hstored, hcounted⟩ := h
  refine ⟨applied ++ [call], ?_, ?_, ?_⟩
  · rw [committedCalls_append]
    exact hsub.append (List.Sublist.refl _)
  · rw [hblocks, hstored, List.filterMap_append, List.append_assoc]
  · rw [hcount, hcounted, increment_increment, List.map_append, List.sum_append]
    simp

/-- Every step counts a block once. -/
theorem CountedOnce.step (h : CountedOnce first labels db) (hok : StoreOk db)
    (hstep : StoreStep db label db') : CountedOnce first (labels ++ [label]) db' := by
  cases hstep with
  | bump _ _ hbump =>
    obtain ⟨rfl, _⟩ := bump_ok hbump
    exact h.again rfl rfl _
  | committed hcall =>
    cases writeBatchPostgres_committed hcall hok.linked hok.count with
    | again _ hblocks hcount => exact h.again hblocks hcount _
    | inserted hblock hinsert _ hcount =>
      rcases hok.linked.insertBlock_cases hinsert with ⟨hfalse, _⟩ | ⟨_, hblocks, _⟩
      · cases hfalse
      · exact h.apply (by rw [hblocks]; simp [hblock]) hcount
    | blockless hnone _ hblocks hcount => exact h.apply (by rw [hblocks]; simp [hnone]) hcount
  | _ => exact h.again rfl rfl _

theorem StoreOk.run (h : StoreOk first) (hrun : Run StoreStep first labels db) : StoreOk db :=
  hrun.stateInvariant h fun _ _ _ hok => hok.step

/-- What is done stays done. -/
theorem Done.run (hdone : Done call first) (h : StoreOk first)
    (hblock : call.batch.blockInfo.isSome) (hrun : Run StoreStep first labels db)
    (hapart : ∀ other outcome, .write other outcome ∈ labels → Apart call other) :
    Done call db := by
  refine (Run.invariant (P := fun labels db => StoreOk db ∧
    ((∀ other outcome, .write other outcome ∈ labels → Apart call other) → Done call db))
    ⟨h, fun _ => hdone⟩ (fun labels db label db' hinv hstep => ?_) hrun).2 hapart
  refine ⟨hinv.1.step hstep, fun hapart => ?_⟩
  refine (hinv.2 fun other outcome hin => hapart other outcome (List.mem_append_left _ hin)).step
    hinv.1 hblock hstep fun other outcome hlabel => hapart other outcome ?_
  rw [hlabel]
  exact List.mem_append_right _ List.mem_cons_self

end Runs

end PrivateChannels.Core
