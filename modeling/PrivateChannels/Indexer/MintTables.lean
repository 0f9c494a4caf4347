import PrivateChannels.Foundation.LatestWrite
import PrivateChannels.Indexer.Instructions

/-!
# The mints table and its status history

The slot-ordered upsert of `mints`, the insert-once history of gate transitions, its
mirror onto the mints row, and the status of a mint at a slot.
-/

namespace PrivateChannels.Indexer

open Operator (Pubkey)

/-- The mints and their history. -/
structure MintTables where
  mints : Pubkey → Option DbMint
  history : List DbMintStatus

/-- The `SET` list of the upsert. -/
def DbMint.takeOver (row mint : DbMint) : DbMint :=
  { row with
    decimals := mint.decimals
    tokenProgram := mint.tokenProgram
    withdrawFee := mint.withdrawFee
    minWithdrawAmount := mint.minWithdrawAmount
    allowMintSlot := mint.allowMintSlot }

/-- `ON CONFLICT (mint_address) DO UPDATE` where the row's `allow_mint_slot` is no later; an
inserted row is not blocked. -/
def upsertedRow (mint : DbMint) : Option DbMint → DbMint
  | none => { mint with withdrawalsBlocked := false }
  | some row => if row.allowMintSlot ≤ mint.allowMintSlot then row.takeOver mint else row

/-- One upsert of `mints`. -/
def upsertMint (mints : Pubkey → Option DbMint) (mint : DbMint) : Pubkey → Option DbMint :=
  Function.update mints mint.mintAddress (some (upsertedRow mint (mints mint.mintAddress)))

def upsertMintsBatch (batch : List DbMint) (tables : MintTables) : MintTables :=
  { tables with mints := batch.foldl upsertMint tables.mints }

/-- The unique index: one row per source instruction. -/
def DbMintStatus.sameSource (row other : DbMintStatus) : Bool :=
  row.signature = other.signature ∧ row.instructionIndex = other.instructionIndex ∧
    innerOrder row.innerIndex = innerOrder other.innerIndex

/-- `ON CONFLICT .. DO NOTHING`. -/
def insertMintStatus (history : List DbMintStatus) (status : DbMintStatus) : List DbMintStatus :=
  if history.any status.sameSource then history else history ++ [status]

def insertMintStatusesBatch (batch : List DbMintStatus) (tables : MintTables) : MintTables :=
  { tables with history := batch.foldl insertMintStatus tables.history }

/-- The first row in descending block order. -/
def latestStatus (rows : List DbMintStatus) : Option DbMintStatus :=
  rows.foldl (keepLatest DbMintStatus.position) none

/-- The row with its gates set to the latest transition of its mint. -/
def mirrored (history : List DbMintStatus) (mint : Pubkey) (row : DbMint) : DbMint :=
  match latestStatus (history.filter (·.mintAddress = mint)) with
  | some latest =>
    { row with status := latest.status, withdrawalsBlocked := latest.withdrawalsBlocked }
  | none => row

/-- The mirror onto the mints row. -/
def syncMintStatus (touched : List Pubkey) (tables : MintTables) : MintTables :=
  { tables with mints := fun mint =>
      if mint ∈ touched then (tables.mints mint).map (mirrored tables.history mint)
      else tables.mints mint }

/-- The gate of a mint at a slot. -/
inductive MintStatusAtSlot
  | allowed
  | blocked
  | neverAllowed
  deriving DecidableEq, Repr

/-- The status coming into the slot, plus every change inside it. -/
def statusesAtSlot (history : List DbMintStatus) (mint : Pubkey) (slot : ℕ) : List MintStatus :=
  let rows := history.filter (·.mintAddress = mint)
  ((latestStatus (rows.filter (·.effectiveSlot < slot))).toList ++
    rows.filter (·.effectiveSlot = slot)).map (·.status)

/-- The gate of a mint at a slot. -/
def getMintStatusAtSlot (history : List DbMintStatus) (mint : Pubkey) (slot : ℕ) :
    MintStatusAtSlot :=
  let statuses := statusesAtSlot history mint slot
  if statuses.any (· = .allowed) then .allowed
  else if statuses = [] then .neverAllowed
  else .blocked

/-- The storage calls of `write_slot`, in order. -/
inductive WriteStage
  | mints
  | mintStatuses
  | syncMintStatus
  | observedReleases
  | transactions
  deriving DecidableEq, Repr

/-- A call that fails, and whether it took effect all the same. -/
abbrev WriteFailure := Option (WriteStage × Bool)

/-- One call: on an error the attempt ends there. -/
def writeStage (failure : WriteFailure) (stage : WriteStage) (write : MintTables → MintTables)
    (next : MintTables → MintTables × Bool) (tables : MintTables) : MintTables × Bool :=
  if failure = some (stage, true) then (write tables, false)
  else if failure = some (stage, false) then (tables, false)
  else next (write tables)

/-- The failure is of a call that is made. -/
def fails (failure : WriteFailure) (stage : WriteStage) : Bool :=
  failure = some (stage, true) ∨ failure = some (stage, false)

/-- Releases and transactions are written to tables of their own. -/
def writeOthers (rows : SlotRows) (failure : WriteFailure) (tables : MintTables) :
    MintTables × Bool :=
  if rows.observedReleases ≠ [] ∧ fails failure .observedReleases then (tables, false)
  else if rows.transactions ≠ [] ∧ fails failure .transactions then (tables, false)
  else (tables, true)

/-- The history, then the mirror of each touched mint. -/
def writeStatuses (rows : SlotRows) (failure : WriteFailure) (tables : MintTables) :
    MintTables × Bool :=
  if rows.mintStatuses = [] then writeOthers rows failure tables
  else
    writeStage failure .mintStatuses (insertMintStatusesBatch rows.mintStatuses)
      (writeStage failure .syncMintStatus
        (syncMintStatus (rows.mintStatuses.map (·.mintAddress)).dedup)
        (writeOthers rows failure)) tables

/-- The mint tables after an attempt, and whether it succeeded. -/
def writeSlot (rows : SlotRows) (failure : WriteFailure) (tables : MintTables) :
    MintTables × Bool :=
  if rows.mints = [] then writeStatuses rows failure tables
  else writeStage failure .mints (upsertMintsBatch rows.mints) (writeStatuses rows failure) tables

theorem upsertedRow_of_le {mint row : DbMint} (h : row.allowMintSlot ≤ mint.allowMintSlot) :
    upsertedRow mint (some row) = row.takeOver mint :=
  if_pos h

theorem upsertedRow_of_lt {mint row : DbMint} (h : mint.allowMintSlot < row.allowMintSlot) :
    upsertedRow mint (some row) = row :=
  if_neg (not_le.mpr h)

/-- Two upserts of one slot: the second one decides. -/
theorem upsertedRow_upsertedRow {first second : DbMint} (stored : Option DbMint)
    (hslot : second.allowMintSlot = first.allowMintSlot) (hstatus : second.status = first.status)
    (haddress : second.mintAddress = first.mintAddress) :
    upsertedRow second (some (upsertedRow first stored)) = upsertedRow second stored := by
  cases stored with
  | none =>
    have hle : (upsertedRow first none).allowMintSlot ≤ second.allowMintSlot := hslot.ge
    rw [upsertedRow_of_le hle]
    simp [upsertedRow, DbMint.takeOver, hstatus, haddress]
  | some row =>
    rcases le_or_gt row.allowMintSlot first.allowMintSlot with hle | hlt
    · have hle' : (row.takeOver first).allowMintSlot ≤ second.allowMintSlot := hslot.ge
      rw [upsertedRow_of_le hle, upsertedRow_of_le (hle.trans hslot.ge), upsertedRow_of_le hle']
      rfl
    · rw [upsertedRow_of_lt hlt]

/-- A batch of one slot leaves a mint what its last entry makes of it. -/
theorem foldl_upsertMint {slot : ℕ} (batch : List DbMint) (mints : Pubkey → Option DbMint)
    (mint : Pubkey) (hslot : ∀ b ∈ batch, b.allowMintSlot = slot)
    (hstatus : ∀ b ∈ batch, b.status = .allowed) :
    batch.foldl upsertMint mints mint =
      match (batch.filter (·.mintAddress = mint)).getLast? with
      | none => mints mint
      | some last => some (upsertedRow last (mints mint)) := by
  induction batch using List.reverseRecOn with
  | nil => rfl
  | append_singleton batch b ih =>
    have ih := ih (fun b' h => hslot b' (by simp [h])) (fun b' h => hstatus b' (by simp [h]))
    rw [List.foldl_append, List.foldl_cons, List.foldl_nil, List.filter_append]
    by_cases hb : b.mintAddress = mint
    · subst hb
      rw [upsertMint, Function.update_self, ih]
      have hfilter : [b].filter (fun m => m.mintAddress = b.mintAddress) = [b] := by simp
      rw [hfilter, List.getLast?_concat]
      cases hlast : (batch.filter (·.mintAddress = b.mintAddress)).getLast? with
      | none => rfl
      | some last =>
        obtain ⟨hmem, haddress⟩ := List.mem_filter.mp (List.mem_of_getLast? hlast)
        simp only
        rw [upsertedRow_upsertedRow]
        · rw [hslot b (by simp), hslot last (by simp [hmem])]
        · rw [hstatus b (by simp), hstatus last (by simp [hmem])]
        · exact (of_decide_eq_true haddress).symm
    · have hfilter : [b].filter (fun m => m.mintAddress = mint) = [] := by simp [hb]
      rw [upsertMint, Function.update_of_ne (Ne.symm hb), ih, hfilter, List.append_nil]

/-- An upsert leaves the gates of a row that exists as they are. -/
theorem upsertedRow_some (mint row : DbMint) :
    (upsertedRow mint (some row)).status = row.status ∧
      (upsertedRow mint (some row)).withdrawalsBlocked = row.withdrawalsBlocked := by
  rcases le_or_gt row.allowMintSlot mint.allowMintSlot with hle | hlt
  · rw [upsertedRow_of_le hle]
    exact ⟨rfl, rfl⟩
  · rw [upsertedRow_of_lt hlt]
    exact ⟨rfl, rfl⟩

theorem DbMintStatus.sameSource_self (row : DbMintStatus) : row.sameSource row = true := by
  simp [DbMintStatus.sameSource]

/-- Where a source names one row, a batch adds the rows that are missing. -/
theorem mem_foldl_insertMintStatus (batch history : List DbMintStatus)
    (hsource : ∀ row ∈ batch, ∀ other ∈ history ++ batch, row.sameSource other = true → row = other)
    (row : DbMintStatus) :
    row ∈ batch.foldl insertMintStatus history ↔ row ∈ history ∨ row ∈ batch := by
  induction batch generalizing history with
  | nil => simp
  | cons head batch ih =>
    have hhead : ∀ row, row ∈ insertMintStatus history head ↔ row ∈ history ∨ row = head := by
      intro row
      unfold insertMintStatus
      split
      · next hany =>
        obtain ⟨other, hother, hsame⟩ := List.any_eq_true.mp hany
        have heq := hsource head List.mem_cons_self other (by simp [hother]) hsame
        refine ⟨.inl, ?_⟩
        rintro (hrow | rfl)
        · exact hrow
        · exact heq ▸ hother
      · simp
    rw [List.foldl_cons, ih, hhead, List.mem_cons, or_assoc]
    intro row hrow other hother
    refine hsource row (List.mem_cons_of_mem _ hrow) other ?_
    rcases List.mem_append.mp hother with hother | hother
    · rcases (hhead other).mp hother with hother | rfl
      · simp [hother]
      · simp
    · simp [hother]

/-- A batch whose rows are all there changes nothing. -/
theorem foldl_insertMintStatus_eq_self (batch history : List DbMintStatus)
    (h : ∀ row ∈ batch, row ∈ history) : batch.foldl insertMintStatus history = history := by
  induction batch with
  | nil => rfl
  | cons head batch ih =>
    have hany : history.any head.sameSource = true :=
      List.any_eq_true.mpr ⟨head, h head List.mem_cons_self, head.sameSource_self⟩
    rw [List.foldl_cons, insertMintStatus, if_pos hany]
    exact ih fun row hrow => h row (List.mem_cons_of_mem _ hrow)

/-- Rows of other mints do not move the mint's transitions. -/
theorem filter_foldl_insertMintStatus {mint : Pubkey} (batch history : List DbMintStatus)
    (h : ∀ row ∈ batch, row.mintAddress ≠ mint) :
    (batch.foldl insertMintStatus history).filter (·.mintAddress = mint) =
      history.filter (·.mintAddress = mint) := by
  induction batch generalizing history with
  | nil => rfl
  | cons head batch ih =>
    rw [List.foldl_cons, ih _ fun row hrow => h row (List.mem_cons_of_mem _ hrow)]
    unfold insertMintStatus
    split
    · rfl
    · rw [List.filter_append]
      have hne := h head List.mem_cons_self
      simp [hne]

theorem isLatest_foldl_position (rows : List DbMintStatus) :
    (rows = [] ∧ latestStatus rows = none) ∨
      ∃ a, latestStatus rows = some a ∧ IsLatest DbMintStatus.position rows a :=
  isLatest_foldl rows

/-- The latest of some rows is one of them, at the greatest position. -/
theorem latestStatus_eq_some {rows : List DbMintStatus} {row : DbMintStatus}
    (h : latestStatus rows = some row) :
    row ∈ rows ∧ ∀ other ∈ rows, other.position ≤ row.position := by
  rcases isLatest_foldl_position rows with ⟨-, hnone⟩ | ⟨a, ha, hlatest⟩
  · exact absurd (hnone.symm.trans h) nofun
  · obtain rfl : a = row := Option.some.inj (ha.symm.trans h)
    exact ⟨hlatest.mem, fun other hother => hlatest.le hother⟩

theorem exists_latestStatus {rows : List DbMintStatus} (h : rows ≠ []) :
    ∃ row, latestStatus rows = some row := by
  rcases isLatest_foldl_position rows with ⟨hempty, -⟩ | ⟨a, ha, -⟩
  · exact absurd hempty h
  · exact ⟨a, ha⟩

/-- The tables after each of the mint calls. -/
inductive Wrote (rows : SlotRows) (tables : MintTables) : MintTables → Bool → Prop
  | nothing : Wrote rows tables tables false
  | mints : Wrote rows tables (upsertMintsBatch rows.mints tables) false
  | statuses : Wrote rows tables
      (insertMintStatusesBatch rows.mintStatuses (upsertMintsBatch rows.mints tables)) false
  | synced {succeeded : Bool} : Wrote rows tables
      (syncMintStatus (rows.mintStatuses.map (·.mintAddress)).dedup
        (insertMintStatusesBatch rows.mintStatuses (upsertMintsBatch rows.mints tables))) succeeded

theorem writeStage_cases {failure : WriteFailure} {stage : WriteStage}
    {write : MintTables → MintTables} {next : MintTables → MintTables × Bool} {tables : MintTables}
    {P : MintTables → Bool → Prop} (hbefore : P tables false) (hafter : P (write tables) false)
    (hnext : P (next (write tables)).1 (next (write tables)).2) :
    P (writeStage failure stage write next tables).1
      (writeStage failure stage write next tables).2 := by
  unfold writeStage
  split
  · exact hafter
  · split
    · exact hbefore
    · exact hnext

theorem syncMintStatus_nil (tables : MintTables) : syncMintStatus [] tables = tables := by
  simp [syncMintStatus]

theorem writeOthers_fst (rows : SlotRows) (failure : WriteFailure) (tables : MintTables) :
    (writeOthers rows failure tables).1 = tables := by
  unfold writeOthers
  split
  · rfl
  · split <;> rfl

/-- How far the status writes got. -/
theorem writeStatuses_cases (rows : SlotRows) (failure : WriteFailure) (tables : MintTables) :
    Wrote rows tables (writeStatuses rows failure (upsertMintsBatch rows.mints tables)).1
      (writeStatuses rows failure (upsertMintsBatch rows.mints tables)).2 := by
  unfold writeStatuses
  split
  · next hempty =>
    have hsame : ∀ succeeded, Wrote rows tables (upsertMintsBatch rows.mints tables) succeeded := by
      intro succeeded
      have hsynced := @Wrote.synced rows tables succeeded
      rw [hempty] at hsynced
      exact (syncMintStatus_nil (upsertMintsBatch rows.mints tables)) ▸ hsynced
    rw [writeOthers_fst]
    exact hsame _
  · refine writeStage_cases (P := Wrote rows tables) .mints .statuses ?_
    refine writeStage_cases (P := Wrote rows tables) .statuses .synced ?_
    rw [writeOthers_fst]
    exact .synced

theorem writeSlot_cases (rows : SlotRows) (failure : WriteFailure) (tables : MintTables) :
    Wrote rows tables (writeSlot rows failure tables).1 (writeSlot rows failure tables).2 := by
  unfold writeSlot
  split
  · next hempty =>
    have hsame : upsertMintsBatch rows.mints tables = tables := by rw [hempty]; rfl
    have hcases := writeStatuses_cases rows failure tables
    rw [hsame] at hcases
    exact hcases
  · exact writeStage_cases (P := Wrote rows tables) .nothing .mints
      (writeStatuses_cases rows failure tables)

end PrivateChannels.Indexer
