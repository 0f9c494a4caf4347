import PrivateChannels.Foundation.Transition
import PrivateChannels.Indexer.EscrowLedger

/-!
# Mint rows do not depend on the order slots are finalized in

Slots are written in any order, again and again, and an attempt may fail at any call. Once
all are written, the rows say what the blocks say.
-/

namespace PrivateChannels.Indexer

open Operator (Pubkey)

/-- One attempt at a slot's writes. -/
structure SlotAttempt where
  slot : ℕ
  failure : WriteFailure
  succeeded : Bool

/-- The slot's instructions are in block order, whoever delivers them. -/
inductive MintStep (ledger : EscrowLedger) (escrow : Pubkey) :
    MintTables → SlotAttempt → MintTables → Prop
  | attempt {tables : MintTables} {slot : ℕ} {failure : WriteFailure} :
      MintStep ledger escrow tables
        ⟨slot, failure, (writeSlot (ledger.rows escrow slot) failure tables).2⟩
        (writeSlot (ledger.rows escrow slot) failure tables).1

/-- The slot's writes succeeded at least once. -/
def Delivered (attempts : List SlotAttempt) (slot : ℕ) : Prop :=
  ∃ attempt ∈ attempts, attempt.slot = slot ∧ attempt.succeeded = true

def emptyMintTables : MintTables := ⟨fun _ => none, []⟩

/-- The columns an `AllowMint` sets. -/
def DbMint.terms (row : DbMint) : ℕ × Pubkey × ℕ × ℕ × ℕ :=
  (row.decimals, row.tokenProgram, row.withdrawFee, row.minWithdrawAmount, row.allowMintSlot)

/-- The row's gates are those of the latest transition recorded for its mint. -/
def Mirrors (history : List DbMintStatus) (mint : Pubkey) (row : DbMint) : Prop :=
  ∃ latest, latestStatus (history.filter (·.mintAddress = mint)) = some latest ∧
    row.status = latest.status ∧ row.withdrawalsBlocked = latest.withdrawalsBlocked

/-- What the tables owe to the blocks while the slots of `delivered` have been written. -/
structure MintInv (ledger : EscrowLedger) (escrow : Pubkey) (delivered : ℕ → Prop)
    (tables : MintTables) : Prop where
  sound : ∀ row ∈ tables.history, row ∈ (ledger.rows escrow row.effectiveSlot).mintStatuses
  complete : ∀ slot, delivered slot → ∀ row ∈ (ledger.rows escrow slot).mintStatuses,
    row ∈ tables.history
  terms : ∀ mint row, tables.mints mint = some row → ∃ slot last,
    ledger.lastAllow escrow slot mint = some last ∧ row.terms = last.terms
  newest : ∀ mint slot, delivered slot → (ledger.lastAllow escrow slot mint).isSome →
    ∃ row, tables.mints mint = some row ∧ slot ≤ row.allowMintSlot
  mirror : ∀ mint row, tables.mints mint = some row → Mirrors tables.history mint row ∨
    ∃ slot, ¬ delivered slot ∧ ∃ status ∈ (ledger.rows escrow slot).mintStatuses,
      status.mintAddress = mint

section Steps

variable {ledger : EscrowLedger} {escrow mint : Pubkey} {slot : ℕ} {delivered : ℕ → Prop}
  {tables : MintTables}

theorem MintInv.mono {delivered' : ℕ → Prop} (h : MintInv ledger escrow delivered tables)
    (hle : ∀ slot, delivered' slot → delivered slot) : MintInv ledger escrow delivered' tables where
  sound := h.sound
  complete := fun slot hslot => h.complete slot (hle slot hslot)
  terms := h.terms
  newest := fun mint slot hslot => h.newest mint slot (hle slot hslot)
  mirror := fun mint row hrow => (h.mirror mint row hrow).imp_right fun ⟨slot, hslot, hstatus⟩ =>
    ⟨slot, fun hslot' => hslot (hle slot hslot'), hstatus⟩

/-- A mint after a slot's upserts. -/
theorem upsertMintsBatch_mints (ledger : EscrowLedger) (escrow mint : Pubkey) (slot : ℕ)
    (tables : MintTables) :
    (upsertMintsBatch (ledger.rows escrow slot).mints tables).mints mint =
      match ledger.lastAllow escrow slot mint with
      | none => tables.mints mint
      | some last => some (upsertedRow last (tables.mints mint)) := by
  refine @foldl_upsertMint slot _ _ _ (fun b hb => ?_) (fun b hb => ?_)
  · obtain ⟨i, hi, hmint⟩ := EscrowLedger.mem_mints.mp hb
    exact (mint_eq_some.mp hmint).2.2.2.2.trans (ledger.slot_eq slot i hi)
  · obtain ⟨i, -, hmint⟩ := EscrowLedger.mem_mints.mp hb
    exact (mint_eq_some.mp hmint).2.2.1

/-- The terms of an upserted row: the new ones, or those of a newer slot. -/
theorem upsertedRow_terms (last : DbMint) (stored : Option DbMint) :
    (upsertedRow last stored).terms = last.terms ∨
      ∃ row, stored = some row ∧ last.allowMintSlot < row.allowMintSlot ∧
        upsertedRow last stored = row := by
  cases stored with
  | none => exact .inl rfl
  | some row =>
    rcases le_or_gt row.allowMintSlot last.allowMintSlot with hle | hlt
    · rw [upsertedRow_of_le hle]
      exact .inl rfl
    · exact .inr ⟨row, rfl, hlt, upsertedRow_of_lt hlt⟩

/-- The stored slot never goes down, and reaches that of the upsert. -/
theorem le_upsertedRow_slot (last : DbMint) (stored : Option DbMint) :
    last.allowMintSlot ≤ (upsertedRow last stored).allowMintSlot ∧
      ∀ row, stored = some row → row.allowMintSlot ≤ (upsertedRow last stored).allowMintSlot := by
  cases stored with
  | none => exact ⟨le_rfl, nofun⟩
  | some row =>
    rcases le_or_gt row.allowMintSlot last.allowMintSlot with hle | hlt
    · rw [upsertedRow_of_le hle]
      refine ⟨le_rfl, fun row' hrow' => ?_⟩
      cases hrow'
      exact hle
    · rw [upsertedRow_of_lt hlt]
      refine ⟨hlt.le, fun row' hrow' => ?_⟩
      cases hrow'
      exact le_rfl

/-- After a slot's upserts each of its mints has a row of no older slot. -/
theorem upserted_newest {last : DbMint} (hlast : ledger.lastAllow escrow slot mint = some last) :
    ∃ row, (upsertMintsBatch (ledger.rows escrow slot).mints tables).mints mint = some row ∧
      slot ≤ row.allowMintSlot := by
  refine ⟨upsertedRow last (tables.mints mint), ?_, ?_⟩
  · rw [upsertMintsBatch_mints, hlast]
  · obtain ⟨i, -, -, hslot, -⟩ := ledger.lastAllow_spec hlast
    exact hslot.ge.trans (le_upsertedRow_slot last _).1

/-- A row after a slot's upserts is an old one of an unlisted mint, or was upserted. -/
theorem upserted_cases {row : DbMint}
    (h : (upsertMintsBatch (ledger.rows escrow slot).mints tables).mints mint = some row) :
    tables.mints mint = some row ∨ ∃ last, ledger.lastAllow escrow slot mint = some last ∧
      upsertedRow last (tables.mints mint) = row := by
  rw [upsertMintsBatch_mints] at h
  cases hlast : ledger.lastAllow escrow slot mint with
  | none =>
    rw [hlast] at h
    exact .inl h
  | some last =>
    rw [hlast] at h
    exact .inr ⟨last, rfl, Option.some.inj h⟩

/-- A row that was just made waits for the slot's own history and mirror. -/
theorem MintInv.upsert (h : MintInv ledger escrow delivered tables) (slot : ℕ) :
    MintInv ledger escrow delivered (upsertMintsBatch (ledger.rows escrow slot).mints tables) where
  sound := h.sound
  complete := h.complete
  terms := fun mint row hrow => by
    rcases upserted_cases hrow with hrow | ⟨last, hlast, rfl⟩
    · exact h.terms mint row hrow
    · rcases upsertedRow_terms last (tables.mints mint) with hterms | ⟨row, hstored, -, hsame⟩
      · exact ⟨slot, last, hlast, hterms⟩
      · rw [hsame]
        exact h.terms mint row hstored
  newest := fun mint slot' hslot' hallow => by
    obtain ⟨row, hrow, hle⟩ := h.newest mint slot' hslot' hallow
    rw [upsertMintsBatch_mints]
    cases hlast : ledger.lastAllow escrow slot mint with
    | none => exact ⟨row, hrow, hle⟩
    | some last => exact ⟨_, rfl, hle.trans ((le_upsertedRow_slot last _).2 row hrow)⟩
  mirror := fun mint row hrow => by
    rcases upserted_cases hrow with hrow | ⟨last, hlast, rfl⟩
    · exact h.mirror mint row hrow
    · cases hstored : tables.mints mint with
      | none =>
        refine .inr ⟨slot, fun hdelivered => ?_, ledger.status_of_lastAllow hlast⟩
        obtain ⟨row, hrow, -⟩ := h.newest mint slot hdelivered (by simp [hlast])
        rw [hstored] at hrow
        cases hrow
      | some row =>
        obtain ⟨hstatus, hblocked⟩ := upsertedRow_some last row
        refine (h.mirror mint row hstored).imp_left fun ⟨latest, hlatest, hgates⟩ => ?_
        exact ⟨latest, hlatest, hstatus.trans hgates.1, hblocked.trans hgates.2⟩

/-- The slot's transitions are inserted. -/
theorem MintInv.insert (h : MintInv ledger escrow delivered tables) (slot : ℕ) :
    MintInv ledger escrow delivered
        (insertMintStatusesBatch (ledger.rows escrow slot).mintStatuses tables) ∧
      ∀ row ∈ (ledger.rows escrow slot).mintStatuses,
        row ∈ (insertMintStatusesBatch (ledger.rows escrow slot).mintStatuses tables).history := by
  have hmem := mem_foldl_insertMintStatus (ledger.rows escrow slot).mintStatuses tables.history
    fun row hrow other hother hsame => by
      rcases List.mem_append.mp hother with hother | hother
      · exact EscrowLedger.status_injective hrow (h.sound other hother) hsame
      · exact EscrowLedger.status_injective hrow hother hsame
  refine ⟨⟨fun row hrow => ?_, fun slot' hslot' row hrow => ?_, h.terms, h.newest,
    fun mint row hrow => ?_⟩, fun row hrow => (hmem row).mpr (.inr hrow)⟩
  · rcases (hmem row).mp hrow with hrow | hrow
    · exact h.sound row hrow
    · obtain ⟨-, -, -, -, hslot⟩ := ledger.transition_of_status hrow
      exact hslot ▸ hrow
  · exact (hmem row).mpr (.inl (h.complete slot' hslot' row hrow))
  · by_cases hdelivered : delivered slot
    · have hsame := foldl_insertMintStatus_eq_self _ _ (h.complete slot hdelivered)
      simp only [insertMintStatusesBatch, hsame]
      exact h.mirror mint row hrow
    · by_cases htouched : ∃ status ∈ (ledger.rows escrow slot).mintStatuses,
        status.mintAddress = mint
      · exact .inr ⟨slot, hdelivered, htouched⟩
      · push Not at htouched
        have hsame := filter_foldl_insertMintStatus _ tables.history htouched
        refine (h.mirror mint row hrow).imp_left fun ⟨latest, hlatest, hgates⟩ => ?_
        exact ⟨latest, (congrArg latestStatus hsame).trans hlatest, hgates⟩

theorem mirrored_terms (history : List DbMintStatus) (mint : Pubkey) (row : DbMint) :
    (mirrored history mint row).terms = row.terms := by
  unfold mirrored
  split
  · rfl
  · rfl

/-- A mint after the mirror: the terms stay. -/
theorem syncMintStatus_mints (touched : List Pubkey) (tables : MintTables) (mint : Pubkey) :
    ((syncMintStatus touched tables).mints mint).map DbMint.terms =
      (tables.mints mint).map DbMint.terms := by
  simp only [syncMintStatus]
  split
  · rw [Option.map_map]
    exact congrArg (fun f => Option.map f (tables.mints mint))
      (funext fun row => mirrored_terms tables.history mint row)
  · rfl

theorem DbMint.slot_of_terms {row other : DbMint} (h : row.terms = other.terms) :
    row.allowMintSlot = other.allowMintSlot :=
  congrArg (fun terms => terms.2.2.2.2) h

/-- Mirroring a slot whose rows are in completes it. -/
theorem MintInv.sync (h : MintInv ledger escrow delivered tables)
    (hhistory : ∀ row ∈ (ledger.rows escrow slot).mintStatuses, row ∈ tables.history)
    (hmints : ∀ mint, (ledger.lastAllow escrow slot mint).isSome →
      ∃ row, tables.mints mint = some row ∧ slot ≤ row.allowMintSlot) :
    MintInv ledger escrow (fun slot' => delivered slot' ∨ slot' = slot)
      (syncMintStatus ((ledger.rows escrow slot).mintStatuses.map (·.mintAddress)).dedup
        tables) where
  sound := h.sound
  complete := fun slot' hslot' row hrow => by
    rcases hslot' with hslot' | rfl
    · exact h.complete slot' hslot' row hrow
    · exact hhistory row hrow
  terms := fun mint row hrow => by
    have hterms := syncMintStatus_mints
      ((ledger.rows escrow slot).mintStatuses.map (·.mintAddress)).dedup tables mint
    rw [hrow] at hterms
    obtain ⟨stored, hstored, heq⟩ := Option.map_eq_some_iff.mp hterms.symm
    obtain ⟨slot', last, hlast, hlastTerms⟩ := h.terms mint stored hstored
    exact ⟨slot', last, hlast, heq.symm.trans hlastTerms⟩
  newest := fun mint slot' hslot' hallow => by
    have hexists : ∃ row, tables.mints mint = some row ∧ slot' ≤ row.allowMintSlot := by
      rcases hslot' with hslot' | rfl
      · exact h.newest mint slot' hslot' hallow
      · exact hmints mint hallow
    obtain ⟨row, hrow, hle⟩ := hexists
    have hterms := syncMintStatus_mints
      ((ledger.rows escrow slot).mintStatuses.map (·.mintAddress)).dedup tables mint
    rw [hrow] at hterms
    obtain ⟨row', hrow', heq⟩ := Option.map_eq_some_iff.mp hterms
    exact ⟨row', hrow', hle.trans (DbMint.slot_of_terms heq).ge⟩
  mirror := fun mint row hrow => by
    simp only [syncMintStatus] at hrow
    split at hrow
    · next htouched =>
      obtain ⟨status, hstatus, hmint⟩ := List.mem_map.mp (List.mem_dedup.mp htouched)
      obtain ⟨stored, -, rfl⟩ := Option.map_eq_some_iff.mp hrow
      have hne : tables.history.filter (·.mintAddress = mint) ≠ [] :=
        List.ne_nil_of_mem (List.mem_filter.mpr ⟨hhistory status hstatus, decide_eq_true hmint⟩)
      obtain ⟨latest, hlatest⟩ := exists_latestStatus hne
      refine .inl ⟨latest, hlatest, ?_⟩
      unfold mirrored
      rw [hlatest]
      exact ⟨rfl, rfl⟩
    · next huntouched =>
      refine (h.mirror mint row hrow).imp_right ?_
      rintro ⟨slot', hslot', status, hstatus, hmint⟩
      refine ⟨slot', ?_, status, hstatus, hmint⟩
      rintro (hdelivered | rfl)
      · exact hslot' hdelivered
      · exact huntouched (List.mem_dedup.mpr (List.mem_map.mpr ⟨status, hstatus, hmint⟩))

variable {slot : ℕ}

theorem delivered_append {attempts : List SlotAttempt} {attempt : SlotAttempt}
    (h : Delivered (attempts ++ [attempt]) slot) :
    Delivered attempts slot ∨ (attempt.slot = slot ∧ attempt.succeeded = true) := by
  obtain ⟨attempt', hmem, hslot⟩ := h
  rcases List.mem_append.mp hmem with hmem | hmem
  · exact .inl ⟨attempt', hmem, hslot⟩
  · obtain rfl := List.mem_singleton.mp hmem
    exact .inr hslot

/-- Every attempt keeps the invariant. -/
theorem MintStep.inv {attempts : List SlotAttempt} {attempt : SlotAttempt} {tables' : MintTables}
    (h : MintInv ledger escrow (Delivered attempts) tables)
    (hstep : MintStep ledger escrow tables attempt tables') :
    MintInv ledger escrow (Delivered (attempts ++ [attempt])) tables' := by
  cases hstep with
  | @attempt slot failure =>
    have hcases := writeSlot_cases (ledger.rows escrow slot) failure tables
    have hupserted := h.upsert slot
    obtain ⟨hinserted, hhistory⟩ := hupserted.insert slot
    generalize (writeSlot (ledger.rows escrow slot) failure tables).1 = written at hcases
    generalize (writeSlot (ledger.rows escrow slot) failure tables).2 = succeeded at hcases
    have hfailed : ∀ slot', Delivered (attempts ++ [⟨slot, failure, false⟩]) slot' →
        Delivered attempts slot' := fun slot' hslot' =>
      (delivered_append hslot').resolve_right fun hright => nomatch hright.2
    cases hcases with
    | nothing => exact h.mono hfailed
    | mints => exact hupserted.mono hfailed
    | statuses => exact hinserted.mono hfailed
    | synced =>
      refine (hinserted.sync hhistory fun mint hallow => ?_).mono fun slot' hslot' => ?_
      · obtain ⟨last, hlast⟩ := Option.isSome_iff_exists.mp hallow
        exact upserted_newest hlast
      · exact (delivered_append hslot').imp_right fun hright => hright.1.symm

end Steps

/-- The last transition before the position opened the mint's deposit gate. -/
def GateOpenAt (ledger : EscrowLedger) (escrow mint : Pubkey) (p : BlockPosition) : Prop :=
  ∃ slot, ∃ i ∈ ledger.blocks slot, (∃ blocked, Changes escrow mint i .allowed blocked) ∧
    i.position < p ∧ ∀ slot', ∀ j ∈ ledger.blocks slot', ∀ status blocked,
      Changes escrow mint j status blocked → j.position < p → j.position ≤ i.position

/-- What the tables have to say once every slot was delivered. -/
structure MintsLawful (ledger : EscrowLedger) (escrow : Pubkey) (tables : MintTables) : Prop where
  /-- The values of the last `AllowMint` in block order. -/
  terms : ∀ mint slot, ∀ i ∈ ledger.blocks slot, ∀ decimals tokenProgram fee minimum,
    Allows escrow mint i decimals tokenProgram fee minimum →
    ∃ row, tables.mints mint = some row ∧ ∃ slot', ∃ last ∈ ledger.blocks slot',
      Allows escrow mint last row.decimals row.tokenProgram row.withdrawFee row.minWithdrawAmount ∧
      ∀ slot'', ∀ j ∈ ledger.blocks slot'', ∀ decimals tokenProgram fee minimum,
        Allows escrow mint j decimals tokenProgram fee minimum → j.position ≤ last.position
  /-- The gates of the last transition in block order. -/
  gates : ∀ mint row, tables.mints mint = some row → ∃ slot, ∃ i ∈ ledger.blocks slot,
    Changes escrow mint i row.status row.withdrawalsBlocked ∧
      ∀ slot', ∀ j ∈ ledger.blocks slot', ∀ status blocked,
        Changes escrow mint j status blocked → j.position ≤ i.position
  allowed : ∀ mint slot, getMintStatusAtSlot tables.history mint slot = .allowed ↔
    ∃ p : BlockPosition, p.slot = slot ∧ GateOpenAt ledger escrow mint p
  never : ∀ mint slot, getMintStatusAtSlot tables.history mint slot = .neverAllowed ↔
    ∀ slot' ≤ slot, ∀ i ∈ ledger.blocks slot', ∀ status blocked,
      ¬ Changes escrow mint i status blocked

section Convergence

variable {ledger : EscrowLedger} {escrow mint : Pubkey} {delivered : ℕ → Prop} {tables : MintTables}

/-- Every transition of the instance is in a delivered slot. -/
def AllDelivered (ledger : EscrowLedger) (escrow : Pubkey) (delivered : ℕ → Prop) : Prop :=
  ∀ mint slot, ∀ i ∈ ledger.blocks slot, ∀ status blocked, Changes escrow mint i status blocked →
    delivered slot

/-- The rows of a mint are its transitions. -/
theorem MintInv.transition_of_row (h : MintInv ledger escrow delivered tables) {row : DbMintStatus}
    (hrow : row ∈ tables.history.filter (·.mintAddress = mint)) :
    ∃ i ∈ ledger.blocks row.effectiveSlot, Changes escrow mint i row.status row.withdrawalsBlocked ∧
      row.position = i.position := by
  obtain ⟨hmem, hmint⟩ := List.mem_filter.mp hrow
  obtain ⟨i, hi, hchange, hposition, -⟩ := ledger.transition_of_status (h.sound row hmem)
  rw [of_decide_eq_true hmint] at hchange
  exact ⟨i, hi, hchange, hposition⟩

variable {i : InstructionWithMetadata}

theorem getMintStatusAtSlot_eq_allowed {history : List DbMintStatus} :
    getMintStatusAtSlot history mint slot = .allowed ↔
      (∃ latest, latestStatus ((history.filter (·.mintAddress = mint)).filter
          (·.effectiveSlot < slot)) = some latest ∧ latest.status = .allowed) ∨
        ∃ row ∈ history.filter (·.mintAddress = mint), row.effectiveSlot = slot ∧
          row.status = .allowed := by
  have hany : getMintStatusAtSlot history mint slot = .allowed ↔
      .allowed ∈ statusesAtSlot history mint slot := by
    unfold getMintStatusAtSlot
    dsimp only
    split
    · next h =>
      obtain ⟨status, hmem, hstatus⟩ := List.any_eq_true.mp h
      exact ⟨fun _ => of_decide_eq_true hstatus ▸ hmem, fun _ => rfl⟩
    · next h =>
      refine ⟨fun heq => ?_, fun hmem => absurd (List.any_eq_true.mpr ⟨_, hmem, rfl⟩) h⟩
      split at heq <;> cases heq
  rw [hany]
  unfold statusesAtSlot
  simp only [List.map_append, List.mem_append, List.mem_map, Option.mem_toList]
  refine or_congr (exists_congr fun _ => Iff.rfl) ⟨?_, ?_⟩
  · rintro ⟨row, hrow, hstatus⟩
    obtain ⟨hmem, hslot⟩ := List.mem_filter.mp hrow
    exact ⟨row, hmem, of_decide_eq_true hslot, hstatus⟩
  · rintro ⟨row, hmem, hslot, hstatus⟩
    exact ⟨row, List.mem_filter.mpr ⟨hmem, decide_eq_true hslot⟩, hstatus⟩

theorem getMintStatusAtSlot_eq_neverAllowed {history : List DbMintStatus} :
    getMintStatusAtSlot history mint slot = .neverAllowed ↔
      ∀ row ∈ history.filter (·.mintAddress = mint), ¬ row.effectiveSlot ≤ slot := by
  have hnil : getMintStatusAtSlot history mint slot = .neverAllowed ↔
      statusesAtSlot history mint slot = [] := by
    unfold getMintStatusAtSlot
    dsimp only
    split
    · next h =>
      refine ⟨nofun, fun hempty => ?_⟩
      rw [hempty] at h
      cases h
    · split
      · next h => exact ⟨fun _ => h, fun _ => rfl⟩
      · next h => exact ⟨nofun, fun hempty => absurd hempty h⟩
  rw [hnil]
  unfold statusesAtSlot
  simp only [List.map_eq_nil_iff, List.append_eq_nil_iff, Option.toList_eq_nil_iff]
  constructor
  · rintro ⟨hbefore, hinside⟩ row hrow hle
    rcases hle.lt_or_eq with hlt | heq
    · have hmem : row ∈ (history.filter (·.mintAddress = mint)).filter (·.effectiveSlot < slot) :=
        List.mem_filter.mpr ⟨hrow, decide_eq_true hlt⟩
      obtain ⟨latest, hlatest⟩ := exists_latestStatus (List.ne_nil_of_mem hmem)
      cases hlatest.symm.trans hbefore
    · exact absurd (List.mem_filter.mpr ⟨hrow, decide_eq_true heq⟩)
        (hinside ▸ List.not_mem_nil)
  · intro hnone
    have hempty : ∀ p : DbMintStatus → Bool, (∀ row, p row = true → row.effectiveSlot ≤ slot) →
        (history.filter (·.mintAddress = mint)).filter p = [] := by
      intro p hp
      exact List.filter_eq_nil_iff.mpr fun row hrow h => hnone row hrow (hp row h)
    rw [hempty _ fun row h => (of_decide_eq_true h : row.effectiveSlot < slot).le,
      hempty _ fun row h => (of_decide_eq_true h : row.effectiveSlot = slot).le]
    exact ⟨rfl, rfl⟩

section

variable (h : MintInv ledger escrow delivered tables) (hall : AllDelivered ledger escrow delivered)
include h hall

theorem MintInv.row_of_transition (hi : i ∈ ledger.blocks slot) {status : MintStatus}
    {blocked : Bool} (hchange : Changes escrow mint i status blocked) :
    ∃ row ∈ tables.history.filter (·.mintAddress = mint), row.status = status ∧
      row.position = i.position ∧ row.effectiveSlot = slot := by
  obtain ⟨row, hrow, hmint, hstatus, -, hposition⟩ := ledger.exists_status hi hchange
  have hmem := h.complete slot (hall mint slot i hi status blocked hchange) row hrow
  obtain ⟨-, -, -, -, hslot⟩ := ledger.transition_of_status hrow
  exact ⟨row, List.mem_filter.mpr ⟨hmem, decide_eq_true hmint⟩, hstatus, hposition, hslot⟩

/-- The gate was open at the slot's start, or an `AllowMint` inside the slot opened it. -/
theorem MintInv.allowed_lawful (slot : ℕ) :
    getMintStatusAtSlot tables.history mint slot = .allowed ↔
      ∃ p : BlockPosition, p.slot = slot ∧ GateOpenAt ledger escrow mint p := by
  rw [getMintStatusAtSlot_eq_allowed]
  constructor
  · rintro (⟨latest, hlatest, hstatus⟩ | ⟨row, hrow, hslot, hstatus⟩)
    · obtain ⟨hin, hmax⟩ := latestStatus_eq_some hlatest
      obtain ⟨hin, hlt⟩ := List.mem_filter.mp hin
      obtain ⟨i, hi, hchange, hposition⟩ := h.transition_of_row hin
      rw [hstatus] at hchange
      refine ⟨⟨slot, 0, 0, 0⟩, rfl, _, i, hi, ⟨_, hchange⟩, ?_,
        fun slot' j hj status blocked hj' hbefore => ?_⟩
      · rw [BlockPosition.lt_start_iff]
        exact (ledger.slot_eq _ i hi).trans_lt (of_decide_eq_true hlt)
      · obtain ⟨other, hother, -, hotherPosition, hotherSlot⟩ := h.row_of_transition hall hj hj'
        have hearlier : other.effectiveSlot < slot := by
          rw [hotherSlot, ← ledger.slot_eq slot' j hj]
          exact BlockPosition.lt_start_iff.mp hbefore
        rw [← hotherPosition, ← hposition]
        exact hmax other (List.mem_filter.mpr ⟨hother, decide_eq_true hearlier⟩)
    · obtain ⟨i, hi, hchange, -⟩ := h.transition_of_row hrow
      rw [hstatus] at hchange
      exact ⟨{ i.position with inner := i.position.inner + 1 },
        (ledger.slot_eq _ i hi).trans hslot, _, i, hi, ⟨_, hchange⟩,
        BlockPosition.lt_succ_iff.mpr le_rfl, fun _ _ _ _ _ _ => BlockPosition.lt_succ_iff.mp⟩
  · rintro ⟨p, rfl, slot, i, hi, ⟨blocked, hchange⟩, hbefore, hlast⟩
    obtain ⟨row, hrow, hstatus, hposition, hslot⟩ := h.row_of_transition hall hi hchange
    have hrowSlot : row.effectiveSlot ≤ p.slot := by
      rw [hslot, ← ledger.slot_eq slot i hi]
      exact BlockPosition.slot_mono hbefore.le
    rcases hrowSlot.lt_or_eq with hlt | heq
    · refine .inl ?_
      have hmem : row ∈ (tables.history.filter (·.mintAddress = mint)).filter
          (·.effectiveSlot < p.slot) := List.mem_filter.mpr ⟨hrow, decide_eq_true hlt⟩
      obtain ⟨latest, hlatest⟩ := exists_latestStatus (List.ne_nil_of_mem hmem)
      obtain ⟨hin, hmax⟩ := latestStatus_eq_some hlatest
      obtain ⟨hin, hearlier⟩ := List.mem_filter.mp hin
      obtain ⟨j, hj, hj', hjPosition⟩ := h.transition_of_row hin
      have hjBefore : j.position < p :=
        BlockPosition.lt_iff.mpr (.inl ((ledger.slot_eq _ j hj).trans_lt
        (of_decide_eq_true hearlier)))
      have hle := hmax row hmem
      rw [hposition, hjPosition] at hle
      obtain rfl := ledger.position_injective hi hj (hle.antisymm (hlast _ j hj _ _ hj' hjBefore))
      exact ⟨latest, hlatest, (hchange.unique hj').1.symm⟩
    · exact .inr ⟨row, hrow, heq, hstatus⟩

/-- Once every transition is delivered, the tables say what the blocks say. -/
theorem MintInv.lawful : MintsLawful ledger escrow tables where
  terms := by
    intro mint slot i hi decimals tokenProgram fee minimum hallow
    have hnewest : ∀ {slot'' : ℕ} {j : InstructionWithMetadata}, j ∈ ledger.blocks slot'' →
        ∀ {decimals fee minimum : ℕ} {tokenProgram : Pubkey},
        Allows escrow mint j decimals tokenProgram fee minimum →
        ∃ row, tables.mints mint = some row ∧ slot'' ≤ row.allowMintSlot := by
      intro slot'' j hj decimals fee minimum tokenProgram hallow
      obtain ⟨last, hlast⟩ := ledger.exists_lastAllow hj hallow
      exact h.newest mint slot'' (hall mint slot'' j hj _ _ (.allow hallow.instruction))
        (by simp [hlast])
    obtain ⟨row, hrow, -⟩ := hnewest hi hallow
    obtain ⟨slot', last, hlast, hterms⟩ := h.terms mint row hrow
    obtain ⟨i', hi', hallow', hslot', hlatest⟩ := ledger.lastAllow_spec hlast
    have hrowSlot : row.allowMintSlot = slot' := (DbMint.slot_of_terms hterms).trans hslot'
    simp only [DbMint.terms, Prod.mk.injEq] at hterms
    obtain ⟨hdecimals, htoken, hfee, hminimum, -⟩ := hterms
    refine ⟨row, hrow, slot', i', hi', ?_,
      fun slot'' j hj decimals tokenProgram fee minimum hj' => ?_⟩
    · rw [hdecimals, htoken, hfee, hminimum]
      exact hallow'
    · obtain ⟨row'', hrow'', hle⟩ := hnewest hj hj'
      cases hrow.symm.trans hrow''
      rcases (hle.trans hrowSlot.le).lt_or_eq with hlt | rfl
      · refine (BlockPosition.lt_iff.mpr (.inl ?_)).le
        exact ((ledger.slot_eq slot'' j hj).trans_lt hlt).trans_eq
          (ledger.slot_eq slot' i' hi').symm
      · exact hlatest j hj decimals tokenProgram fee minimum hj'
  gates := by
    intro mint row hrow
    rcases h.mirror mint row hrow with
      ⟨latest, hlatest, hstatus, hblocked⟩ | ⟨slot, hslot, status, hmem, hmint⟩
    · obtain ⟨hin, hmax⟩ := latestStatus_eq_some hlatest
      obtain ⟨i, hi, hchange, hposition⟩ := h.transition_of_row hin
      refine ⟨_, i, hi, hstatus ▸ hblocked ▸ hchange, fun slot' j hj status blocked hj' => ?_⟩
      obtain ⟨other, hother, -, hotherPosition, -⟩ := h.row_of_transition hall hj hj'
      rw [← hotherPosition, ← hposition]
      exact hmax other hother
    · obtain ⟨i, hi, hchange, -, -⟩ := ledger.transition_of_status hmem
      exact absurd (hall _ slot i hi _ _ hchange) hslot
  allowed := fun _ slot => h.allowed_lawful hall slot
  never := by
    intro mint slot
    rw [getMintStatusAtSlot_eq_neverAllowed]
    constructor
    · intro hnone slot' hle i hi status blocked hchange
      obtain ⟨row, hrow, -, -, hslot⟩ := h.row_of_transition hall hi hchange
      exact hnone row hrow (hslot.trans_le hle)
    · intro hnone row hrow hle
      obtain ⟨i, hi, hchange, -⟩ := h.transition_of_row hrow
      exact hnone row.effectiveSlot hle i hi _ _ hchange

end

theorem MintInv.empty (ledger : EscrowLedger) (escrow : Pubkey) :
    MintInv ledger escrow (Delivered []) emptyMintTables where
  sound := nofun
  complete := fun _ ⟨_, hmem, _⟩ => absurd hmem List.not_mem_nil
  terms := nofun
  newest := fun _ _ ⟨_, hmem, _⟩ => absurd hmem List.not_mem_nil
  mirror := nofun

/-- Once each slot with a transition was written, in any order, the tables say what the blocks
say. -/
theorem mint_tables_converge (ledger : EscrowLedger) (escrow : Pubkey)
    (attempts : List SlotAttempt) (tables : MintTables)
    (hrun : Run (MintStep ledger escrow) emptyMintTables attempts tables)
    (hdelivered : AllDelivered ledger escrow (Delivered attempts)) :
    MintsLawful ledger escrow tables := by
  have h : MintInv ledger escrow (Delivered attempts) tables :=
    hrun.invariant (P := fun attempts tables => MintInv ledger escrow (Delivered attempts) tables)
      (MintInv.empty ledger escrow) fun _ _ _ _ hinv hstep => MintStep.inv hinv hstep
  exact h.lawful hdelivered

end Convergence

/-- Mint 2 of instance 1 is listed in slot 3. -/
def listing : InstructionWithMetadata where
  instruction := .escrow (.allowMint ⟨1⟩ ⟨2⟩ ⟨9⟩ 10 100 6)
  slot := 3
  signature := some ⟨70⟩
  transactionIndex := 0
  instructionIndex := 0
  innerIndex := none

/-- Its deposits are blocked in slot 5. -/
def blocking : InstructionWithMetadata where
  instruction := .escrow (.blockMint ⟨1⟩ ⟨2⟩ true false)
  slot := 5
  signature := some ⟨71⟩
  transactionIndex := 0
  instructionIndex := 0
  innerIndex := none

def listedThenBlocked (slot : ℕ) : List InstructionWithMetadata :=
  if slot = 3 then [listing] else if slot = 5 then [blocking] else []

theorem mem_listedThenBlocked
    (h : i ∈ listedThenBlocked slot) : (slot = 3 ∧ i = listing) ∨ (slot = 5 ∧ i = blocking) := by
  unfold listedThenBlocked at h
  split_ifs at h with hthree hfive
  · exact .inl ⟨hthree, List.mem_singleton.mp h⟩
  · exact .inr ⟨hfive, List.mem_singleton.mp h⟩
  · exact absurd h List.not_mem_nil

def listedLedger : EscrowLedger where
  blocks := listedThenBlocked
  slot_eq := by
    intro slot i hi
    rcases mem_listedThenBlocked hi with ⟨rfl, rfl⟩ | ⟨rfl, rfl⟩ <;> rfl
  ordered := by
    intro slot
    unfold listedThenBlocked
    split_ifs
    · exact List.pairwise_singleton _ _
    · exact List.pairwise_singleton _ _
    · exact List.Pairwise.nil
  signed := by
    intro slot i hi
    rcases mem_listedThenBlocked hi with ⟨-, rfl⟩ | ⟨-, rfl⟩ <;> nofun
  source_injective := by
    intro slot slot' i hi j hj hsignature _ _
    rcases mem_listedThenBlocked hi with ⟨-, rfl⟩ | ⟨-, rfl⟩ <;>
      rcases mem_listedThenBlocked hj with ⟨-, rfl⟩ | ⟨-, rfl⟩
    · rfl
    · cases hsignature
    · cases hsignature
    · rfl

/-- Slot 5 first, then slot 3, whose first attempt fails at the mirror. -/
theorem mint_tables_converge_blocked_first :
    ∃ tables, Run (MintStep listedLedger ⟨1⟩) emptyMintTables
        [⟨5, none, true⟩, ⟨3, some (.syncMintStatus, false), false⟩, ⟨3, none, true⟩] tables ∧
      MintsLawful listedLedger ⟨1⟩ tables := by
  have h1 := Run.nil.snoc (@MintStep.attempt listedLedger ⟨1⟩ emptyMintTables 5 none)
  have h2 := h1.snoc (@MintStep.attempt listedLedger ⟨1⟩ _ 3 (some (.syncMintStatus, false)))
  have h3 := h2.snoc (@MintStep.attempt listedLedger ⟨1⟩ _ 3 none)
  refine ⟨_, h3, mint_tables_converge listedLedger ⟨1⟩ _ _ h3 ?_⟩
  intro mint slot i hi status blocked _
  rcases mem_listedThenBlocked hi with ⟨rfl, -⟩ | ⟨rfl, -⟩
  · exact ⟨⟨3, none, true⟩, .tail _ (.tail _ (.head _)), rfl, rfl⟩
  · exact ⟨⟨5, none, true⟩, .head _, rfl, rfl⟩

end PrivateChannels.Indexer
