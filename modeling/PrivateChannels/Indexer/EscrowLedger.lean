import PrivateChannels.Indexer.MintTables

/-!
# The blocks of an escrow instance

What the blocks say of a mint, and the rows a block becomes: a history row for each
transition of its gates, and an upsert for each `AllowMint`.
-/

namespace PrivateChannels.Indexer

open Operator (Pubkey)
open Storage (Signature)

/-- The decoded instructions of every slot, in block order. A signature and the indexes
name one instruction. -/
structure EscrowLedger where
  blocks : ℕ → List InstructionWithMetadata
  slot_eq : ∀ slot, ∀ i ∈ blocks slot, i.slot = slot
  ordered : ∀ slot, (blocks slot).Pairwise (·.position < ·.position)
  signed : ∀ slot, ∀ i ∈ blocks slot, i.signature ≠ none
  source_injective : ∀ slot slot', ∀ i ∈ blocks slot, ∀ j ∈ blocks slot',
    i.signature = j.signature →
    i.instructionIndex = j.instructionIndex → i.innerIndex = j.innerIndex → i = j

/-- The instruction sets the gates of a mint. -/
inductive Changes (escrow mint : Pubkey) (i : InstructionWithMetadata) : MintStatus → Bool → Prop
  | allow {tokenProgram : Pubkey} {withdrawFee minWithdrawAmount decimals : ℕ}
      (h : i.instruction = .escrow (.allowMint escrow mint tokenProgram withdrawFee
        minWithdrawAmount decimals)) : Changes escrow mint i .allowed false
  | block {blockDeposits blockWithdrawals : Bool}
      (h : i.instruction = .escrow (.blockMint escrow mint blockDeposits blockWithdrawals)) :
      Changes escrow mint i (if blockDeposits then .blocked else .allowed) blockWithdrawals

/-- The instruction is an `AllowMint` of the mint, with the values the row takes over. -/
structure Allows (escrow mint : Pubkey) (i : InstructionWithMetadata) (decimals : ℕ)
    (tokenProgram : Pubkey) (withdrawFee minWithdrawAmount : ℕ) : Prop where
  instruction : i.instruction = .escrow (.allowMint escrow mint tokenProgram withdrawFee
    minWithdrawAmount decimals)

variable {escrow mint : Pubkey} {i : InstructionWithMetadata}

/-- What a signed escrow instruction of the configured instance becomes. -/
theorem convertToDbModels_escrow {signature : Signature} {instruction : EscrowInstruction}
    (hsignature : i.signature = some signature)
    (hinstruction : i.instruction = .escrow instruction) :
    convertToDbModels (some escrow) i =
      if escrow = escrowInstanceOf instruction then convertEscrow i signature instruction
      else {} := by
  unfold convertToDbModels
  rw [hsignature, hinstruction]
  simp

/-- Mint rows and transitions come from signed instructions of the instance only. -/
theorem convertToDbModels_cases (escrow : Pubkey) (i : InstructionWithMetadata) :
    (∃ signature instruction, i.signature = some signature ∧ i.instruction = .escrow instruction ∧
      escrow = escrowInstanceOf instruction ∧
      convertToDbModels (some escrow) i = convertEscrow i signature instruction) ∨
    (convertToDbModels (some escrow) i).status = none ∧
      (convertToDbModels (some escrow) i).mint = none := by
  cases hsignature : i.signature with
  | none => simp [convertToDbModels, hsignature]
  | some signature =>
    cases hinstruction : i.instruction with
    | withdrawFunds user mint destination amount =>
      simp [convertToDbModels, hsignature, hinstruction]
    | escrow instruction =>
      rw [convertToDbModels_escrow hsignature hinstruction]
      split
      · next hinstance => exact .inl ⟨signature, instruction, rfl, rfl, hinstance, rfl⟩
      · exact .inr ⟨rfl, rfl⟩

variable {status : MintStatus}

/-- The transition of an instruction. -/
theorem status_eq_some {change : MintStatusChange} :
    (convertToDbModels (some escrow) i).status = some change ↔
      i.signature ≠ none ∧
        Changes escrow change.mintAddress i change.status change.withdrawalsBlocked := by
  constructor
  · intro h
    rcases convertToDbModels_cases escrow i with
      ⟨signature, instruction, hsignature, hinstruction, rfl, heq⟩ | ⟨hnone, -⟩
    · rw [heq] at h
      refine ⟨by simp [hsignature], ?_⟩
      cases instruction with
      | allowMint escrow mint tokenProgram fee minimum decimals =>
        cases h
        exact .allow hinstruction
      | blockMint escrow mint blockDeposits blockWithdrawals =>
        cases h
        exact .block hinstruction
      | deposit escrow user mint recipient amount =>
        simp only [convertEscrow] at h
        split at h <;> cases h
      | _ => cases h
    · cases hnone.symm.trans h
  · rintro ⟨hsigned, hchange⟩
    obtain ⟨signature, hsignature⟩ := Option.ne_none_iff_exists'.mp hsigned
    obtain ⟨address, status, blocked⟩ := change
    cases hchange with
    | allow h | block h =>
      rw [convertToDbModels_escrow hsignature h]
      exact congrArg DbModels.status (if_pos rfl)

variable {row : DbMintStatus}

/-- The row written for a transition. -/
theorem mintStatusRow_eq_some {slot : ℕ} :
    mintStatusRow (some escrow) slot i = some row ↔
      Changes escrow row.mintAddress i row.status row.withdrawalsBlocked ∧
        i.signature = some row.signature ∧ row.effectiveSlot = slot ∧
        row.transactionIndex = i.transactionIndex ∧ row.instructionIndex = i.instructionIndex ∧
        row.innerIndex = i.innerIndex := by
  unfold mintStatusRow
  constructor
  · intro h
    split at h
    · next change signature hchange hsignature =>
      cases h
      exact ⟨(status_eq_some.mp hchange).2, hsignature, rfl, rfl, rfl, rfl⟩
    · cases h
  · rintro ⟨hchange, hsignature, rfl, htransaction, hinstruction, hinner⟩
    have hstatus : (convertToDbModels (some escrow) i).status =
        some ⟨row.mintAddress, row.status, row.withdrawalsBlocked⟩ :=
      status_eq_some.mpr ⟨by simp [hsignature], hchange⟩
    rw [hstatus, hsignature, ← htransaction, ← hinstruction, ← hinner]

/-- The row written for an `AllowMint`. -/
theorem mint_eq_some {row : DbMint} :
    (convertToDbModels (some escrow) i).mint = some row ↔
      i.signature ≠ none ∧
        Allows escrow row.mintAddress i row.decimals row.tokenProgram row.withdrawFee
          row.minWithdrawAmount ∧
        row.status = .allowed ∧ row.withdrawalsBlocked = false ∧ row.allowMintSlot = i.slot := by
  constructor
  · intro h
    rcases convertToDbModels_cases escrow i with
      ⟨signature, instruction, hsignature, hinstruction, rfl, heq⟩ | ⟨-, hnone⟩
    · rw [heq] at h
      refine ⟨by simp [hsignature], ?_⟩
      cases instruction with
      | allowMint escrow mint tokenProgram fee minimum decimals =>
        cases h
        exact ⟨⟨hinstruction⟩, rfl, rfl, rfl⟩
      | deposit escrow user mint recipient amount =>
        simp only [convertEscrow] at h
        split at h <;> cases h
      | _ => cases h
    · cases hnone.symm.trans h
  · rintro ⟨hsigned, ⟨h⟩, hstatus, hblocked, hslot⟩
    obtain ⟨signature, hsignature⟩ := Option.ne_none_iff_exists'.mp hsigned
    obtain ⟨address, decimals, tokenProgram, status, blocked, fee, minimum, slot⟩ := row
    cases hstatus
    cases hblocked
    cases hslot
    rw [convertToDbModels_escrow hsignature h]
    exact congrArg DbModels.mint (if_pos rfl)

theorem Changes.unique {status' : MintStatus} {blocked blocked' : Bool}
    (h : Changes escrow mint i status blocked) (h' : Changes escrow mint i status' blocked') :
    status = status' ∧ blocked = blocked' := by
  cases h with
  | allow h =>
    cases h' with
    | allow h' => exact ⟨rfl, rfl⟩
    | block h' => cases h.symm.trans h'
  | block h =>
    cases h' with
    | allow h' => cases h.symm.trans h'
    | block h' =>
      cases h.symm.trans h'
      exact ⟨rfl, rfl⟩

/-- A position holds one instruction. -/
theorem EscrowLedger.position_injective (ledger : EscrowLedger) {slot slot' : ℕ}
    {j : InstructionWithMetadata} (hi : i ∈ ledger.blocks slot) (hj : j ∈ ledger.blocks slot')
    (h : i.position = j.position) : i = j := by
  have hslot : i.slot = j.slot := congrArg BlockPosition.slot h
  obtain rfl := (ledger.slot_eq slot i hi).symm.trans (hslot.trans (ledger.slot_eq slot' j hj))
  have hdistinct : ((ledger.blocks slot).map (·.position)).Nodup :=
    List.pairwise_map.mpr ((ledger.ordered slot).imp fun hlt => hlt.ne)
  exact List.inj_on_of_nodup_map hdistinct hi hj h

/-- The rows a slot's instructions become. -/
def EscrowLedger.rows (ledger : EscrowLedger) (escrow : Pubkey) (slot : ℕ) : SlotRows :=
  slotRows (some escrow) slot (ledger.blocks slot)

/-- The last row a slot upserts for a mint. -/
def EscrowLedger.lastAllow (ledger : EscrowLedger) (escrow : Pubkey) (slot : ℕ) (mint : Pubkey) :
    Option DbMint :=
  ((ledger.rows escrow slot).mints.filter (·.mintAddress = mint)).getLast?

/-- The last of the images of an ordered list belongs to its last member with one. -/
theorem exists_of_getLast?_filterMap {α β : Type} {f : α → Option β} {p : β → Bool}
    {r : α → α → Prop} {l : List α} (hordered : l.Pairwise r) {b : β}
    (h : ((l.filterMap f).filter p).getLast? = some b) :
    ∃ a ∈ l, f a = some b ∧ p b = true ∧
      ∀ c ∈ l, ∀ b', f c = some b' → p b' = true → c = a ∨ r c a := by
  rw [List.filter_filterMap] at h
  obtain ⟨images, himages⟩ := List.getLast?_eq_some_iff.mp h
  obtain ⟨before, rest, rfl, -, hrest⟩ := List.filterMap_eq_append_iff.mp himages
  obtain ⟨skipped, a, after, rfl, -, ha, hafter⟩ := List.filterMap_eq_cons_iff.mp hrest
  obtain ⟨hfa, hpb⟩ := Option.filter_eq_some_iff.mp ha
  rw [← List.append_assoc] at hordered ⊢
  refine ⟨a, by simp, hfa, hpb, fun c hc b' hfc hpb' => ?_⟩
  rcases List.mem_append.mp hc with hc | hc
  · exact .inr ((List.pairwise_append.mp hordered).2.2 c hc a List.mem_cons_self)
  · refine .inl ((List.mem_cons.mp hc).resolve_right fun hc => ?_)
    have hnone := List.filterMap_eq_nil_iff.mp hafter c hc
    simp [hfc, hpb'] at hnone

section Rows

variable {ledger : EscrowLedger} {slot : ℕ}

theorem EscrowLedger.mem_statuses :
    row ∈ (ledger.rows escrow slot).mintStatuses ↔
      ∃ i ∈ ledger.blocks slot, mintStatusRow (some escrow) slot i = some row :=
  List.mem_filterMap

theorem EscrowLedger.mem_mints {row : DbMint} :
    row ∈ (ledger.rows escrow slot).mints ↔
      ∃ i ∈ ledger.blocks slot, (convertToDbModels (some escrow) i).mint = some row :=
  List.mem_filterMap

/-- A transition in a block, and its row. -/
theorem EscrowLedger.exists_status (hi : i ∈ ledger.blocks slot) {blocked : Bool}
    (hchange : Changes escrow mint i status blocked) :
    ∃ row ∈ (ledger.rows escrow slot).mintStatuses, row.mintAddress = mint ∧ row.status = status ∧
      row.withdrawalsBlocked = blocked ∧ row.position = i.position := by
  obtain ⟨signature, hsignature⟩ := Option.ne_none_iff_exists'.mp (ledger.signed slot i hi)
  have hrow : mintStatusRow (some escrow) slot i = some ⟨mint, status, blocked, slot,
      i.transactionIndex, i.instructionIndex, i.innerIndex, signature⟩ :=
    mintStatusRow_eq_some.mpr ⟨hchange, hsignature, rfl, rfl, rfl, rfl⟩
  refine ⟨_, mem_statuses.mpr ⟨i, hi, hrow⟩, rfl, rfl, rfl, ?_⟩
  unfold DbMintStatus.position InstructionWithMetadata.position
  rw [ledger.slot_eq slot i hi]

/-- A history row, and the transition it stands for. -/
theorem EscrowLedger.transition_of_status (h : row ∈ (ledger.rows escrow slot).mintStatuses) :
    ∃ i ∈ ledger.blocks slot, Changes escrow row.mintAddress i row.status row.withdrawalsBlocked ∧
      row.position = i.position ∧ row.effectiveSlot = slot := by
  obtain ⟨i, hi, hrow⟩ := mem_statuses.mp h
  obtain ⟨hchange, -, hslot, htransaction, hinstruction, hinner⟩ := mintStatusRow_eq_some.mp hrow
  refine ⟨i, hi, hchange, ?_, hslot⟩
  unfold DbMintStatus.position InstructionWithMetadata.position
  rw [ledger.slot_eq slot i hi, hslot, htransaction, hinstruction, hinner]

/-- A source names one row. -/
theorem EscrowLedger.status_injective {slot' : ℕ} {other : DbMintStatus}
    (h : row ∈ (ledger.rows escrow slot).mintStatuses)
    (h' : other ∈ (ledger.rows escrow slot').mintStatuses) (hsame : row.sameSource other = true) :
    row = other := by
  obtain ⟨i, hi, hrow⟩ := mem_statuses.mp h
  obtain ⟨j, hj, hother⟩ := mem_statuses.mp h'
  obtain ⟨-, hsignature, -, -, hinstruction, hinner⟩ := mintStatusRow_eq_some.mp hrow
  obtain ⟨-, hsignature', -, -, hinstruction', hinner'⟩ := mintStatusRow_eq_some.mp hother
  obtain ⟨hsig, hix, hin⟩ := of_decide_eq_true hsame
  obtain rfl := ledger.source_injective slot slot' i hi j hj
    (by rw [hsignature, hsignature', hsig])
    (by rw [← hinstruction, ← hinstruction', hix])
    (by rw [← hinner, ← hinner', innerOrder_injective hin])
  obtain rfl := (ledger.slot_eq slot i hi).symm.trans (ledger.slot_eq slot' i hj)
  exact Option.some.inj (hrow.symm.trans hother)

/-- An upserted mint comes with a transition. -/
theorem EscrowLedger.status_of_lastAllow {last : DbMint}
    (h : ledger.lastAllow escrow slot mint = some last) :
    ∃ row ∈ (ledger.rows escrow slot).mintStatuses, row.mintAddress = mint := by
  obtain ⟨hmem, haddress⟩ := List.mem_filter.mp (List.mem_of_getLast? h)
  obtain ⟨i, hi, hmint⟩ := mem_mints.mp hmem
  obtain ⟨-, hallows, -⟩ := mint_eq_some.mp hmint
  obtain ⟨row, hrow, hrowMint, -⟩ := ledger.exists_status hi (.allow hallows.instruction)
  exact ⟨row, hrow, hrowMint.trans (of_decide_eq_true haddress)⟩

/-- The last upsert of a slot is of the last `AllowMint` in its block. -/
theorem EscrowLedger.lastAllow_spec {last : DbMint}
    (h : ledger.lastAllow escrow slot mint = some last) :
    ∃ i ∈ ledger.blocks slot, Allows escrow mint i last.decimals last.tokenProgram last.withdrawFee
        last.minWithdrawAmount ∧ last.allowMintSlot = slot ∧
      ∀ j ∈ ledger.blocks slot, ∀ decimals tokenProgram fee minimum,
        Allows escrow mint j decimals tokenProgram fee minimum → j.position ≤ i.position := by
  obtain ⟨i, hi, hmint, haddress, hlast⟩ :=
    exists_of_getLast?_filterMap (ledger.ordered slot) h
  obtain ⟨-, hallows, -, -, hslot⟩ := mint_eq_some.mp hmint
  obtain rfl := of_decide_eq_true haddress
  refine ⟨i, hi, hallows, hslot.trans (ledger.slot_eq slot i hi), ?_⟩
  intro j hj decimals tokenProgram fee minimum hallow
  have hrow : (convertToDbModels (some escrow) j).mint = some ⟨last.mintAddress, decimals,
      tokenProgram, .allowed, false, fee, minimum, j.slot⟩ :=
    mint_eq_some.mpr ⟨ledger.signed slot j hj, hallow, rfl, rfl, rfl⟩
  rcases hlast j hj _ hrow (decide_eq_true rfl) with rfl | hlt
  · exact le_rfl
  · exact hlt.le

theorem EscrowLedger.exists_lastAllow {decimals fee minimum : ℕ} {tokenProgram : Pubkey}
    (hi : i ∈ ledger.blocks slot)
    (hallow : Allows escrow mint i decimals tokenProgram fee minimum) :
    ∃ last, ledger.lastAllow escrow slot mint = some last := by
  have hrow : (convertToDbModels (some escrow) i).mint = some ⟨mint, decimals, tokenProgram,
      .allowed, false, fee, minimum, i.slot⟩ :=
    mint_eq_some.mpr ⟨ledger.signed slot i hi, hallow, rfl, rfl, rfl⟩
  have hmem := (List.mem_filter (p := (·.mintAddress = mint))).mpr
    ⟨mem_mints.mpr ⟨i, hi, hrow⟩, decide_eq_true rfl⟩
  refine Option.ne_none_iff_exists'.mp fun hnone => ?_
  rw [List.getLast?_eq_none_iff.mp hnone] at hmem
  cases hmem

end Rows

end PrivateChannels.Indexer
