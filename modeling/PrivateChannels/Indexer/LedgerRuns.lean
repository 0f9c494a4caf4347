import PrivateChannels.Indexer.CustodyHistory
import PrivateChannels.Indexer.MintBalances

/-!
# Indexing a history into the ledger

Slots are written in any order and again and again, the channel indexer adds withdrawals,
and the mint tables change as they like.
-/

namespace PrivateChannels.Indexer

open Operator (Pubkey)
open Storage (Signature)

section Inserts

variable {tables : BalanceTables}

/-- What a batch of transactions leaves behind. -/
structure Inserted (batch : List DbTransaction) (tables tables' : BalanceTables) : Prop where
  releases : tables'.observedReleases = tables.observedReleases
  kept : ∀ t ∈ tables.transactions, t ∈ tables'.transactions
  rows : ∀ t ∈ tables'.transactions, t ∈ tables.transactions ∨ t.toDbTransaction ∈ batch
  sources : ∀ t ∈ batch, ∃ t' ∈ tables'.transactions, t'.source = t.source

/-- What a slot's insert leaves. -/
theorem insertTransactionsBatch_spec (batch : List DbTransaction) (tables : BalanceTables) :
    Inserted batch tables (insertTransactionsBatch batch tables) := by
  have hreleases : (insertTransactionsBatch batch tables).observedReleases =
      tables.observedReleases := by
    refine List.foldlRecOn (motive := fun t : BalanceTables => t.observedReleases = _) batch _ rfl
      fun t ht row _ => ?_
    unfold insertTransaction
    split <;> exact ht
  have hfills : Fills TransactionRow.toDbTransaction DbTransaction.source tables.transactions batch
      (insertTransactionsBatch batch tables).transactions := by
    refine Fills.foldl BalanceTables.transactions (fun t row => ?_) batch tables
    unfold insertTransaction
    split
    · next hsource => exact .skip hsource
    · exact .append (assignWithdrawalNonce t.withdrawalNonceSeq row)
  exact ⟨hreleases, hfills.kept, hfills.rows, hfills.keys⟩

/-- What a batch of releases leaves behind. -/
structure Observed (batch : List DbObservedRelease) (tables tables' : BalanceTables) : Prop where
  transactions : tables'.transactions = tables.transactions
  kept : ∀ r ∈ tables.observedReleases, r ∈ tables'.observedReleases
  rows : ∀ r ∈ tables'.observedReleases, r ∈ tables.observedReleases ∨ r ∈ batch
  nonces : ∀ r ∈ batch, ∃ r' ∈ tables'.observedReleases, r'.withdrawalNonce = r.withdrawalNonce

/-- What an insert of releases leaves. -/
theorem insertObservedReleasesBatch_spec (batch : List DbObservedRelease) (tables : BalanceTables) :
    Observed batch tables (insertObservedReleasesBatch batch tables) := by
  have htransactions : (insertObservedReleasesBatch batch tables).transactions =
      tables.transactions := by
    refine List.foldlRecOn (motive := fun t : BalanceTables => t.transactions = _) batch _ rfl
      fun t ht release _ => ?_
    unfold insertObservedRelease
    split <;> exact ht
  have hfills : Fills id DbObservedRelease.withdrawalNonce tables.observedReleases batch
      (insertObservedReleasesBatch batch tables).observedReleases := by
    refine Fills.foldl BalanceTables.observedReleases (fun t release => ?_) batch tables
    unfold insertObservedRelease
    split
    · next hnonce => exact .skip hnonce
    · exact .append release
  exact ⟨htransactions, hfills.kept, hfills.rows, hfills.keys⟩

end Inserts

/-- The writes to the ledger tables. -/
inductive IndexAction
  /-- The slot's transactions committed. -/
  | transactions (slot : ℕ)
  /-- The slot's first releases were inserted, each by a statement of its own. -/
  | releases (slot count : ℕ)
  /-- The channel indexer inserted a withdrawal. -/
  | withdrawal (t : DbTransaction)
  /-- The mints or their history changed, or a rolled back insert burned a nonce. -/
  | others

/-- The writers of the ledger tables. A channel signature is none of the escrow chain's. -/
inductive IndexStep (history : CustodyHistory) :
    BalanceTables → IndexAction → BalanceTables → Prop
  | transactions {tables : BalanceTables} {slot : ℕ} :
      IndexStep history tables (.transactions slot)
        (insertTransactionsBatch (history.rows history.escrow slot).transactions tables)
  | releases {tables : BalanceTables} {slot count : ℕ} :
      IndexStep history tables (.releases slot count)
        (insertObservedReleasesBatch
          ((history.rows history.escrow slot).observedReleases.take count) tables)
  | withdrawal {tables : BalanceTables} {t : DbTransaction}
      (htype : t.transactionType = .withdrawal)
      (hforeign : ∀ slot, ∀ i ∈ history.blocks slot, i.signature ≠ some t.signature) :
      IndexStep history tables (.withdrawal t) (insertTransaction tables t)
  | others {tables tables' : BalanceTables}
      (htransactions : tables'.transactions = tables.transactions)
      (hreleases : tables'.observedReleases = tables.observedReleases) :
      IndexStep history tables .others tables'

/-- Every slot at or below the bound was written. -/
structure IndexedThrough (history : CustodyHistory) (actions : List IndexAction) (bound : ℕ) :
    Prop where
  transactions : ∀ slot ≤ bound, .transactions slot ∈ actions
  releases : ∀ slot ≤ bound, ∃ count,
    (history.rows history.escrow slot).observedReleases.length ≤ count ∧
      .releases slot count ∈ actions

theorem IndexedThrough.mono {history : CustodyHistory} {actions actions' : List IndexAction}
    {bound : ℕ} (h : IndexedThrough history actions bound) (hsub : actions ⊆ actions') :
    IndexedThrough history actions' bound where
  transactions := fun slot hslot => hsub (h.transactions slot hslot)
  releases := fun slot hslot =>
    (h.releases slot hslot).imp fun _ hcount => ⟨hcount.1, hsub hcount.2⟩

section Conversion

variable {escrow mint : Pubkey} {i j : InstructionWithMetadata} {signature : Signature}
  {row : DbTransaction}

/-- A row names its instruction. -/
theorem transaction_spec (h : (convertToDbModels (some escrow) i).transaction = some row) :
    i.signature = some row.signature ∧ row.slot = i.slot ∧
      row.instructionIndex = i.instructionIndex ∧ row.innerIndex = i.innerIndex := by
  unfold convertToDbModels at h
  split at h
  · cases h
  · next signature hsignature =>
    split at h
    · next instruction _ =>
      split at h
      · cases instruction with
        | deposit escrow user mint recipient amount =>
          dsimp only [convertEscrow] at h
          split at h
          · cases h
          · cases h
            exact ⟨hsignature, rfl, rfl, rfl⟩
        | _ => cases h
      · cases h
    · cases h
      exact ⟨hsignature, rfl, rfl, rfl⟩

/-- A deposit's row carries what came in; a deposit of nothing has no row. -/
theorem deposited_eq (hsignature : i.signature = some signature) :
    deposited escrow mint i = ((convertToDbModels (some escrow) i).transaction.filter fun row =>
      row.transactionType = .deposit ∧ row.mint = mint).elim 0 (·.amount) := by
  cases hinstruction : i.instruction with
  | withdrawFunds user mint' destination amount =>
    simp [deposited, convertToDbModels, hsignature, hinstruction, Option.filter]
  | escrow instruction =>
    rw [convertToDbModels_escrow hsignature hinstruction]
    cases instruction with
    | deposit escrow' user mint' recipient amount =>
      simp only [deposited, hinstruction, escrowInstanceOf, convertEscrow]
      by_cases hescrow : escrow = escrow'
      · subst hescrow
        by_cases hmint : mint' = mint <;> by_cases hamount : amount = 0 <;>
          simp [hmint, hamount, Option.filter]
      · simp [hescrow, Ne.symm hescrow]
    | _ =>
      simp only [deposited, hinstruction, convertEscrow]
      split <;> rfl

/-- A payout's row carries its nonce and amount, but not its mint. -/
theorem release_eq (hsignature : i.signature = some signature) :
    (convertToDbModels (some escrow) i).release = (payout escrow i).map fun p =>
      ⟨p.nonce, signature, i.slot, some p.amount⟩ := by
  cases hinstruction : i.instruction with
  | withdrawFunds user mint' destination amount =>
    simp [payout, convertToDbModels, hsignature, hinstruction]
  | escrow instruction =>
    rw [convertToDbModels_escrow hsignature hinstruction]
    cases instruction with
    | releaseFunds escrow' mint' nonce amount =>
      simp only [payout, hinstruction, escrowInstanceOf, convertEscrow]
      by_cases hescrow : escrow = escrow'
      · subst hescrow
        simp
      · simp [hescrow, Ne.symm hescrow]
    | deposit escrow' user mint' recipient amount =>
      simp only [payout, hinstruction, convertEscrow]
      split
      · split <;> rfl
      · rfl
    | _ =>
      simp only [payout, hinstruction, convertEscrow]
      split <;> rfl

end Conversion

section Indexing

variable {history : CustodyHistory} {i j : InstructionWithMetadata} {slot slot' : ℕ}

theorem mem_slotTransactions :
    row ∈ (history.rows history.escrow slot).transactions ↔
      ∃ i ∈ history.blocks slot,
        (convertToDbModels (some history.escrow) i).transaction = some row :=
  List.mem_filterMap

theorem mem_slotReleases {r : DbObservedRelease} :
    r ∈ (history.rows history.escrow slot).observedReleases ↔
      ∃ i ∈ history.blocks slot, (convertToDbModels (some history.escrow) i).release = some r :=
  List.mem_filterMap

/-- The source of a row names its instruction. -/
theorem CustodyHistory.transaction_injective (history : CustodyHistory) {row' : DbTransaction}
    (hi : i ∈ history.blocks slot) (hj : j ∈ history.blocks slot')
    (hrow : (convertToDbModels (some history.escrow) i).transaction = some row)
    (hrow' : (convertToDbModels (some history.escrow) j).transaction = some row')
    (hsource : row.source = row'.source) : i = j := by
  obtain ⟨hsignature, -, hindex, hinner⟩ := transaction_spec hrow
  obtain ⟨hsignature', -, hindex', hinner'⟩ := transaction_spec hrow'
  simp only [DbTransaction.source, Prod.mk.injEq] at hsource
  refine history.source_injective slot slot' i hi j hj ?_ ?_ ?_
  · rw [hsignature, hsignature', hsource.1]
  · rw [← hindex, ← hindex', hsource.2.1]
  · rw [← hinner, ← hinner', hsource.2.2]

theorem CustodyHistory.exists_signature (history : CustodyHistory) (hi : i ∈ history.blocks slot) :
    ∃ signature, i.signature = some signature :=
  Option.ne_none_iff_exists'.mp (history.signed slot i hi)

/-- The nonce of a release names its instruction. -/
theorem CustodyHistory.release_injective (history : CustodyHistory) {r r' : DbObservedRelease}
    (hi : i ∈ history.blocks slot) (hj : j ∈ history.blocks slot')
    (hr : (convertToDbModels (some history.escrow) i).release = some r)
    (hr' : (convertToDbModels (some history.escrow) j).release = some r')
    (hnonce : r.withdrawalNonce = r'.withdrawalNonce) : i = j := by
  obtain ⟨signature, hsignature⟩ := history.exists_signature hi
  obtain ⟨signature', hsignature'⟩ := history.exists_signature hj
  rw [release_eq hsignature] at hr
  rw [release_eq hsignature'] at hr'
  obtain ⟨p, hp, rfl⟩ := Option.map_eq_some_iff.mp hr
  obtain ⟨q, hq, rfl⟩ := Option.map_eq_some_iff.mp hr'
  exact history.payout_injective hi hj hp hq hnonce

/-- The row of an escrow instruction, or a withdrawal of the channel. -/
def ComesFrom (history : CustodyHistory) (t : DbTransaction) : Prop :=
  (∃ slot, t ∈ (history.rows history.escrow slot).transactions) ∨
    (t.transactionType = .withdrawal ∧
      ∀ slot, ∀ i ∈ history.blocks slot, i.signature ≠ some t.signature)

/-- What the tables hold of the blocks. -/
structure Indexed (history : CustodyHistory) (actions : List IndexAction) (tables : BalanceTables) :
    Prop where
  rows : ∀ t ∈ tables.transactions, ComesFrom history t.toDbTransaction
  transactions : ∀ slot, .transactions slot ∈ actions →
    ∀ row ∈ (history.rows history.escrow slot).transactions,
      ∃ t ∈ tables.transactions, t.toDbTransaction = row
  observed : ∀ r ∈ tables.observedReleases,
    ∃ slot, r ∈ (history.rows history.escrow slot).observedReleases
  releases : ∀ slot count, .releases slot count ∈ actions →
    ∀ r ∈ (history.rows history.escrow slot).observedReleases.take count,
      r ∈ tables.observedReleases

theorem Indexed.empty (history : CustodyHistory) : Indexed history [] emptyBalanceTables where
  rows := nofun
  transactions := nofun
  observed := nofun
  releases := nofun

/-- A row with the source of an instruction is the instruction's row. -/
theorem ComesFrom.eq_of_source {t : DbTransaction} (h : ComesFrom history t)
    (hrow : row ∈ (history.rows history.escrow slot).transactions)
    (hsource : t.source = row.source) : t = row := by
  obtain ⟨i, hi, hrow⟩ := mem_slotTransactions.mp hrow
  rcases h with ⟨slot', hstored⟩ | ⟨-, hforeign⟩
  · obtain ⟨j, hj, hstored⟩ := mem_slotTransactions.mp hstored
    obtain rfl := history.transaction_injective hi hj hrow hstored hsource.symm
    exact Option.some.inj (hstored.symm.trans hrow)
  · have hsignature : t.signature = row.signature := congrArg Prod.fst hsource
    exact absurd ((transaction_spec hrow).1.trans (congrArg some hsignature.symm))
      (hforeign slot i hi)

variable {actions : List IndexAction} {tables : BalanceTables}

variable {action : IndexAction} {tables' : BalanceTables}

/-- Transactions go in, and with them everything that the action names. -/
theorem Indexed.inserted {batch : List DbTransaction} (h : Indexed history actions tables)
    (hspec : Inserted batch tables tables') (hbatch : ∀ t ∈ batch, ComesFrom history t)
    (haction : ∀ slot, action = .transactions slot →
      (history.rows history.escrow slot).transactions ⊆ batch)
    (hother : ∀ slot count, action ≠ .releases slot count) :
    Indexed history (actions ++ [action]) tables' := by
  have hrows : ∀ t ∈ tables'.transactions, ComesFrom history t.toDbTransaction := fun t ht =>
    (hspec.rows t ht).elim (h.rows t) (hbatch _)
  refine ⟨hrows, fun slot hmem row hrow => ?_, ?_, fun slot count hmem r hr => ?_⟩
  · rcases List.mem_append.mp hmem with hmem | hmem
    · obtain ⟨t, ht, heq⟩ := h.transactions slot hmem row hrow
      exact ⟨t, hspec.kept t ht, heq⟩
    · obtain ⟨t, ht, hsource⟩ :=
        hspec.sources row (haction slot (List.mem_singleton.mp hmem).symm hrow)
      exact ⟨t, ht, (hrows t ht).eq_of_source hrow hsource⟩
  · rw [hspec.releases]
    exact h.observed
  · rw [hspec.releases]
    exact h.releases slot count (mem_of_mem_snoc hmem (hother slot count).symm) r hr

/-- A stored release under a nonce of the slot is that of the same payout. -/
theorem Indexed.step (h : Indexed history actions tables)
    (hstep : IndexStep history tables action tables') :
    Indexed history (actions ++ [action]) tables' := by
  cases hstep with
  | @transactions slot =>
    refine h.inserted (insertTransactionsBatch_spec _ tables) (fun t ht => .inl ⟨slot, ht⟩) ?_ nofun
    rintro _ ⟨⟩
    exact List.Subset.refl _
  | @releases slot count =>
    have hspec := insertObservedReleasesBatch_spec
      ((history.rows history.escrow slot).observedReleases.take count) tables
    generalize insertObservedReleasesBatch
      ((history.rows history.escrow slot).observedReleases.take count) tables = tables' at hspec
    have hobserved : ∀ r ∈ tables'.observedReleases,
        ∃ slot, r ∈ (history.rows history.escrow slot).observedReleases := by
      intro r hr
      rcases hspec.rows r hr with hr | hr
      · exact h.observed r hr
      · exact ⟨slot, List.mem_of_mem_take hr⟩
    refine ⟨?_, fun slot' hmem => ?_, hobserved, fun slot' count' hmem r hr => ?_⟩
    · rw [hspec.transactions]
      exact h.rows
    · rw [hspec.transactions]
      exact h.transactions slot' (mem_of_mem_snoc hmem nofun)
    · rcases List.mem_append.mp hmem with hmem | hmem
      · exact hspec.kept r (h.releases slot' count' hmem r hr)
      · cases List.mem_singleton.mp hmem
        obtain ⟨r', hr', hnonce⟩ := hspec.nonces r hr
        obtain ⟨other, hother⟩ := hobserved r' hr'
        obtain ⟨i, hi, hrelease⟩ := mem_slotReleases.mp (List.mem_of_mem_take hr)
        obtain ⟨j, hj, hrelease'⟩ := mem_slotReleases.mp hother
        obtain rfl := history.release_injective hi hj hrelease hrelease' hnonce.symm
        exact Option.some.inj (hrelease.symm.trans hrelease') ▸ hr'
  | @withdrawal t htype hforeign =>
    refine h.inserted (insertTransactionsBatch_spec [t] tables) (fun t' ht' => ?_) nofun nofun
    rw [List.mem_singleton.mp ht']
    exact .inr ⟨htype, hforeign⟩
  | others htransactions hreleases =>
    refine ⟨?_, fun slot' hmem => ?_, ?_, fun slot' count hmem => ?_⟩
    · rw [htransactions]
      exact h.rows
    · rw [htransactions]
      exact h.transactions slot' (mem_of_mem_snoc hmem nofun)
    · rw [hreleases]
      exact h.observed
    · rw [hreleases]
      exact h.releases slot' count (mem_of_mem_snoc hmem nofun)

theorem indexed_of_run (h : Run (IndexStep history) emptyBalanceTables actions tables) :
    Indexed history actions tables :=
  h.invariant (P := Indexed history) (Indexed.empty history) fun _ _ _ _ hs hstep => hs.step hstep

/-- The deposit row of an instruction. -/
def depositRow (escrow mint : Pubkey) (i : InstructionWithMetadata) : Option DbTransaction :=
  (convertToDbModels (some escrow) i).transaction.filter fun row =>
    row.transactionType = .deposit ∧ row.mint = mint

theorem depositRow_eq_some {escrow mint : Pubkey} :
    depositRow escrow mint i = some row ↔
      (convertToDbModels (some escrow) i).transaction = some row ∧
        row.transactionType = .deposit ∧ row.mint = mint := by
  rw [depositRow, Option.filter_eq_some_iff, decide_eq_true_iff]

/-- The ledger's deposits at or below an indexed bound are those of the blocks. -/
theorem Indexed.depositsAt_eq {bound : ℕ}
    (h : Indexed history actions tables) (hthrough : IndexedThrough history actions bound)
    (mint : Pubkey) : depositsAt tables bound mint =
      totalOver (history.through bound) (deposited history.escrow mint) := by
  have hperm : ((tables.transactions.filter fun t =>
      t.mint = mint ∧ t.transactionType = .deposit ∧ t.slot ≤ bound).map (·.toDbTransaction)).Perm
      ((history.through bound).filterMap (depositRow history.escrow mint)) := by
    refine (List.perm_ext_iff_of_nodup ?_ ?_).mpr fun row => ?_
    · refine List.Nodup.of_map DbTransaction.source ?_
      rw [List.map_map]
      exact tables.transactions_key.sublist (List.filter_sublist.map _)
    · refine nodup_filterMap (history.nodup_through bound) fun i hi j hj row hrow hrow' => ?_
      obtain ⟨slot, -, hi⟩ := EscrowLedger.mem_through.mp hi
      obtain ⟨slot', -, hj⟩ := EscrowLedger.mem_through.mp hj
      exact history.transaction_injective hi hj (depositRow_eq_some.mp hrow).1
        (depositRow_eq_some.mp hrow').1 rfl
    · rw [List.mem_map, List.mem_filterMap]
      constructor
      · rintro ⟨t, ht, rfl⟩
        obtain ⟨ht, hkept⟩ := List.mem_filter.mp ht
        obtain ⟨hmint, htype, hslot⟩ := of_decide_eq_true hkept
        rcases h.rows t ht with ⟨slot, hrow⟩ | ⟨hwithdrawal, -⟩
        · obtain ⟨i, hi, hrow⟩ := mem_slotTransactions.mp hrow
          have hbound : slot ≤ bound := by
            rw [← history.slot_eq slot i hi, ← (transaction_spec hrow).2.1]
            exact hslot
          exact ⟨i, EscrowLedger.mem_through.mpr ⟨slot, hbound, hi⟩,
            depositRow_eq_some.mpr ⟨hrow, htype, hmint⟩⟩
        · cases htype.symm.trans hwithdrawal
      · rintro ⟨i, hi, hrow⟩
        obtain ⟨slot, hbound, hi⟩ := EscrowLedger.mem_through.mp hi
        obtain ⟨hrow, htype, hmint⟩ := depositRow_eq_some.mp hrow
        obtain ⟨t, ht, rfl⟩ := h.transactions slot (hthrough.transactions slot hbound) row
          (mem_slotTransactions.mpr ⟨i, hi, hrow⟩)
        refine ⟨t, List.mem_filter.mpr ⟨ht, decide_eq_true ⟨hmint, htype, ?_⟩⟩, rfl⟩
        rw [(transaction_spec hrow).2.1, history.slot_eq slot i hi]
        exact hbound
  have hsum := (hperm.map DbTransaction.amount).sum_eq
  rw [List.map_map, sum_map_filterMap] at hsum
  refine hsum.trans (congrArg List.sum (List.map_congr_left fun i hi => ?_))
  obtain ⟨slot, -, hi⟩ := EscrowLedger.mem_through.mp hi
  obtain ⟨signature, hsignature⟩ := history.exists_signature hi
  exact (deposited_eq hsignature).symm

/-- The releases at or below an indexed bound are the payouts of the blocks. -/
theorem Indexed.sum_releases {bound : ℕ} (h : Indexed history actions tables)
    (hthrough : IndexedThrough history actions bound) (value : ℕ → Option ℕ → ℕ) :
    ((tables.observedReleases.filter (·.slot ≤ bound)).map fun r =>
        value r.withdrawalNonce r.amount).sum =
      totalOver (history.through bound) fun i =>
        (payout history.escrow i).elim 0 fun p => value p.nonce (some p.amount) := by
  have hslot : ∀ {slot : ℕ} {i : InstructionWithMetadata} {r : DbObservedRelease},
      i ∈ history.blocks slot → (convertToDbModels (some history.escrow) i).release = some r →
      r.slot = slot := by
    intro slot i r hi hr
    obtain ⟨signature, hsignature⟩ := history.exists_signature hi
    rw [release_eq hsignature] at hr
    obtain ⟨p, -, rfl⟩ := Option.map_eq_some_iff.mp hr
    exact history.slot_eq slot i hi
  have hperm : (tables.observedReleases.filter (·.slot ≤ bound)).Perm
      ((history.through bound).filterMap fun i =>
        (convertToDbModels (some history.escrow) i).release) := by
    refine (List.perm_ext_iff_of_nodup ?_ ?_).mpr fun r => ?_
    · refine List.Nodup.of_map DbObservedRelease.withdrawalNonce ?_
      exact tables.releases_key.sublist (List.filter_sublist.map _)
    · refine nodup_filterMap (history.nodup_through bound) fun i hi j hj r hr hr' => ?_
      obtain ⟨slot, -, hi⟩ := EscrowLedger.mem_through.mp hi
      obtain ⟨slot', -, hj⟩ := EscrowLedger.mem_through.mp hj
      exact history.release_injective hi hj hr hr' rfl
    · rw [List.mem_filter, List.mem_filterMap, decide_eq_true_iff]
      constructor
      · rintro ⟨hr, hbound⟩
        obtain ⟨slot, hrow⟩ := h.observed r hr
        obtain ⟨i, hi, hrow⟩ := mem_slotReleases.mp hrow
        exact ⟨i, EscrowLedger.mem_through.mpr ⟨slot, hslot hi hrow ▸ hbound, hi⟩, hrow⟩
      · rintro ⟨i, hi, hr⟩
        obtain ⟨slot, hbound, hi⟩ := EscrowLedger.mem_through.mp hi
        obtain ⟨count, hcount, hmem⟩ := hthrough.releases slot hbound
        refine ⟨h.releases slot count hmem r ?_, (hslot hi hr).trans_le hbound⟩
        rw [List.take_of_length_le hcount]
        exact mem_slotReleases.mpr ⟨i, hi, hr⟩
  have hsum := (hperm.map fun r => value r.withdrawalNonce r.amount).sum_eq
  rw [sum_map_filterMap] at hsum
  refine hsum.trans (congrArg List.sum (List.map_congr_left fun i hi => ?_))
  obtain ⟨slot, -, hi⟩ := EscrowLedger.mem_through.mp hi
  obtain ⟨signature, hsignature⟩ := history.exists_signature hi
  rw [release_eq hsignature]
  cases payout history.escrow i <;> rfl

end Indexing

end PrivateChannels.Indexer
