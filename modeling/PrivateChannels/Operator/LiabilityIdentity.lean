import PrivateChannels.Indexer.LedgerRuns
import PrivateChannels.Operator.Reconciliation

/-!
# What a liability shortfall means

The ledger exceeds custody by the over-released amounts, the payouts no row asked for and
the drains, less the donations and less the rows that payouts of another mint discharged.
-/

namespace PrivateChannels.Operator

open Indexer

/-- The liabilities of every mint of the universe at a slot. -/
def fetchLedger (tables : BalanceTables) (slot : ℕ) : Pubkey → Option ℕ :=
  collect (·.mintAddress) (fun row => ledgerLiability row.totalDeposits row.totalWithdrawals)
    (mintBalancesQuery releasedByObservation tables slot)

/-- The liability arm of a tick for one mint. -/
def liabilityShortfall (tables : BalanceTables) (slot custody tolerance : ℕ) (mint : Pubkey) :
    Option LiabilityBreach :=
  (fetchLedger tables slot mint).bind fun owed => evaluateLiabilityShortfall custody owed tolerance

/-- The ledger of a mint, from its rows. -/
theorem fetchLedger_eq (tables : BalanceTables) (slot : ℕ) (mint : Pubkey) :
    fetchLedger tables slot mint =
      if mint ∈ mintUniverse tables then
        some (ledgerLiability (depositsAt tables slot mint)
          (dischargedAt releasedByObservation tables slot mint))
      else none := by
  unfold fetchLedger
  rw [collect_eq (ledgerLiability (depositsAt tables slot mint)
    (dischargedAt releasedByObservation tables slot mint))]
  · refine if_congr
      ⟨?_, fun hmint => ⟨_, mem_mintBalancesQuery.mpr ⟨mint, hmint, rfl⟩, rfl⟩⟩ rfl rfl
    rintro ⟨row, hrow, rfl⟩
    obtain ⟨mint, hmint, rfl⟩ := mem_mintBalancesQuery.mp hrow
    exact hmint
  · rintro row hrow rfl
    obtain ⟨mint, -, rfl⟩ := mem_mintBalancesQuery.mp hrow
    rfl

section Payouts

variable (tables : BalanceTables) (mint : Pubkey)

/-- What the withdrawal row of a nonce owes, if it is of the mint. -/
def owedFor (nonce : ℕ) : Option ℕ :=
  (tables.transactions.find? fun t =>
    t.transactionType = .withdrawal ∧ t.mint = mint ∧ t.withdrawalNonce = some nonce).map (·.amount)

/-- What a payout of the mint moved beyond its row. -/
def overReleased (p : Payout) : ℕ :=
  if p.mint = mint then (owedFor tables mint p.nonce).elim 0 fun owed => p.amount - owed else 0

/-- A payout of the mint with no withdrawal row. -/
def unbacked (p : Payout) : ℕ :=
  if p.mint = mint then (owedFor tables mint p.nonce).elim p.amount fun _ => 0 else 0

/-- What a payout of another mint discharged of a row of this one. -/
def misdirected (p : Payout) : ℕ :=
  if p.mint = mint then 0 else (owedFor tables mint p.nonce).elim 0 fun owed => min p.amount owed

/-- The payouts up to a slot, by a measure of each. -/
def payoutsThrough (history : CustodyHistory) (slot : ℕ) (measure : Payout → ℕ) : ℕ :=
  totalOver (history.through slot) fun i => (payout history.escrow i).elim 0 measure

end Payouts

section Identity

variable {tables : BalanceTables} {mint : Pubkey}

/-- A nonce has one withdrawal row. -/
theorem length_filter_nonce (tables : BalanceTables) (mint : Pubkey) (nonce : ℕ) :
    (tables.transactions.filter fun t => t.transactionType = .withdrawal ∧ t.mint = mint ∧
      t.withdrawalNonce = some nonce).length ≤ 1 := by
  refine length_filter_le_one tables.transactions_key fun t ht t' ht' h h' => ?_
  exact congrArg (fun t : TransactionRow => t.source)
    (eq_of_nodup_filterMap tables.nonces_key ht ht'
      (of_decide_eq_true h).2.2 (of_decide_eq_true h').2.2)

theorem sum_of_length_le_one {α : Type*} {l : List α} (h : l.length ≤ 1) (f : α → ℕ) :
    (l.map f).sum = l.head?.elim 0 f := by
  match l, h with
  | [], _ => rfl
  | [a], _ => simp

/-- The release is of the row's nonce. -/
def settles (t : TransactionRow) (r : DbObservedRelease) : Bool :=
  t.withdrawalNonce = some r.withdrawalNonce

/-- What a release of a row's nonce discharges. -/
def dischargedBy (t : TransactionRow) (r : DbObservedRelease) : ℕ :=
  min (r.amount.getD t.amount) t.amount

def releasesThrough (tables : BalanceTables) (slot : ℕ) : List DbObservedRelease :=
  tables.observedReleases.filter (·.slot ≤ slot)

/-- What a row has had discharged. -/
theorem withdrawalValue_eq (tables : BalanceTables) (slot : ℕ) (t : TransactionRow) :
    withdrawalValue releasedByObservation (releaseAt tables slot t) (some t) =
      if t.transactionType = .withdrawal then
        (((releasesThrough tables slot).filter (settles t)).map (dischargedBy t)).sum
      else 0 := by
  have hjoined : joinedReleases tables slot (some t) =
      (releasesThrough tables slot).filter (settles t) := by
    rw [releasesThrough, List.filter_filter]
    exact List.filter_congr fun r _ => by simp [settles]
  have hsum := sum_of_length_le_one (length_joinedReleases tables slot (some t)) (dischargedBy t)
  rw [← hjoined, hsum]
  change _ = if t.transactionType = .withdrawal then (releaseAt tables slot t).elim 0 _ else 0
  cases releaseAt tables slot t with
  | none => simp [withdrawalValue, releasedByObservation]
  | some r => simp [withdrawalValue, releasedByObservation, dischargedBy]

/-- The rows of a mint and the releases that settle them, in pairs. -/
theorem dischargedAt_eq_pairs (tables : BalanceTables) (slot : ℕ) (mint : Pubkey) :
    dischargedAt releasedByObservation tables slot mint =
      ((tables.transactions.filter fun t => t.transactionType = .withdrawal ∧ t.mint = mint).map
        fun t => (((releasesThrough tables slot).filter (settles t)).map
          (dischargedBy t)).sum).sum := by
  unfold dischargedAt
  rw [sum_map_filter, sum_map_filter]
  refine congrArg List.sum (List.map_congr_left fun t _ => ?_)
  rw [withdrawalValue_eq]
  by_cases htype : t.transactionType = .withdrawal <;> by_cases hmint : t.mint = mint <;>
    simp [htype, hmint]

/-- What the rows of a mint discharged, counted from the releases. -/
theorem dischargedAt_eq (tables : BalanceTables) (slot : ℕ) (mint : Pubkey) :
    dischargedAt releasedByObservation tables slot mint =
      ((releasesThrough tables slot).map fun r =>
        (owedFor tables mint r.withdrawalNonce).elim 0 fun owed =>
          min (r.amount.getD owed) owed).sum := by
  rw [dischargedAt_eq_pairs, sum_matches_comm]
  refine congrArg List.sum (List.map_congr_left fun r _ => ?_)
  have hrows : (tables.transactions.filter fun t =>
      t.transactionType = .withdrawal ∧ t.mint = mint).filter (settles · r) =
      tables.transactions.filter fun t => t.transactionType = .withdrawal ∧
        t.mint = mint ∧ t.withdrawalNonce = some r.withdrawalNonce := by
    rw [List.filter_filter]
    refine List.filter_congr fun t _ => ?_
    rw [Bool.eq_iff_iff]
    simp only [settles, Bool.and_eq_true, decide_eq_true_eq]
    rw [and_comm, and_assoc]
  rw [hrows, sum_of_length_le_one (length_filter_nonce tables mint r.withdrawalNonce),
    List.head?_filter, owedFor]
  cases tables.transactions.find? _ <;> rfl

/-- A payout of the mint is over-released, unbacked or discharged; one of another mint can
only discharge. -/
theorem paidOut_add_misdirected (tables : BalanceTables) (mint : Pubkey) (p : Payout) :
    (if p.mint = mint then p.amount else 0) + misdirected tables mint p =
      overReleased tables mint p + unbacked tables mint p +
        (owedFor tables mint p.nonce).elim 0 fun owed => min p.amount owed := by
  unfold misdirected overReleased unbacked
  by_cases hmint : p.mint = mint
  · simp only [if_pos hmint]
    cases owedFor tables mint p.nonce with
    | none => simp
    | some owed =>
      simp only [Option.elim_some]
      omega
  · simp [if_neg hmint]

variable {actions : List IndexAction} {history : CustodyHistory} {slot : ℕ}

/-- Payouts, split by what they settle. -/
theorem payouts_add_misdirected (h : Indexed history actions tables)
    (hthrough : IndexedThrough history actions slot) (mint : Pubkey) :
    totalOver (history.through slot) (paidOut history.escrow mint) +
        payoutsThrough history slot (misdirected tables mint) =
      payoutsThrough history slot (overReleased tables mint) +
        payoutsThrough history slot (unbacked tables mint) +
        dischargedAt releasedByObservation tables slot mint := by
  have hdischarged := h.sum_releases hthrough fun nonce amount =>
    (owedFor tables mint nonce).elim 0 fun owed => min (amount.getD owed) owed
  rw [dischargedAt_eq, releasesThrough, hdischarged]
  simp only [payoutsThrough, totalOver, ← List.sum_map_add]
  refine congrArg List.sum (List.map_congr_left fun i _ => ?_)
  unfold paidOut
  cases payout history.escrow i with
  | none => rfl
  | some p => exact paidOut_add_misdirected tables mint p

/-- The ledger of a mint against its custody. -/
theorem ledger_eq (h : Indexed history actions tables)
    (hthrough : IndexedThrough history actions slot) (mint : Pubkey) :
    depositsAt tables slot mint + payoutsThrough history slot (misdirected tables mint) +
        totalThrough history.donated mint slot =
      dischargedAt releasedByObservation tables slot mint + history.custody mint slot +
        payoutsThrough history slot (overReleased tables mint) +
        payoutsThrough history slot (unbacked tables mint) +
        totalThrough history.drained mint slot := by
  have hdeposits := h.depositsAt_eq hthrough mint
  have hpayouts := payouts_add_misdirected h hthrough mint
  have hcustody := history.custody_eq mint slot
  omega

/-- What a row of the mint asked for. -/
theorem owedFor_eq_some {nonce owed : ℕ} :
    owedFor tables mint nonce = some owed ↔ ∃ t ∈ tables.transactions,
      t.transactionType = .withdrawal ∧ t.mint = mint ∧ t.withdrawalNonce = some nonce ∧
        t.amount = owed := by
  unfold owedFor
  rw [Option.map_eq_some_iff]
  constructor
  · rintro ⟨t, hfind, hamount⟩
    have hrow := List.find?_some hfind
    obtain ⟨htype, hmint, hnonce⟩ := of_decide_eq_true hrow
    exact ⟨t, List.mem_of_find?_eq_some hfind, htype, hmint, hnonce, hamount⟩
  · rintro ⟨t, ht, htype, hmint, hnonce, hamount⟩
    have hexists : (tables.transactions.find? fun t => t.transactionType = .withdrawal ∧
        t.mint = mint ∧ t.withdrawalNonce = some nonce).isSome :=
      List.find?_isSome.mpr ⟨t, ht, decide_eq_true ⟨htype, hmint, hnonce⟩⟩
    obtain ⟨t', hfind⟩ := Option.isSome_iff_exists.mp hexists
    have hrow := List.find?_some hfind
    obtain ⟨-, -, hnonce'⟩ := of_decide_eq_true hrow
    obtain rfl := eq_of_nodup_filterMap tables.nonces_key ht (List.mem_of_find?_eq_some hfind)
      hnonce hnonce'
    exact ⟨t, hfind, hamount⟩

/-- A mint with a released withdrawal row is in the universe. -/
theorem mem_mintUniverse_of_paid
    {owed : ℕ} {i : InstructionWithMetadata} {p : Payout} (h : Indexed history actions tables)
    (hthrough : IndexedThrough history actions slot) (hi : i ∈ history.through slot)
    (hp : payout history.escrow i = some p) (howed : owedFor tables mint p.nonce = some owed) :
    mint ∈ mintUniverse tables := by
  obtain ⟨slot', hslot', hi⟩ := EscrowLedger.mem_through.mp hi
  obtain ⟨signature, hsignature⟩ := history.exists_signature hi
  obtain ⟨count, hcount, hmem⟩ := hthrough.releases slot' hslot'
  have hrelease := h.releases slot' count hmem ⟨p.nonce, signature, i.slot, some p.amount⟩ (by
    rw [List.take_of_length_le hcount]
    exact mem_slotReleases.mpr ⟨i, hi, by rw [release_eq hsignature, hp, Option.map_some]⟩)
  obtain ⟨t, ht, htype, hmint, hnonce, -⟩ := owedFor_eq_some.mp howed
  refine List.mem_dedup.mpr (List.mem_append_right _ (List.mem_append_right _ ?_))
  refine List.mem_map.mpr ⟨t, List.mem_filter.mpr ⟨?_, ?_⟩, hmint⟩
  · exact List.mem_filter.mpr ⟨ht, decide_eq_true htype⟩
  · exact List.any_eq_true.mpr ⟨_, hrelease, decide_eq_true hnonce⟩

/-- The arm trips when the ledger exceeds custody by more than the tolerance, and on
`u64::MAX`. -/
theorem liabilityShortfall_isSome {custody tolerance : ℕ} :
    (liabilityShortfall tables slot custody tolerance mint).isSome ↔
      mint ∈ mintUniverse tables ∧
        dischargedAt releasedByObservation tables slot mint + custody + tolerance <
          depositsAt tables slot mint ∧ custody + tolerance < 2 ^ 64 - 1 := by
  unfold liabilityShortfall
  rw [fetchLedger_eq]
  split
  · next hmint =>
    simp only [Option.bind_some, ledgerLiability, clamped_netToU64, evaluateLiabilityShortfall]
    have hgap : tolerance < min ((depositsAt tables slot mint : ℤ) -
        dischargedAt releasedByObservation tables slot mint).toNat (2 ^ 64 - 1) - custody ↔
        dischargedAt releasedByObservation tables slot mint + custody + tolerance <
          depositsAt tables slot mint ∧ custody + tolerance < 2 ^ 64 - 1 := by omega
    split
    · next h => exact ⟨fun _ => ⟨hmint, hgap.mp h⟩, fun _ => rfl⟩
    · next h => exact ⟨nofun, fun h' => absurd (hgap.mpr h'.2) h⟩
  · next hmint => exact ⟨nofun, fun h => absurd h.1 hmint⟩

end Identity

/-- What the ledger of a mint says at its custody slot. -/
structure LedgerLawful (history : CustodyHistory) (tables : BalanceTables) (slot : ℕ)
    (mint : Pubkey) (tolerance : ℕ) : Prop where
  /-- One result row per mint, and every transaction in one sum once. -/
  once : ((mintBalancesQuery releasedByObservation tables slot).map (·.mintAddress)).Nodup ∧
    ∀ row ∈ mintBalancesQuery releasedByObservation tables slot,
      row.totalDeposits = depositsAt tables slot row.mintAddress ∧
        row.totalWithdrawals = dischargedAt releasedByObservation tables slot row.mintAddress
  identity : ∀ row ∈ mintBalancesQuery releasedByObservation tables slot, row.mintAddress = mint →
    (row.totalDeposits : ℤ) - row.totalWithdrawals - history.custody mint slot =
      payoutsThrough history slot (overReleased tables mint) +
        payoutsThrough history slot (unbacked tables mint) +
        totalThrough history.drained mint slot - totalThrough history.donated mint slot
  healthy : payoutsThrough history slot (overReleased tables mint) = 0 →
    payoutsThrough history slot (unbacked tables mint) = 0 →
    totalThrough history.drained mint slot = 0 →
    liabilityShortfall tables slot (history.custody mint slot) tolerance mint = none
  exposed : tolerance + totalThrough history.donated mint slot <
      payoutsThrough history slot (overReleased tables mint) →
    (liabilityShortfall tables slot (history.custody mint slot) tolerance mint).isSome

/-- No payout of another mint carries the nonce of a withdrawal row of this one. -/
def PaidInKind (history : CustodyHistory) (tables : BalanceTables) (slot : ℕ) (mint : Pubkey) :
    Prop :=
  ∀ i ∈ history.through slot, ∀ p, payout history.escrow i = some p → p.mint ≠ mint →
    ∀ t ∈ tables.transactions, t.transactionType = .withdrawal → t.mint = mint →
      t.withdrawalNonce = some p.nonce → p.amount = 0 ∨ t.amount = 0

section Lawful

variable {history : CustodyHistory} {actions : List IndexAction} {tables : BalanceTables}
  {slot tolerance : ℕ} {mint : Pubkey}

/-- Nothing misdirected is payment in kind. -/
theorem misdirected_eq_zero :
    payoutsThrough history slot (misdirected tables mint) = 0 ↔
      PaidInKind history tables slot mint := by
  unfold payoutsThrough totalOver
  rw [List.sum_eq_zero_iff_forall_eq_nat]
  simp only [List.mem_map, forall_exists_index, and_imp, forall_apply_eq_imp_iff₂]
  refine forall₂_congr fun i hi => ?_
  cases payout history.escrow i with
  | none => exact iff_of_true rfl nofun
  | some p =>
    rw [Option.elim_some]
    unfold misdirected
    constructor
    · rintro hzero q hq hmint t ht htype hmint' hnonce
      cases hq
      rw [if_neg hmint, owedFor_eq_some.mpr ⟨t, ht, htype, hmint', hnonce, rfl⟩,
        Option.elim_some] at hzero
      omega
    · intro h
      split
      · rfl
      · next hmint =>
        cases howed : owedFor tables mint p.nonce with
        | none => rfl
        | some owed =>
          obtain ⟨t, ht, htype, hmint', hnonce, rfl⟩ := owedFor_eq_some.mp howed
          rcases h p rfl hmint t ht htype hmint' hnonce with hzero | hzero <;> simp [hzero]

/-- A measure that needs a row of the mint puts the mint in the universe. -/
theorem mem_mintUniverse_of_pos {measure : Payout → ℕ} (h : Indexed history actions tables)
    (hthrough : IndexedThrough history actions slot)
    (hmeasure : ∀ p, owedFor tables mint p.nonce = none → measure p = 0)
    (hpos : payoutsThrough history slot measure ≠ 0) : mint ∈ mintUniverse tables := by
  by_contra hmint
  refine hpos (List.sum_eq_zero_iff_forall_eq_nat.mpr fun value hvalue => ?_)
  obtain ⟨i, hi, rfl⟩ := List.mem_map.mp hvalue
  cases hp : payout history.escrow i with
  | none => rfl
  | some p =>
    refine hmeasure p (Option.eq_none_iff_forall_ne_some.mpr fun owed howed => ?_)
    exact hmint (mem_mintUniverse_of_paid h hthrough hi hp howed)

/-- A lawful ledger was paid in kind. -/
theorem LedgerLawful.paidInKind (h : Indexed history actions tables)
    (hthrough : IndexedThrough history actions slot)
    (hlawful : LedgerLawful history tables slot mint tolerance) :
    PaidInKind history tables slot mint := by
  refine misdirected_eq_zero.mp ?_
  by_contra hne
  have hmint : mint ∈ mintUniverse tables :=
    mem_mintUniverse_of_pos h hthrough (fun p howed => by simp [misdirected, howed]) hne
  have hidentity := hlawful.identity _ (mem_mintBalancesQuery.mpr ⟨mint, hmint, rfl⟩) rfl
  have hledger := ledger_eq h hthrough mint
  dsimp only at hidentity
  omega

/-- The ledger is lawful exactly when the mint's rows were paid in kind, and the over-release
does not meet a custody at the top of `u64`. -/
theorem ledger_lawful_iff (history : CustodyHistory) (actions : List IndexAction)
    (tables : BalanceTables) (slot : ℕ) (mint : Pubkey) (tolerance : ℕ)
    (hrun : Run (IndexStep history) emptyBalanceTables actions tables)
    (hthrough : IndexedThrough history actions slot) :
    LedgerLawful history tables slot mint tolerance ↔
      PaidInKind history tables slot mint ∧
        (tolerance + totalThrough history.donated mint slot <
            payoutsThrough history slot (overReleased tables mint) →
          history.custody mint slot + tolerance < 2 ^ 64 - 1) := by
  have h := indexed_of_run hrun
  have hledger := ledger_eq h hthrough mint
  constructor
  · intro hlawful
    refine ⟨hlawful.paidInKind h hthrough, fun hover => ?_⟩
    exact (liabilityShortfall_isSome.mp (hlawful.exposed hover)).2.2
  · rintro ⟨hkind, htop⟩
    have hzero := misdirected_eq_zero.mpr hkind
    refine ⟨⟨nodup_mintBalancesQuery _ _ _, fun row hrow => ?_⟩, fun row hrow hmint => ?_,
      fun hover hunbacked hdrained => ?_, fun hover => ?_⟩
    · obtain ⟨_, -, rfl⟩ := mem_mintBalancesQuery.mp hrow
      exact ⟨rfl, rfl⟩
    · obtain ⟨_, -, rfl⟩ := mem_mintBalancesQuery.mp hrow
      dsimp only at hmint ⊢
      subst hmint
      omega
    · rw [← Option.not_isSome_iff_eq_none, liabilityShortfall_isSome]
      rintro ⟨-, hgap, -⟩
      omega
    · refine liabilityShortfall_isSome.mpr ⟨?_, by omega, htop hover⟩
      exact mem_mintUniverse_of_pos h hthrough (fun p howed => by simp [overReleased, howed])
        (by omega : payoutsThrough history slot (overReleased tables mint) ≠ 0)

end Lawful

def sampleDeposit (mint : Pubkey) (index : ℕ) : InstructionWithMetadata where
  instruction := .escrow (.deposit ⟨9⟩ ⟨7⟩ mint none 100)
  slot := 1
  signature := some ⟨40⟩
  transactionIndex := 0
  instructionIndex := index
  innerIndex := none

def samplePayout (p : Payout) : InstructionWithMetadata where
  instruction := .escrow (.releaseFunds ⟨9⟩ p.mint p.nonce p.amount)
  slot := 2
  signature := some ⟨41⟩
  transactionIndex := 0
  instructionIndex := 0
  innerIndex := none

/-- A hundred of mints 1 and 2 in slot 1, a payout in slot 2. -/
def sampleBlocks (p : Payout) : ℕ → List InstructionWithMetadata
  | 1 => [sampleDeposit ⟨1⟩ 0, sampleDeposit ⟨2⟩ 1]
  | 2 => [samplePayout p]
  | _ => []

theorem mem_sampleBlocks {p : Payout} {i : InstructionWithMetadata} (h : i ∈ sampleBlocks p slot) :
    (slot = 1 ∧ (i = sampleDeposit ⟨1⟩ 0 ∨ i = sampleDeposit ⟨2⟩ 1)) ∨
      (slot = 2 ∧ i = samplePayout p) := by
  match slot, h with
  | 1, h =>
    rcases List.mem_cons.mp h with rfl | h
    · exact .inl ⟨rfl, .inl rfl⟩
    · exact .inl ⟨rfl, .inr (List.mem_singleton.mp h)⟩
  | 2, h => exact .inr ⟨rfl, List.mem_singleton.mp h⟩

def sampleLedger (p : Payout) : EscrowLedger where
  blocks := sampleBlocks p
  slot_eq := by
    intro slot i hi
    rcases mem_sampleBlocks hi with ⟨rfl, rfl | rfl⟩ | ⟨rfl, rfl⟩ <;> rfl
  ordered := by
    intro slot
    match slot with
    | 0 => exact List.Pairwise.nil
    | 1 =>
      refine List.pairwise_pair.mpr (BlockPosition.lt_iff.mpr (.inr ⟨rfl, .inr ⟨rfl, .inl ?_⟩⟩))
      exact Nat.zero_lt_one
    | 2 => exact List.pairwise_singleton _ _
    | _ + 3 => exact List.Pairwise.nil
  signed := by
    intro slot i hi
    rcases mem_sampleBlocks hi with ⟨-, rfl | rfl⟩ | ⟨-, rfl⟩ <;> nofun
  source_injective := by
    intro slot slot' i hi j hj hsignature hindex _
    rcases mem_sampleBlocks hi with ⟨-, rfl | rfl⟩ | ⟨-, rfl⟩ <;>
      rcases mem_sampleBlocks hj with ⟨-, rfl | rfl⟩ | ⟨-, rfl⟩ <;>
      first | rfl | exact absurd hindex (by decide) | cases hsignature

theorem sampleLedger_through (p : Payout) (n : ℕ) : (sampleLedger p).through (n + 2) =
    [sampleDeposit ⟨1⟩ 0, sampleDeposit ⟨2⟩ 1, samplePayout p] := by
  induction n with
  | zero => rfl
  | succ n ih =>
    unfold EscrowLedger.through at ih ⊢
    rw [List.range_succ, List.flatMap_append, ih]
    rfl

/-- The payout of a hundred at most of mint 1 or 2, for nonce 0. -/
structure SamplePayout extends Payout where
  nonce_eq : nonce = 0
  mint_eq : mint = ⟨1⟩ ∨ mint = ⟨2⟩
  amount_le : amount ≤ 100

theorem sample_paidOut_le (p : SamplePayout) (mint : Pubkey) (slot : ℕ) :
    totalOver ((sampleLedger p.toPayout).through slot) (paidOut ⟨9⟩ mint) ≤
      totalOver ((sampleLedger p.toPayout).through slot) (deposited ⟨9⟩ mint) := by
  match slot with
  | 0 => exact Nat.zero_le _
  | 1 => exact Nat.zero_le _
  | n + 2 =>
    rw [sampleLedger_through]
    simp only [totalOver, List.map_cons, List.map_nil, List.sum_cons, List.sum_nil, sampleDeposit,
      samplePayout, paidOut, deposited, payout]
    have hamount := p.amount_le
    rcases p.mint_eq with hmint | hmint <;> by_cases hone : (⟨1⟩ : Pubkey) = mint <;>
      by_cases htwo : (⟨2⟩ : Pubkey) = mint <;> simp [hmint, hone, htwo] <;> omega

theorem sample_deposited_le (p : SamplePayout) (mint : Pubkey) (slot : ℕ) :
    totalOver ((sampleLedger p.toPayout).through slot) (deposited ⟨9⟩ mint) ≤ 200 := by
  match slot with
  | 0 => exact Nat.zero_le _
  | 1 =>
    have hthrough : (sampleLedger p.toPayout).through 1 =
        [sampleDeposit ⟨1⟩ 0, sampleDeposit ⟨2⟩ 1] := rfl
    rw [hthrough]
    simp only [totalOver, List.map_cons, List.map_nil, List.sum_cons, List.sum_nil, sampleDeposit,
      deposited]
    split_ifs <;> simp
  | n + 2 =>
    rw [sampleLedger_through]
    simp only [totalOver, List.map_cons, List.map_nil, List.sum_cons, List.sum_nil, sampleDeposit,
      samplePayout, deposited]
    split_ifs <;> simp

/-- Two deposits and a payout. -/
def sampleHistory (p : SamplePayout) : CustodyHistory where
  toEscrowLedger := sampleLedger p.toPayout
  escrow := ⟨9⟩
  window := .testTree
  account := List.replicate 11 0
  account_length := by decide
  account_zeroed := fun _ => List.eq_of_mem_replicate
  consumed := by
    intro slot
    match slot with
    | 0 => exact ⟨[], _, .nil, rfl⟩
    | 1 => exact ⟨[], _, .nil, rfl⟩
    | n + 2 =>
      refine ⟨[⟨.init 255, none⟩, ⟨.release 0, none⟩], [3, 255, 0, 0, 0, 0, 0, 0, 0, 0, 1], ?_, ?_⟩
      · exact .cons (t := [3, 255, 0, 0, 0, 0, 0, 0, 0, 0, 0]) (by decide) (.single (by decide))
      · rw [sampleLedger_through]
        change [0] = [p.nonce]
        rw [p.nonce_eq]
  donated := fun _ _ => 0
  drained := fun _ _ => 0
  custody := fun mint slot =>
    totalOver ((sampleLedger p.toPayout).through slot) (deposited ⟨9⟩ mint) -
      totalOver ((sampleLedger p.toPayout).through slot) (paidOut ⟨9⟩ mint)
  custody_lt := by
    intro mint slot
    exact (Nat.sub_le _ _).trans_lt ((sample_deposited_le p mint slot).trans_lt (by norm_num))
  custody_eq := by
    intro mint slot
    have hle := sample_paidOut_le p mint slot
    have hnone : totalThrough (fun _ _ => 0) mint slot = 0 :=
      List.sum_eq_zero_iff_forall_eq_nat.mpr fun _ hvalue => by
        obtain ⟨_, -, rfl⟩ := List.mem_map.mp hvalue
        rfl
    omega

/-- A withdrawal of fifty of mint 2, which gets nonce 0. -/
def sampleWithdrawal : DbTransaction where
  signature := ⟨50⟩
  slot := 8
  mint := ⟨2⟩
  amount := 50
  initiator := ⟨7⟩
  recipient := ⟨7⟩
  transactionType := .withdrawal
  instructionIndex := 0
  innerIndex := none

/-- Each slot once, in order. -/
def sampleActions : List IndexAction :=
  [.withdrawal sampleWithdrawal, .transactions 0, .transactions 1, .transactions 2,
    .releases 0 0, .releases 1 0, .releases 2 1]

theorem sampleWithdrawal_foreign (p : SamplePayout) (slot : ℕ) :
    ∀ i ∈ (sampleHistory p).blocks slot, i.signature ≠ some sampleWithdrawal.signature := by
  intro i hi
  rcases mem_sampleBlocks hi with ⟨-, rfl | rfl⟩ | ⟨-, rfl⟩ <;>
    exact fun h => nomatch Option.some.inj h

/-- The slots written in order. -/
theorem sample_run (p : SamplePayout) :
    ∃ tables, Run (IndexStep (sampleHistory p)) emptyBalanceTables sampleActions tables ∧
      tables.transactions = [{ sampleWithdrawal with withdrawalNonce := some 0 },
        assignWithdrawalNonce 1 ⟨⟨40⟩, 1, ⟨1⟩, 100, ⟨7⟩, ⟨7⟩, .deposit, 0, none⟩,
        assignWithdrawalNonce 1 ⟨⟨40⟩, 1, ⟨2⟩, 100, ⟨7⟩, ⟨7⟩, .deposit, 1, none⟩] := by
  have h1 := Run.nil.snoc (@IndexStep.withdrawal (sampleHistory p) emptyBalanceTables
    sampleWithdrawal rfl (sampleWithdrawal_foreign p))
  have h2 := h1.snoc (@IndexStep.transactions _ _ 0)
  have h3 := h2.snoc (@IndexStep.transactions _ _ 1)
  have h4 := h3.snoc (@IndexStep.transactions _ _ 2)
  have h5 := h4.snoc (@IndexStep.releases _ _ 0 0)
  have h6 := h5.snoc (@IndexStep.releases _ _ 1 0)
  have h7 := h6.snoc (@IndexStep.releases _ _ 2 1)
  exact ⟨_, h7, rfl⟩

/-- Every slot was written. -/
theorem sample_indexed (p : SamplePayout) : IndexedThrough (sampleHistory p) sampleActions 2 := by
  refine ⟨fun slot hslot => ?_, fun slot hslot => ?_⟩
  · match slot, hslot with
    | 0, _ => simp [sampleActions]
    | 1, _ => simp [sampleActions]
    | 2, _ => simp [sampleActions]
  · match slot, hslot with
    | 0, _ => exact ⟨0, Nat.le_refl 0, by simp [sampleActions]⟩
    | 1, _ => exact ⟨0, Nat.le_refl 0, by simp [sampleActions]⟩
    | 2, _ => exact ⟨1, Nat.le_refl 1, by simp [sampleActions]⟩

/-- Sixty paid for the fifty owed: the ledger is lawful and shows the ten. -/
theorem ledger_lawful_over_released :
    ∃ tables, Run (IndexStep (sampleHistory ⟨⟨⟨2⟩, 0, 60⟩, rfl, .inr rfl, by decide⟩))
        emptyBalanceTables sampleActions tables ∧
      LedgerLawful (sampleHistory ⟨⟨⟨2⟩, 0, 60⟩, rfl, .inr rfl, by decide⟩) tables 2 ⟨2⟩ 5 ∧
      (liabilityShortfall tables 2 40 5 ⟨2⟩).isSome := by
  obtain ⟨tables, hrun, hrows⟩ := sample_run ⟨⟨⟨2⟩, 0, 60⟩, rfl, .inr rfl, by decide⟩
  have hlawful := (ledger_lawful_iff _ _ tables 2 ⟨2⟩ 5 hrun (sample_indexed _)).mpr
    ⟨?_, fun _ => by decide⟩
  · refine ⟨tables, hrun, hlawful, hlawful.exposed ?_⟩
    have howed : owedFor tables ⟨2⟩ 0 = some 50 := by
      rw [owedFor, hrows]
      rfl
    have hover : payoutsThrough (sampleHistory ⟨⟨⟨2⟩, 0, 60⟩, rfl, .inr rfl, by decide⟩) 2
        (overReleased tables ⟨2⟩) = 0 + (0 + (overReleased tables ⟨2⟩ ⟨⟨2⟩, 0, 60⟩ + 0)) := rfl
    rw [hover, overReleased, if_pos rfl, howed]
    decide
  · intro i hi p hp hmint
    rcases List.mem_cons.mp hi with rfl | hi
    · cases hp
    · rcases List.mem_cons.mp hi with rfl | hi
      · cases hp
      · obtain rfl := List.mem_singleton.mp hi
        cases hp
        exact absurd rfl hmint

/-- Fifty of mint 1 paid for the fifty of mint 2 owed: mint 2 reads fifty below its custody. -/
theorem cross_mint_payout_unlawful :
    ∃ tables, Run (IndexStep (sampleHistory ⟨⟨⟨1⟩, 0, 50⟩, rfl, .inl rfl, by decide⟩))
        emptyBalanceTables sampleActions tables ∧
      IndexedThrough (sampleHistory ⟨⟨⟨1⟩, 0, 50⟩, rfl, .inl rfl, by decide⟩) sampleActions 2 ∧
      ¬ LedgerLawful (sampleHistory ⟨⟨⟨1⟩, 0, 50⟩, rfl, .inl rfl, by decide⟩) tables 2 ⟨2⟩ 0 := by
  obtain ⟨tables, hrun, hrows⟩ := sample_run ⟨⟨⟨1⟩, 0, 50⟩, rfl, .inl rfl, by decide⟩
  refine ⟨tables, hrun, sample_indexed _, fun hlawful => ?_⟩
  have hkind := hlawful.paidInKind (indexed_of_run hrun) (sample_indexed _)
  have hpaid := hkind (samplePayout ⟨⟨1⟩, 0, 50⟩) (.tail _ (.tail _ (.head _))) ⟨⟨1⟩, 0, 50⟩ rfl
    (by decide) { sampleWithdrawal with withdrawalNonce := some 0 } (hrows ▸ List.mem_cons_self)
    rfl rfl rfl
  rcases hpaid with h | h <;> cases h

/-- Two indexers of one chain agree on the deposits of each mint and on every sum over the
releases, in whatever order they wrote its slots. -/
theorem indexed_money_agrees {history : CustodyHistory} {actions actions' : List IndexAction}
    {tables tables' : BalanceTables} {slot : ℕ}
    (hrun : Run (IndexStep history) emptyBalanceTables actions tables)
    (hrun' : Run (IndexStep history) emptyBalanceTables actions' tables')
    (h : IndexedThrough history actions slot) (h' : IndexedThrough history actions' slot) :
    depositsAt tables slot = depositsAt tables' slot ∧ ∀ value : ℕ → Option ℕ → ℕ,
      ((releasesThrough tables slot).map fun r => value r.withdrawalNonce r.amount).sum =
        ((releasesThrough tables' slot).map fun r => value r.withdrawalNonce r.amount).sum := by
  refine ⟨funext fun mint => ?_, fun value => ?_⟩
  · rw [(indexed_of_run hrun).depositsAt_eq h, (indexed_of_run hrun').depositsAt_eq h']
  · rw [releasesThrough, (indexed_of_run hrun).sum_releases h, releasesThrough,
      (indexed_of_run hrun').sum_releases h']

/-- The same slots, newest first: slot 2 is left half-way and taken up again, and slot 1 is
written twice. -/
def resumedActions : List IndexAction :=
  [.transactions 2, .releases 2 0, .transactions 1, .transactions 1, .withdrawal sampleWithdrawal,
    .releases 2 1, .releases 2 1, .releases 1 0, .transactions 0, .releases 0 0]

/-- Sixty of mint 2 are paid. -/
def overpaid : SamplePayout := ⟨⟨⟨2⟩, 0, 60⟩, rfl, .inr rfl, by decide⟩

/-- The slots written newest first. -/
theorem resumed_run :
    ∃ tables, Run (IndexStep (sampleHistory overpaid)) emptyBalanceTables resumedActions tables ∧
      tables.transactions.map (·.transactionType) = [.deposit, .deposit, .withdrawal] := by
  have h1 := Run.nil.snoc (@IndexStep.transactions (sampleHistory overpaid) emptyBalanceTables 2)
  have h2 := h1.snoc (@IndexStep.releases _ _ 2 0)
  have h3 := h2.snoc (@IndexStep.transactions _ _ 1)
  have h4 := h3.snoc (@IndexStep.transactions _ _ 1)
  have h5 := h4.snoc (@IndexStep.withdrawal _ _ sampleWithdrawal rfl (sampleWithdrawal_foreign _))
  have h6 := h5.snoc (@IndexStep.releases _ _ 2 1)
  have h7 := h6.snoc (@IndexStep.releases _ _ 2 1)
  have h8 := h7.snoc (@IndexStep.releases _ _ 1 0)
  have h9 := h8.snoc (@IndexStep.transactions _ _ 0)
  have h10 := h9.snoc (@IndexStep.releases _ _ 0 0)
  exact ⟨_, h10, by decide +kernel⟩

/-- The rows stand in another order, and the money is the same. -/
theorem indexed_money_agrees_sample : ∃ p tables tables',
    Run (IndexStep (sampleHistory p)) emptyBalanceTables sampleActions tables ∧
    Run (IndexStep (sampleHistory p)) emptyBalanceTables resumedActions tables' ∧
    tables.transactions ≠ tables'.transactions ∧ depositsAt tables 2 = depositsAt tables' 2 ∧
    ∀ value : ℕ → Option ℕ → ℕ,
      ((releasesThrough tables 2).map fun r => value r.withdrawalNonce r.amount).sum =
        ((releasesThrough tables' 2).map fun r => value r.withdrawalNonce r.amount).sum := by
  obtain ⟨tables, hrun, hrows⟩ := sample_run overpaid
  obtain ⟨tables', hrun', hrows'⟩ := resumed_run
  refine ⟨_, tables, tables', hrun, hrun', fun hsame => ?_,
    indexed_money_agrees hrun hrun' (sample_indexed _)
      ((sample_indexed _).mono (by simp [sampleActions, resumedActions]))⟩
  rw [← hsame, hrows] at hrows'
  exact absurd hrows' (by decide)

end PrivateChannels.Operator
