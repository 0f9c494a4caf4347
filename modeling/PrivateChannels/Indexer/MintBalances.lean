import PrivateChannels.Foundation.Relational
import PrivateChannels.Indexer.Instructions

/-!
# The per-mint ledger

The tables `mint_balances_query` reads, their unique indexes and inserts, and the query as
it is written: the universe of mints, three left joins, and one group per mint.
-/

namespace PrivateChannels.Indexer

open Operator (Pubkey)
open Storage (Signature TransactionType)

/-- A row of `transactions`, with the nonce the insert trigger gave it. -/
structure TransactionRow extends DbTransaction where
  withdrawalNonce : Option ℕ
  deriving DecidableEq, Repr

/-- `TX_CONFLICT_TARGET`. -/
def DbTransaction.source (t : DbTransaction) : Signature × ℕ × Option ℕ :=
  (t.signature, t.instructionIndex, t.innerIndex)

/-- The tables of the ledger, with their keys. -/
structure BalanceTables where
  mints : List DbMint
  mintStatusHistory : List DbMintStatus
  transactions : List TransactionRow
  observedReleases : List DbObservedRelease
  /-- The next value of `withdrawal_nonce_seq`. -/
  withdrawalNonceSeq : ℕ
  mints_key : (mints.map (·.mintAddress)).Nodup
  transactions_key : (transactions.map (·.source)).Nodup
  nonces_key : (transactions.filterMap (·.withdrawalNonce)).Nodup
  nonces_lt : ∀ nonce ∈ transactions.filterMap (·.withdrawalNonce), nonce < withdrawalNonceSeq
  releases_key : (observedReleases.map (·.withdrawalNonce)).Nodup

def emptyBalanceTables : BalanceTables where
  mints := []
  mintStatusHistory := []
  transactions := []
  observedReleases := []
  withdrawalNonceSeq := 0
  mints_key := List.nodup_nil
  transactions_key := List.nodup_nil
  nonces_key := List.nodup_nil
  nonces_lt := nofun
  releases_key := List.nodup_nil

/-- `assign_withdrawal_nonce`. -/
def assignWithdrawalNonce (seq : ℕ) (t : DbTransaction) : TransactionRow :=
  { t with withdrawalNonce := if t.transactionType = .withdrawal then some seq else none }

theorem assignWithdrawalNonce_mem {seq nonce : ℕ} {t : DbTransaction}
    (h : (assignWithdrawalNonce seq t).withdrawalNonce = some nonce) :
    nonce = seq ∧ t.transactionType = .withdrawal := by
  unfold assignWithdrawalNonce at h
  split at h
  · next hwithdrawal => exact ⟨(Option.some.inj h).symm, hwithdrawal⟩
  · cases h

/-- One row of `insert_transactions_batch`: a source that is there already is skipped. -/
def insertTransaction (tables : BalanceTables) (t : DbTransaction) : BalanceTables :=
  if h : t.source ∈ tables.transactions.map (·.source) then tables
  else { tables with
    transactions := tables.transactions ++ [assignWithdrawalNonce tables.withdrawalNonceSeq t]
    withdrawalNonceSeq := tables.withdrawalNonceSeq +
      if t.transactionType = .withdrawal then 1 else 0
    transactions_key := by
      rw [List.map_append]
      exact tables.transactions_key.append (List.nodup_singleton _)
        (List.disjoint_singleton.mpr h)
    nonces_key := by
      rw [List.filterMap_append]
      refine tables.nonces_key.append ?_ fun nonce hmem hnew => ?_
      · rw [List.filterMap_cons]
        split
        · exact List.nodup_nil
        · exact List.nodup_singleton _
      · obtain ⟨row, hrow, hnonce⟩ := List.mem_filterMap.mp hnew
        obtain rfl := List.mem_singleton.mp hrow
        have hseq := (assignWithdrawalNonce_mem hnonce).1
        exact absurd (tables.nonces_lt nonce hmem) (by omega)
    nonces_lt := by
      intro nonce hmem
      rw [List.filterMap_append] at hmem
      rcases List.mem_append.mp hmem with hmem | hmem
      · exact (tables.nonces_lt nonce hmem).trans_le (Nat.le_add_right _ _)
      · obtain ⟨row, hrow, hnonce⟩ := List.mem_filterMap.mp hmem
        obtain rfl := List.mem_singleton.mp hrow
        obtain ⟨rfl, hwithdrawal⟩ := assignWithdrawalNonce_mem hnonce
        rw [if_pos hwithdrawal]
        exact Nat.lt_succ_self _ }

def insertTransactionsBatch (transactions : List DbTransaction) (tables : BalanceTables) :
    BalanceTables :=
  transactions.foldl insertTransaction tables

/-- `ON CONFLICT (withdrawal_nonce) DO NOTHING`. -/
def insertObservedRelease (tables : BalanceTables) (release : DbObservedRelease) : BalanceTables :=
  if h : release.withdrawalNonce ∈ tables.observedReleases.map (·.withdrawalNonce) then tables
  else { tables with
    observedReleases := tables.observedReleases ++ [release]
    releases_key := by
      rw [List.map_append]
      exact tables.releases_key.append (List.nodup_singleton _) (List.disjoint_singleton.mpr h) }

def insertObservedReleasesBatch (releases : List DbObservedRelease) (tables : BalanceTables) :
    BalanceTables :=
  releases.foldl insertObservedRelease tables

/-- `UNLISTED_MINT_SOURCES`. -/
def unlistedMintSources (tables : BalanceTables) : List Pubkey :=
  tables.mintStatusHistory.map (·.mintAddress) ++
    (tables.transactions.filter (·.transactionType = .deposit)).map (·.mint) ++
    ((tables.transactions.filter (·.transactionType = .withdrawal)).filter fun t =>
      tables.observedReleases.any fun r => t.withdrawalNonce = some r.withdrawalNonce).map (·.mint)

/-- Every mint the tables mention. -/
def mintUniverse (tables : BalanceTables) : List Pubkey :=
  (tables.mints.map (·.mintAddress) ++ unlistedMintSources tables).dedup

/-- A row of the three left joins. -/
structure JoinedRow where
  mintAddress : Pubkey
  mint : Option DbMint
  transaction : Option TransactionRow
  release : Option DbObservedRelease

/-- The bound limits deposits only, since a withdrawal row carries a channel slot. -/
def joinedTransactions (tables : BalanceTables) (asOf : ℕ) (mint : Pubkey) : List TransactionRow :=
  tables.transactions.filter fun t =>
    t.mint = mint ∧ (t.transactionType = .withdrawal ∨ t.slot ≤ asOf)

/-- The releases joined to a transaction. A null nonce equals none. -/
def joinedReleases (tables : BalanceTables) (asOf : ℕ) (t : Option TransactionRow) :
    List DbObservedRelease :=
  tables.observedReleases.filter fun r =>
    t.bind (·.withdrawalNonce) = some r.withdrawalNonce ∧ r.slot ≤ asOf

def joinedRows (tables : BalanceTables) (asOf : ℕ) (mint : Pubkey) : List JoinedRow :=
  (leftJoin (tables.mints.filter (·.mintAddress = mint))).flatMap fun m =>
    (leftJoin (joinedTransactions tables asOf mint)).flatMap fun t =>
      (leftJoin (joinedReleases tables asOf t)).map fun r => ⟨mint, m, t, r⟩

/-- A test for a released withdrawal. -/
abbrev Released := TransactionRow → Option DbObservedRelease → Bool

/-- `RELEASED_BY_OBSERVATION`. -/
def releasedByObservation : Released := fun _ r => r.isSome

def depositValue : Option TransactionRow → ℕ
  | none => 0
  | some t => if t.transactionType = .deposit then t.amount else 0

/-- What a payout discharges: what the chain moved, capped at what its row owed. -/
def withdrawalValue (released : Released) (r : Option DbObservedRelease) :
    Option TransactionRow → ℕ
  | none => 0
  | some t =>
    if t.transactionType = .withdrawal ∧ released t r then
      min ((r.bind (·.amount)).getD t.amount) t.amount
    else 0

/-- A row of the query's answer. -/
structure MintDbBalance where
  mintAddress : Pubkey
  tokenProgram : Option Pubkey
  totalDeposits : ℕ
  totalWithdrawals : ℕ
  deriving DecidableEq, Repr

/-- One row per mint. -/
def mintBalancesQuery (released : Released) (tables : BalanceTables) (asOf : ℕ) :
    List MintDbBalance :=
  (group (fun row : JoinedRow => (row.mintAddress, row.mint.map (·.tokenProgram)))
      ((mintUniverse tables).flatMap (joinedRows tables asOf))).map fun g => {
    mintAddress := g.1.1
    tokenProgram := g.1.2
    totalDeposits := (g.2.map fun row => depositValue row.transaction).sum
    totalWithdrawals :=
      (g.2.map fun row => withdrawalValue released row.release row.transaction).sum }

/-- The release observed for a withdrawal at or below the bound. -/
def releaseAt (tables : BalanceTables) (asOf : ℕ) (t : TransactionRow) : Option DbObservedRelease :=
  (joinedReleases tables asOf (some t)).head?

theorem length_joinedReleases (tables : BalanceTables) (asOf : ℕ) (t : Option TransactionRow) :
    (joinedReleases tables asOf t).length ≤ 1 := by
  refine length_filter_le_one tables.releases_key fun a _ b _ ha hb => ?_
  have ha := (of_decide_eq_true ha).1
  have hb := (of_decide_eq_true hb).1
  exact Option.some.inj (ha.symm.trans hb)

/-- The row of `mints` a mint is joined to. -/
def listedMint (tables : BalanceTables) (mint : Pubkey) : Option DbMint :=
  (tables.mints.filter (·.mintAddress = mint)).head?

theorem length_filter_mints (tables : BalanceTables) (mint : Pubkey) :
    (tables.mints.filter (·.mintAddress = mint)).length ≤ 1 := by
  refine length_filter_le_one tables.mints_key fun a _ b _ ha hb => ?_
  exact (of_decide_eq_true ha).trans (of_decide_eq_true hb).symm

/-- One joined row per transaction. -/
theorem joinedRows_eq (tables : BalanceTables) (asOf : ℕ) (mint : Pubkey) :
    joinedRows tables asOf mint = (leftJoin (joinedTransactions tables asOf mint)).map fun t =>
      ⟨mint, listedMint tables mint, t, t.bind (releaseAt tables asOf)⟩ := by
  unfold joinedRows
  rw [leftJoin_eq_singleton (length_filter_mints tables mint), List.flatMap_singleton,
    List.map_eq_flatMap]
  refine List.flatMap_congr fun t _ => ?_
  rw [leftJoin_eq_singleton (length_joinedReleases tables asOf t)]
  cases t with
  | none =>
    have hnone : joinedReleases tables asOf none = [] :=
      List.filter_eq_nil_iff.mpr fun r _ h => nomatch (of_decide_eq_true h).1
    rw [hnone]
    rfl
  | some t => rfl

/-- The deposits of a mint at or below the bound. -/
def depositsAt (tables : BalanceTables) (asOf : ℕ) (mint : Pubkey) : ℕ :=
  ((tables.transactions.filter fun t =>
    t.mint = mint ∧ t.transactionType = .deposit ∧ t.slot ≤ asOf).map (·.amount)).sum

/-- What the withdrawals of a mint discharged, each counted once. -/
def dischargedAt (released : Released) (tables : BalanceTables) (asOf : ℕ) (mint : Pubkey) : ℕ :=
  ((tables.transactions.filter (·.mint = mint)).map fun t =>
    withdrawalValue released (releaseAt tables asOf t) (some t)).sum

theorem sum_depositValue (tables : BalanceTables) (asOf : ℕ) (mint : Pubkey) :
    ((joinedRows tables asOf mint).map fun row => depositValue row.transaction).sum =
      depositsAt tables asOf mint := by
  rw [joinedRows_eq, List.map_map]
  refine (sum_map_leftJoin _ rfl).trans ?_
  unfold joinedTransactions depositsAt
  rw [sum_map_filter, sum_map_filter]
  refine congrArg List.sum (List.map_congr_left fun t _ => ?_)
  cases htype : t.transactionType with
  | _ => simp [depositValue, htype]

theorem sum_withdrawalValue (released : Released) (tables : BalanceTables) (asOf : ℕ)
    (mint : Pubkey) :
    ((joinedRows tables asOf mint).map fun row =>
      withdrawalValue released row.release row.transaction).sum =
      dischargedAt released tables asOf mint := by
  rw [joinedRows_eq, List.map_map]
  refine (sum_map_leftJoin _ rfl).trans ?_
  unfold joinedTransactions dischargedAt
  rw [sum_map_filter, sum_map_filter]
  refine congrArg List.sum (List.map_congr_left fun t _ => ?_)
  cases htype : t.transactionType with
  | deposit => simp [withdrawalValue, htype]
  | withdrawal => simp

theorem key_joinedRows {tables : BalanceTables} {asOf : ℕ} {mint : Pubkey} {row : JoinedRow}
    (h : row ∈ joinedRows tables asOf mint) :
    (row.mintAddress, row.mint.map (·.tokenProgram)) =
      (mint, (listedMint tables mint).map (·.tokenProgram)) := by
  rw [joinedRows_eq] at h
  obtain ⟨_, -, rfl⟩ := List.mem_map.mp h
  rfl

/-- A result row per mint of the universe, with the sums over the table. -/
theorem mem_mintBalancesQuery {released : Released} {tables : BalanceTables} {asOf : ℕ}
    {row : MintDbBalance} : row ∈ mintBalancesQuery released tables asOf ↔
      ∃ mint ∈ mintUniverse tables, row = {
        mintAddress := mint
        tokenProgram := (listedMint tables mint).map (·.tokenProgram)
        totalDeposits := depositsAt tables asOf mint
        totalWithdrawals := dischargedAt released tables asOf mint } := by
  have hnodup : ((mintUniverse tables).map fun mint =>
      (mint, (listedMint tables mint).map (·.tokenProgram))).Nodup :=
    (List.nodup_dedup _).map fun _ _ h => congrArg Prod.fst h
  have hgroup : ∀ mint ∈ mintUniverse tables,
      ((mintUniverse tables).flatMap (joinedRows tables asOf)).filter (fun row =>
        (row.mintAddress, row.mint.map (·.tokenProgram)) =
          (mint, (listedMint tables mint).map (·.tokenProgram))) = joinedRows tables asOf mint :=
    fun mint hmint => filter_flatMap_eq hnodup (fun _ _ _ hrow => key_joinedRows hrow) hmint
  constructor
  · intro h
    obtain ⟨⟨key, members⟩, hmem, rfl⟩ := List.mem_map.mp h
    obtain ⟨⟨joined, hjoined, hkey⟩, rfl⟩ := mem_group.mp hmem
    obtain ⟨mint, hmint, hjoined⟩ := List.mem_flatMap.mp hjoined
    obtain rfl := hkey.symm.trans (key_joinedRows hjoined)
    refine ⟨mint, hmint, ?_⟩
    rw [hgroup mint hmint, sum_depositValue, sum_withdrawalValue]
  · rintro ⟨mint, hmint, rfl⟩
    refine List.mem_map.mpr ⟨((mint, (listedMint tables mint).map (·.tokenProgram)),
      joinedRows tables asOf mint), mem_group.mpr ⟨?_, (hgroup mint hmint).symm⟩, ?_⟩
    · have hne : joinedRows tables asOf mint ≠ [] := by
        rw [joinedRows_eq]
        exact fun h => leftJoin_ne_nil _ (List.map_eq_nil_iff.mp h)
      obtain ⟨joined, hjoined⟩ := List.exists_mem_of_ne_nil _ hne
      exact ⟨joined, List.mem_flatMap.mpr ⟨mint, hmint, hjoined⟩, key_joinedRows hjoined⟩
    · rw [sum_depositValue, sum_withdrawalValue]

/-- No mint has two result rows. -/
theorem nodup_mintBalancesQuery (released : Released) (tables : BalanceTables) (asOf : ℕ) :
    ((mintBalancesQuery released tables asOf).map (·.mintAddress)).Nodup := by
  have hkeys : (((mintBalancesQuery released tables asOf).map fun row =>
      (row.mintAddress, row.tokenProgram))).Nodup := by
    unfold mintBalancesQuery
    rw [List.map_map]
    exact nodup_group _ _
  refine List.Nodup.of_map (fun mint => (mint, (listedMint tables mint).map (·.tokenProgram))) ?_
  rw [List.map_map]
  refine (List.map_congr_left fun row hrow => ?_) ▸ hkeys
  obtain ⟨mint, -, rfl⟩ := mem_mintBalancesQuery.mp hrow
  rfl

end PrivateChannels.Indexer
