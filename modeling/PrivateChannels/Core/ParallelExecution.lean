import PrivateChannels.Core.Conservation
import PrivateChannels.Core.DagGraph

/-!
# Parallel execution

A large batch is cut into chunks, one for each worker, over a copy of what BOB knows of
the preloaded keys. The SVM is a parameter.
-/

namespace PrivateChannels.Core

/-- `MIN_PARALLEL_BATCH_FACTOR` -/
def minParallelBatchFactor : ℕ := 4

/-- Accounts by key. -/
abbrev AccountMap := AList fun _ : Pubkey => AccountSharedData

/-- The workers' copy of BOB. -/
structure SnapshotCallback where
  accounts : AccountMap
  feePayers : Finset Pubkey

/-- One key of the loop of `from_bob`. -/
def copyAccount (bob : Bob) (accounts : AccountMap) (pubkey : Pubkey) : AccountMap :=
  match bob.getAccountSharedData pubkey with
  | some account => accounts.insert pubkey account
  | none => accounts

def SnapshotCallback.fromBob (bob : Bob) (accountKeys : List Pubkey) (feePayers : Finset Pubkey) :
    SnapshotCallback :=
  ⟨accountKeys.foldl (copyAccount bob) ∅, feePayers⟩

def SnapshotCallback.account (snapshot : SnapshotCallback) (pubkey : Pubkey) :
    Option AccountSharedData :=
  match snapshot.accounts.lookup pubkey with
  | some account => some account
  | none =>
    if pubkey ∈ snapshot.feePayers then
      some ⟨defaultFeePayerLamports, [], systemProgramId, false, 0⟩
    else none

/-- The SVM, over the account callback. -/
abbrev Svm := (Pubkey → Option AccountSharedData) → List (Transaction Pubkey) →
  List TransactionProcessingResult

/-- `slice::chunks`, for at most `fuel` chunks. -/
def chunks {α : Type*} (size : ℕ) : ℕ → List α → List (List α)
  | 0, _ => []
  | _ + 1, [] => []
  | fuel + 1, a :: l => (a :: l).take size :: chunks size fuel ((a :: l).drop size)

/-- `merge_svm_outputs`, on the results. -/
def mergeSvmOutputs (chunkOutputs : List (List TransactionProcessingResult)) :
    List TransactionProcessingResult :=
  chunkOutputs.flatten

section Execution

variable (svm : Svm) (bob : Bob) (accountKeys : List Pubkey) (feePayers : Finset Pubkey)
  (transactions : List (Transaction Pubkey)) (maxSvmWorkers : ℕ)

/-- `execute_parallel`; `none` is a panic, of `clamp` or of `chunks`. -/
def executeParallel (snapshot : SnapshotCallback) : Option (List TransactionProcessingResult) :=
  if maxSvmWorkers < 2 then none
  else
    let numWorkers := min (max (transactions.length / minParallelBatchFactor) 2) maxSvmWorkers
    let chunkSize := (transactions.length + numWorkers - 1) / numWorkers
    if chunkSize = 0 then none
    else
      some (mergeSvmOutputs
        ((chunks chunkSize transactions.length transactions).map (svm snapshot.account)))

/-- The run of the regular transactions in `execute_batch`. -/
def executeRegular : Option (List TransactionProcessingResult) :=
  if 2 ≤ maxSvmWorkers ∧ maxSvmWorkers * minParallelBatchFactor ≤ transactions.length then
    executeParallel svm transactions maxSvmWorkers (.fromBob bob accountKeys feePayers)
  else some (svm (gaslessAccount bob feePayers) transactions)

end Execution

theorem lookup_copyAccounts (bob : Bob) (accountKeys : List Pubkey) (accounts : AccountMap)
    (k : Pubkey) :
    (accountKeys.foldl (copyAccount bob) accounts).lookup k =
      if k ∈ accountKeys then (bob.getAccountSharedData k).or (accounts.lookup k)
      else accounts.lookup k := by
  induction accountKeys generalizing accounts with
  | nil => simp
  | cons key accountKeys ih =>
    rw [List.foldl_cons, ih, copyAccount]
    by_cases hkey : k = key
    · subst hkey
      cases bob.getAccountSharedData k <;> simp
    · cases bob.getAccountSharedData key <;> simp [hkey, AList.lookup_insert_ne hkey]

theorem account_fromBob (bob : Bob) (feePayers : Finset Pubkey) {accountKeys : List Pubkey}
    {k : Pubkey} (hk : k ∈ accountKeys) :
    (SnapshotCallback.fromBob bob accountKeys feePayers).account k =
      gaslessAccount bob feePayers k := by
  have hcopied : (accountKeys.foldl (copyAccount bob) ∅).lookup k = bob.getAccountSharedData k := by
    rw [lookup_copyAccounts, if_pos hk, AList.lookup_empty, Option.or_none]
  rw [SnapshotCallback.account, SnapshotCallback.fromBob, hcopied]
  rfl

theorem flatten_chunks {α : Type*} {size fuel : ℕ} (hsize : 0 < size) {l : List α}
    (hfuel : l.length ≤ fuel) : (chunks size fuel l).flatten = l := by
  induction fuel generalizing l with
  | zero => rw [List.length_eq_zero_iff.mp (Nat.le_zero.mp hfuel)]; rfl
  | succ fuel ih =>
    cases l with
    | nil => rfl
    | cons a l =>
      have hrest : ((a :: l).drop size).length ≤ fuel := by
        rw [List.length_drop]
        omega
      rw [chunks, List.flatten_cons, ih hrest, List.take_append_drop]

/-- The keys of a transaction. -/
def Transaction.keys {κ : Type*} (tx : Transaction κ) : List κ :=
  tx.writeAccounts ++ tx.readAccounts

/-- No two transactions conflict. -/
def ConflictFree (transactions : List (Transaction Pubkey)) : Prop :=
  transactions.Pairwise fun a b => ¬ Conflicts a b

/-- Without conflicts each result depends on the transaction's own keys only. -/
def Svm.Local (svm : Svm) : Prop :=
  ∃ result : Transaction Pubkey → List (Option AccountSharedData) → TransactionProcessingResult,
    ∀ callback transactions, ConflictFree transactions →
      svm callback transactions = transactions.map fun tx => result tx (tx.keys.map callback)

/-- Over preloaded keys the parallel path answers as the sequential one does, at every number of
workers. -/
theorem parallel_matches_sequential {svm : Svm} (hsvm : svm.Local) (bob : Bob)
    {accountKeys : List Pubkey} (feePayers : Finset Pubkey)
    {transactions : List (Transaction Pubkey)} (hfree : ConflictFree transactions)
    (hpreloaded : ∀ tx ∈ transactions, ∀ key ∈ tx.keys, key ∈ accountKeys) (maxSvmWorkers : ℕ) :
    (transactions ≠ [] → 2 ≤ maxSvmWorkers →
      executeParallel svm transactions maxSvmWorkers (.fromBob bob accountKeys feePayers) =
        some (svm (gaslessAccount bob feePayers) transactions)) ∧
    executeRegular svm bob accountKeys feePayers transactions maxSvmWorkers =
      some (svm (gaslessAccount bob feePayers) transactions) ∧
    (svm (gaslessAccount bob feePayers) transactions).length = transactions.length := by
  obtain ⟨result, hresult⟩ := hsvm
  have hparallel (hne : transactions ≠ []) (hworkers : 2 ≤ maxSvmWorkers) :
      executeParallel svm transactions maxSvmWorkers (.fromBob bob accountKeys feePayers) =
        some (svm (gaslessAccount bob feePayers) transactions) := by
    have hlength := List.length_pos_of_ne_nil hne
    rw [executeParallel, if_neg (by omega)]
    dsimp only
    generalize hnum : min (max _ 2) maxSvmWorkers = numWorkers
    have hsize : 0 < (transactions.length + numWorkers - 1) / numWorkers :=
      Nat.div_pos (by omega) (by omega)
    have hflatten := flatten_chunks hsize (l := transactions) le_rfl
    rw [if_neg hsize.ne', mergeSvmOutputs, hresult _ _ hfree, Option.some_inj]
    generalize chunks _ transactions.length transactions = pieces at hflatten ⊢
    subst hflatten
    rw [List.map_flatten]
    refine congrArg List.flatten (List.map_congr_left fun piece hpiece => ?_)
    have hsub := List.sublist_flatten_of_mem hpiece
    rw [hresult _ _ (hfree.sublist hsub)]
    refine List.map_congr_left fun tx htx => congrArg (result tx) ?_
    exact List.map_congr_left fun key hkey =>
      account_fromBob bob feePayers (hpreloaded tx (hsub.subset htx) key hkey)
  refine ⟨hparallel, ?_, ?_⟩
  · rw [executeRegular]
    split
    · next hgate =>
      refine hparallel ?_ hgate.1
      rintro rfl
      simp [minParallelBatchFactor] at hgate
      omega
    · rfl
  · rw [hresult _ _ hfree, List.length_map]

/-- The lamports that were loaded. -/
def loadedReport (loaded : List (Option AccountSharedData)) : TransactionProcessingResult :=
  .error (.other (loaded.map fun account => (account.map (·.lamports)).getD 0).sum)

/-- An SVM that reports what it has loaded. -/
def reportingSvm : Svm := fun callback transactions =>
  transactions.map fun tx => loadedReport (tx.keys.map callback)

/-- Eight transactions of unknown payers run on two workers. -/
theorem parallel_matches_sequential_two_workers :
    ∃ transactions : List (Transaction Pubkey), transactions.length = 8 ∧
      executeRegular reportingSvm (.new (fun _ => none) 1 1) (List.range 8) {0, 5} transactions 2 =
        some (reportingSvm (gaslessAccount (.new (fun _ => none) 1 1) {0, 5}) transactions) := by
  let transactions : List (Transaction Pubkey) := (List.range 8).map fun key => ⟨[], [key]⟩
  have hlocal : reportingSvm.Local := ⟨fun _ => loadedReport, fun _ _ _ => rfl⟩
  have hfree : ConflictFree transactions := by
    refine List.pairwise_map.mpr (List.pairwise_lt_range.imp fun hlt => ?_)
    simp [Conflicts, hlt.ne]
  have hpreloaded : ∀ tx ∈ transactions, ∀ key ∈ tx.keys, key ∈ List.range 8 := by decide
  exact ⟨transactions, rfl, (parallel_matches_sequential hlocal _ _ hfree hpreloaded 2).2.1⟩

end PrivateChannels.Core
