import PrivateChannels.Core.BobSystem
import PrivateChannels.Foundation.Relational

/-!
# Lamports of made-up fee payers

The ten lamports the SVM is handed for an unknown fee payer are a loan: what the payer no
longer holds must be explained by accounts the transaction has created, and the payer is
wiped.
-/

namespace PrivateChannels.Core

open WriteLog

/-- `DEFAULT_FEE_PAYER_LAMPORTS` -/
def defaultFeePayerLamports : ℕ := 10

/-- `MAX_FLOAT_FUNDED_CREATIONS` -/
def maxFloatFundedCreations : ℕ := 4

variable (bob : Bob) (feePayers : Finset Pubkey)

/-- `GaslessCallback::account` -/
def gaslessAccount (pubkey : Pubkey) : Option AccountSharedData :=
  match bob.getAccountSharedData pubkey with
  | some account => some account
  | none =>
    if pubkey ∈ feePayers then some ⟨defaultFeePayerLamports, [], systemProgramId, false, 0⟩
    else none

/-- The variables of the loop over one transaction's accounts. -/
structure Tally where
  fabricated : List ℕ
  burned : List ℕ
  shortfall : ℕ
  created : ℕ
  credited : Bool
  deriving DecidableEq, Repr

def tallyAccount (message : MessageAccounts) (tally : Tally)
    (entry : (Pubkey × AccountSharedData) × ℕ) : Tally :=
  if !message.isWritable entry.2 then tally
  else
    match bob.accountLamports entry.1.1 with
    | some before => { tally with credited := tally.credited || before < entry.1.2.lamports }
    | none =>
      if entry.1.1 ∈ feePayers then
        { tally with
          fabricated := tally.fabricated ++ [entry.2]
          shortfall := tally.shortfall + (defaultFeePayerLamports - entry.1.2.lamports) }
      else if 0 < entry.1.2.lamports then
        if entry.1.2.owner = systemProgramId ∧ entry.1.2.data = [] then
          { tally with burned := tally.burned ++ [entry.2] }
        else { tally with created := tally.created + 1 }
      else tally

def tallyAccounts (message : MessageAccounts) (accounts : List (Pubkey × AccountSharedData)) :
    Tally :=
  accounts.zipIdx.foldl (tallyAccount bob feePayers message) ⟨[], [], 0, 0, false⟩

/-- The shortfall is not explained. -/
def Tally.rejects (tally : Tally) : Bool :=
  tally.created < tally.shortfall ||
    (0 < tally.shortfall && (tally.credited || maxFloatFundedCreations < tally.created))

/-- One account is reset. -/
def wipe (accounts : List (Pubkey × AccountSharedData)) (index : ℕ) :
    List (Pubkey × AccountSharedData) :=
  accounts.modify index fun entry => (entry.1, .default)

/-- One round of the loop over the batch. -/
def enforceTransaction (message : MessageAccounts) :
    TransactionProcessingResult → TransactionProcessingResult
  | .ok (.executed executed) =>
    if !executed.wasSuccessful then .ok (.executed executed)
    else
      let tally := tallyAccounts bob feePayers message executed.accounts
      if tally.rejects then
        .ok (.executed { executed with status := .error .unbalancedTransaction })
      else
        .ok (.executed { executed with
          accounts := (tally.fabricated ++ tally.burned).foldl wipe executed.accounts })
  | .ok (.feesOnly error) => .ok (.feesOnly error)
  | .error error => .error error

def enforceLamportConservation (batch : List (MessageAccounts × TransactionProcessingResult)) :
    List (MessageAccounts × TransactionProcessingResult) :=
  batch.map fun tx => (tx.1, enforceTransaction bob feePayers tx.1 tx.2)

section Kinds

variable (message : MessageAccounts) (entry : (Pubkey × AccountSharedData) × ℕ)

/-- A fee payer that BOB does not know. -/
def Fabricated : Prop :=
  message.isWritable entry.2 = true ∧ bob.accountLamports entry.1.1 = none ∧ entry.1.1 ∈ feePayers

/-- An account with lamports that BOB does not know and nobody made up. -/
def New : Prop :=
  message.isWritable entry.2 = true ∧ bob.accountLamports entry.1.1 = none ∧
    entry.1.1 ∉ feePayers ∧ 0 < entry.1.2.lamports

/-- A new wallet. -/
def Burned : Prop :=
  New bob feePayers message entry ∧ entry.1.2.owner = systemProgramId ∧ entry.1.2.data = []

/-- Any other new account. -/
def Created : Prop :=
  New bob feePayers message entry ∧ ¬ (entry.1.2.owner = systemProgramId ∧ entry.1.2.data = [])

instance : Decidable (Fabricated bob feePayers message entry) := inferInstanceAs (Decidable (_ ∧ _))

instance : Decidable (New bob feePayers message entry) := inferInstanceAs (Decidable (_ ∧ _))

instance : Decidable (Burned bob feePayers message entry) := inferInstanceAs (Decidable (_ ∧ _))

instance : Decidable (Created bob feePayers message entry) := inferInstanceAs (Decidable (_ ∧ _))

/-- What the loop adds to its variables for an entry. -/
theorem tallyAccount_spec (tally : Tally) :
    let next := tallyAccount bob feePayers message tally entry
    next.fabricated = tally.fabricated ++
      (if Fabricated bob feePayers message entry then [entry.2] else []) ∧
    next.burned = tally.burned ++
      (if Burned bob feePayers message entry then [entry.2] else []) ∧
    next.shortfall = tally.shortfall + (if Fabricated bob feePayers message entry then
      defaultFeePayerLamports - entry.1.2.lamports else 0) ∧
    next.created = tally.created + (if Created bob feePayers message entry then 1 else 0) := by
  by_cases hwritable : message.isWritable entry.2 = true
  · cases hbefore : bob.accountLamports entry.1.1 with
    | some before => simp [tallyAccount, Fabricated, Burned, Created, New, hwritable, hbefore]
    | none =>
      by_cases hpayer : entry.1.1 ∈ feePayers
      · simp [tallyAccount, Fabricated, Burned, Created, New, hwritable, hbefore, hpayer]
      · by_cases hpos : 0 < entry.1.2.lamports
        · by_cases hwallet : entry.1.2.owner = systemProgramId ∧ entry.1.2.data = [] <;>
            simp [tallyAccount, Fabricated, Burned, Created, New, hwritable, hbefore, hpayer, hpos,
              hwallet]
        · simp [tallyAccount, Fabricated, Burned, Created, New, hwritable, hbefore, hpayer, hpos]
  · simp [tallyAccount, Fabricated, Burned, Created, New, hwritable]

/-- The variables after the loop. -/
theorem foldl_tallyAccount (entries : List ((Pubkey × AccountSharedData) × ℕ)) (tally : Tally) :
    let final := entries.foldl (tallyAccount bob feePayers message) tally
    final.fabricated = tally.fabricated ++
      (entries.filter fun e => Fabricated bob feePayers message e).map Prod.snd ∧
    final.burned = tally.burned ++
      (entries.filter fun e => Burned bob feePayers message e).map Prod.snd ∧
    final.shortfall = tally.shortfall + (entries.map fun e =>
      if Fabricated bob feePayers message e then defaultFeePayerLamports - e.1.2.lamports
      else 0).sum ∧
    final.created = tally.created + entries.countP fun e => Created bob feePayers message e := by
  induction entries generalizing tally with
  | nil => simp
  | cons entry entries ih =>
    obtain ⟨hfab, hburn, hshort, hcreated⟩ := tallyAccount_spec bob feePayers message entry tally
    obtain ⟨hfab', hburn', hshort', hcreated'⟩ :=
      ih (tallyAccount bob feePayers message tally entry)
    dsimp only [List.foldl_cons]
    refine ⟨?_, ?_, ?_, ?_⟩
    · rw [hfab', hfab, List.append_assoc, List.filter_cons]
      by_cases h : Fabricated bob feePayers message entry <;> simp [h]
    · rw [hburn', hburn, List.append_assoc, List.filter_cons]
      by_cases h : Burned bob feePayers message entry <;> simp [h]
    · rw [hshort', hshort, List.map_cons, List.sum_cons, Nat.add_assoc]
    · rw [hcreated', hcreated, List.countP_cons]
      by_cases h : Created bob feePayers message entry
      · simp [h]
        omega
      · simp [h]

end Kinds

section Stored

variable (message : MessageAccounts)

/-- The account at an entry of an accepted transaction. -/
def settledAccount (entry : (Pubkey × AccountSharedData) × ℕ) : Pubkey × AccountSharedData :=
  if Fabricated bob feePayers message entry ∨ Burned bob feePayers message entry then
    (entry.1.1, .default)
  else entry.1

theorem getElem?_wipeAll (indices : List ℕ) (accounts : List (Pubkey × AccountSharedData)) (i : ℕ) :
    (indices.foldl wipe accounts)[i]? =
      accounts[i]?.map fun entry => if i ∈ indices then (entry.1, .default) else entry := by
  induction indices generalizing accounts with
  | nil => simp
  | cons index indices ih =>
    rw [List.foldl_cons, ih, wipe, List.getElem?_modify]
    cases accounts[i]? with
    | none => rfl
    | some entry =>
      by_cases hin : i ∈ indices
      · by_cases heq : index = i <;> simp [hin, heq]
      · by_cases heq : index = i
        · simp [hin, heq]
        · simp [hin, heq, Ne.symm heq]

theorem mem_filter_zipIdx {α : Type*} {l : List α} {p : α × ℕ → Prop} [DecidablePred p] {i : ℕ}
    {a : α} (h : l[i]? = some a) : i ∈ (l.zipIdx.filter fun e => p e).map Prod.snd ↔ p (a, i) := by
  rw [List.mem_map]
  constructor
  · rintro ⟨⟨b, j⟩, hin, rfl⟩
    obtain ⟨hin, hp⟩ := List.mem_filter.mp hin
    obtain rfl : a = b := Option.some.inj (h.symm.trans (List.mem_zipIdx_iff_getElem?.mp hin))
    simpa using hp
  · intro hp
    exact ⟨(a, i), List.mem_filter.mpr ⟨List.mem_zipIdx_iff_getElem?.mpr h, by simpa using hp⟩, rfl⟩

/-- The wiped accounts are those of made-up payers and of new wallets. -/
theorem wipeAll_tally (accounts : List (Pubkey × AccountSharedData)) :
    ((tallyAccounts bob feePayers message accounts).fabricated ++
      (tallyAccounts bob feePayers message accounts).burned).foldl wipe accounts =
        accounts.zipIdx.map (settledAccount bob feePayers message) := by
  obtain ⟨hfab, hburn, _, _⟩ :=
    foldl_tallyAccount bob feePayers message accounts.zipIdx ⟨[], [], 0, 0, false⟩
  rw [tallyAccounts, hfab, hburn, List.nil_append, List.nil_append]
  refine List.ext_getElem? fun i => ?_
  rw [getElem?_wipeAll, List.getElem?_map, List.getElem?_zipIdx]
  cases hentry : accounts[i]? with
  | none => rfl
  | some entry =>
    simp [mem_filter_zipIdx hentry, settledAccount]

/-- What becomes of a result. -/
inductive Enforced : TransactionProcessingResult → TransactionProcessingResult → Prop
  /-- It stores nothing as it is. -/
  | failed {result : TransactionProcessingResult} : writtenAccounts message result = [] →
      Enforced result result
  /-- The made-up lamports are not accounted for. -/
  | rejected {executed : ExecutedTransaction} : executed.wasSuccessful →
      (tallyAccounts bob feePayers message executed.accounts).rejects = true →
      Enforced (.ok (.executed executed))
        (.ok (.executed { executed with status := .error .unbalancedTransaction }))
  | accepted {executed : ExecutedTransaction} : executed.wasSuccessful →
      (tallyAccounts bob feePayers message executed.accounts).rejects = false →
      Enforced (.ok (.executed executed)) (.ok (.executed { executed with
        accounts := executed.accounts.zipIdx.map (settledAccount bob feePayers message) }))

/-- The three outcomes of the check. -/
theorem enforceTransaction_enforced (result : TransactionProcessingResult) :
    Enforced bob feePayers message result (enforceTransaction bob feePayers message result) := by
  rcases result with error | executed | error
  · exact .failed rfl
  · by_cases hok : executed.wasSuccessful
    · simp only [enforceTransaction, hok, Bool.not_true, Bool.false_eq_true, if_false]
      split
      · next hrejects => exact .rejected hok hrejects
      · next hrejects =>
        rw [wipeAll_tally]
        exact .accepted hok (Bool.eq_false_iff.mpr hrejects)
    · simp only [enforceTransaction, hok, Bool.not_false, if_true]
      exact .failed (by simp [writtenAccounts, hok])
  · exact .failed rfl

variable {executed : ExecutedTransaction}

/-- What an accepted transaction stores. -/
theorem writtenAccounts_accepted (hok : executed.wasSuccessful) :
    writtenAccounts message (.ok (.executed { executed with
      accounts := executed.accounts.zipIdx.map (settledAccount bob feePayers message) })) =
        (executed.accounts.zipIdx.filter fun entry => message.isWritable entry.2).map
          (settledAccount bob feePayers message) := by
  have hzip : (executed.accounts.zipIdx.map (settledAccount bob feePayers message)).zipIdx =
      executed.accounts.zipIdx.map fun entry =>
        (settledAccount bob feePayers message entry, entry.2) := by
    refine List.ext_getElem? fun i => ?_
    simp only [List.getElem?_zipIdx, List.getElem?_map, Nat.zero_add]
    cases executed.accounts[i]? <;> rfl
  have hok' : ({ executed with
      accounts := executed.accounts.zipIdx.map (settledAccount bob feePayers message) } :
        ExecutedTransaction).wasSuccessful = true := hok
  simp only [writtenAccounts, hok', if_true, hzip, List.filter_map, List.map_map]
  rfl

/-- It stores the keys that the SVM's result would have stored. -/
theorem keys_accepted (hok : executed.wasSuccessful) :
    (writtenAccounts message (.ok (.executed { executed with
      accounts := executed.accounts.zipIdx.map (settledAccount bob feePayers message) }))).map
        Prod.fst = (writtenAccounts message (.ok (.executed executed))).map Prod.fst := by
  rw [writtenAccounts_accepted bob feePayers message hok, writtenAccounts, if_pos hok,
    List.map_map, List.map_map]
  refine List.map_congr_left fun entry _ => ?_
  rw [Function.comp_apply, settledAccount]
  split <;> rfl

end Stored

/-- The lamports that are durable, or on their way, for a key. -/
def durableLamports (pubkey : Pubkey) : ℕ := (bob.accountLamports pubkey).getD 0

/-- The lamports the SVM loads; an account that the callback does not return has none. -/
def loadedLamports (pubkey : Pubkey) : ℕ :=
  ((gaslessAccount bob feePayers pubkey).map (·.lamports)).getD 0

/-- Instructions balance, and an account the transaction may not write keeps its lamports. -/
structure SvmConserves (message : MessageAccounts) (executed : ExecutedTransaction) : Prop where
  sum : (executed.accounts.map (·.2.lamports)).sum =
    (executed.accounts.map fun entry => loadedLamports bob feePayers entry.1).sum
  readOnly : ∀ entry ∈ executed.accounts.zipIdx, message.isWritable entry.2 = false →
    entry.1.2.lamports = loadedLamports bob feePayers entry.1.1

/-- The lamports of the float that a transaction may leave in accounts it creates. -/
def floatAllowance (message : MessageAccounts) : TransactionProcessingResult → ℕ
  | .ok (.executed executed) =>
    min (executed.accounts.zipIdx.countP fun entry => Created bob feePayers message entry)
      maxFloatFundedCreations
  | _ => 0

theorem Bob.accountLamports_eq (pubkey : Pubkey) :
    bob.accountLamports pubkey = (bob.getAccountSharedData pubkey).map (·.lamports) := by
  rw [Bob.accountLamports, Bob.getAccountSharedData]
  cases bob.precompiles pubkey with
  | some precompile => rfl
  | none =>
    cases bob.accounts.lookup pubkey with
    | none => rfl
    | some entry => by_cases h : entry.deleted <;> simp [h]

/-- A key that BOB knows is loaded as it is, and a made-up payer with ten lamports. -/
theorem loadedLamports_eq (pubkey : Pubkey) :
    loadedLamports bob feePayers pubkey = match bob.accountLamports pubkey with
      | some before => before
      | none => if pubkey ∈ feePayers then defaultFeePayerLamports else 0 := by
  rw [loadedLamports, gaslessAccount, bob.accountLamports_eq]
  cases bob.getAccountSharedData pubkey with
  | some account => rfl
  | none => by_cases h : pubkey ∈ feePayers <;> simp [h]

section Supply

variable {bob feePayers} {message : MessageAccounts}

/-- One entry: what is stored and was loaded, against what the SVM left and what has escaped. -/
theorem settledAccount_lamports (entry : (Pubkey × AccountSharedData) × ℕ)
    (hreadOnly : message.isWritable entry.2 = false →
      entry.1.2.lamports = loadedLamports bob feePayers entry.1.1) :
    (if message.isWritable entry.2 then (settledAccount bob feePayers message entry).2.lamports
        else 0) + loadedLamports bob feePayers entry.1.1 ≤
      (if message.isWritable entry.2 then durableLamports bob entry.1.1 else 0) +
        (entry.1.2.lamports + if Fabricated bob feePayers message entry then
          defaultFeePayerLamports - entry.1.2.lamports else 0) := by
  by_cases hwritable : message.isWritable entry.2 = true
  · rw [if_pos hwritable, if_pos hwritable, loadedLamports_eq, durableLamports]
    cases hbefore : bob.accountLamports entry.1.1 with
    | some before =>
      have hkept : settledAccount bob feePayers message entry = entry.1 :=
        if_neg (by simp [Fabricated, Burned, New, hbefore])
      rw [hkept, Option.getD_some]
      dsimp only
      omega
    | none =>
      by_cases hpayer : entry.1.1 ∈ feePayers
      · have hfabricated : Fabricated bob feePayers message entry := ⟨hwritable, hbefore, hpayer⟩
        rw [settledAccount, if_pos (Or.inl hfabricated), if_pos hfabricated]
        simp only [hpayer, if_true, AccountSharedData.default, Option.getD_none]
        omega
      · have hle : (settledAccount bob feePayers message entry).2.lamports ≤
          entry.1.2.lamports := by
          rw [settledAccount]
          split
          · exact Nat.zero_le _
          · exact le_rfl
        simp only [hpayer, if_false, Option.getD_none]
        omega
  · have heq := hreadOnly (Bool.eq_false_iff.mpr hwritable)
    rw [if_neg hwritable, if_neg hwritable]
    omega

/-- Accepting bounds the shortfall by the allowance. -/
theorem shortfall_le_allowance
    (haccepted : (tallyAccounts bob feePayers message executed.accounts).rejects = false) :
    (tallyAccounts bob feePayers message executed.accounts).shortfall ≤
      floatAllowance bob feePayers message (.ok (.executed executed)) := by
  obtain ⟨_, _, _, hcreated⟩ :=
    foldl_tallyAccount bob feePayers message executed.accounts.zipIdx ⟨[], [], 0, 0, false⟩
  rw [Nat.zero_add] at hcreated
  rw [floatAllowance, ← hcreated, ← tallyAccounts]
  simp only [Tally.rejects, Bool.or_eq_false_iff, decide_eq_false_iff_not,
    Bool.and_eq_false_iff] at haccepted
  omega

/-- An accepted transaction adds to the supply no more than its shortfall. -/
theorem accepted_sum_le (hok : executed.wasSuccessful)
    (hsvm : SvmConserves bob feePayers message executed) :
    ((writtenAccounts message (.ok (.executed { executed with
      accounts := executed.accounts.zipIdx.map (settledAccount bob feePayers message) }))).map
        (·.2.lamports)).sum ≤
      ((writtenAccounts message (.ok (.executed executed))).map
        fun written => durableLamports bob written.1).sum +
      (tallyAccounts bob feePayers message executed.accounts).shortfall := by
  obtain ⟨_, _, hshortfall, _⟩ :=
    foldl_tallyAccount bob feePayers message executed.accounts.zipIdx ⟨[], [], 0, 0, false⟩
  rw [writtenAccounts_accepted bob feePayers message hok, tallyAccounts, hshortfall,
    writtenAccounts, if_pos hok, List.map_map, List.map_map, sum_map_filter, sum_map_filter]
  have hle := @List.sum_le_sum _ _ _ _ _ _ executed.accounts.zipIdx _ _ fun entry hentry =>
    settledAccount_lamports entry (hsvm.readOnly entry hentry)
  simp only [List.sum_map_add] at hle
  have hloaded : (executed.accounts.zipIdx.map
      fun entry => loadedLamports bob feePayers entry.1.1).sum =
        (executed.accounts.zipIdx.map fun entry => entry.1.2.lamports).sum := by
    have hsum := hsvm.sum
    rw [← List.zipIdx_map_fst 0 executed.accounts, List.map_map, List.map_map] at hsum
    simpa [Function.comp_def] using hsum.symm
  simp only [Function.comp_apply, Nat.zero_add]
  omega

/-- What the check leaves of a result adds to the supply at most the allowance. -/
theorem enforced_sum_le {result result' : TransactionProcessingResult}
    (h : Enforced bob feePayers message result result')
    (hsvm : ∀ executed, result = .ok (.executed executed) → executed.wasSuccessful →
      SvmConserves bob feePayers message executed) :
    ((writtenAccounts message result').map (·.2.lamports)).sum ≤
      ((writtenAccounts message result').map fun written => durableLamports bob written.1).sum +
        floatAllowance bob feePayers message result := by
  cases h with
  | failed hnone => simp [hnone]
  | rejected _ _ => exact Nat.zero_le _
  | @accepted executed hok haccepted =>
    have hsum := accepted_sum_le hok (hsvm executed rfl hok)
    have hallowance := shortfall_le_allowance haccepted
    have hkeys := congrArg (List.map (durableLamports bob))
      (keys_accepted bob feePayers message hok)
    rw [List.map_map, List.map_map] at hkeys
    exact hkeys ▸ hsum.trans (Nat.add_le_add_left hallowance _)

/-- The keys stored are among those the SVM's result would have stored. -/
theorem enforced_keys {result result' : TransactionProcessingResult}
    (h : Enforced bob feePayers message result result') :
    ((writtenAccounts message result').map Prod.fst).Sublist
      ((writtenAccounts message result).map Prod.fst) := by
  cases h with
  | failed _ => exact List.Sublist.refl _
  | rejected _ _ => exact List.nil_sublist _
  | accepted hok _ => rw [keys_accepted bob feePayers message hok]

end Supply

/-- What `update_accounts` and the settler are handed is conflict-free again. -/
def ConflictFreeBatch.enforce (batch : ConflictFreeBatch) : ConflictFreeBatch where
  results := enforceLamportConservation bob feePayers batch.results
  disjoint := by
    have hkeys : ∀ results : List (MessageAccounts × TransactionProcessingResult),
        (((enforceLamportConservation bob feePayers results).flatMap
          fun tx => writtenAccounts tx.1 tx.2).map Prod.fst).Sublist
            ((results.flatMap fun tx => writtenAccounts tx.1 tx.2).map Prod.fst) := by
      intro results
      induction results with
      | nil => exact List.Sublist.refl _
      | cons tx results ih =>
        rw [enforceLamportConservation, List.map_cons, ← enforceLamportConservation,
          List.flatMap_cons, List.flatMap_cons, List.map_append, List.map_append]
        exact (enforced_keys (enforceTransaction_enforced bob feePayers tx.1 tx.2)).append ih
    exact batch.disjoint.sublist (hkeys batch.results)

/-- What holds of the results of a batch when the check has run. -/
structure LamportsConserved (batch : ConflictFreeBatch) : Prop where
  /-- A made-up payer is stored as a deletion only. -/
  payers : ∀ tx ∈ (batch.enforce bob feePayers).results, ∀ written ∈ writtenAccounts tx.1 tx.2,
    bob.accountLamports written.1 = none → written.1 ∈ feePayers →
    (settlementOf written.2).deleted = true
  /-- So is a new account of the System program without data. -/
  wallets : ∀ tx ∈ (batch.enforce bob feePayers).results, ∀ written ∈ writtenAccounts tx.1 tx.2,
    bob.accountLamports written.1 = none → written.2.owner = systemProgramId →
    written.2.data = [] → (settlementOf written.2).deleted = true
  /-- Each transaction adds at most its allowance to the lamports of the keys it stores. -/
  transaction : ∀ tx ∈ batch.results,
    ((writtenAccounts tx.1 (enforceTransaction bob feePayers tx.1 tx.2)).map (·.2.lamports)).sum ≤
      ((writtenAccounts tx.1 (enforceTransaction bob feePayers tx.1 tx.2)).map
        fun written => durableLamports bob written.1).sum + floatAllowance bob feePayers tx.1 tx.2
  /-- The batch adds at most all allowances to the supply, over any keys that contain
  those it stores. -/
  supply : ∀ keys : Finset Pubkey,
    (∀ written ∈ (batch.enforce bob feePayers).results.flatMap fun tx => writtenAccounts tx.1 tx.2,
      written.1 ∈ keys) →
    ∑ k ∈ keys, applyWrites (·.lamports) (durableLamports bob)
        ((batch.enforce bob feePayers).results.flatMap fun tx => writtenAccounts tx.1 tx.2) k ≤
      ∑ k ∈ keys, durableLamports bob k +
        (batch.results.map fun tx => floatAllowance bob feePayers tx.1 tx.2).sum
  /-- Every other account is as the SVM left it. -/
  others : ∀ tx ∈ batch.results, ∀ executed, tx.2 = .ok (.executed executed) →
    ∃ executed', enforceTransaction bob feePayers tx.1 tx.2 = .ok (.executed executed') ∧
      executed'.accounts.length = executed.accounts.length ∧
      ∀ i entry, executed.accounts[i]? = some entry →
        ¬ Fabricated bob feePayers tx.1 (entry, i) → ¬ Burned bob feePayers tx.1 (entry, i) →
        executed'.accounts[i]? = some entry
  /-- A transaction that the check rejects stores nothing. -/
  rejected : ∀ tx ∈ batch.results, ∀ executed, tx.2 = .ok (.executed executed) →
    executed.wasSuccessful → (tallyAccounts bob feePayers tx.1 executed.accounts).rejects = true →
    writtenAccounts tx.1 (enforceTransaction bob feePayers tx.1 tx.2) = []

section Guarantees

variable {bob feePayers} {message : MessageAccounts}
  {result result' : TransactionProcessingResult} {written : Pubkey × AccountSharedData}

/-- What an unknown key is stored as. -/
theorem enforced_unknown (h : Enforced bob feePayers message result result')
    (hwritten : written ∈ writtenAccounts message result')
    (hunknown : bob.accountLamports written.1 = none) :
    (written.1 ∈ feePayers → written.2.lamports = 0) ∧
      (written.2.owner = systemProgramId → written.2.data = [] → written.2.lamports = 0) := by
  cases h with
  | failed hnone => rw [hnone] at hwritten; cases hwritten
  | rejected _ _ => cases hwritten
  | @accepted executed hok _ =>
    rw [writtenAccounts_accepted bob feePayers message hok] at hwritten
    obtain ⟨entry, hentry, rfl⟩ := List.mem_map.mp hwritten
    have hwritable : message.isWritable entry.2 = true := (List.mem_filter.mp hentry).2
    rw [settledAccount] at hunknown ⊢
    by_cases hwiped : Fabricated bob feePayers message entry ∨ Burned bob feePayers message entry
    · rw [if_pos hwiped]
      exact ⟨fun _ => rfl, fun _ _ => rfl⟩
    · rw [if_neg hwiped] at hunknown ⊢
      obtain ⟨hfabricated, hburned⟩ := not_or.mp hwiped
      have hpayer : entry.1.1 ∉ feePayers := fun hin => hfabricated ⟨hwritable, hunknown, hin⟩
      refine ⟨fun hin => absurd hin hpayer, fun howner hdata => ?_⟩
      by_contra hpos
      exact hburned ⟨⟨hwritable, hunknown, hpayer, Nat.pos_of_ne_zero hpos⟩, howner, hdata⟩

theorem settlementOf_deleted {account : AccountSharedData} (h : account.lamports = 0) :
    (settlementOf account).deleted = true := by
  simp [settlementOf, h]

theorem sum_flatMap_le {α β : Type*} {l : List α} {f : α → List β} {g h : β → ℕ} {c : α → ℕ}
    (hle : ∀ a ∈ l, ((f a).map g).sum ≤ ((f a).map h).sum + c a) :
    ((l.flatMap f).map g).sum ≤ ((l.flatMap f).map h).sum + (l.map c).sum := by
  induction l with
  | nil => exact le_rfl
  | cons a l ih =>
    have hhead := hle a List.mem_cons_self
    have htail := ih fun b hb => hle b (List.mem_cons_of_mem _ hb)
    simp only [List.flatMap_cons, List.map_append, List.sum_append, List.map_cons, List.sum_cons]
    omega

end Guarantees

/-- No batch creates lamports beyond its allowances. -/
theorem lamports_conserved (batch : ConflictFreeBatch)
    (hsvm : ∀ tx ∈ batch.results, ∀ executed, tx.2 = .ok (.executed executed) →
      executed.wasSuccessful → SvmConserves bob feePayers tx.1 executed) :
    LamportsConserved bob feePayers batch := by
  have hround := enforceTransaction_enforced bob feePayers
  have hresults : ∀ tx ∈ (batch.enforce bob feePayers).results,
      ∃ result, Enforced bob feePayers tx.1 result tx.2 := by
    intro tx htx
    obtain ⟨old, _, rfl⟩ := List.mem_map.mp htx
    exact ⟨old.2, hround old.1 old.2⟩
  have htransaction : ∀ tx ∈ batch.results, _ := fun tx htx =>
    enforced_sum_le (hround tx.1 tx.2) (hsvm tx htx)
  refine ⟨?_, ?_, htransaction, ?_, ?_, ?_⟩
  · intro tx htx written hwritten hunknown hpayer
    obtain ⟨result, hresult⟩ := hresults tx htx
    exact settlementOf_deleted ((enforced_unknown hresult hwritten hunknown).1 hpayer)
  · intro tx htx written hwritten hunknown howner hdata
    obtain ⟨result, hresult⟩ := hresults tx htx
    exact settlementOf_deleted ((enforced_unknown hresult hwritten hunknown).2 howner hdata)
  · intro keys hkeys
    have hsum := @sum_applyWrites _ _ _ _ (·.lamports) (durableLamports bob) keys
      (batch.enforce bob feePayers).disjoint hkeys
    have hbatch := sum_flatMap_le htransaction
    have hflat :
        (batch.enforce bob feePayers).results.flatMap (fun tx => writtenAccounts tx.1 tx.2) =
        batch.results.flatMap fun tx =>
          writtenAccounts tx.1 (enforceTransaction bob feePayers tx.1 tx.2) := List.flatMap_map ..
    rw [hflat] at hsum ⊢
    omega
  · intro tx _ executed hexecuted
    have henforced := hround tx.1 tx.2
    rw [hexecuted] at henforced ⊢
    generalize
      enforceTransaction bob feePayers tx.1 (.ok (.executed executed)) = result at henforced
    cases henforced with
    | failed _ => exact ⟨executed, rfl, rfl, fun _ _ hentry _ _ => hentry⟩
    | rejected _ _ => exact ⟨_, rfl, rfl, fun _ _ hentry _ _ => hentry⟩
    | accepted _ _ =>
      refine ⟨_, rfl, by simp, fun i entry hentry hfabricated hburned => ?_⟩
      rw [List.getElem?_map, List.getElem?_zipIdx, hentry]
      simp [settledAccount, hfabricated, hburned]
  · intro tx _ executed hexecuted hok hrejects
    have henforced := hround tx.1 tx.2
    rw [hexecuted] at henforced ⊢
    generalize
      enforceTransaction bob feePayers tx.1 (.ok (.executed executed)) = result at henforced
    cases henforced with
    | failed hnone => exact hnone
    | rejected _ _ => rfl
    | accepted _ haccepted =>
      rw [hrejects] at haccepted
      cases haccepted

/-- BOB with one account, 3, of five lamports. -/
def fundedBob : Bob :=
  (Bob.new (fun _ => none) 8 8).insertEntry 3 ⟨⟨5, [1], 9, false, 0⟩, none, false, none⟩

/-- Account 3 pays for the new account 20, and the made-up payer 8 for the wallet 21. -/
def creationBatch : ConflictFreeBatch where
  results := [(⟨[true, true, true, true, false]⟩, .ok (.executed ⟨.ok (),
    [(8, ⟨9, [], systemProgramId, false, 0⟩), (3, ⟨4, [1], 9, false, 0⟩),
      (20, ⟨1, [7], 9, false, 0⟩), (21, ⟨1, [], systemProgramId, false, 0⟩),
      (22, ⟨0, [], systemProgramId, false, 0⟩)]⟩))]
  disjoint := by decide

/-- The payer and the wallet are wiped. -/
theorem lamports_conserved_creation :
    LamportsConserved fundedBob {8} creationBatch ∧
      (creationBatch.enforce fundedBob {8}).results.flatMap
        (fun tx => writtenAccounts tx.1 tx.2) =
          [(8, .default), (3, ⟨4, [1], 9, false, 0⟩), (20, ⟨1, [7], 9, false, 0⟩),
            (21, .default)] := by
  refine ⟨lamports_conserved _ _ creationBatch fun tx htx executed hexecuted _ => ?_, by decide⟩
  obtain rfl := List.mem_singleton.mp htx
  obtain rfl := ProcessedTransaction.executed.inj (Except.ok.inj hexecuted)
  exact ⟨by decide, by decide⟩

end PrivateChannels.Core
