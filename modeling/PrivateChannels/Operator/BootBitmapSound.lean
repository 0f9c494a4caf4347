import PrivateChannels.Operator.BootBitmap

/-!
# What a passed boot check proves

A passed check proves that the consumed nonces have their rows, the `Completed` ones are
consumed and the numbering has reached the chain's generation, exactly for tables without
a `Completed` row at `i64::MAX`.
-/

namespace PrivateChannels.Operator

open Escrow Escrow.WithdrawalBitmap
open Storage (Signature Row TransactionStatus TransactionType Stamp)

/-- The generation the account shows; one never created is at generation 0. -/
def shownGeneration (account : Option Data) : ℕ :=
  account.elim 0 fun data => (generation data).toNat

/-- The account shows the nonce consumed. -/
def ShownConsumed (w : Window) (account : Option Data) (nonce : ℕ) : Prop :=
  ∃ data n, account = some data ∧ UInt64.toNat n = nonce ∧ marked w data n = true

/-- The read was answered with a bitmap account, or with one never created. -/
inductive BitmapRead.Shows (w : Window) (read : BitmapRead) : Option Data → Prop
  | absent {slot : ℕ} (hanchor : read.finalizedAnchor = .ok slot)
      (hread : read.account slot = .ok none ∨
        ∃ account, read.account slot = .ok (some account) ∧ account.systemOwned = true ∧
          account.data = []) : Shows w read none
  | present {slot : ℕ} {account : FetchedAccount} {bitmap : BitmapState}
      (hanchor : read.finalizedAnchor = .ok slot)
      (hread : read.account slot = .ok (some account))
      (hparse : parseWithdrawalBitmap w account.data = .ok bitmap) :
      Shows w read (some account.data)

/-- The decoded form of what an account shows. -/
inductive Decodes (w : Window) : Option Data → BitmapState → Prop
  | absent : Decodes w none emptyBitmap
  | present {data : Data} {bitmap : BitmapState}
      (hparse : parseWithdrawalBitmap w data = .ok bitmap) :
      Decodes w (some data) bitmap

section Decoding

variable {w : Window} {account : Option Data} {bitmap : BitmapState} {n : ℕ}

theorem Decodes.generation_eq (h : Decodes w account bitmap) :
    bitmap.generation = shownGeneration account := by
  cases h with
  | absent => rfl
  | present hparse => exact (parseWithdrawalBitmap_spec hparse).1

theorem Decodes.mem_of_shown (h : Decodes w account bitmap) (hn : ShownConsumed w account n) :
    n ∈ bitmap.consumed := by
  obtain ⟨data, nonce, rfl, rfl, hm⟩ := hn
  cases h with
  | present hparse =>
    rw [← (parseWithdrawalBitmap_spec hparse).2] at hm
    simp only [BitmapState.isConsumed, Bool.and_eq_true, List.contains_iff_mem] at hm
    exact hm.2

variable {data : Data}

/-- A decoded nonce lies in the window over the saturated base. -/
theorem consumed_window (h : parseWithdrawalBitmap w data = .ok bitmap) (hn : n ∈ bitmap.consumed) :
    ∃ k, k < w.noncesPerGeneration ∧
      n = saturatingMul bitmap.generation w.noncesPerGeneration + k := by
  unfold parseWithdrawalBitmap at h
  dsimp only at h
  split at h
  · cases h
  split at h
  · cases h
  cases h
  obtain ⟨i, hi, hmem⟩ := List.mem_flatMap.mp hn
  obtain ⟨k, hk, -, rfl⟩ := mem_consumedOfByte.mp hmem
  rw [List.mem_range, Window.bitmapBytes] at hi
  exact ⟨i * 8 + k, by omega, by dsimp only; omega⟩

/-- A decoded nonce from the generation's first on that fits a `u64` is marked. -/
theorem Decodes.shown_of_mem (h : Decodes w account bitmap) (hn : n ∈ bitmap.consumed)
    (hfloor : bitmap.generation * w.noncesPerGeneration ≤ n) (hlt : n < 2 ^ 64) :
    ShownConsumed w account n := by
  cases h with
  | absent => simp [emptyBitmap] at hn
  | @present data _ hparse =>
    have hnat : (UInt64.ofNat n).toNat = n := by simpa using hlt
    refine ⟨data, UInt64.ofNat n, rfl, hnat, ?_⟩
    obtain ⟨k, hk, he⟩ := consumed_window hparse hn
    have hbase : saturatingMul bitmap.generation w.noncesPerGeneration =
        bitmap.generation * w.noncesPerGeneration := min_eq_left (by omega)
    have hdiv : n / w.noncesPerGeneration = bitmap.generation := by
      rw [he, hbase, Nat.mul_comm, Nat.mul_add_div w.pos, Nat.div_eq_of_lt hk, Nat.add_zero]
    rw [← (parseWithdrawalBitmap_spec hparse).2, BitmapState.isConsumed, BitmapState.covers, hnat,
      Bool.and_eq_true, beq_iff_eq, List.contains_iff_mem]
    exact ⟨hdiv, hn⟩

end Decoding

variable {w : Window}

/-- What an answered read shows. -/
theorem fetchBitmapIfPresent_shows {pda : String} {read : BitmapRead}
    {bitmap : Option BitmapState} (h : fetchBitmapIfPresent w pda read = .ok bitmap) :
    ∃ account, read.Shows w account ∧ Decodes w account (bitmap.getD emptyBitmap) := by
  unfold fetchBitmapIfPresent finalizedAnchor at h
  cases hanchor : read.finalizedAnchor with
  | error e => simp [hanchor] at h
  | ok slot =>
    simp only [hanchor] at h
    cases hread : read.account slot with
    | error e => simp [hread] at h
    | ok fetched =>
      rw [hread] at h
      cases fetched with
      | none =>
        cases h
        exact ⟨none, .absent hanchor (.inl hread), .absent⟩
      | some account =>
        dsimp only at h
        split at h
        · next hempty =>
          cases h
          rw [Bool.and_eq_true, List.isEmpty_iff] at hempty
          exact ⟨none, .absent hanchor (.inr ⟨account, hread, hempty⟩), .absent⟩
        · split at h
          · cases h
          · next bitmap hparse =>
            cases h
            exact ⟨some account.data, .present hanchor hread hparse, .present hparse⟩

variable {bitmap : BitmapState}

theorem readBitmap_shows {reads : BootReads} (h : readBitmap w reads = .ok bitmap) :
    ∃ account, reads.bitmap.Shows w account ∧ Decodes w account bitmap := by
  unfold readBitmap at h
  split at h
  · cases h
  · next fetched hfetch =>
    cases h
    exact fetchBitmapIfPresent_shows hfetch

theorem fetchConsumedNonces_shows {pda : String} {read : BitmapRead}
    (h : fetchConsumedNonces w pda read = .ok bitmap) :
    ∃ account, read.Shows w account ∧ Decodes w account bitmap := by
  unfold fetchConsumedNonces at h
  split at h
  · cases h
  · cases h
  · next found hfetch =>
    cases h
    exact fetchBitmapIfPresent_shows hfetch

theorem mem_sortedDifference {xs ys : List ℕ} {n : ℕ} :
    n ∈ sortedDifference xs ys ↔ n ∈ xs ∧ n ∉ ys := by
  simp [sortedDifference]

theorem sortedDifference_eq_nil {xs ys : List ℕ} :
    sortedDifference xs ys = [] ↔ ∀ n ∈ xs, n ∈ ys := by
  constructor
  · intro h n hn
    by_contra hy
    have hmem := mem_sortedDifference.mpr ⟨hn, hy⟩
    rw [h] at hmem
    cases hmem
  · intro h
    refine List.eq_nil_iff_forall_not_mem.mpr fun n hn => ?_
    obtain ⟨hx, hy⟩ := mem_sortedDifference.mp hn
    exact hy (h n hx)

/-- A `Completed` withdrawal under the nonce. -/
def CompletedAt (rows : List Row) (nonce : ℕ) : Prop :=
  ∃ r ∈ rows, r.transactionType = .withdrawal ∧ r.status = .completed ∧
    r.withdrawalNonce = some nonce

theorem mem_getCompletedWithdrawalNonces {minNonce maxNonce n : ℕ} {rows : List Row} :
    n ∈ getCompletedWithdrawalNonces minNonce maxNonce rows ↔
      CompletedAt rows n ∧ minNonce ≤ n ∧ n < maxNonce := by
  simp only [getCompletedWithdrawalNonces, CompletedAt, List.mem_filterMap, List.mem_filter,
    Bool.and_eq_true, beq_iff_eq, Option.filter_eq_some_iff, decide_eq_true_eq]
  constructor
  · rintro ⟨r, ⟨hr, htype, hstatus⟩, hnonce, hbounds⟩
    exact ⟨⟨r, hr, htype, hstatus, hnonce⟩, hbounds⟩
  · rintro ⟨⟨r, hr, htype, hstatus, hnonce⟩, hbounds⟩
    exact ⟨r, ⟨hr, htype, hstatus⟩, hnonce, hbounds⟩

variable {nonce : ℕ}

theorem getWithdrawalByNonce_eq_some {rows : List Row} {row : Row}
    (h : getWithdrawalByNonce nonce rows = some row) :
    row ∈ rows ∧ row.transactionType = .withdrawal ∧ row.withdrawalNonce = some nonce := by
  have hmem := List.mem_filter.mp (List.argmax_mem h)
  simpa [Row.numbered] using hmem

theorem answered_eq_ok {α : Type*} {failure : Option String} {value result : α} :
    answered failure value = .ok result ↔ failure = none ∧ value = result := by
  cases failure <;> simp [answered]

section Rows

variable {solana : Ledger.Chain Signature} {reads : BootReads} {rows rows' : List Row} {r r' : Row}

/-- An open withdrawal that was never refunded is completed by a landed signature
of its journal. -/
def CompletedFrom (solana : Ledger.Chain Signature) (r r' : Row) : Prop :=
  r.transactionType = .withdrawal ∧ (r.status = .processing ∨ r.status = .pendingRemint) ∧
    r.landedRemintSignature = none ∧
    ∃ sig ∈ r.releaseJournal, solana.Landed sig.signature ∧ ∃ now : Stamp,
      r' = { r with
        status := .completed
        counterpartSignature := some sig.signature
        processedAt := some now
        updatedAt := now }

/-- A row across the check. -/
def Kept (solana : Ledger.Chain Signature) (r r' : Row) : Prop :=
  r' = r ∨ CompletedFrom solana r r'

theorem Kept.id_eq (h : Kept solana r r') : r'.id = r.id := by
  rcases h with rfl | ⟨-, -, -, sig, -, -, now, rfl⟩
  · rfl
  · rfl

theorem Kept.journal_eq (h : Kept solana r r') : r'.releaseJournal = r.releaseJournal := by
  rcases h with rfl | ⟨-, -, -, sig, -, -, now, rfl⟩
  · rfl
  · rfl

/-- A completed row is not completed again. -/
theorem Kept.trans {r'' : Row} (h : Kept solana r r') (h' : Kept solana r' r'') :
    Kept solana r r'' := by
  rcases h with rfl | hc
  · exact h'
  · rcases h' with rfl | ⟨-, hopen, -⟩
    · exact .inr hc
    · obtain ⟨-, -, -, sig, -, -, now, rfl⟩ := hc
      simp at hopen

theorem kept_refl (rows : List Row) : List.Forall₂ (Kept solana) rows rows :=
  List.forall₂_same.mpr fun _ _ => .inl rfl

theorem kept_trans {rows'' : List Row} (h : List.Forall₂ (Kept solana) rows rows')
    (h' : List.Forall₂ (Kept solana) rows' rows'') : List.Forall₂ (Kept solana) rows rows'' := by
  induction h generalizing rows'' with
  | nil => exact h'
  | cons hr _ ih =>
    cases h' with
    | cons hr' hrest => exact .cons (hr.trans hr') (ih hrest)

theorem kept_ids (h : List.Forall₂ (Kept solana) rows rows') :
    rows'.map Row.id = rows.map Row.id := by
  induction h with
  | nil => rfl
  | cons hr _ ih => rw [List.map_cons, List.map_cons, hr.id_eq, ih]

theorem exists_kept (h : List.Forall₂ (Kept solana) rows rows') (hr' : r' ∈ rows') :
    ∃ r ∈ rows, Kept solana r r' := by
  induction h with
  | nil => cases hr'
  | cons hr _ ih =>
    rcases List.mem_cons.mp hr' with rfl | htail
    · exact ⟨_, List.mem_cons_self, hr⟩
    · obtain ⟨r, hmem, hk⟩ := ih htail
      exact ⟨r, List.mem_cons_of_mem _ hmem, hk⟩

/-- An update by id touches the one row that has it. -/
theorem updateById_kept {update : Row → Option Row} (hids : (rows.map Row.id).Nodup) (hr : r ∈ rows)
    (h : ∀ r', update r = some r' → CompletedFrom solana r r') :
    List.Forall₂ (Kept solana) rows (updateById r.id update rows).1 := by
  rw [updateById, List.forall₂_map_right_iff, List.forall₂_same]
  intro x hx
  by_cases hid : x.id = r.id
  · obtain rfl := List.inj_on_of_nodup_map hids hx hr hid
    rw [if_pos rfl]
    cases hu : update x with
    | none => exact .inl rfl
    | some x' => exact .inr (h x' hu)
  · rw [if_neg hid]
    exact .inl rfl

/-- The completion does what `CompletedFrom` says, for a landed signature. -/
theorem complete_kept {answer : WriteAnswer} {sig : Storage.StoredSig} {now : Stamp}
    (hids : (rows.map Row.id).Nodup) (hr : r ∈ rows) (htype : r.transactionType = .withdrawal)
    (hopen : r.status = .processing ∨ r.status = .pendingRemint)
    (hremint : r.landedRemintSignature = none) (hsig : sig ∈ r.releaseJournal)
    (hlanded : solana.Landed sig.signature) :
    List.Forall₂ (Kept solana) rows (complete answer r sig.signature now rows).1 := by
  have hcompletes : ∀ r', completion r sig.signature now r = some r' →
      CompletedFrom solana r r' := by
    intro r' h
    refine ⟨htype, hopen, hremint, sig, hsig, hlanded, now, ?_⟩
    unfold completion at h
    split at h
    · exact (Storage.updateWhere_eq_some.mp h).2
    · exact (Storage.updateWhere_eq_some.mp h).2
  have hupdate := updateById_kept hids hr hcompletes
  cases answer with
  | acknowledged | lost reason => exact hupdate
  | _ => exact kept_refl rows

/-- Every classification of a row's journal is answered from Solana. -/
def BootReads.Honest (reads : BootReads) (solana : Ledger.Chain Signature) (rows : List Row) :
    Prop :=
  ∀ r ∈ rows,
    HonestSolana solana ⟨reads.primary r.id, reads.fallback r.id, .solana⟩ r.releaseJournal

theorem BootReads.Honest.kept (h : reads.Honest solana rows)
    (hk : List.Forall₂ (Kept solana) rows rows') : reads.Honest solana rows' := by
  intro r' hr'
  obtain ⟨r, hr, hkept⟩ := exists_kept hk hr'
  rw [hkept.id_eq, hkept.journal_eq]
  exact h r hr

/-- The row is not recorded reminted, and a signature of its journal landed. -/
def ProvedReleased (reads : BootReads) (solana : Ledger.Chain Signature) (rows : List Row)
    (nonce : ℕ) : Prop :=
  reads.rowFailure nonce = none ∧
    ∃ r ∈ rows, r.transactionType = .withdrawal ∧ r.withdrawalNonce = some nonce ∧
      r.status ≠ .failedReminted ∧ r.landedRemintSignature = none ∧
      reads.journalFailure r.id = none ∧ ∃ sig ∈ r.releaseJournal, solana.Landed sig.signature

/-- What is proved of the rows as they are is proved of them as they were. -/
theorem ProvedReleased.before (hk : List.Forall₂ (Kept solana) rows rows')
    (h : ProvedReleased reads solana rows' nonce) : ProvedReleased reads solana rows nonce := by
  obtain ⟨hread, r', hr', htype, hnonce, hstatus, hremint, hjournal, hlanded⟩ := h
  obtain ⟨r, hr, hkept⟩ := exists_kept hk hr'
  refine ⟨hread, r, hr, ?_⟩
  rcases hkept with rfl | ⟨htype', hopen, hremint', sig, hsig, hland, now, rfl⟩
  · exact ⟨htype, hnonce, hstatus, hremint, hjournal, hlanded⟩
  · refine ⟨htype', hnonce, ?_, hremint', hjournal, sig, hsig, hland⟩
    intro hbad
    rcases hopen with ho | ho
    · rw [ho] at hbad; cases hbad
    · rw [ho] at hbad; cases hbad

/-- A release that did land. -/
theorem landedRelease_eq_some {signature : Signature}
    (hhonest : HonestSolana solana ⟨reads.primary r.id, reads.fallback r.id, .solana⟩
      r.releaseJournal)
    (h : landedRelease reads r = some signature) :
    reads.journalFailure r.id = none ∧
      ∃ sig ∈ r.releaseJournal, sig.signature = signature ∧ solana.Landed sig.signature := by
  unfold landedRelease at h
  cases hj : reads.journalFailure r.id with
  | some e => simp [hj] at h
  | none =>
    rw [hj] at h
    dsimp only at h
    split at h
    · cases h
    · split at h
      · next found hclass =>
        cases h
        obtain ⟨⟨sig, hsig, he⟩, hland⟩ :=
          classifySignatures_landed hhonest.primary hhonest.fallback hclass
        exact ⟨rfl, sig, hsig, he, he ▸ hland⟩
      all_goals cases h

/-- Rows changed only by completions, and unreported visited nonces are proved released. -/
structure Resolution.Sound (reads : BootReads) (solana : Ledger.Chain Signature) (rows : List Row)
    (visited : List ℕ) (acc : Resolution) : Prop where
  kept : List.Forall₂ (Kept solana) rows acc.rows
  proved : acc.paidTwice = [] → acc.unexplained = [] →
    ∀ n ∈ visited, ProvedReleased reads solana rows n

/-- The two differences between the completed nonces and a bitmap. -/
theorem diffBitmap_eq_ok {failure : Option String}
    {differences : List ℕ × List ℕ} (h : diffBitmap w failure bitmap rows = .ok differences) :
    failure = none ∧
      (differences.1 = [] → ∀ n, CompletedAt rows n →
        bitmap.generation * w.noncesPerGeneration ≤ n → n < i64Max → n ∈ bitmap.consumed) ∧
      ∀ n ∈ bitmap.consumed, CompletedAt rows n ∨ n ∈ differences.2 := by
  unfold diffBitmap at h
  dsimp only at h
  split at h
  · cases h
  · next completed hread =>
    obtain ⟨hfail, rfl⟩ := answered_eq_ok.mp hread
    cases h
    refine ⟨hfail, fun hnil n hc hfloor hlt => ?_, fun n hn => ?_⟩
    · refine sortedDifference_eq_nil.mp hnil n (mem_getCompletedWithdrawalNonces.mpr ⟨hc, ?_, hlt⟩)
      exact (min_le_left _ _).trans ((min_le_left _ _).trans hfloor)
    · by_cases hc : n ∈ getCompletedWithdrawalNonces
          (min (saturatingMul bitmap.generation w.noncesPerGeneration) i64Max) i64Max rows
      · exact .inl (mem_getCompletedWithdrawalNonces.mp hc).1
      · exact .inr (mem_sortedDifference.mpr ⟨hn, hc⟩)

/-- The numbering has reached the generation. -/
def NumberingReached (w : Window) (rows : List Row) (generation : ℕ) : Prop :=
  generation = 0 ∨ ∃ r ∈ rows, r.transactionType = .withdrawal ∧
    ∃ n, r.withdrawalNonce = some n ∧ generation ≤ n / w.noncesPerGeneration

/-- The numbering has caught up. -/
theorem refuseIfNumberingBehind_eq_ok {generation : ℕ}
    (h : refuseIfNumberingBehind w reads generation rows = .ok ()) :
    reads.maxNonceFailure = none ∧ NumberingReached w rows generation := by
  unfold refuseIfNumberingBehind at h
  split at h
  · cases h
  · next maxNonce hread =>
    obtain ⟨hfail, hmax⟩ := answered_eq_ok.mp hread
    refine ⟨hfail, ?_⟩
    dsimp only at h
    split at h
    · cases h
    · next hreached =>
      cases maxNonce with
      | none =>
        left
        simpa using hreached
      | some n =>
        have hmem := List.max?_mem hmax
        simp only [List.mem_filterMap, List.mem_filter, beq_iff_eq] at hmem
        obtain ⟨r, ⟨hr, htype⟩, hnonce⟩ := hmem
        exact .inr ⟨r, hr, htype, n, hnonce, by simpa using hreached⟩

/-- Each read was answered, and `decided` is the account the differences were taken from. -/
structure Accepted (w : Window) (reads : BootReads) (solana : Ledger.Chain Signature)
    (rows : List Row) (first decided : Option Data) : Prop where
  configured : reads.configured = true
  read : reads.bitmap.Shows w first
  maxNonce : reads.maxNonceFailure = none
  numbering : NumberingReached w rows (shownGeneration first)
  completedRead : reads.completedFailure = none
  deciding : decided = first ∨
    reads.bitmapAgain.Shows w decided ∧ reads.completedAgainFailure = none
  released : ∀ n, ShownConsumed w decided n →
    CompletedAt rows n ∨ ProvedReleased reads solana rows n
  completed : ∀ n, CompletedAt rows n → shownGeneration decided * w.noncesPerGeneration ≤ n →
    ShownConsumed w decided n

/-- The rows change only by a completion, and a passed check proves what it is for. -/
def BootSafe (w : Window) (rows : List Row) : Prop :=
  ∀ (reads : BootReads) (solana : Ledger.Chain Signature), reads.Honest solana rows →
    List.Forall₂ (Kept solana) rows (validateBitmapConsistency w reads rows).2 ∧
      ((validateBitmapConsistency w reads rows).1 = .ok () →
        ∃ first decided, Accepted w reads solana rows first decided)

/-- The differences that are judged come from one account, the first or a second. -/
theorem confirmedDifferences_deciding {first : Option Data}
    {differences : List ℕ × List ℕ} (hfirst : Decodes w first bitmap)
    (hdiff : diffBitmap w reads.completedFailure bitmap rows = .ok differences) :
    ∃ decided bitmap' failure, Decodes w decided bitmap' ∧
      diffBitmap w failure bitmap' rows = .ok (confirmedDifferences w reads differences rows) ∧
      (decided = first ∨
        reads.bitmapAgain.Shows w decided ∧ reads.completedAgainFailure = none) := by
  unfold confirmedDifferences
  split
  · exact ⟨first, bitmap, _, hfirst, hdiff, .inl rfl⟩
  · split
    · next again hconfirm =>
      unfold confirmDivergence at hconfirm
      split at hconfirm
      · cases hconfirm
      · next bitmap' hfetch =>
        obtain ⟨decided, hshows, hdecodes⟩ := fetchConsumedNonces_shows hfetch
        exact ⟨decided, bitmap', _, hdecodes, hconfirm,
          .inr ⟨hshows, (diffBitmap_eq_ok hconfirm).1⟩⟩
    · exact ⟨first, bitmap, _, hfirst, hdiff, .inl rfl⟩

section

variable (hids : (rows.map Row.id).Nodup) (hhonest : reads.Honest solana rows)
include hids hhonest

/-- One nonce: rows change only by a completion, and it counts as resolved only
with a proof. -/
theorem resolveChainAheadNonce_spec {outcome : ChainAheadOutcome}
    (h : resolveChainAheadNonce reads nonce rows = (rows', outcome)) :
    List.Forall₂ (Kept solana) rows rows' ∧
      (outcome = .repaired ∨ outcome = .explained → ProvedReleased reads solana rows nonce) := by
  unfold resolveChainAheadNonce at h
  split at h
  · cases h
    exact ⟨kept_refl _, by simp⟩
  · cases h
    exact ⟨kept_refl _, by simp⟩
  · next row hread =>
    obtain ⟨hfail, hrow⟩ := answered_eq_ok.mp hread
    obtain ⟨hmem, htype, hnonce⟩ := getWithdrawalByNonce_eq_some hrow
    split at h
    · cases h
      exact ⟨kept_refl _, by simp⟩
    · next hremint =>
      rw [not_or, Option.not_isSome_iff_eq_none] at hremint
      split at h
      · cases h
        exact ⟨kept_refl _, by simp⟩
      · next signature hland =>
        obtain ⟨hjournal, sig, hsig, rfl, hlanded⟩ :=
          landedRelease_eq_some (hhonest row hmem) hland
        have hproved : ProvedReleased reads solana rows nonce :=
          ⟨hfail, row, hmem, htype, hnonce, hremint.1, hremint.2, hjournal, sig, hsig, hlanded⟩
        split at h
        · next hopen =>
          obtain ⟨rfl, -⟩ := Prod.mk.inj h
          exact ⟨complete_kept hids hmem htype hopen hremint.2 hsig hlanded, fun _ => hproved⟩
        · cases h
          exact ⟨kept_refl _, fun _ => hproved⟩

/-- One nonce only the chain has. -/
theorem Resolution.Sound.visit {visited : List ℕ} {acc : Resolution}
    (h : acc.Sound reads solana rows visited) :
    (acc.visit reads nonce).Sound reads solana rows (visited ++ [nonce]) := by
  have hids' : (acc.rows.map Row.id).Nodup := by
    rw [kept_ids h.kept]
    exact hids
  have hstep : ∀ {rows' outcome}, resolveChainAheadNonce reads nonce acc.rows = (rows', outcome) →
      List.Forall₂ (Kept solana) rows rows' ∧
        (outcome = .repaired ∨ outcome = .explained → ProvedReleased reads solana rows nonce) := by
    intro rows' outcome hres
    obtain ⟨hk, hp⟩ := resolveChainAheadNonce_spec hids' (hhonest.kept h.kept) hres
    exact ⟨kept_trans h.kept hk, fun ho => (hp ho).before h.kept⟩
  have hresolved : ∀ {rows'}, ProvedReleased reads solana rows nonce →
      List.Forall₂ (Kept solana) rows rows' →
      Resolution.Sound reads solana rows (visited ++ [nonce]) { acc with rows := rows' } := by
    intro rows' hp hk
    refine ⟨hk, fun hpaid hun n hn => ?_⟩
    rcases List.mem_append.mp hn with hold | hnew
    · exact h.proved hpaid hun n hold
    · rw [List.mem_singleton.mp hnew]
      exact hp
  unfold Resolution.visit
  split
  · next rows' hres =>
    obtain ⟨hk, hp⟩ := hstep hres
    exact hresolved (hp (.inl rfl)) hk
  · next rows' hres =>
    obtain ⟨hk, hp⟩ := hstep hres
    exact hresolved (hp (.inr rfl)) hk
  · next rows' hres => exact ⟨(hstep hres).1, fun _ hun => by simp at hun⟩
  · next rows' hres => exact ⟨(hstep hres).1, fun hpaid _ => by simp at hpaid⟩

theorem Resolution.Sound.foldl {visited nonces : List ℕ} {acc : Resolution}
    (h : acc.Sound reads solana rows visited) :
    (nonces.foldl (Resolution.visit reads) acc).Sound reads solana rows (visited ++ nonces) := by
  induction nonces generalizing visited acc with
  | nil => simpa using h
  | cons nonce rest ih =>
    have hstep : (acc.visit reads nonce).Sound reads solana rows (visited ++ [nonce]) :=
      h.visit hids hhonest
    have hrest := ih hstep
    rwa [List.append_assoc, List.singleton_append] at hrest

theorem Resolution.sound_visited (chainOnly : List ℕ) :
    (chainOnly.foldl (Resolution.visit reads) ⟨rows, [], []⟩).Sound reads solana rows
      ([] ++ chainOnly) :=
  .foldl hids hhonest ⟨kept_refl rows, nofun⟩

theorem judgeDifferences_kept {dbOnly chainOnly : List ℕ} :
    List.Forall₂ (Kept solana) rows (judgeDifferences reads dbOnly chainOnly rows).2 := by
  have hsound := Resolution.sound_visited hids hhonest chainOnly
  unfold judgeDifferences
  dsimp only
  split_ifs
  · exact kept_refl rows
  · exact kept_refl rows
  · exact hsound.kept
  · exact hsound.kept
  · exact hsound.kept

/-- What passed differences prove. -/
theorem judgeDifferences_eq_ok {dbOnly chainOnly : List ℕ}
    (h : (judgeDifferences reads dbOnly chainOnly rows).1 = .ok ()) :
    dbOnly = [] ∧ ∀ n ∈ chainOnly, ProvedReleased reads solana rows n := by
  have hsound := Resolution.sound_visited hids hhonest chainOnly
  unfold judgeDifferences at h
  dsimp only at h
  split_ifs at h with hdb hchain hpaid hun
  · simp only [Bool.not_eq_true', Bool.not_eq_false, List.isEmpty_iff] at hdb hchain
    subst hchain
    exact ⟨hdb, nofun⟩
  · simp only [Bool.not_eq_true', Bool.not_eq_false, List.isEmpty_iff] at hdb hpaid hun
    exact ⟨hdb, fun n hn => hsound.proved hpaid hun n (List.mem_append_right _ hn)⟩

theorem validateBitmapConsistency_kept :
    List.Forall₂ (Kept solana) rows (validateBitmapConsistency w reads rows).2 := by
  unfold validateBitmapConsistency
  split
  · exact kept_refl rows
  split
  · exact kept_refl rows
  split
  · exact kept_refl rows
  split
  · exact kept_refl rows
  · exact judgeDifferences_kept hids hhonest

end

/-- Without a `Completed` row at the last nonce a passed check is sound. -/
theorem accepted_of_ok (table : TransactionTable)
    (hhonest : reads.Honest solana table.rows) (hlast : ¬ CompletedAt table.rows i64Max)
    (h : (validateBitmapConsistency w reads table.rows).1 = .ok ()) :
    ∃ first decided, Accepted w reads solana table.rows first decided := by
  unfold validateBitmapConsistency at h
  split at h
  · cases h
  next hconf =>
  split at h
  · cases h
  next bitmap hread =>
  split at h
  · cases h
  next hnum =>
  split at h
  · cases h
  next differences hdiff =>
  obtain ⟨first, hshows, hdecodes⟩ := readBitmap_shows hread
  obtain ⟨hmax, hreached⟩ := refuseIfNumberingBehind_eq_ok hnum
  obtain ⟨decided, bitmap', failure, hdecodes', hdiff', hdeciding⟩ :=
    confirmedDifferences_deciding hdecodes hdiff
  obtain ⟨-, hcompleted, hconsumed⟩ := diffBitmap_eq_ok hdiff'
  obtain ⟨hdb, hproved⟩ := judgeDifferences_eq_ok table.ids hhonest h
  refine ⟨first, decided, by simpa using hconf, hshows, hmax, ?_, (diffBitmap_eq_ok hdiff).1,
    hdeciding, fun n hn => ?_, fun n hc hfloor => ?_⟩
  · rw [← hdecodes.generation_eq]
    exact hreached
  · exact (hconsumed n (hdecodes'.mem_of_shown hn)).imp_right (hproved n)
  · obtain ⟨r, hr, htype, hstatus, hnonce⟩ := hc
    have hle := table.nonces r hr n hnonce
    have hne : n ≠ i64Max := by
      rintro rfl
      exact hlast ⟨r, hr, htype, hstatus, hnonce⟩
    have hlt : n < 2 ^ 64 := lt_of_le_of_lt hle (by norm_num [i64Max])
    rw [← hdecodes'.generation_eq] at hfloor
    exact hdecodes'.shown_of_mem
      (hcompleted hdb n ⟨r, hr, htype, hstatus, hnonce⟩ hfloor (by omega)) hfloor hlt

end Rows

/-- An account of the generation whose marks are those of the listed nonces. -/
structure Marks (w : Window) (data : Data) (g : ℕ) (nonces : List UInt64) : Prop where
  length_le : len w ≤ data.length
  tag : data.getD 0 0 = discriminator
  generation_eq : (generation data).toNat = g
  bits : ∀ i < w.bitmapBytes, ∀ k < 8, hasBit (data.getD (bitsOffset + i) 0) k = true ↔
    ∃ n ∈ nonces, UInt64.toNat n % w.noncesPerGeneration = i * 8 + k

/-- An account without marks. -/
theorem marks_nil (w : Window) {g : ℕ} (hg : g < 2 ^ 64) : ∃ data, Marks w data g [] := by
  let blank : Data := (List.replicate (len w) 0).set 0 discriminator
  have hlen : blank.length = len w := by simp [blank]
  have hpos : 0 < len w := by simp [len, bitsOffset]
  have hclear : len w ≤ (clearBits w blank).length := by rw [length_clearBits hlen.ge, hlen]
  have hoffset : bitsOffset ≤ (clearBits w blank).length := by
    simp only [len] at hclear
    omega
  refine ⟨setGeneration (clearBits w blank) g, ?_, ?_, generation_setGeneration hoffset hg, ?_⟩
  · rw [length_setGeneration hoffset]
    exact hclear
  · rw [List.getD_eq_getElem?_getD, getElem?_setGeneration hoffset (.inl (by decide)),
      getElem?_clearBits hlen.ge (by decide)]
    simp [blank, hpos]
  · intro i hi k hk
    rw [List.getD_eq_getElem?_getD, getElem?_setGeneration hoffset (.inr (by omega)), clearBits,
      getElem?_overwrite (by simp [hlen, len]), if_pos (by simpa using hi)]
    simp [hi]

/-- One more mark. -/
theorem Marks.cons {g : ℕ} {nonces : List UInt64}
    (h : Marks w data g nonces) (n : UInt64) : Marks w (setBit w data n) g (n :: nonces) := by
  refine ⟨by simpa [setBit] using h.length_le, ?_, ?_, fun i hi k hk => ?_⟩
  · rw [List.getD_eq_getElem?_getD, getElem?_setBit (by decide), ← List.getD_eq_getElem?_getD]
    exact h.tag
  · rw [generation_congr fun i _ hi => getElem?_setBit hi]
    exact h.generation_eq
  · rw [hasBit_setBit h.length_le n i hk, Bool.or_eq_true, decide_eq_true_iff, h.bits i hi k hk,
      or_comm]
    simp

theorem exists_marks (w : Window) {g : ℕ} (hg : g < 2 ^ 64) (nonces : List UInt64) :
    ∃ data, Marks w data g nonces := by
  induction nonces with
  | nil => exact marks_nil w hg
  | cons n rest ih =>
    obtain ⟨data, hdata⟩ := ih
    exact ⟨setBit w data n, hdata.cons n⟩

/-- Such an account decodes, to the listed nonces where they are of its generation. -/
theorem Marks.decode {g : ℕ} {nonces : List UInt64}
    (h : Marks w data g nonces) (hgen : ∀ n ∈ nonces, n.toNat / w.noncesPerGeneration = g) :
    ∃ bitmap, parseWithdrawalBitmap w data = .ok bitmap ∧ bitmap.generation = g ∧
      ∀ n, n ∈ bitmap.consumed ↔ ∃ m ∈ nonces, m.toNat = n := by
  refine ⟨_, by
    simp only [parseWithdrawalBitmap, if_neg h.length_le.not_gt, h.tag, ne_eq, not_true,
      if_false]; rfl, h.generation_eq, fun n => ?_⟩
  have hdvd := Nat.div_mul_cancel w.dvd
  have hbase : ∀ m ∈ nonces, saturatingMul g w.noncesPerGeneration +
      m.toNat % w.noncesPerGeneration = m.toNat := by
    intro m hm
    have hsplit := Nat.div_add_mod m.toNat w.noncesPerGeneration
    have hlt := m.toNat_lt
    rw [hgen m hm, Nat.mul_comm] at hsplit
    rw [saturatingMul, min_eq_left (by omega)]
    exact hsplit
  simp only [List.mem_flatMap, List.mem_range, mem_consumedOfByte, h.generation_eq]
  constructor
  · rintro ⟨i, hi, k, hk, hb, rfl⟩
    obtain ⟨m, hm, hpos⟩ := (h.bits i hi k hk).mp hb
    refine ⟨m, hm, ?_⟩
    rw [← hbase m hm, hpos]
    omega
  · rintro ⟨m, hm, rfl⟩
    have hlt := Nat.mod_lt m.toNat w.pos
    have hi : m.toNat % w.noncesPerGeneration / 8 < w.bitmapBytes := by
      rw [Window.bitmapBytes]
      omega
    refine ⟨_, hi, m.toNat % w.noncesPerGeneration % 8, Nat.mod_lt _ (by norm_num),
      (h.bits _ hi _ (Nat.mod_lt _ (by norm_num))).mpr ⟨m, hm, by omega⟩, ?_⟩
    have := hbase m hm
    omega

/-- Reads that are all answered, with one account for both bitmap reads. -/
def plainReads (data : Data) : BootReads where
  configured := true
  bitmapPda := "bitmap"
  bitmap := ⟨.ok 0, fun _ => .ok (some ⟨false, data⟩)⟩
  bitmapAgain := ⟨.ok 0, fun _ => .ok (some ⟨false, data⟩)⟩
  maxNonceFailure := none
  completedFailure := none
  completedAgainFailure := none
  rowFailure := fun _ => none
  journalFailure := fun _ => none
  primary := fun _ => ⟨.error "", .error "", .error "", .error ""⟩
  fallback := fun _ => none
  write := fun _ => .stale
  now := fun _ => 0

theorem plainReads_honest (data : Data) (solana : Ledger.Chain Signature) (rows : List Row) :
    (plainReads data).Honest solana rows :=
  fun _ _ => ⟨rfl, nofun, nofun⟩

theorem shows_plain {account : Option Data}
    (h : BitmapRead.Shows w ⟨.ok 0, fun _ => .ok (some ⟨false, data⟩)⟩ account) :
    account = some data := by
  cases h with
  | absent _ hread =>
    rcases hread with hread | ⟨fetched, hread, howned, -⟩
    · cases hread
    · cases Except.ok.inj hread
      cases howned
  | present _ hread _ =>
    cases Except.ok.inj hread
    rfl

/-- An account with the marks of exactly the other `Completed` rows passes the check. -/
theorem validate_passes_without_last (w : Window) (table : TransactionTable)
    (hlast : CompletedAt table.rows i64Max) :
    ∃ data bitmap, parseWithdrawalBitmap w data = .ok bitmap ∧
      bitmap.generation = i64Max / w.noncesPerGeneration ∧ i64Max ∉ bitmap.consumed ∧
      validateBitmapConsistency w (plainReads data) table.rows = (.ok (), table.rows) := by
  let g := i64Max / w.noncesPerGeneration
  let floor := g * w.noncesPerGeneration
  let completed := getCompletedWithdrawalNonces floor i64Max table.rows
  have hg : g < 2 ^ 64 := lt_of_le_of_lt (Nat.div_le_self _ _) (by norm_num [i64Max])
  have hfloor : floor ≤ i64Max := Nat.div_mul_le_self _ _
  have hmin : min (saturatingMul g w.noncesPerGeneration) i64Max = floor := by
    rw [saturatingMul, min_eq_left (hfloor.trans (by norm_num [i64Max])), min_eq_left hfloor]
  have hof : ∀ n ∈ completed, (UInt64.ofNat n).toNat = n := by
    intro n hn
    have hlt := (mem_getCompletedWithdrawalNonces.mp hn).2.2
    rw [i64Max] at hlt
    rw [UInt64.toNat_ofNat']
    omega
  have hgen : ∀ m ∈ completed.map UInt64.ofNat, m.toNat / w.noncesPerGeneration = g := by
    intro m hm
    obtain ⟨n, hn, rfl⟩ := List.mem_map.mp hm
    obtain ⟨-, hle, hlt⟩ := mem_getCompletedWithdrawalNonces.mp hn
    rw [hof n hn]
    exact le_antisymm (Nat.div_le_div_right hlt.le) ((Nat.le_div_iff_mul_le w.pos).mpr hle)
  obtain ⟨data, hdata⟩ := exists_marks w hg (completed.map UInt64.ofNat)
  obtain ⟨bitmap, hparse, hgeneration, hmem⟩ := hdata.decode hgen
  have hconsumed : ∀ n, n ∈ bitmap.consumed ↔ n ∈ completed := by
    intro n
    rw [hmem]
    constructor
    · rintro ⟨m, hm, rfl⟩
      obtain ⟨n, hn, rfl⟩ := List.mem_map.mp hm
      rwa [hof n hn]
    · exact fun hn => ⟨_, List.mem_map_of_mem hn, hof n hn⟩
  refine ⟨data, bitmap, hparse, hgeneration, ?_, ?_⟩
  · rw [hconsumed, mem_getCompletedWithdrawalNonces]
    exact fun h => absurd h.2.2 (lt_irrefl _)
  have hread : readBitmap w (plainReads data) = .ok bitmap := by
    simp [readBitmap, fetchBitmapIfPresent, finalizedAnchor, plainReads, hparse]
  have hnumbering : refuseIfNumberingBehind w (plainReads data) bitmap.generation table.rows =
      .ok () := by
    have hmax : getMaxWithdrawalNonce table.rows = some i64Max := by
      obtain ⟨r, hr, htype, -, hnonce⟩ := hlast
      rw [getMaxWithdrawalNonce, List.max?_eq_some_iff]
      refine ⟨?_, fun n hn => ?_⟩
      · exact List.mem_filterMap.mpr ⟨r, List.mem_filter.mpr ⟨hr, by simp [htype]⟩, hnonce⟩
      · obtain ⟨r', hr', hn'⟩ := List.mem_filterMap.mp hn
        exact table.nonces r' (List.mem_filter.mp hr').1 n hn'
    simp [refuseIfNumberingBehind, plainReads, answered, hmax, hgeneration, g]
  have hdiff : diffBitmap w none bitmap table.rows = .ok ([], []) := by
    simp only [diffBitmap, answered, hgeneration]
    rw [hmin, sortedDifference_eq_nil.mpr fun n hn => (hconsumed n).mpr hn,
      sortedDifference_eq_nil.mpr fun n hn => (hconsumed n).mp hn]
  have hdiff' : diffBitmap w (plainReads data).completedFailure bitmap table.rows = .ok ([], []) :=
    hdiff
  simp only [validateBitmapConsistency, hread, hnumbering, hdiff']
  rfl

/-- The check keeps its promises for a table exactly when no `Completed` withdrawal carries the
last nonce of the column. -/
theorem boot_safe_iff (w : Window) (table : TransactionTable) :
    BootSafe w table.rows ↔ ¬ CompletedAt table.rows i64Max := by
  constructor
  · intro hsafe hlast
    obtain ⟨data, bitmap, hparse, hgeneration, hclear, hok⟩ :=
      validate_passes_without_last w table hlast
    obtain ⟨first, decided, haccepted⟩ :=
      (hsafe (plainReads data) .empty (plainReads_honest data .empty table.rows)).2 (by rw [hok])
    have hdecided : decided = some data := by
      rcases haccepted.deciding with rfl | ⟨hagain, -⟩
      · exact shows_plain haccepted.read
      · exact shows_plain hagain
    have hdecodes : Decodes w decided bitmap := by
      rw [hdecided]
      exact .present hparse
    refine hclear (hdecodes.mem_of_shown (haccepted.completed i64Max hlast ?_))
    rw [← hdecodes.generation_eq, hgeneration]
    exact Nat.div_mul_le_self _ _
  · intro hlast reads solana hhonest
    exact ⟨validateBitmapConsistency_kept table.ids hhonest,
      fun hok => accepted_of_ok table hhonest hlast hok⟩

/-- A table with one `Completed` withdrawal, at the last nonce. -/
def lastNonceTable : TransactionTable where
  rows := [{ Row.new 1 .withdrawal 10 (some i64Max) 0 with status := .completed }]
  ids := by simp
  nonces := by
    intro r hr n hn
    obtain rfl := List.mem_singleton.mp hr
    cases hn
    exact le_rfl

/-- The check passes, though the `Completed` row claims a release the chain never made. -/
theorem last_nonce_unchecked :
    CompletedAt lastNonceTable.rows i64Max ∧
      ∃ data, shownGeneration (some data) * Window.mainnet.noncesPerGeneration ≤ i64Max ∧
        ¬ ShownConsumed .mainnet (some data) i64Max ∧
        validateBitmapConsistency .mainnet (plainReads data) lastNonceTable.rows =
          (.ok (), lastNonceTable.rows) := by
  have hlast : CompletedAt lastNonceTable.rows i64Max :=
    ⟨_, List.mem_singleton_self _, rfl, rfl, rfl⟩
  obtain ⟨data, bitmap, hparse, hgeneration, hclear, hok⟩ :=
    validate_passes_without_last .mainnet lastNonceTable hlast
  have hdecodes : Decodes .mainnet (some data) bitmap := .present hparse
  refine ⟨hlast, data, ?_, fun hshown => hclear (hdecodes.mem_of_shown hshown), hok⟩
  rw [← hdecodes.generation_eq, hgeneration]
  exact Nat.div_mul_le_self _ _

end PrivateChannels.Operator
