import PrivateChannels.Storage.Row
import PrivateChannels.Foundation.Transition

/-!
# Every interleaving of storage operations on one row

Each operation writes only a non-terminal row, keeps the landed remint signature tied to
`failed_reminted` and, where it is lease-checked, stamps a new lease. Stamps of a run are
pairwise distinct.
-/

namespace PrivateChannels.Storage

/-- One row with the tables its operations read besides it. -/
structure Store where
  row : Row
  halted : Bool
  escrowCheckpoint : Option ℕ
  observedReleases : List ObservedRelease
  deriving DecidableEq, Repr

/-- The storage operations, with the arguments their callers bind. -/
inductive Op
  | getAndLockPending (transactionType : TransactionType)
  | claimAndPersistSignature (expected : Stamp) (sig : StoredSig)
  | tryRequeueProcessing (expected : Stamp)
  | requeueHaltedClaim (expected : Stamp)
  | requeueUnclaimed (expected : Stamp)
  | tryRequeuePrebroadcast (expected : Stamp) (maxAttempts : ℕ)
  | tryRequeueParked (expected : Stamp)
  | tryParkProcessing
  | tryUnparkToProcessing
  | tryCompleteProcessing (expected : Stamp) (counterpart : Option Signature)
      (release : Option (List Signature))
  | tryFailProcessing (expected : Stamp)
  | tryQuarantineProcessing (expected : Stamp) (signatures : Option (List Signature))
      (heights : Option (List ℕ))
  | completeStalledWithdrawal (expected : Stamp) (fromStatus : TransactionStatus)
      (counterpart : Option Signature)
  | setPendingRemint (signatures : List Signature) (heights : List ℕ) (deadlineAt : ℕ)
      (refused : Bool)
  | bumpPendingRemintFinalityAttempt (attempts newDeadline : ℕ)
  | claimRemintAttempt (sig : StoredSig) (superseded : List Signature)
  | recordRemintResult (signature : Signature)
  | tryMarkReminted (expected : Stamp) (signature : Signature)
  | quarantineActiveWithdrawals (excludeId minNonce : Option ℕ)
  | updateTransactionStatus (status : TransactionStatus) (counterpart : Option Signature)
      (processedAt : ℕ) (release : Option (List Signature))
  | insertObservedRelease (release : ObservedRelease)
  | setHalted (halted : Bool)
  | commitCheckpoint (slot : ℕ)
  deriving DecidableEq, Repr

/-- The row an `UPDATE` leaves behind, and whether it matched. -/
def Store.put (s : Store) (written : Option Row) : Bool × Store :=
  match written with
  | some row => (true, { s with row := row })
  | none => (false, s)

/-- An operation's success, as its caller sees it, and the store it leaves. A
remint claim succeeds only when it returns `claimed`. -/
def Op.run (s : Store) (now : Stamp) : Op → Bool × Store
  | .getAndLockPending t => s.put (Storage.getAndLockPending t s.escrowCheckpoint now s.row)
  | .claimAndPersistSignature e sig =>
    s.put (Storage.claimAndPersistSignature s.halted e sig now s.row)
  | .tryRequeueProcessing e => s.put (Storage.tryRequeueProcessing e now s.row)
  | .requeueHaltedClaim e => s.put (Storage.requeueHaltedClaim s.halted e now s.row)
  | .requeueUnclaimed e => s.put (Storage.requeueUnclaimed e now s.row)
  | .tryRequeuePrebroadcast e m => s.put (Storage.tryRequeuePrebroadcast e m now s.row)
  | .tryRequeueParked e => s.put (Storage.tryRequeueParked e now s.row)
  | .tryParkProcessing => s.put (Storage.tryParkProcessing now s.row)
  | .tryUnparkToProcessing => s.put (Storage.tryUnparkToProcessing now s.row)
  | .tryCompleteProcessing e c r => s.put (Storage.tryCompleteProcessing e c r now s.row)
  | .tryFailProcessing e => s.put (Storage.tryFailProcessing e now s.row)
  | .tryQuarantineProcessing e sigs hs =>
    s.put (Storage.tryQuarantineProcessing e sigs hs now s.row)
  | .completeStalledWithdrawal e f c => s.put (Storage.completeStalledWithdrawal e f c now s.row)
  | .setPendingRemint sigs hs d r => s.put (Storage.setPendingRemint sigs hs d r now s.row)
  | .bumpPendingRemintFinalityAttempt a d =>
    s.put (Storage.bumpPendingRemintFinalityAttempt a d now s.row)
  | .claimRemintAttempt sig superseded =>
    match Storage.claimRemintAttempt s.observedReleases sig superseded now s.row with
    | some (claim, row) => (claim == .claimed, { s with row := row })
    | none => (false, s)
  | .recordRemintResult sig => s.put (Storage.recordRemintResult sig now s.row)
  | .tryMarkReminted e sig => s.put (Storage.tryMarkReminted e sig now s.row)
  | .quarantineActiveWithdrawals x m => s.put (Storage.quarantineActiveWithdrawals x m now s.row)
  | .updateTransactionStatus t c p r => s.put (Storage.updateTransactionStatus t c p r now s.row)
  | .insertObservedRelease r =>
    (true, { s with observedReleases := Storage.insertObservedRelease r s.observedReleases })
  | .setHalted h => (true, { s with halted := h })
  | .commitCheckpoint slot =>
    (true, { s with escrowCheckpoint := some (slot.max (s.escrowCheckpoint.getD 0)) })

/-- The lease a lease-checked operation presents. -/
def Op.lease : Op → Option Stamp
  | .claimAndPersistSignature e _ | .tryRequeueProcessing e | .requeueHaltedClaim e
  | .requeueUnclaimed e | .tryRequeuePrebroadcast e _ | .tryRequeueParked e
  | .tryCompleteProcessing e _ _ | .tryFailProcessing e | .tryQuarantineProcessing e _ _
  | .completeStalledWithdrawal e _ _ | .tryMarkReminted e _ => some e
  | _ => none

/-- The operation claims the row for a release. -/
def Op.claimsRelease : Op → Bool
  | .claimAndPersistSignature _ _ => true
  | _ => false

/-- The operation claims the row for a remint. -/
def Op.claimsRemint : Op → Bool
  | .claimRemintAttempt _ _ => true
  | _ => false

/-- The counterpart signature an operation that completes the row binds. -/
def Op.completion : Op → Option (Option Signature)
  | .tryCompleteProcessing _ counterpart _ | .completeStalledWithdrawal _ _ counterpart
  | .updateTransactionStatus .completed counterpart _ _ => some counterpart
  | _ => none

/-- The landed signature is set exactly on a `failed_reminted` row. -/
def Row.Refunded (r : Row) : Prop :=
  r.landedRemintSignature.isSome = true ↔ r.status = .failedReminted

/-- What every operation's write has in common. -/
structure Written (r r' : Row) (now : Stamp) : Prop where
  nonterminal : r.status.terminal = false
  stamped : r'.updatedAt = now
  nonce : r'.withdrawalNonce = r.withdrawalNonce
  landed : (r'.status = .failedReminted ∧ r'.landedRemintSignature.isSome = true) ∨
    (r'.status ≠ .failedReminted ∧ r'.landedRemintSignature = r.landedRemintSignature)

variable {now : Stamp}

theorem Written.refunded {r r' : Row} (h : Written r r' now) (hr : r.Refunded) : r'.Refunded := by
  rcases h.landed with ⟨hs, hl⟩ | ⟨hs, hl⟩
  · exact iff_of_true hl hs
  · refine iff_of_false ?_ hs
    intro hsome
    have hf : r.status = .failedReminted := hr.mp (hl ▸ hsome)
    have := h.nonterminal
    simp [hf, TransactionStatus.terminal] at this

/-- The guard excludes terminal statuses; the assignments keep the nonce and the refund
evidence. -/
theorem Written.of_updateWhere {guard : Row → Bool} {set : Row → Row} {r r' : Row}
    (h : updateWhere guard set now r = some r')
    (hguard : guard r = true → r.status.terminal = false)
    (hnonce : (set r).withdrawalNonce = r.withdrawalNonce)
    (hlanded : guard r = true →
      ((set r).status = .failedReminted ∧ (set r).landedRemintSignature.isSome = true) ∨
      ((set r).status ≠ .failedReminted ∧
        (set r).landedRemintSignature = r.landedRemintSignature)) : Written r r' now := by
  obtain ⟨hg, rfl⟩ := updateWhere_eq_some.mp h
  exact ⟨hguard hg, rfl, hnonce, hlanded hg⟩

/-- Two rows a run of operations may take the store between. -/
def Touched (r r' : Row) (now : Stamp) : Prop := r' = r ∨ Written r r' now

variable {s s' : Store} {op : Op}

theorem touched_put {o : Option Row} (h : ∀ r', o = some r' → Written s.row r' now) :
    Touched s.row (s.put o).2.row now := by
  cases o with
  | none => exact .inl rfl
  | some r' => exact .inr (h r' rfl)

theorem put_row_cases (store : Store) (o : Option Row) :
    (store.put o).2.row = store.row ∨ o = some (store.put o).2.row := by
  cases o with
  | none => exact .inl rfl
  | some row => exact .inr rfl

/-- A remint claim leaves the row alone, or stamps a row that awaits a remint. -/
theorem run_claimRemintAttempt (s : Store) (now : Stamp) (sig : StoredSig)
    (superseded : List Signature) :
    ((Op.claimRemintAttempt sig superseded).run s now).2.row = s.row ∨
      s.row.status = .pendingRemint ∧ ∃ journal,
        ((Op.claimRemintAttempt sig superseded).run s now).2.row =
          { s.row with updatedAt := now, remintJournal := journal } := by
  simp only [Op.run]
  cases hc : Storage.claimRemintAttempt s.observedReleases sig superseded now s.row with
  | none => exact .inl rfl
  | some p =>
    obtain ⟨claim, r'⟩ := p
    rcases claimRemintAttempt_cases hc with ⟨_, rfl⟩ | ⟨hs, _, _, ⟨_, _, rfl⟩ | ⟨_, _, rfl⟩⟩
    · exact .inl rfl
    · exact .inr ⟨hs, _, rfl⟩
    · exact .inr ⟨hs, _, rfl⟩

/-- Every operation leaves the row alone or writes a non-terminal row. -/
theorem Op.touched (op : Op) (s : Store) (now : Stamp) :
    Touched s.row (op.run s now).2.row now := by
  cases op with
  | insertObservedRelease r | setHalted h | commitCheckpoint slot => exact .inl rfl
  | claimRemintAttempt sig superseded =>
    refine (run_claimRemintAttempt s now sig superseded).imp_right ?_
    rintro ⟨hs, journal, hrow⟩
    rw [hrow]
    exact ⟨by simp [hs, TransactionStatus.terminal], rfl, rfl, .inr ⟨by simp [hs], rfl⟩⟩
  | _ =>
    refine touched_put fun r' h => Written.of_updateWhere h ?_ ?_ ?_
    all_goals grind [heldAt, TransactionStatus.terminal]

/-- A row becomes completed only by an operation that completes it. -/
theorem Op.run_completed (h : (op.run s now).2.row.status = .completed) :
    (op.run s now).2.row = s.row ∨ ∃ counterpart, op.completion = some counterpart ∧
      ∀ x, counterpart = some x → (op.run s now).2.row.counterpartSignature = some x := by
  cases op with
  | insertObservedRelease r | setHalted h | commitCheckpoint slot => exact .inl rfl
  | claimRemintAttempt sig superseded =>
    refine (run_claimRemintAttempt s now sig superseded).imp_right ?_
    rintro ⟨hs, journal, hrow⟩
    rw [hrow] at h
    cases hs.symm.trans h
  | tryCompleteProcessing _ counterpart _ | completeStalledWithdrawal _ _ counterpart =>
    refine (put_row_cases s _).imp_right fun hsome => ⟨counterpart, rfl, fun x hx => ?_⟩
    obtain ⟨_, hrow⟩ := updateWhere_eq_some.mp hsome
    simp only [Op.run]
    rw [hrow, hx]
    rfl
  | updateTransactionStatus status counterpart _ _ =>
    refine (put_row_cases s _).imp_right fun hsome => ?_
    obtain ⟨_, hrow⟩ := updateWhere_eq_some.mp hsome
    simp only [Op.run] at h ⊢
    rw [hrow] at h ⊢
    obtain rfl : status = .completed := h
    exact ⟨counterpart, rfl, fun x hx => hx⟩
  | _ =>
    refine (put_row_cases s _).imp_right fun hsome => ?_
    obtain ⟨hg, hrow⟩ := updateWhere_eq_some.mp hsome
    simp only [Op.run] at h
    grind [heldAt]

theorem put_eq_true {o : Option Row} (h : s.put o = (true, s')) : o = some s'.row := by
  cases o with
  | none => cases (Prod.mk.inj h).1
  | some r => rw [← (Prod.mk.inj h).2]

/-- A lease-checked operation that succeeds found the row at its lease and
stamped it anew. -/
theorem Op.run_lease {expected : Stamp} (hl : op.lease = some expected)
    (h : op.run s now = (true, s')) : s.row.updatedAt = expected ∧ s'.row.updatedAt = now := by
  cases op <;> simp only [Op.lease, Option.some.injEq, reduceCtorEq] at hl
  all_goals
    obtain ⟨hg, hr⟩ := updateWhere_eq_some.mp (put_eq_true h)
    refine ⟨?_, by rw [hr]⟩
    grind [heldAt]

/-- A successful remint claim found the row awaiting one, with no release on record. -/
theorem Op.run_claimsRemint (hc : op.claimsRemint = true) (h : op.run s now = (true, s')) :
    s.row.status = .pendingRemint ∧ releaseOnRecord s.observedReleases s.row = false := by
  cases op <;> simp only [Op.claimsRemint, Bool.false_eq_true] at hc
  case claimRemintAttempt sig superseded =>
    simp only [Op.run] at h
    split at h
    · next claim r hr =>
      rcases claimRemintAttempt_cases hr with ⟨hclaim, _⟩ | ⟨hs, _, hrec, _⟩
      · rcases hclaim with rfl | rfl <;> cases (Prod.mk.inj h).1
      · exact ⟨hs, hrec⟩
    · cases (Prod.mk.inj h).1

/-- A successful release claim found no landed remint. -/
theorem Op.run_claimsRelease (hc : op.claimsRelease = true) (h : op.run s now = (true, s')) :
    s.row.landedRemintSignature = none := by
  cases op <;> simp only [Op.claimsRelease, Bool.false_eq_true] at hc
  case claimAndPersistSignature expected sig =>
    obtain ⟨hg, _⟩ := updateWhere_eq_some.mp (put_eq_true h)
    simp only [Bool.and_eq_true, Option.isNone_iff_eq_none] at hg
    exact hg.2

theorem mem_insertObservedRelease {release o : ObservedRelease} {observed : List ObservedRelease}
    (h : o ∈ observed) : o ∈ insertObservedRelease release observed := by
  unfold insertObservedRelease
  split
  · exact h
  · exact List.mem_append_left _ h

/-- No operation forgets an observed release. -/
theorem Op.run_observed (op : Op) (s : Store) (now : Stamp) {o : ObservedRelease}
    (h : o ∈ s.observedReleases) : o ∈ (op.run s now).2.observedReleases := by
  cases op with
  | insertObservedRelease r => exact mem_insertObservedRelease h
  | claimRemintAttempt sig superseded =>
    simp only [Op.run]
    split <;> exact h
  | _ =>
    simp only [Op.run, Store.put]
    first | exact h | (split <;> exact h)

/-- A pending row, or one a resync found already serviced or unable to be matched. -/
def Row.Inserted (r : Row) : Prop :=
  (r.status = .failedReminted ∧ r.landedRemintSignature.isSome = true) ∨
    ((r.status = .pending ∨ r.status = .completed ∨ r.status = .manualReview) ∧
      r.landedRemintSignature = none)

theorem Row.Inserted.refunded {r : Row} (h : r.Inserted) : r.Refunded := by
  rcases h with ⟨hs, hl⟩ | ⟨hs, hl⟩
  · exact iff_of_true hl hs
  · exact iff_of_false (by simp [hl]) (by rcases hs with h | h | h <;> simp [h])

/-- The store with every stamp the row has carried. -/
structure Stamped where
  store : Store
  stamps : List Stamp
  deriving DecidableEq

/-- One operation, the time of its transaction and its success. -/
structure OpEvent where
  op : Op
  now : Stamp
  ok : Bool
  deriving DecidableEq

/-- One atomic operation at a time the row has not been stamped with. -/
def Stamped.Step (s : Stamped) (e : OpEvent) (t : Stamped) : Prop :=
  e.now ∉ s.stamps ∧ e.op.run s.store e.now = (e.ok, t.store) ∧ t.stamps = e.now :: s.stamps

instance (s : Stamped) (e : OpEvent) (t : Stamped) : Decidable (s.Step e t) :=
  inferInstanceAs (Decidable (_ ∧ _))

variable {s t u : Stamped} {e : OpEvent} {events later : List OpEvent}

/-- The operation performed at a new time. -/
theorem Stamped.Step.perform (hnew : e.now ∉ s.stamps)
    (hok : (e.op.run s.store e.now).1 = e.ok) :
    s.Step e ⟨(e.op.run s.store e.now).2, e.now :: s.stamps⟩ :=
  ⟨hnew, Prod.ext hok rfl, rfl⟩

theorem Stamped.Step.run_ok (h : s.Step e t) (hok : e.ok ≠ false) :
    e.op.run s.store e.now = (true, t.store) := by
  rw [h.2.1, Bool.eq_true_of_not_eq_false hok]

theorem Stamped.Step.touched (h : s.Step e t) : Touched s.store.row t.store.row e.now := by
  have := e.op.touched s.store e.now
  rwa [h.2.1] at this

/-- A terminal row is not written. -/
theorem Stamped.Step.row_of_terminal (h : s.Step e t) (ht : s.store.row.status.terminal = true) :
    t.store.row = s.store.row := by
  rcases h.touched with he | hw
  · exact he
  · rw [hw.nonterminal] at ht
    cases ht

theorem row_of_terminal (h : Run Stamped.Step s later t)
    (ht : s.store.row.status.terminal = true) : t.store.row = s.store.row := by
  induction h with
  | nil => rfl
  | snoc _ hs ih => rw [hs.row_of_terminal (by rw [ih]; exact ht), ih]

theorem Stamped.Step.refunded (h : s.Step e t) (hr : s.store.row.Refunded) :
    t.store.row.Refunded := by
  rcases h.touched with he | hw
  · rw [he]; exact hr
  · exact hw.refunded hr

/-- An observed release of the row's nonce stays on record. -/
theorem Stamped.Step.releaseOnRecord (h : s.Step e t)
    (hr : releaseOnRecord s.store.observedReleases s.store.row = true) :
    releaseOnRecord t.store.observedReleases t.store.row = true := by
  have hn : t.store.row.withdrawalNonce = s.store.row.withdrawalNonce := by
    rcases h.touched with he | hw
    · rw [he]
    · exact hw.nonce
  simp only [Storage.releaseOnRecord, hn, Option.any_eq_true, List.any_eq_true] at hr ⊢
  obtain ⟨n, hn, o, ho, heq⟩ := hr
  refine ⟨n, hn, o, ?_, heq⟩
  have := e.op.run_observed s.store e.now ho
  rwa [h.2.1] at this

/-- A row that was refunded, or whose release is on record, is closed to remints. -/
def Row.ClosedToRemint (s : Store) : Prop :=
  s.row.landedRemintSignature.isSome = true ∨
    Storage.releaseOnRecord s.observedReleases s.row = true

/-- No claim on a closed row succeeds. -/
theorem no_remint_claim (h : Run Stamped.Step s later t) (hr : s.store.row.Refunded)
    (hc : Row.ClosedToRemint s.store) :
    Row.ClosedToRemint t.store ∧ t.store.row.Refunded ∧
      ∀ e ∈ later, e.op.claimsRemint = true → e.ok = false := by
  induction h with
  | nil => exact ⟨hc, hr, by simp⟩
  | @snoc l t u a _ hs ih =>
    obtain ⟨hct, hrt, hno⟩ := ih
    refine ⟨?_, hs.refunded hrt, ?_⟩
    · rcases hct with hl | ho
      · have hf := hrt.mp hl
        rw [Row.ClosedToRemint, hs.row_of_terminal (by rw [hf]; rfl)]
        exact .inl hl
      · exact .inr (hs.releaseOnRecord ho)
    · refine forall_mem_snoc hno fun hclaim => ?_
      by_contra hok
      obtain ⟨hstatus, hrec⟩ := Op.run_claimsRemint hclaim (hs.run_ok hok)
      rcases hct with hl | ho
      · rw [hrt.mp hl] at hstatus
        cases hstatus
      · rw [ho] at hrec
        cases hrec

/-- No release of a refunded row. -/
theorem no_release_claim (h : Run Stamped.Step s later t) (hr : s.store.row.Refunded)
    (hl : s.store.row.landedRemintSignature.isSome = true) :
    ∀ e ∈ later, e.op.claimsRelease = true → e.ok = false := by
  have hterm : s.store.row.status.terminal = true := by rw [hr.mp hl]; rfl
  induction h with
  | nil => simp
  | @snoc l t u a hrun hs ih =>
    refine forall_mem_snoc ih fun hclaim => ?_
    by_contra hok
    have hnone := Op.run_claimsRelease hclaim (hs.run_ok hok)
    rw [row_of_terminal hrun hterm] at hnone
    simp [hnone] at hl

/-- The event is a lease-checked write that succeeded under this lease. -/
def OpEvent.spends (lease : Stamp) (e : OpEvent) : Bool := e.ok && e.op.lease == some lease

/-- The row carries a stamp of the run, a lease is spent at most once, and a spent lease is no
longer carried. -/
structure Spent (events : List OpEvent) (s : Stamped) : Prop where
  carried : s.store.row.updatedAt ∈ s.stamps
  once : ∀ lease, events.countP (OpEvent.spends lease) ≤ 1
  gone : ∀ lease, 0 < events.countP (OpEvent.spends lease) →
    lease ∈ s.stamps ∧ s.store.row.updatedAt ≠ lease

/-- A lease is spent only while the row carries it. -/
theorem Spent.step (h : Spent events s) (hs : s.Step e t) : Spent (events ++ [e]) t := by
  obtain ⟨hfresh, hrun, hstamps⟩ := hs
  have hup : t.store.row.updatedAt = s.store.row.updatedAt ∨ t.store.row.updatedAt = e.now := by
    rcases Stamped.Step.touched ⟨hfresh, hrun, hstamps⟩ with he | hw
    · exact .inl (by rw [he])
    · exact .inr hw.stamped
  have hspend : ∀ lease, e.spends lease = true →
      s.store.row.updatedAt = lease ∧ t.store.row.updatedAt = e.now := by
    intro lease hsp
    simp only [OpEvent.spends, Bool.and_eq_true, beq_iff_eq] at hsp
    rw [hsp.1] at hrun
    exact Op.run_lease hsp.2 hrun
  refine ⟨?_, ?_, ?_⟩
  · rw [hstamps]
    rcases hup with h' | h' <;> rw [h']
    · exact List.mem_cons_of_mem _ h.carried
    · exact List.mem_cons_self
  · intro lease
    rw [List.countP_append, List.countP_singleton]
    split
    · next hsp =>
      have hz : events.countP (OpEvent.spends lease) = 0 := by
        by_contra hne
        exact (h.gone lease (Nat.pos_of_ne_zero hne)).2 (hspend lease hsp).1
      omega
    · simpa using h.once lease
  · intro lease hpos
    rw [hstamps]
    have hmem : lease ∈ s.stamps := by
      by_cases hsp : e.spends lease = true
      · exact (hspend lease hsp).1 ▸ h.carried
      · refine (h.gone lease ?_).1
        simpa [List.countP_append, hsp] using hpos
    refine ⟨List.mem_cons_of_mem _ hmem, ?_⟩
    by_cases hsp : e.spends lease = true
    · rw [(hspend lease hsp).2]
      exact fun he => hfresh (he ▸ hmem)
    · rcases hup with h' | h' <;> rw [h']
      · refine (h.gone lease ?_).2
        simpa [List.countP_append, hsp] using hpos
      · exact fun he => hfresh (he ▸ hmem)

/-- In every interleaving a terminal status is never left, a `failed_reminted` row carries its
landed signature, a refunded or released row is never claimed for a remint, a refunded row never
for a release, and a lease is spent at most once. -/
theorem row_operations_safe (hrow : s.store.row.Inserted)
    (hstamp : s.store.row.updatedAt ∈ s.stamps) (h : Run Stamped.Step s events t) :
    (∀ later u, Run Stamped.Step t later u → t.store.row.status.terminal = true →
      u.store.row.status = t.store.row.status) ∧
    (t.store.row.status = .failedReminted → t.store.row.landedRemintSignature.isSome = true) ∧
    (∀ later u, Run Stamped.Step t later u →
      t.store.row.landedRemintSignature.isSome = true ∨
        releaseOnRecord t.store.observedReleases t.store.row = true →
      ∀ e ∈ later, e.op.claimsRemint = true → e.ok = false) ∧
    (∀ later u, Run Stamped.Step t later u →
      t.store.row.landedRemintSignature.isSome = true →
      ∀ e ∈ later, e.op.claimsRelease = true → e.ok = false) ∧
    (∀ lease, events.countP (OpEvent.spends lease) ≤ 1) := by
  have href : t.store.row.Refunded :=
    h.stateInvariant (P := fun s => s.store.row.Refunded) hrow.refunded
      fun _ _ _ hr hs => hs.refunded hr
  have hspent : Spent events t := by
    refine h.invariant ⟨hstamp, by simp, by simp⟩ fun _ _ _ _ hsp hs => hsp.step hs
  refine ⟨?_, href.mpr, ?_, ?_, hspent.once⟩
  · intro later u hrun hterm
    rw [row_of_terminal hrun hterm]
  · intro later u hrun hclosed
    exact (no_remint_claim hrun href hclosed).2.2
  · intro later u hrun hlanded
    exact no_release_claim hrun href hlanded

/-- A refund recorded after a refused release; the row is closed to another claim. -/
theorem row_operations_safe_refund :
    let row : Row := Row.new 7 .withdrawal 40 (some 3) 0
    let sig : StoredSig := ⟨⟨1⟩, 200, some 45⟩
    let mint : StoredSig := ⟨⟨2⟩, 300, some 90⟩
    let events : List OpEvent := [⟨.getAndLockPending .withdrawal, 1, true⟩,
      ⟨.claimAndPersistSignature 1 sig, 2, true⟩, ⟨.tryRequeueProcessing 1, 3, false⟩,
      ⟨.setPendingRemint [⟨1⟩] [200] 90 true, 4, true⟩, ⟨.claimRemintAttempt mint [], 5, true⟩,
      ⟨.recordRemintResult ⟨2⟩, 6, true⟩]
    ∃ t, Run Stamped.Step ⟨⟨row, false, none, []⟩, [0]⟩ events t ∧
      t.store.row.landedRemintSignature = some ⟨2⟩ ∧
      ∀ lease, events.countP (OpEvent.spends lease) ≤ 1 := by
  intro row sig mint events
  have hrun : Run Stamped.Step ⟨⟨row, false, none, []⟩, [0]⟩ events _ :=
    .cons (.perform (by decide) rfl) <| .cons (.perform (by decide) rfl) <|
    .cons (.perform (by decide) rfl) <| .cons (.perform (by decide) rfl) <|
    .cons (.perform (by decide) rfl) <| .single (.perform (by decide) rfl)
  have hinserted : row.Inserted := .inr ⟨.inl rfl, rfl⟩
  exact ⟨_, hrun, rfl, (row_operations_safe hinserted (by decide) hrun).2.2.2.2⟩

end PrivateChannels.Storage
