import PrivateChannels.Operator.WithdrawReady

/-!
# A withdrawal is released or refunded, never both

The sender's moves lead to points it may stand at, every write leaves a closed row closed,
and only the sender's claim adds a release, on a row it finds in `processing`.
-/

namespace PrivateChannels.Operator

open Storage

variable {w : WithdrawWorld} {s t : WithdrawSystem} {mem : SenderMemory}
  {next : SenderMemory × SenderTask}

variable {task : SenderTask}

/-- A move leads from a point the sender may stand at to another. -/
theorem SenderMove.ready
    (h : WithdrawCore w s) (hr : Ready w s (s.memory, task)) (hmove : SenderMove w s task next) :
    Ready w s next := by
  obtain ⟨hqueue, htask⟩ := hr
  cases hmove with
  | window cached read => exact onWindow_ready hqueue _ _ _ cached read
  | sign answer hsigned => exact onReleaseSigned_ready hqueue hsigned
  | fence sig isOpen => exact onReleaseFence_ready hqueue htask isOpen
  | claimRefused sig isOpen answer hnone =>
    refine onReleaseClaim_ready hqueue fun lease hok => ?_
    cases hnone _ hok
  | haltRead answer => exact onReleaseHaltRead_ready hqueue answer
  | confirm sig failedInEscrow polls hseen =>
    refine onReleaseConfirmation_ready hqueue fun e slot hfailed => ?_
    obtain ⟨k, status, hpoll, hsat, herr⟩ := pollStatus_failed hfailed
    exact (herr ▸ hseen k status hpoll hsat).doomed
  | usedJournal answer _ => exact onUsedJournal_ready hqueue answer
  | usedClassify pending finality => exact onUsedFinality_ready hqueue _
  | generation x read => exact onGeneration_ready hqueue _ _ htask read
  | deferJournal failure answer hread =>
    exact onDeferJournal_ready hqueue failure fun pending hp hu => hread pending hp ▸ h.covered hu
  | handoffFailed failure pending tries e => exact onHandoff_ready hqueue nofun htask
  | handoffStatus failure pending answer hread => exact onHandoffStatus_ready hqueue hread htask
  | handoffAgainFailed failure pending e => exact onHandoffAgain_ready hqueue nofun htask
  | drain read => exact onDrain_ready hqueue _ _ read
  | beginHydrate hlisted => exact ⟨hqueue, WithdrawSystem.closed_of_pendingRemint hlisted⟩
  | hydrate attempts refused answer hread =>
    exact onHydrate_ready hqueue htask fun pending hp hu => hread pending hp ▸ h.covered hu
  | mature hqueued =>
    exact ⟨fun e he => hqueue e (List.mem_of_mem_erase he), hqueue _ hqueued⟩
  | gateClassify entry hhonest =>
    exact onGateTask_ready hqueue _ (onReleaseFinality_sound htask h.admitted hhonest)
  | gateBitmap entry reads confirmed => exact onGateTask_ready hqueue _ (onBitmap_sound htask _)
  | gateCheckpoint entry pending checkpoint =>
    exact onGateTask_ready hqueue _ (onCheckpoint_sound htask pending checkpoint)
  | gateObserved entry coverage answer =>
    exact onGateTask_ready hqueue _ (onObserved_sound htask coverage answer)
  | gateBumpFailed entry reason e => exact onGateTask_ready hqueue _ (onBumped_sound htask _)
  | remint entry hmove => exact onRemintTask_ready hqueue htask.1 hmove.granted
  | _ => exact ⟨hqueue, trivial⟩

variable {op : Op}

/-- So does a write, whatever is answered. -/
theorem SenderWrite.ready
    (hr : Ready w s (mem, task)) (hwrite : SenderWrite w mem task op next) : Ready w s next := by
  obtain ⟨hqueue, htask⟩ := hr
  cases hwrite with
  | park answer => exact onParked_ready hqueue answer
  | requeue _ reason answer => exact onRequeued_ready hqueue reason answer
  | parkRefused x forget answer => exact onParkedRefused_ready hqueue htask forget answer
  | unpark answer => exact onUnparked_ready hqueue _ answer
  | bump entry reason deadline => exact onGateTask_ready hqueue _ (onBumped_sound htask _)
  | record entry x attempt answer =>
    exact onRemintTask_ready hqueue htask.1 (onRecorded_granted x attempt answer)
  | _ => exact ⟨hqueue, trivial⟩

/-- The sender's writes besides the claims and the handoff are shared ones. -/
theorem SenderWrite.shared
    (htask : task.Sound w s) (hwrite : SenderWrite w mem task op next) : sharedOp op = true := by
  cases hwrite with
  | write op => exact htask
  | _ => rfl

/-- A step that claims nothing keeps the core, as far as it accounts for what it
sends and lands. -/
theorem WithdrawCore.carry (h : WithdrawCore w s) (hc : s.Carries t)
    (hadmitted : w.validSolana t.solana)
    (hreleases : Ledger.Accounted w.release t.solana t.releaseClaims t.releaseSent)
    (hremints : Ledger.Accounted w.remint t.channel t.remintClaims t.remintSent)
    (hjournal : t.Unfinished → t.store.row.releaseJournal = s.store.row.releaseJournal)
    (hclaims : t.remintClaims = s.remintClaims) (hsweeps : t.sweeps = s.sweeps) :
    WithdrawCore w t where
  admitted := hadmitted
  releases := hreleases
  remints := hremints
  covered := fun hu => by
    rw [hjournal hu]
    exact hc.covers (h.covered (hc.unfinished hu))
  refunding := fun hne => by
    obtain ⟨hclosed, hdoomed⟩ := h.refunding (hclaims ▸ hne)
    exact ⟨hc.closed hclosed, hc.releasesDoomed hdoomed⟩
  sweeps := hsweeps ▸ h.sweeps

theorem WithdrawCore.moveTo (h : WithdrawCore w s)
    (hr : Ready w s next) : WithdrawInv w (s.moveTo next) := by
  have hcarry : s.Carries (s.moveTo next) := .of_same rfl rfl rfl rfl
  exact ⟨h.carry hcarry h.admitted h.releases h.remints (fun _ => rfl) rfl rfl, hcarry.ready hr⟩

/-- A sweep moves on. -/
theorem WithdrawInv.sweep (h : WithdrawInv w s) (i : ℕ) {task : SweepTask}
    (htask : ∀ op, task = .write op → sharedOp op = true) : WithdrawInv w (s.sweep i task) := by
  have hcarry : s.Carries (s.sweep i task) := .of_same rfl rfl rfl rfl
  refine ⟨⟨h.admitted, h.releases, h.remints, fun hu => hcarry.covers (h.covered hu),
    fun hne => ⟨(h.refunding hne).1, hcarry.releasesDoomed (h.refunding hne).2⟩, fun j op hj => ?_⟩,
    hcarry.ready h.ready⟩
  rcases of_update_eq_some hj with ⟨-, heq⟩ | hj
  · exact htask op (Option.some.inj heq)
  · exact h.sweeps j op hj

/-- A shared write keeps the journal and returns no closed row. -/
theorem sharedOp_row (hop : sharedOp op = true) (store : Store) (now : Stamp) :
    (op.run store now).2.row = store.row ∨
      ((op.run store now).2.row.releaseJournal = store.row.releaseJournal ∧
        (store.row.status.active = false → (op.run store now).2.row.status.active = false)) := by
  cases op <;> simp only [sharedOp, Bool.false_eq_true, Bool.or_eq_true, beq_iff_eq] at hop
  case insertObservedRelease => exact .inl rfl
  case setHalted => exact .inl rfl
  case commitCheckpoint => exact .inl rfl
  all_goals
    refine (put_row_cases store _).imp_right fun hsome => ?_
    obtain ⟨hg, hrow⟩ := updateWhere_eq_some.mp hsome
    simp only [Op.run, hrow]
    grind [heldAt, TransactionStatus.active]

/-- Everyone else's writes. -/
theorem sharedOp_carries (hop : sharedOp op = true) (now : Stamp) :
    s.Carries { s with store := (op.run s.store now).2 } where
  closed := fun hclosed => by
    rcases sharedOp_row hop s.store now with hrow | ⟨_, hactive⟩
    · simpa only [WithdrawSystem.Closed, hrow] using hclosed
    · exact hactive hclosed
  unfinished := fun hu => by
    rcases op.touched s.store now with hrow | hwritten
    · simpa only [WithdrawSystem.Unfinished, hrow] using hu
    · exact hwritten.nonterminal
  releaseClaims := rfl
  solana := .refl _
  remintClaims := fun _ hx => hx

theorem WithdrawCore.commit (h : WithdrawCore w s) (hop : sharedOp op = true)
    (now : Stamp) : WithdrawCore w { s with store := (op.run s.store now).2 } := by
  refine h.carry (sharedOp_carries hop now) h.admitted h.releases h.remints (fun _ => ?_) rfl rfl
  rcases sharedOp_row hop s.store now with hrow | ⟨hjournal, _⟩
  · exact congrArg Row.releaseJournal hrow
  · exact hjournal

/-- What recovery writes is shared. -/
theorem onWithdrawalAction_shared {lease : Stamp} {attempts : ℕ} {action : WithdrawalAction}
    (h : onWithdrawalAction lease attempts action = .write op) : sharedOp op = true := by
  cases action with
  | complete x => cases h; rfl
  | demote =>
    simp only [onWithdrawalAction] at h
    split at h <;> cases h
    rfl
  | _ => cases h

variable {row : Row}

/-- A sweep's write is a shared one. -/
theorem SweepMove.shared {task task' : SweepTask} (h : SweepMove w row task task')
    (hop : task' = .write op) : sharedOp op = true := by
  cases h with
  | journal _ =>
    split at hop
    · exact onWithdrawalAction_shared hop
    · cases hop
    · cases hop
  | classify finality =>
    split at hop
    · exact onWithdrawalAction_shared hop
    · cases hop
  | verify reads => exact onWithdrawalAction_shared hop
  | quarantine _ =>
    unfold onStoredSignatures at hop
    split at hop <;> cases hop <;> rfl
  | writeFailed op => cases hop

variable {now : Stamp}

/-- What a committed handoff found and wrote. -/
theorem handoff_row {signatures : List Signature} {heights : List ℕ} {deadline : ℕ} {refused : Bool}
    {r r' : Row}
    (h : setPendingRemint signatures heights deadline refused now r = some r') :
    r.status.terminal = false ∧ r'.status = .pendingRemint ∧
      r'.releaseJournal = r.releaseJournal := by
  obtain ⟨hg, rfl⟩ := updateWhere_eq_some.mp h
  refine ⟨?_, rfl, rfl⟩
  grind [TransactionStatus.terminal]

theorem gcStaleReleaseSignatures_row (r : Row) :
    (gcStaleReleaseSignatures r).status = r.status ∧
      (r.status.terminal = false →
        (gcStaleReleaseSignatures r).releaseJournal = r.releaseJournal) := by
  unfold gcStaleReleaseSignatures
  split
  · next hterm => exact ⟨rfl, fun hopen => nomatch hterm.symm.trans hopen⟩
  · exact ⟨rfl, fun _ => rfl⟩

theorem gcStaleRemintSignatures_row (r : Row) :
    (gcStaleRemintSignatures r).status = r.status ∧
      (gcStaleRemintSignatures r).releaseJournal = r.releaseJournal := by
  unfold gcStaleRemintSignatures
  split <;> exact ⟨rfl, rfl⟩

section

variable (h : WithdrawInv w s)
include h

theorem WithdrawInv.commit (hop : sharedOp op = true) (now : Stamp) :
    WithdrawInv w { s with store := (op.run s.store now).2 } :=
  ⟨h.toWithdrawCore.commit hop now, (sharedOp_carries hop now).ready h.ready⟩

/-- What the sender's point promises. -/
theorem WithdrawInv.task_at {task : SenderTask} (hat : s.sender = task) : task.Sound w s :=
  hat ▸ h.ready.task

/-- A committed claim found the row in `processing`, so no refund is under way,
queued or claimed. -/
theorem WithdrawInv.releaseClaim (hstep : WithdrawStep w s (.releaseClaim now) t) :
    WithdrawInv w t := by
  cases hstep with
  | @releaseClaim _ _ sig row _ _ hat _ hcommit _ =>
  obtain ⟨hstatus, -, hrow⟩ := claim_row hcommit
  have hopen : ¬ s.Closed := by
    rw [WithdrawSystem.Closed, hstatus]
    rintro ⟨⟩
  have hsigned : w.SignedRelease sig := h.task_at hat
  have hcovered := h.covered (by rw [WithdrawSystem.Unfinished, hstatus]; rfl)
  have hcore : WithdrawCore w
      { s.withRow row with releaseClaims := sig.signature :: s.releaseClaims } := by
    subst hrow
    refine ⟨h.admitted, h.releases.issue _, h.remints, fun _ => ⟨?_, ?_⟩,
      fun hne => absurd (h.refunding hne).1 hopen, h.sweeps⟩
    · intro p hp
      rcases mem_journalRelease hp with hp | rfl
      · exact hcovered.signed p hp
      · exact hsigned
    · intro x hx
      rcases List.mem_cons.mp hx with rfl | hx
      · exact .inl (journalRelease_inserted sig _)
      · refine (hcovered.claims x hx).imp_left ?_
        rintro ⟨p, hp, hpx⟩
        exact ⟨p, journalRelease_subset hp, hpx⟩
  refine hcore.moveTo (onReleaseClaim_ready ?_ fun _ _ => List.mem_cons_self)
  exact fun entry he => absurd (h.ready.queue entry he).closed hopen

/-- A claimed release goes out. -/
theorem WithdrawInv.releaseSend (hstep : WithdrawStep w s .releaseSend t) : WithdrawInv w t := by
  cases hstep with
  | @releaseSend sig answer hat =>
  have hclaimed : sig.signature ∈ s.releaseClaims := h.task_at hat
  have hcarry : s.Carries { s with releaseSent := sig.signature :: s.releaseSent } :=
    .of_same rfl rfl rfl rfl
  have hcore := h.carry hcarry h.admitted (h.releases.send hclaimed) h.remints
    (fun _ => rfl) rfl rfl
  exact hcore.moveTo (onReleaseSent_ready (hcarry.ready h.ready).queue sig answer)

/-- A refused signature may leave the journal: it can no longer land. -/
theorem WithdrawInv.forget (hstep : WithdrawStep w s .forget t) : WithdrawInv w t := by
  cases hstep with
  | @forget x hat =>
  have hdoomed : s.solana.Doomed w.validSolana x := h.task_at hat
  have hcarry : s.Carries (s.withRow (deleteReleaseSignature x s.store.row)) :=
    .of_same rfl rfl rfl rfl
  have hcore : WithdrawCore w (s.withRow (deleteReleaseSignature x s.store.row)) := by
    refine ⟨h.admitted, h.releases, h.remints, fun hu => ⟨?_, ?_⟩,
      fun hne => ⟨(h.refunding hne).1, hcarry.releasesDoomed (h.refunding hne).2⟩, h.sweeps⟩
    · exact fun p hp => (h.covered hu).signed p (List.mem_of_mem_filter hp)
    · intro y hy
      rcases (h.covered hu).claims y hy with ⟨p, hp, rfl⟩ | hy
      · by_cases hpx : p.signature = x
        · exact .inr (hpx ▸ hdoomed)
        · exact .inl ⟨p, List.mem_filter.mpr ⟨hp, by simpa using hpx⟩, rfl⟩
      · exact .inr hy
  exact hcore.moveTo ⟨(hcarry.ready h.ready).queue, trivial⟩

/-- The handoff closes the row to releases. -/
theorem WithdrawInv.handoff {signatures : List Signature} {heights : List ℕ} {deadline : ℕ}
    {refused : Bool}
    (hcommit : setPendingRemint signatures heights deadline refused now s.store.row =
      some row) :
    WithdrawCore w (s.withRow row) ∧ s.Carries (s.withRow row) ∧ (s.withRow row).Closed := by
  obtain ⟨hopen, hstatus, hjournal⟩ := handoff_row hcommit
  have hclosed : (s.withRow row).Closed := WithdrawSystem.closed_of_pendingRemint hstatus
  have hcarry : s.Carries (s.withRow row) :=
    ⟨fun _ => hclosed, fun _ => hopen, rfl, .refl _, fun _ hx => hx⟩
  exact ⟨h.carry hcarry h.admitted h.releases h.remints (fun _ => hjournal) rfl rfl, hcarry,
    hclosed⟩

/-- A refund is granted on a row awaiting it, past the first gate. -/
theorem WithdrawInv.remintClaim (hstep : WithdrawStep w s (.remintClaim now) t) :
    WithdrawInv w t := by
  cases hstep with
  | @remintClaim entry _ sig _ claim row _ hat hcommit hack =>
  have hentry : entry.Cleared w s := (h.task_at hat).1
  have hrow : row.status = s.store.row.status ∧
      row.releaseJournal = s.store.row.releaseJournal ∧
      (claim = .claimed → s.store.row.status = .pendingRemint) := by
    rcases claimRemintAttempt_cases hcommit with
      ⟨hclaim, rfl⟩ | ⟨hstatus, -, -, ⟨-, -, rfl⟩ | ⟨-, -, rfl⟩⟩
    · exact ⟨rfl, rfl, by rcases hclaim with rfl | rfl <;> nofun⟩
    · exact ⟨rfl, rfl, fun _ => hstatus⟩
    · exact ⟨rfl, rfl, fun _ => hstatus⟩
  obtain ⟨hstatus, hjournal, hpending⟩ := hrow
  have hcarry : s.Carries (s.withRow row) := .of_same hstatus rfl rfl rfl
  have hcore := h.carry hcarry h.admitted h.releases h.remints (fun _ => hjournal) rfl rfl
  by_cases hclaim : claim = .claimed
  · have hunfinished : s.Unfinished := by
      rw [WithdrawSystem.Unfinished, hpending hclaim]
      rfl
    have hnote : (s.withRow row).noteRemintClaim sig claim =
        { s.withRow row with remintClaims := sig.signature :: s.remintClaims } := if_pos hclaim
    have hcarry' : s.Carries
        { s.withRow row with remintClaims := sig.signature :: s.remintClaims } :=
      ⟨hcarry.closed, hcarry.unfinished, rfl, .refl _, fun _ hx => List.mem_cons_of_mem _ hx⟩
    have hcore' : WithdrawCore w
        { s.withRow row with remintClaims := sig.signature :: s.remintClaims } := by
      refine ⟨h.admitted, h.releases, h.remints.issue _, fun hu => ?_,
        fun _ => ⟨hcarry'.closed hentry.closed, hcarry'.releasesDoomed (hentry.doomed hunfinished)⟩,
        h.sweeps⟩
      change WithdrawSystem.Covers w _ row.releaseJournal
      rw [hjournal]
      exact hcarry'.covers (h.covered hunfinished)
    rw [hnote]
    exact hcore'.moveTo (onRemintTask_ready (hcarry'.ready h.ready).queue
      (hcarry'.cleared hentry) (onClaim_granted fun _ => List.mem_cons_self))
  · have hnote : (s.withRow row).noteRemintClaim sig claim = s.withRow row := if_neg hclaim
    rw [hnote]
    refine hcore.moveTo (onRemintTask_ready (hcarry.ready h.ready).queue (hcarry.cleared hentry)
      (onClaim_granted fun hok => ?_))
    exact absurd (hack _ hok).symm hclaim

/-- The refund is sent. -/
theorem WithdrawInv.remintSend (hstep : WithdrawStep w s .remintSend t) : WithdrawInv w t := by
  cases hstep with
  | @remintSend _ sig answer hat =>
  have htask := h.task_at hat
  have hcarry : s.Carries { s with remintSent := sig.signature :: s.remintSent } :=
    .of_same rfl rfl rfl rfl
  have hcore := h.carry hcarry h.admitted h.releases (h.remints.send htask.2) (fun _ => rfl) rfl rfl
  exact hcore.moveTo (onRemintTask_ready (hcarry.ready h.ready).queue (hcarry.cleared htask.1)
    (onSent_granted _ sig answer))

/-- The journal is cleared. -/
theorem WithdrawInv.remintClear {entry : PendingRemint} {x : Signature}
    (hat : s.sender = .remint entry (.clear x)) :
    WithdrawInv w ((s.withRow (deleteRemintSignatures s.store.row)).moveTo
      (onRemintTask s.memory entry (onCleared w.info x))) := by
  have htask := h.task_at hat
  have hcarry : s.Carries (s.withRow (deleteRemintSignatures s.store.row)) :=
    .of_same rfl rfl rfl rfl
  have hcore := h.carry hcarry h.admitted h.releases h.remints (fun _ => rfl) rfl rfl
  exact hcore.moveTo (onRemintTask_ready (hcarry.ready h.ready).queue (hcarry.cleared htask.1)
    (onCleared_granted _ x))

/-- Garbage collection empties the journal of a finished row only. -/
theorem WithdrawInv.gc : WithdrawInv w (s.withRow
    (gcStaleRemintSignatures (gcStaleReleaseSignatures s.store.row))) := by
  obtain ⟨hstatus, hjournal⟩ := gcStaleReleaseSignatures_row s.store.row
  obtain ⟨hstatus', hjournal'⟩ :=
    gcStaleRemintSignatures_row (gcStaleReleaseSignatures s.store.row)
  have hcarry : s.Carries (s.withRow
      (gcStaleRemintSignatures (gcStaleReleaseSignatures s.store.row))) :=
    .of_same (hstatus'.trans hstatus) rfl rfl rfl
  exact ⟨h.carry hcarry h.admitted h.releases h.remints
    (fun hu => hjournal'.trans (hjournal (hcarry.unfinished hu))) rfl rfl, hcarry.ready h.ready⟩

theorem WithdrawInv.solana (hstep : WithdrawStep w s .solana t) : WithdrawInv w t := by
  cases hstep with
  | @solana c hext hvalid hlands =>
  have hcarry : s.Carries { s with solana := c } := ⟨id, id, rfl, hext, fun _ hx => hx⟩
  exact ⟨h.carry hcarry hvalid (h.releases.advance hlands) h.remints (fun _ => rfl) rfl rfl,
    hcarry.ready h.ready⟩

theorem WithdrawInv.channel (hstep : WithdrawStep w s .channel t) : WithdrawInv w t := by
  cases hstep with
  | @channel c _ _ hlands =>
  have hcarry : s.Carries { s with channel := c } := .of_same rfl rfl rfl rfl
  exact ⟨h.carry hcarry h.admitted h.releases (h.remints.advance hlands) (fun _ => rfl) rfl rfl,
    hcarry.ready h.ready⟩

/-- A crash loses the sender's point and memory, and the sweeps. -/
theorem WithdrawInv.crash :
    WithdrawInv w { s with memory := .empty, sender := .idle, sweeps := fun _ => none } := by
  have hcarry : s.Carries { s with memory := .empty, sender := .idle, sweeps := fun _ => none } :=
    .of_same rfl rfl rfl rfl
  refine ⟨⟨h.admitted, h.releases, h.remints, fun hu => hcarry.covers (h.covered hu),
    fun hne => ⟨(h.refunding hne).1, hcarry.releasesDoomed (h.refunding hne).2⟩, nofun⟩,
    ?_, trivial⟩
  simp [SenderMemory.empty]

/-- Every step keeps the invariant. -/
theorem WithdrawInv.step {e : WithdrawEvent} (hstep : WithdrawStep w s e t) : WithdrawInv w t := by
  cases e with
  | crash => cases hstep; exact h.crash
  | sender =>
    cases hstep with
    | move hmove => exact h.toWithdrawCore.moveTo (hmove.ready h.toWithdrawCore h.ready)
    | @write _ now _ hwrite =>
      have hafter := h.commit (hwrite.shared h.ready.task) now
      exact hafter.toWithdrawCore.moveTo (hwrite.ready hafter.ready)
    | writeLost hwrite => exact h.toWithdrawCore.moveTo (hwrite.ready h.ready)
    | remintClear hat => exact h.remintClear hat
  | releaseClaim now => exact h.releaseClaim hstep
  | releaseSend => exact h.releaseSend hstep
  | handoff now =>
    cases hstep with
    | handoff deadline answer hat hcommit =>
      obtain ⟨hcore, hcarry, hclosed⟩ := h.handoff hcommit
      exact hcore.moveTo (onHandoff_ready (hcarry.ready h.ready).queue (fun _ => hclosed)
        fun hu => hcarry.covers (h.task_at hat (hcarry.unfinished hu)))
    | handoffAgain deadline answer hat hcommit =>
      obtain ⟨hcore, hcarry, hclosed⟩ := h.handoff hcommit
      exact hcore.moveTo (onHandoffAgain_ready (hcarry.ready h.ready).queue (fun _ => hclosed)
        fun hu => hcarry.covers (h.task_at hat (hcarry.unfinished hu)))
  | forget => exact h.forget hstep
  | remintClaim now => exact h.remintClaim hstep
  | remintSend => exact h.remintSend hstep
  | sweep i =>
    cases hstep with
    | sweep _ _ => exact h.sweep _ nofun
    | sweepMove hat hmove => exact h.sweep _ fun _ hop => hmove.shared hop
    | sweepWrite hat => exact (h.commit (h.sweeps _ _ hat) _).sweep _ nofun
  | other op now =>
    cases hstep with
    | other hop => exact h.commit hop _
  | gc => cases hstep; exact h.gc
  | solana => exact h.solana hstep
  | channel => exact h.channel hstep

end

/-- In no run does a withdrawal have both a release of its nonce landed on Solana
and a refund landed on the channel. -/
theorem withdrawal_released_or_refunded {events : List WithdrawEvent} (hfresh : s.Fresh w)
    (h : Run (WithdrawStep w) s events t) :
    ¬ ((∃ x, w.release x ∧ t.solana.Landed x) ∧ ∃ y, w.remint y ∧ t.channel.Landed y) := by
  have hinv : WithdrawInv w t :=
    h.stateInvariant hfresh.inv fun _ _ _ hinv hstep => hinv.step hstep
  exact hinv.releases.exclusive hinv.remints hinv.admitted fun hne => (hinv.refunding hne).2

def onlyRelease : StoredSig := ⟨⟨1⟩, 150, some 5⟩

def onlyRemint : StoredSig := ⟨⟨2⟩, 400, some 200⟩

/-- A withdrawal of nonce 4 whose release and refund are each signed once. -/
def withdrawWorld : WithdrawWorld where
  window := .testTree
  nonce := 4
  info := ⟨7, ⟨1⟩, ⟨2⟩, 500, "None"⟩
  retryMaxAttempts := 3
  validSolana c := Admissible .solana onlyRelease c
  validChannel _ := True
  release x := x = onlyRelease.signature
  remint x := x = onlyRemint.signature

def withdrawStart : WithdrawSystem where
  store := ⟨Row.new 7 .withdrawal 40 (some 4) 0, false, none, []⟩
  solana := Ledger.Chain.empty
  channel := Ledger.Chain.empty
  memory := .empty
  sender := .idle
  sweeps _ := none
  releaseClaims := []
  releaseSent := []
  remintClaims := []
  remintSent := []

theorem withdrawStart_fresh : withdrawStart.Fresh withdrawWorld where
  solana := nofun
  unreleased := by
    simp [withdrawStart, Ledger.Chain.empty, Ledger.Chain.Landed, Ledger.Chain.Executed]
  unreminted := by
    simp [withdrawStart, Ledger.Chain.empty, Ledger.Chain.Landed, Ledger.Chain.Executed]
  journal := rfl
  memory := rfl
  sender := rfl
  sweeps _ := rfl
  noReleaseClaims := rfl
  noReleaseSent := rfl
  noRemintClaims := rfl
  noRemintSent := rfl

/-- The release failed, and the tip has passed its last valid height. -/
def releaseFailed : Ledger.Chain Signature :=
  ⟨[⟨60, 50, [(⟨1⟩, false)]⟩, ⟨210, 200, []⟩], by simp, by simp, by simp, by simp⟩

def onlyRemintLanded : Ledger.Chain Signature :=
  ⟨[⟨230, 220, [(⟨2⟩, true)]⟩], by simp, by simp, by simp, by simp⟩

/-- The endpoint reports the finalized failure. -/
def failureFinality : FinalityRpc :=
  ⟨⟨.error "unused", .ok 200, .ok [some ⟨true, true⟩], .ok 1⟩, none, .solana⟩

/-- The endpoint that saw it fail. -/
theorem failureFinality_honest : HonestSolana releaseFailed failureFinality [onlyRelease] where
  chain := rfl
  primary := by
    intro statuses hs
    obtain rfl : [some ⟨true, true⟩] = statuses := Except.ok.inj hs
    refine ⟨releaseFailed, releaseFailed, 1, ⟨.refl _, .refl _, ?_, ?_⟩, ?_⟩
    · rintro h hh
      obtain rfl : 200 = h := Except.ok.inj hh
      simp [Ledger.Chain.tip, releaseFailed]
    · intro p hp
      obtain rfl : p = (onlyRelease, some ⟨true, true⟩) := by simpa using hp
      exact ⟨by simp, by simp [Ledger.Chain.Executed, releaseFailed, onlyRelease]⟩
    · intro f hf
      exact le_of_eq (Except.ok.inj hf)
  fallback := nofun

/-- The bitmap of generation 0 with nonce 4 clear, read at slot 210. -/
def clearReads : ReleaseReads :=
  ⟨true, .ok (210, 350), fun _ => .ok ([3, 255, 0, 0, 0, 0, 0, 0, 0, 0, 8], 210)⟩

/-- The release is refused, every gate lets the row through and the refund lands; so the release
never does. -/
theorem withdrawal_released_or_refunded_refund :
    ∃ events t, Run (WithdrawStep withdrawWorld) withdrawStart events t ∧
      t.channel.Landed onlyRemint.signature ∧ ¬ t.solana.Landed onlyRelease.signature := by
  have hrun : ∃ t, Run (WithdrawStep withdrawWorld) withdrawStart
      [.other (.getAndLockPending .withdrawal) 1, .sender, .sender, .sender, .sender,
        .releaseClaim 2, .releaseSend, .solana, .sender, .sender, .handoff 3, .sender, .sender,
        .sender, .sender, .sender, .sender, .sender, .sender, .remintClaim 4, .remintSend,
        .channel] t ∧ t.channel = onlyRemintLanded := by
    refine ⟨_, .cons (.other rfl) <| .cons (.move (.submit 1)) <|
      .cons (.move (.window true (.ok 0))) <|
      .cons (.move (.sign (.ok onlyRelease) ?_)) <|
      .cons (.move (.fence onlyRelease true)) <|
      .cons (.releaseClaim true (.ok (some 2)) rfl rfl rfl ?_) <|
      .cons (.releaseSend (.ok ()) rfl) <|
      .cons (.solana (c := releaseFailed) List.nil_prefix ?_ ?_) <|
      .cons (.move (.confirm onlyRelease none (fun _ => .ok (some ⟨true, some .other, 60⟩)) ?_)) <|
      .cons (.move (.deferJournal _ (.ok [onlyRelease]) ?_)) <|
      .cons (.handoff 90 (.ok ()) rfl rfl) <|
      .cons (.move (.mature List.mem_cons_self)) <|
      .cons (.move (.gateClassify _ failureFinality_honest)) <|
      .cons (.move (.gateBitmap _ clearReads ⟨.ok 210, fun _ => .ok ⟨0, [3]⟩⟩)) <|
      .cons (.move (.gateCheckpoint _ _ (.ok (some 300)))) <|
      .cons (.move (.gateObserved _ _ (.ok none))) <|
      .cons (.move (.remint _ (.lookup (.ok none)))) <|
      .cons (.move (.remint _ (.readJournal (.ok [])))) <|
      .cons (.move (.remint _ (.sign [] (.ok onlyRemint)))) <|
      .cons (.remintClaim (.ok .claimed) rfl rfl ?_) <|
      .cons (.remintSend (.ok ()) rfl) <|
      .single (.channel (c := onlyRemintLanded) List.nil_prefix trivial ?_), rfl⟩
    · exact fun sig h => Except.ok.inj h ▸ ⟨rfl, fun _ hc => hc⟩
    · exact fun a h => (Except.ok.inj h).symm
    · simp [withdrawWorld, Admissible, releaseFailed, onlyRelease, maxProcessingAge]
    · simp [releaseFailed, Ledger.Chain.Landed, Ledger.Chain.Executed]
    · rintro k status h -
      cases Except.ok.inj h
      exact ⟨_, List.mem_cons_self, List.mem_singleton_self _⟩
    · exact fun pending h => (Except.ok.inj h).symm
    · exact fun c h => (Except.ok.inj h).symm
    · rintro x rfl -
      exact List.mem_cons_self
  obtain ⟨t, hrun, hchannel⟩ := hrun
  have hlanded : t.channel.Landed onlyRemint.signature := by
    rw [hchannel]
    exact ⟨_, List.mem_singleton_self _, List.mem_singleton_self _⟩
  refine ⟨_, t, hrun, hlanded, fun hl => ?_⟩
  exact withdrawal_released_or_refunded withdrawStart_fresh hrun
    ⟨⟨_, rfl, hl⟩, _, rfl, hlanded⟩

end PrivateChannels.Operator
