import PrivateChannels.Operator.RefundQueue
import PrivateChannels.Operator.WithdrawSafety

/-!
# A refund in flight stays in the queue

A row whose broadcast remint may land, or has landed, is given up only on an answer for
which the code says so: a gate refuses the release, a listed mint does not pay the row, or
its remints cannot be classified.
-/

namespace PrivateChannels.Operator

open Storage

variable {w : RefundWorld} {s s' : RefundSystem} {last : RefundAnswer} {task : RemintTask}
  {stage : RefundStage} {entry : PendingRemint} {info : WithdrawalRemintInfo}

/-- A gate did not pass the release, the channel lists a mint under the row's marker that does
not pay it, or the journaled remints, `sent` among them, were not classified. -/
def RefundAnswer.GivesUp (info : WithdrawalRemintInfo) (sent : List Signature) :
    RefundAnswer → Prop
  | .release verdict => ∃ reason, verdict = .live reason ∨ verdict = .uncertain reason
  | .bitmap verdict => verdict ≠ .clear
  | .record verdict => verdict ≠ .provenAbsent
  | .mintHistory answer => ∃ consumed, answer = .ok (some consumed) ∧ consumed.pays info = false
  | .remints stored verdict => (∃ reason, verdict = .uncertain reason) ∧
      ∀ x ∈ sent, ∃ sig ∈ stored, sig.signature = x
  | .other => False

/-- No broadcast remint can land, as long as the row awaits its refund. -/
def Cleared (w : RefundWorld) (s : RefundSystem) : Prop :=
  s.row.status = .pendingRemint → ∀ x ∈ s.core.broadcast, s.core.channel.Doomed w.valid x

/-- No release can land any more. -/
def DeadReleases (w : RefundWorld) (s : RefundSystem) : Prop :=
  ∀ sig ∈ w.releases, s.solana.Doomed w.validSolana sig.signature

/-- A release has landed. -/
def LandedRelease (w : RefundWorld) (s : RefundSystem) : Prop :=
  ∃ sig ∈ w.releases, s.solana.Landed sig.signature

/-- The row may be given up on this answer. -/
def Excused (w : RefundWorld) (s : RefundSystem) (last : RefundAnswer) : Prop :=
  s.row.status = .pendingRemint → last.GivesUp w.info s.core.broadcast ∨
    ∀ x ∈ s.core.broadcast, s.core.channel.Doomed w.valid x

theorem Cleared.excused (h : Cleared w s) : Excused w s last :=
  fun hstatus => .inr (h hstatus)

/-- What a status message rests on. -/
def Grounded (w : RefundWorld) (s : RefundSystem) (update : TransactionStatusUpdate)
    (last : RefundAnswer) : Prop :=
  update.alertOnly = true ∨ (update.status = .completed ∧ LandedRelease w s) ∨
    (update.status = .manualReview ∧ Excused w s last)

/-- What the work on an entry rests on. -/
def GateTask.Backed (w : RefundWorld) (s : RefundSystem) (last : RefundAnswer) : GateTask → Prop
  | .classify entry | .requeue entry => entry.signatures = w.releases
  | .bump entry _ => entry.signatures = w.releases ∧ Excused w s last
  | .bitmap entry | .checkpoint entry _ | .observed entry _ | .remint entry =>
    entry.signatures = w.releases ∧ DeadReleases w s
  | .resolved update _ => Grounded w s update last

/-- What the attempt knows of earlier ones. -/
def RemintTask.Prior (w : RefundWorld) (s : RefundSystem) (last : RefundAnswer) :
    RemintTask → Prop
  | .classify stored => s.row.status = .pendingRemint →
      ∀ x ∈ s.core.claimed, ∃ sig ∈ stored, sig.signature = x
  | .countRejected _ | .sign _ | .claim _ _ => Cleared w s
  | .done (.deferPreBroadcast _) _ => Cleared w s
  | .done .resolved (some update) => Grounded w s update last
  | _ => True

/-- What the stage's entry rests on. -/
def RefundStage.Backed (w : RefundWorld) (s : RefundSystem) : RefundStage → Prop
  | .idle => True
  | .queued entry => entry.signatures = w.releases
  | .gate task last => task.Backed w s last
  | .attempt entry last => entry.signatures = w.releases ∧ DeadReleases w s ∧
      ∀ task, s.core.tasks 0 = some task → task.Prior w s last

/-- The states of the row, and what each rests on. -/
def RowSound (w : RefundWorld) (s : RefundSystem) : Prop :=
  s.row.status = .pendingRemint ∨ s.row.status = .failedReminted ∨
    (s.row.status = .completed ∧ LandedRelease w s) ∨
    (s.row.status = .manualReview ∧ ∃ answer, s.reviewed = some answer ∧
      (answer.GivesUp w.info s.core.broadcast ∨
        ∀ x ∈ s.core.broadcast, s.core.channel.Doomed w.valid x))

/-- What every step of the queue keeps. -/
structure RefundInv (w : RefundWorld) (s : RefundSystem) : Prop where
  core : RemintInv w.toRemintWorld s.core
  solana : w.validSolana s.solana
  releases : s.row.releaseJournal = w.releases
  journaled : ∀ e ∈ s.row.remintJournal, e.signature ∈ s.core.claimed
  remints : ∀ x ∈ s.core.broadcast, w.remint x
  dead : s.core.claimed ≠ [] → DeadReleases w s
  stage : s.stage.Backed w s
  /-- While the entry is worked on, nothing is on its way to the writer. -/
  busy : s.stage ≠ .idle → s.loaded = true ∧ s.outbox = [] ∧
    (s.row.status = .pendingRemint ∨ s.row.status = .failedReminted)
  unloaded : s.loaded = false → s.outbox = []
  outbox : ∀ message ∈ s.outbox, Grounded w s message.update message.answer
  row : RowSound w s

/-- Between the two states nothing was claimed or sent. -/
structure Quiet (s s' : RefundSystem) : Prop where
  claimed : s'.core.claimed = s.core.claimed
  broadcast : s'.core.broadcast = s.core.broadcast
  channel : s'.core.channel.Extends s.core.channel
  solana : s'.solana.Extends s.solana
  opened : s'.row.status = .pendingRemint → s.row.status = .pendingRemint

theorem Quiet.of_stores {store : Store}
    (hopened : store.row.status = .pendingRemint → s.row.status = .pendingRemint) :
    Quiet s { s with core := { s.core with store := store } } :=
  ⟨rfl, rfl, .refl _, .refl _, hopened⟩

theorem Cleared.of_unsent (h : Cleared w s) (hsent : s'.core.broadcast = s.core.broadcast)
    (hext : s'.core.channel.Extends s.core.channel)
    (hopened : s'.row.status = .pendingRemint → s.row.status = .pendingRemint) : Cleared w s' := by
  intro hstatus x hx
  rw [hsent] at hx
  exact (h (hopened hstatus) x hx).mono hext

theorem Cleared.mono (h : Cleared w s) (hq : Quiet s s') : Cleared w s' :=
  h.of_unsent hq.broadcast hq.channel hq.opened

theorem DeadReleases.mono (h : DeadReleases w s) (hext : s'.solana.Extends s.solana) :
    DeadReleases w s' :=
  fun sig hsig => (h sig hsig).mono hext

theorem LandedRelease.mono (h : LandedRelease w s) (hext : s'.solana.Extends s.solana) :
    LandedRelease w s' := by
  obtain ⟨sig, hsig, hlanded⟩ := h
  exact ⟨sig, hsig, hlanded.mono hext⟩

/-- A release that landed is not dead. -/
theorem LandedRelease.not_dead (h : LandedRelease w s) (hvalid : w.validSolana s.solana) :
    ¬ DeadReleases w s := by
  obtain ⟨sig, hsig, hlanded⟩ := h
  exact fun hdead => (hdead sig hsig).not_landed hvalid hlanded

theorem Excused.mono (h : Excused w s last) (hq : Quiet s s') : Excused w s' last := by
  intro hstatus
  rw [hq.broadcast]
  exact (h (hq.opened hstatus)).imp_right fun hdoomed x hx => (hdoomed x hx).mono hq.channel

theorem Grounded.mono {update : TransactionStatusUpdate} (h : Grounded w s update last)
    (hq : Quiet s s') : Grounded w s' update last := by
  rcases h with halert | ⟨hstatus, hlanded⟩ | ⟨hstatus, hexcused⟩
  · exact .inl halert
  · exact .inr (.inl ⟨hstatus, hlanded.mono hq.solana⟩)
  · exact .inr (.inr ⟨hstatus, hexcused.mono hq⟩)

theorem GateTask.Backed.mono {task : GateTask} (h : task.Backed w s last) (hq : Quiet s s') :
    task.Backed w s' last := by
  cases task with
  | classify entry | requeue entry => exact h
  | bump entry reason => exact ⟨h.1, h.2.mono hq⟩
  | resolved update counterpart => exact Grounded.mono h hq
  | _ => exact ⟨h.1, h.2.mono hq.solana⟩

theorem RemintTask.Prior.mono (h : task.Prior w s last) (hq : Quiet s s') :
    task.Prior w s' last := by
  cases task with
  | classify stored =>
    intro hstatus x hx
    rw [hq.claimed] at hx
    exact h (hq.opened hstatus) x hx
  | countRejected stored | sign dead | claim dead sig => exact Cleared.mono h hq
  | done outcome update =>
    cases outcome with
    | deferPreBroadcast reason => exact Cleared.mono h hq
    | deferInFlight reason => trivial
    | resolved =>
      cases update with
      | none => trivial
      | some update => exact Grounded.mono h hq
  | _ => trivial

theorem RefundStage.Backed.mono (h : stage.Backed w s) (hq : Quiet s s')
    (htasks : s'.core.tasks = s.core.tasks) : stage.Backed w s' := by
  cases stage with
  | idle => trivial
  | queued entry => exact h
  | gate task last => exact GateTask.Backed.mono h hq
  | attempt entry last =>
    refine ⟨h.1, h.2.1.mono hq.solana, fun task htask => ?_⟩
    rw [htasks] at htask
    exact (h.2.2 task htask).mono hq

section Gates

variable (hentry : entry.signatures = w.releases)
include hentry

theorem deferOrEscalate_backed (hexcused : Excused w s last) (reason : String) :
    (deferOrEscalate entry reason).Backed w s last := by
  unfold deferOrEscalate
  dsimp only
  split
  · exact .inr (.inr ⟨rfl, hexcused⟩)
  · exact ⟨hentry, hexcused⟩

theorem waitOrDefer_backed (hexcused : Excused w s last) (reason : String) :
    (waitOrDefer entry reason).Backed w s last := by
  unfold waitOrDefer
  split
  · exact hentry
  · exact deferOrEscalate_backed hentry hexcused reason

theorem onBumped_backed (hexcused : Excused w s last) (answer : Except String Unit) :
    (onBumped entry answer).Backed w s last := by
  cases answer with
  | ok _ => exact hentry
  | error e => exact .inr (.inr ⟨rfl, hexcused⟩)

/-- The verdict on the release is backed by Solana. -/
theorem onReleaseFinality_backed (hvalid : w.validSolana s.solana)
    {finality : FinalityRpc} (hhonest : HonestSolana s.solana finality entry.signatures) :
    (onReleaseFinality entry (classifySignatures finality entry.signatures)).Backed w s
      (.release (classifySignatures finality entry.signatures)) := by
  obtain ⟨hlanded, hdead⟩ := classifySignatures_doomed hvalid (hentry ▸ w.admissible)
    hhonest.chain hhonest.primary hhonest.fallback
  cases hverdict : classifySignatures finality entry.signatures with
  | landed x =>
    obtain ⟨⟨sig, hsig, rfl⟩, hl⟩ := hlanded x hverdict
    exact .inr (.inl ⟨rfl, sig, hentry ▸ hsig, hl⟩)
  | live reason =>
    have hlive : Excused w s (.release (.live reason)) := fun _ => .inl ⟨reason, .inl rfl⟩
    exact waitOrDefer_backed hentry hlive reason
  | uncertain reason =>
    have hunread : Excused w s (.release (.uncertain reason)) := fun _ => .inl ⟨reason, .inr rfl⟩
    exact deferOrEscalate_backed hentry hunread reason
  | dead => exact ⟨hentry, fun sig hsig => hdead hverdict sig (hentry ▸ hsig)⟩

/-- The bitmap may only fix the coverage bound of the entry. -/
theorem onBitmap_backed (hdead : DeadReleases w s) (verdict : BitmapVerdict) (slot : Option ℕ) :
    (onBitmap entry (verdict, slot)).Backed w s (.bitmap verdict) := by
  unfold onBitmap
  generalize hnext : ({ entry with coverageSlot := _ } : PendingRemint) = next
  replace hentry : next.signatures = w.releases := by rw [← hnext]; exact hentry
  have hrefused (hne : verdict ≠ .clear) : Excused w s (.bitmap verdict) := fun _ => .inl hne
  cases verdict with
  | blocked reason => exact .inr (.inr ⟨rfl, hrefused nofun⟩)
  | unfinalized reason => exact deferOrEscalate_backed hentry (hrefused nofun) _
  | pending reason =>
    dsimp only
    split
    · exact ⟨hentry, hdead⟩
    · exact waitOrDefer_backed hentry (hrefused nofun) _
  | unknown reason =>
    dsimp only
    split
    · exact ⟨hentry, hdead⟩
    · exact deferOrEscalate_backed hentry (hrefused nofun) _
  | clear => exact ⟨hentry, hdead⟩

theorem onCheckpoint_backed (hdead : DeadReleases w s) (pending : Bool)
    (checkpoint : Except String (Option ℕ)) :
    (onCheckpoint entry pending checkpoint).Backed w s last := by
  unfold onCheckpoint
  split
  · exact ⟨hentry, hdead⟩
  · exact ⟨(releaseCoverage_signatures _ _ _).trans hentry, hdead⟩

/-- After the record gate. -/
theorem onObserved_backed (hdead : DeadReleases w s) (coverage : ReleaseCoverage)
    (answer : Except String (Option ObservedRelease)) :
    (onObserved entry coverage answer).Backed w s
      (.record (releaseRecord (entry.nonce.elim 0 (·.toNat)) coverage answer)) := by
  unfold onObserved
  generalize releaseRecord (entry.nonce.elim 0 (·.toNat)) coverage answer = record
  have hrefused (hne : record ≠ .provenAbsent) : Excused w s (.record record) := fun _ => .inl hne
  cases record with
  | found reason => exact .inr (.inr ⟨rfl, hrefused nofun⟩)
  | catchingUp reason => exact waitOrDefer_backed hentry (hrefused nofun) _
  | unproven reason => exact deferOrEscalate_backed hentry (hrefused nofun) _
  | provenAbsent => exact ⟨hentry, hdead⟩

end Gates

theorem settleAttempt_prior {attempt : RemintAttempt}
    (hunsent : ∀ reason, attempt = .deferPreBroadcast reason → Cleared w s)
    (hgiven : ∀ reason, attempt = .failed reason ∨ attempt = .releaseObserved reason →
      Excused w s last) : (settleAttempt info attempt).Prior w s last := by
  cases attempt with
  | deferPreBroadcast reason => exact hunsent reason rfl
  | failed reason => exact .inr (.inr ⟨rfl, hgiven reason (.inl rfl)⟩)
  | releaseObserved reason => exact .inr (.inr ⟨rfl, hgiven reason (.inr rfl)⟩)
  | _ => trivial

theorem onLookup_prior (answer : Except String (Option ConsumedMint)) :
    (onLookup w.info answer).Prior w s (.mintHistory answer) := by
  unfold onLookup
  split
  · trivial
  · next consumed =>
    split
    · exact settleAttempt_prior nofun nofun
    next hpays =>
    exact settleAttempt_prior nofun fun _ _ _ =>
      .inl ⟨consumed, rfl, Bool.eq_false_iff.mpr hpays⟩
  · exact settleAttempt_prior nofun nofun

/-- The journal holds everything claimed, so an empty one leaves nothing to land. -/
theorem onJournal_prior (h : RemintInv w.toRemintWorld s.core)
    {answer : Except String (List StoredSig)}
    (hread : ∀ stored, answer = .ok stored → stored = s.row.remintJournal.map (·.toStoredSig)) :
    (onJournal info answer).Prior w s .other := by
  have hheld : ∀ stored, answer = .ok stored → s.row.status = .pendingRemint →
      ∀ x ∈ s.core.claimed, ∃ sig ∈ stored, sig.signature = x := by
    intro stored hstored hstatus x hx
    obtain ⟨e, he, rfl⟩ := h.journal.held (by rw [hstatus]; rfl) x hx
    rw [hread stored hstored]
    exact ⟨e.toStoredSig, List.mem_map_of_mem he, rfl⟩
  unfold onJournal
  split
  · exact settleAttempt_prior nofun nofun
  · intro hstatus x hx
    obtain ⟨_, hnil, _⟩ := hheld [] rfl hstatus x (h.claims.outbox.sent x hx)
    cases hnil
  · exact hheld _ rfl

/-- After the remints are classified. -/
theorem onFinality_prior (h : RemintInv w.toRemintWorld s.core) {stored : List StoredSig}
    {verdict : SigFinality}
    (hstored : s.row.status = .pendingRemint →
      ∀ x ∈ s.core.claimed, ∃ sig ∈ stored, sig.signature = x)
    (hdead : verdict = .dead → ∀ sig ∈ stored, s.core.channel.Doomed w.valid sig.signature) :
    (onFinality info stored verdict).Prior w s (.remints stored verdict) := by
  have hcleared : verdict = .dead → Cleared w s := by
    intro hverdict hstatus x hx
    obtain ⟨sig, hsig, rfl⟩ := hstored hstatus x (h.claims.outbox.sent x hx)
    exact hdead hverdict sig hsig
  unfold onFinality
  split
  · exact settleAttempt_prior nofun nofun
  · exact settleAttempt_prior nofun nofun
  · next reason =>
    exact settleAttempt_prior nofun fun _ _ hstatus => .inl ⟨⟨reason, rfl⟩, fun x hx =>
      hstored hstatus x (h.claims.outbox.sent x hx)⟩
  · split <;> exact hcleared rfl

theorem onRejected_prior (h : Cleared w s) (stored : List StoredSig)
    (answer : Except String ℕ) : (onRejected info stored answer).Prior w s .other := by
  unfold onRejected
  split
  · split
    · exact settleAttempt_prior nofun fun _ _ => h.excused
    · exact h
  · exact settleAttempt_prior nofun nofun

theorem onSigned_prior (h : Cleared w s) (dead : List Signature)
    (answer : Except BuildError StoredSig) : (onSigned info dead answer).Prior w s .other := by
  unfold onSigned
  split
  · exact h
  all_goals exact settleAttempt_prior (fun _ _ => h) nofun

theorem onClaim_prior (h : Cleared w s) (sig : StoredSig)
    (answer : Except String RemintClaim) : (onClaim info sig answer).Prior w s .other := by
  unfold onClaim
  split
  · trivial
  · exact settleAttempt_prior nofun nofun
  · exact settleAttempt_prior nofun fun _ _ => h.excused
  · exact settleAttempt_prior nofun nofun
  · exact settleAttempt_prior (fun _ _ => h) nofun

theorem onSent_prior (sig : StoredSig) (answer : Except String Unit) :
    (onSent info sig answer).Prior w s last := by
  unfold onSent
  split
  · trivial
  · exact settleAttempt_prior nofun nofun

theorem onConfirmation_prior (sig : StoredSig) (answer : Except String ConfirmationResult) :
    (onConfirmation info sig answer).Prior w s last := by
  unfold onConfirmation
  split <;> exact settleAttempt_prior nofun nofun

theorem onRecorded_prior (x : Signature) (attempt : ℕ) (answer : Except String Unit) :
    (onRecorded x attempt answer).Prior w s last := by
  cases answer with
  | ok _ => trivial
  | error e =>
    unfold onRecorded
    dsimp only
    split <;> trivial

theorem onReadBack_prior (x : Signature) (attempt : ℕ) (persistError : String)
    (answer : Except String TransactionStatus) :
    (onReadBack info x attempt persistError answer).Prior w s last := by
  unfold onReadBack
  split
  · trivial
  · trivial
  · exact .inl rfl
  · split <;> trivial

/-- What a step of the attempt leaves behind. -/
structure Attempted (w : RefundWorld) (s s' : RefundSystem) (last : RefundAnswer) : Prop where
  releases : s'.row.releaseJournal = s.row.releaseJournal
  status : s'.row.status = s.row.status ∨ s'.row.status = .failedReminted
  journaled : ∀ e ∈ s'.row.remintJournal, e.signature ∈ s'.core.claimed
  remints : ∀ x ∈ s'.core.broadcast, w.remint x
  prior : ∀ task, s'.core.tasks 0 = some task → task.Prior w s' last

variable {core : RemintSystem}

/-- The attempt's answer, once the row and the history have been written. -/
theorem Attempted.of_write (hreleases : core.store.row.releaseJournal = s.row.releaseJournal)
    (hstatus : core.store.row.status = s.row.status ∨ core.store.row.status = .failedReminted)
    (hjournaled : ∀ e ∈ core.store.row.remintJournal, e.signature ∈ core.claimed)
    (hremints : ∀ x ∈ core.broadcast, w.remint x)
    (hprior : task.Prior w { s with core := core.resume 0 task, stage := stage } last) :
    Attempted w s { s with core := core.resume 0 task, stage := stage } last := by
  refine ⟨hreleases, hstatus, hjournaled, hremints, fun next hnext => ?_⟩
  obtain rfl : task = next := by
    simpa only [RemintSystem.resume, Function.update_self, Option.some.injEq] using hnext
  exact hprior

theorem mem_supersede {dead : List Signature} {journal : List RemintEntry}
    {e : RemintEntry} (h : e ∈ supersede dead journal) :
    ∃ old ∈ journal, old.signature = e.signature := by
  obtain ⟨old, hold, rfl⟩ := List.mem_map.mp h
  refine ⟨old, hold, ?_⟩
  split <;> rfl

theorem RowSound.mono (h : RowSound w s) (hq : Quiet s s')
    (hstatus : s'.row.status = s.row.status) (hreviewed : s'.reviewed = s.reviewed) :
    RowSound w s' := by
  rcases h with hrow | hrow | ⟨hrow, hlanded⟩ | ⟨hrow, answer, hanswer, hexcused⟩
  · exact .inl (hstatus.trans hrow)
  · exact .inr (.inl (hstatus.trans hrow))
  · exact .inr (.inr (.inl ⟨hstatus.trans hrow, hlanded.mono hq.solana⟩))
  · refine .inr (.inr (.inr ⟨hstatus.trans hrow, answer, hreviewed.trans hanswer, ?_⟩))
    rw [hq.broadcast]
    exact hexcused.imp_right fun hdoomed x hx => (hdoomed x hx).mono hq.channel

/-- The row an operation has left: moved by someone else, or with its new status. -/
structure Restatused (status : TransactionStatus) (r r' : Row) : Prop where
  opened : r.status = .processing ∨ r.status = .pendingRemint
  status : r'.status = status
  releases : r'.releaseJournal = r.releaseJournal
  remints : r'.remintJournal = r.remintJournal

/-- The status writer's update. -/
theorem run_updateTransactionStatus (store : Store) (status : TransactionStatus)
    (counterpart : Option Signature) (now : Stamp) :
    ((Op.updateTransactionStatus status counterpart now none).run store now).2.row = store.row ∨
      Restatused status store.row
        ((Op.updateTransactionStatus status counterpart now none).run store now).2.row := by
  rcases put_row_cases store
    (updateTransactionStatus status counterpart now none now store.row) with heq | hsome
  · exact .inl heq
  · obtain ⟨hguard, hrow⟩ := updateWhere_eq_some.mp hsome
    simp only [Bool.and_eq_true, Bool.or_eq_true, beq_iff_eq] at hguard
    have hrun :
        ((Op.updateTransactionStatus status counterpart now none).run store now).2.row = _ := hrow
    exact .inr ⟨hguard.1, by rw [hrun], by rw [hrun], by rw [hrun]⟩

variable {rest : List StatusMessage}

theorem run_indexerOp {op : Op} (hop : indexerOp op = true) (store : Store) (now : Stamp) :
    (op.run store now).2.row = store.row ∧ remintOp op = false := by
  cases op <;> first | exact ⟨rfl, rfl⟩ | cases hop

/-- The counter is not among the columns that matter here. -/
theorem run_bump (store : Store) (attempts deadline : ℕ) (now : Stamp) {row : Row}
    (hrow : ((Op.bumpPendingRemintFinalityAttempt attempts deadline).run store now).2.row = row) :
    row.status = store.row.status ∧ row.releaseJournal = store.row.releaseJournal ∧
      row.remintJournal = store.row.remintJournal := by
  subst hrow
  rcases put_row_cases store
    (bumpPendingRemintFinalityAttempt attempts deadline now store.row) with heq | hsome
  · have hrun : ((Op.bumpPendingRemintFinalityAttempt attempts deadline).run store now).2.row = _ :=
      heq
    exact ⟨by rw [hrun], by rw [hrun], by rw [hrun]⟩
  · have hrun : ((Op.bumpPendingRemintFinalityAttempt attempts deadline).run store now).2.row = _ :=
      (updateWhere_eq_some.mp hsome).2
    exact ⟨by rw [hrun], by rw [hrun], by rw [hrun]⟩

section

variable (h : RefundInv w s)
include h

/-- Only the attempt itself moves. -/
theorem Attempted.of_resume (hprior : task.Prior w s last) :
    Attempted w s { s with core := s.core.resume 0 task, stage := stage } last :=
  .of_write rfl (.inl rfl) h.journaled h.remints
    (hprior.mono ⟨rfl, rfl, .refl _, .refl _, fun hstatus => hstatus⟩)

/-- A committed claim inside the queue. -/
theorem Attempted.of_claim (hcleared : Cleared w s) {dead : List Signature} {sig : StoredSig}
    {now : Stamp} {claim : RemintClaim} {row : Row} (answer : Except String RemintClaim)
    (hcommit : claimRemintAttempt s.core.store.observedReleases sig dead now s.row =
      some (claim, row)) :
    Attempted w s { s with
      core := ((s.core.withRow row).noteClaim sig claim).resume 0 (onClaim w.info sig answer)
      stage := stage } .other := by
  have hrow : row.releaseJournal = s.row.releaseJournal ∧ row.status = s.row.status ∧
      ∀ e ∈ row.remintJournal,
        e.signature ∈ ((s.core.withRow row).noteClaim sig claim).claimed := by
    rcases claimRemintAttempt_cases hcommit with
      ⟨hclaim, rfl⟩ | ⟨_, _, _, ⟨rfl, _, rfl⟩ | ⟨rfl, _, rfl⟩⟩
    · rcases hclaim with rfl | rfl <;> exact ⟨rfl, rfl, h.journaled⟩
    · refine ⟨rfl, rfl, fun e he => ?_⟩
      obtain ⟨old, hold, heq⟩ := mem_supersede he
      exact heq ▸ h.journaled old hold
    · refine ⟨rfl, rfl, fun e he => ?_⟩
      rcases List.mem_append.mp he with he | he
      · obtain ⟨old, hold, heq⟩ := mem_supersede he
        exact List.mem_cons_of_mem _ (heq ▸ h.journaled old hold)
      · rw [List.mem_singleton.mp he]
        exact List.mem_cons_self
  have hnote : ((s.core.withRow row).noteClaim sig claim).store.row = row ∧
      ((s.core.withRow row).noteClaim sig claim).broadcast = s.core.broadcast ∧
      ((s.core.withRow row).noteClaim sig claim).channel = s.core.channel := by
    unfold RemintSystem.noteClaim
    split <;> exact ⟨rfl, rfl, rfl⟩
  obtain ⟨hstored, hsent, hchannel⟩ := hnote
  generalize (s.core.withRow row).noteClaim sig claim = core at *
  subst hstored
  refine .of_write hrow.1 (.inl hrow.2.1) hrow.2.2 (fun x hx => h.remints x (hsent ▸ hx)) ?_
  refine onClaim_prior (hcleared.of_unsent hsent ?_ fun hstatus => hrow.2.1 ▸ hstatus) sig answer
  change Ledger.Chain.Extends core.channel s.core.channel
  rw [hchannel]
  exact .refl _

/-- What a step of the attempt leaves behind. -/
theorem RefundInv.attempted {event : RemintEvent} (htask : s.core.tasks 0 = some task)
    (hprior : task.Prior w s last) (hevent : event.ofAttempt = true)
    (hstep : RemintStep w.toRemintWorld s.core event core) :
    Attempted w s { s with core := core, stage := stage } (task.read event) := by
  cases hstep
  all_goals first | obtain rfl := eq_of_beq hevent | cases hevent
  case lookup hlisted hat =>
    cases htask.symm.trans hat
    exact .of_resume h (onLookup_prior _)
  case readJournal hread hat =>
    cases htask.symm.trans hat
    exact .of_resume h (onJournal_prior h.core hread)
  case classify stored finality hchain hfallback hhonest hat =>
    cases htask.symm.trans hat
    obtain ⟨_, hdead⟩ := h.core.claims.verdict (h.core.tasks.sound 0 _ hat) hchain hfallback hhonest
    have hanswer : (onFinality w.info stored (classifySignatures finality stored)).Prior w s
        (.remints stored (classifySignatures finality stored)) :=
      onFinality_prior h.core hprior hdead
    unfold RemintSystem.noteVerdict
    split
    · refine .of_write rfl (.inl rfl) h.journaled h.remints (hanswer.mono ?_)
      exact ⟨rfl, rfl, .refl _, .refl _, fun hstatus => hstatus⟩
    · exact .of_resume h hanswer
  case countRejected hat =>
    cases htask.symm.trans hat
    exact .of_resume h (onRejected_prior hprior _ _)
  case sign hsigned hat =>
    cases htask.symm.trans hat
    exact .of_resume h (onSigned_prior hprior _ _)
  case claim hcommit hack hat =>
    cases htask.symm.trans hat
    exact .of_claim h hprior _ hcommit
  case claimFailed hat =>
    cases htask.symm.trans hat
    exact .of_resume h (onClaim_prior hprior _ _)
  case send hat =>
    obtain ⟨_, _, hremint⟩ := h.core.tasks.sound 0 _ hat
    refine .of_write rfl (.inl rfl) h.journaled ?_ (onSent_prior _ _)
    exact List.forall_mem_cons.mpr ⟨hremint, h.remints⟩
  case confirm hseen hat =>
    exact .of_resume h (onConfirmation_prior _ _)
  case record hcommit hat =>
    obtain ⟨_, rfl⟩ := updateWhere_eq_some.mp hcommit
    exact .of_write rfl (.inr rfl) h.journaled h.remints (onRecorded_prior _ _ _)
  case recordFailed hat =>
    exact .of_resume h (onRecorded_prior _ _ _)
  case readBack hread hat =>
    exact .of_resume h (onReadBack_prior _ _ _ _)
  case clear hat =>
    exact .of_write rfl (.inl rfl) nofun h.remints (.inl rfl)
  case clearFailed hat =>
    exact .of_resume h (.inl rfl)

theorem RefundInv.backed (hat : s.stage = stage) : stage.Backed w s :=
  hat ▸ h.stage

/-- The pass moves on, and nothing else changes. -/
theorem RefundInv.moveTo (hbusy : s.stage ≠ .idle) (hsound : stage.Backed w s) :
    RefundInv w { s with stage := stage } :=
  { h with
    stage := hsound.mono ⟨rfl, rfl, .refl _, .refl _, fun hstatus => hstatus⟩ rfl
    busy := fun _ => h.busy hbusy }

/-- A step beside the pass: the chains, the indexer and the sweep of old journals. -/
theorem RefundInv.beside {solana : Ledger.Chain Signature} (hcore : RemintInv w.toRemintWorld core)
    (hsolana : w.validSolana solana) (hq : Quiet s { s with core := core, solana := solana })
    (hreleases : core.store.row.releaseJournal = s.row.releaseJournal)
    (hjournal : core.store.row.remintJournal ⊆ s.row.remintJournal)
    (hstatus : core.store.row.status = s.row.status) (htasks : core.tasks = s.core.tasks) :
    RefundInv w { s with core := core, solana := solana } where
  core := hcore
  solana := hsolana
  releases := hreleases.trans h.releases
  journaled e he := by
    rw [hq.claimed]
    exact h.journaled e (hjournal he)
  remints x hx := h.remints x (hq.broadcast ▸ hx)
  dead hne := (h.dead (hq.claimed ▸ hne)).mono hq.solana
  stage := h.stage.mono hq htasks
  busy hbusy := by
    obtain ⟨hloaded, houtbox, hrow⟩ := h.busy hbusy
    exact ⟨hloaded, houtbox, hrow.imp hstatus.trans hstatus.trans⟩
  unloaded := h.unloaded
  outbox message hin := (h.outbox message hin).mono hq
  row := h.row.mono hq hstatus rfl

theorem RefundInv.crash : RefundInv w s.crashed :=
  { h with
    core := h.core.crash 0
    stage := trivial
    busy := fun hbusy => absurd rfl hbusy
    unloaded := fun _ => rfl
    outbox := fun _ hm => absurd hm List.not_mem_nil }

/-- The entry is loaded. -/
theorem RefundInv.hydrate (hstep : RefundStep w s .hydrate s') : RefundInv w s' := by
  cases hstep with
  | @hydrate answer hidle hfirst hlisted hread =>
  cases answer with
  | error e => exact h
  | ok pending =>
    have hpending : pending = w.releases := (hread pending rfl).trans h.releases
    cases pending with
    | nil => exact absurd hpending.symm w.releases_ne_nil
    | cons sig rest =>
      exact
        { h with
          stage := hpending
          busy := fun _ => ⟨rfl, h.unloaded hfirst, .inl hlisted⟩
          unloaded := nofun }

/-- A step of the remint attempt. -/
theorem RefundInv.attempt {event : RemintEvent} (hstep : RefundStep w s (.attempt event) s') :
    RefundInv w s' := by
  cases hstep with
  | @attempt entry _ task event core hat htask hevent hstep =>
  obtain ⟨hentry, hdead, hprior⟩ := h.backed hat
  have hnext : Attempted w s { s with core := core, stage := .attempt entry (task.read event) }
      (task.read event) := h.attempted htask (hprior task htask) hevent hstep
  obtain ⟨hloaded, houtbox, hstatus⟩ := h.busy (by rw [hat]; exact nofun)
  have hrow : core.store.row.status = .pendingRemint ∨ core.store.row.status = .failedReminted := by
    rcases hnext.status with hsame | hrecorded
    · exact hstatus.imp hsame.trans hsame.trans
    · exact .inr hrecorded
  exact
    { h with
      core := h.core.step hstep
      releases := hnext.releases.trans h.releases
      journaled := hnext.journaled
      remints := hnext.remints
      dead := fun _ => hdead
      stage := ⟨hentry, hdead, hnext.prior⟩
      busy := fun _ => ⟨hloaded, houtbox, hrow⟩
      unloaded := fun _ => houtbox
      outbox := fun message hin => by
        rw [houtbox] at hin
        cases hin
      row := hrow.imp_right .inl }

/-- The attempt ends. -/
theorem RefundInv.finish (hstep : RefundStep w s .finish s') : RefundInv w s' := by
  cases hstep with
  | @finish entry last outcome update hat hdone =>
  obtain ⟨hentry, _, hprior⟩ := h.backed hat
  replace hprior := hprior _ hdone
  have hsound : (s.finished entry last outcome update).stage.Backed w
      (s.finished entry last outcome update) := by
    cases outcome with
    | resolved =>
      cases update with
      | none => trivial
      | some update => exact hprior
    | deferPreBroadcast reason =>
      exact deferOrEscalate_backed hentry (Cleared.excused hprior) reason
    | deferInFlight reason => exact hentry
  exact
    { h with
      core := h.core.crash 0
      stage := hsound
      busy := fun _ => h.busy (by rw [hat]; exact nofun) }

/-- The writer has taken a message off the queue and may have written the row. -/
theorem RefundInv.stored {store : Store} {reviewed : Option RefundAnswer}
    (hcore : RemintInv w.toRemintWorld { s.core with store := store }) (hidle : s.stage = .idle)
    (hloaded : s.loaded ≠ false) (hreleases : store.row.releaseJournal = s.row.releaseJournal)
    (hjournal : store.row.remintJournal = s.row.remintJournal)
    (hopened : store.row.status = .pendingRemint → s.row.status = .pendingRemint)
    (hrest : ∀ other ∈ rest, Grounded w s other.update other.answer)
    (hrow : RowSound w { s with
      core := { s.core with store := store }, outbox := rest, reviewed := reviewed }) :
    RefundInv w { s with
      core := { s.core with store := store }, outbox := rest, reviewed := reviewed } :=
  { h with
    core := hcore
    releases := hreleases.trans h.releases
    journaled := fun e he => h.journaled e (by rw [← hjournal]; exact he)
    stage := by
      rw [hidle]
      trivial
    busy := fun hbusy => absurd hidle hbusy
    unloaded := fun hfalse => absurd hfalse hloaded
    outbox := fun other hin => (hrest other hin).mono ⟨rfl, rfl, .refl _, .refl _, hopened⟩
    row := hrow }

/-- While a message is on its way, the entry has left the queue. -/
theorem RefundInv.sending {message : StatusMessage} (hat : s.outbox = message :: rest) :
    s.stage = .idle ∧ s.loaded ≠ false ∧ Grounded w s message.update message.answer ∧
      ∀ other ∈ rest, Grounded w s other.update other.answer := by
  refine ⟨?_, fun hloaded => ?_, h.outbox message (hat ▸ List.mem_cons_self),
    fun other hin => h.outbox other (hat ▸ List.mem_cons_of_mem _ hin)⟩
  · by_contra hbusy
    rw [(h.busy hbusy).2.1] at hat
    cases hat
  · rw [h.unloaded hloaded] at hat
    cases hat

/-- A message is written only while the row awaits its refund. -/
theorem RefundInv.write (hstep : RefundStep w s .write s') : RefundInv w s' := by
  cases hstep with
  | writeFailed hat =>
    obtain ⟨hidle, hloaded, _, hrest⟩ := h.sending hat
    exact h.stored h.core hidle hloaded rfl rfl (fun hs => hs) hrest h.row
  | @write message rest now hat =>
  obtain ⟨hidle, hloaded, hmessage, hrest⟩ := h.sending hat
  unfold RefundSystem.written
  split
  · exact h.stored h.core hidle hloaded rfl rfl (fun hs => hs) hrest h.row
  next halert =>
  replace hmessage := hmessage.resolve_left halert
  generalize hop : Op.updateTransactionStatus message.update.status message.counterpart now none =
    op
  have hrow :=
    run_updateTransactionStatus s.core.store message.update.status message.counterpart now
  rw [hop] at hrow
  have hfinish : ∀ x, RemintSystem.LiveEntry s.row x → s.row.status.terminal = false →
      (op.run s.core.store now).2.row.status.terminal = false := by
    rintro x ⟨e, he, _⟩ hopen
    rcases hrow with heq | hwritten
    · rw [heq]
      exact hopen
    · rcases hmessage with ⟨_, hlanded⟩ | ⟨hreview, _⟩
      · exact absurd (h.dead (List.ne_nil_of_mem (h.journaled e he))) (hlanded.not_dead h.solana)
      · rw [hwritten.status, hreview]
        rfl
  have hcore : RemintInv w.toRemintWorld { s.core with store := (op.run s.core.store now).2 } :=
    h.core.other (.other (by rw [← hop]; rfl) hfinish)
  rcases hrow with heq | hwritten
  · have hsame : (op.run s.core.store now).2.row.status = s.row.status := congrArg Row.status heq
    refine h.stored hcore hidle hloaded (congrArg Row.releaseJournal heq)
      (congrArg Row.remintJournal heq) hsame.symm.trans hrest ?_
    refine h.row.mono ⟨rfl, rfl, .refl _, .refl _, hsame.symm.trans⟩ hsame (if_neg ?_)
    rintro ⟨hafter, hbefore⟩
    exact hbefore (hsame.symm.trans hafter)
  · have hawaits : s.row.status = .pendingRemint := by
      rcases h.row with hs | hs | ⟨hs, _⟩ | ⟨hs, _⟩
      · exact hs
      all_goals exact hwritten.opened.resolve_left (by rw [hs]; exact nofun)
    refine h.stored hcore hidle hloaded hwritten.releases hwritten.remints (fun _ => hawaits) hrest
      ?_
    rcases hmessage with ⟨hcompleted, hlanded⟩ | ⟨hreview, hexcused⟩
    · exact .inr (.inr (.inl ⟨hwritten.status.trans hcompleted, hlanded⟩))
    · refine .inr (.inr (.inr ⟨hwritten.status.trans hreview, message.answer, if_pos ?_, ?_⟩))
      · exact ⟨hwritten.status.trans hreview, by rw [hawaits]; exact nofun⟩
      · exact hexcused hawaits

/-- The indexer writes. -/
theorem RefundInv.indexer {op : Op} (hop : indexerOp op = true) (now : Stamp) :
    RefundInv w (s.run op now) := by
  obtain ⟨heq, hother⟩ := run_indexerOp hop s.core.store now
  have hcore : RemintInv w.toRemintWorld { s.core with store := (op.run s.core.store now).2 } :=
    h.core.other (.other hother fun _ _ hopen => by rwa [heq])
  refine h.beside hcore h.solana (Quiet.of_stores fun hs => by rwa [heq] at hs) ?_ ?_ ?_ rfl
  · exact congrArg Row.releaseJournal heq
  · exact fun e he => congrArg Row.remintJournal heq ▸ he
  · exact congrArg Row.status heq

/-- Stale entries are collected. -/
theorem RefundInv.gc :
    RefundInv w { s with core := s.core.withRow (gcStaleRemintSignatures s.row) } := by
  have hcore := h.core.step RemintStep.gc
  have hrow : (gcStaleRemintSignatures s.row).releaseJournal = s.row.releaseJournal ∧
      (gcStaleRemintSignatures s.row).remintJournal ⊆ s.row.remintJournal ∧
      (gcStaleRemintSignatures s.row).status = s.row.status := by
    unfold gcStaleRemintSignatures
    split
    · exact ⟨rfl, List.nil_subset _, rfl⟩
    · exact ⟨rfl, List.Subset.refl _, rfl⟩
  exact h.beside hcore h.solana (Quiet.of_stores hrow.2.2.symm.trans) hrow.1 hrow.2.1 hrow.2.2 rfl

theorem RefundInv.bump (attempts deadline : ℕ) (now : Stamp) :
    RefundInv w (s.run (.bumpPendingRemintFinalityAttempt attempts deadline) now) := by
  obtain ⟨hstatus, hreleases, hremints⟩ := run_bump s.core.store attempts deadline now rfl
  exact h.beside (h.core.other (.other rfl fun _ _ hopen => by rwa [hstatus])) h.solana
    (Quiet.of_stores hstatus.symm.trans) hreleases
    (fun e he => hremints ▸ he) hstatus rfl

/-- A gate has its answer. -/
theorem RefundInv.gate {task next : GateTask} {answer : RefundAnswer}
    (hat : s.stage = .gate task last) (hnext : task.Backed w s last → next.Backed w s answer) :
    RefundInv w { s with stage := .gate next answer } := by
  exact h.moveTo (by rw [hat]; exact nofun) (hnext (h.backed hat))

/-- The attempt begins. -/
theorem RefundInv.begin (hstep : RefundStep w s .begin s') : RefundInv w s' := by
  cases hstep with
  | begin hat =>
  obtain ⟨hentry, hdead⟩ := h.backed hat
  exact
    { h with
      core := h.core.proceed 0 ⟨trivial, by simp⟩
      stage := by
        refine ⟨hentry, hdead, fun task htask => ?_⟩
        obtain rfl : RemintTask.lookup = task := by
          simpa only [RemintSystem.resume, Function.update_self, Option.some.injEq] using htask
        trivial
      busy := fun _ => h.busy (by simp [hat]) }

/-- The pass ends in a message. -/
theorem RefundInv.resolve (hstep : RefundStep w s .resolve s') : RefundInv w s' := by
  cases hstep with
  | resolve hat =>
  obtain ⟨hloaded, houtbox, _⟩ := h.busy (by rw [hat]; exact nofun)
  exact
    { h with
      stage := trivial
      busy := fun hbusy => absurd rfl hbusy
      unloaded := fun hfalse => by
        rw [hloaded] at hfalse
        cases hfalse
      outbox := fun message hin => by
        rw [houtbox, List.nil_append, List.mem_singleton] at hin
        subst hin
        exact h.backed hat }

/-- Every step keeps the invariant. -/
theorem RefundInv.step {event : RefundEvent} (hstep : RefundStep w s event s') :
    RefundInv w s' := by
  cases hstep with
  | hydrate hidle hfirst hlisted hread => exact h.hydrate (.hydrate hidle hfirst hlisted hread)
  | mature hat =>
    have hstage := h.backed hat
    exact h.moveTo (by rw [hat]; exact nofun) hstage
  | classify hat hhonest =>
    exact h.gate hat fun hg => onReleaseFinality_backed hg h.solana hhonest
  | bitmap reads confirmed hat =>
    exact h.gate hat fun hg => onBitmap_backed hg.1 hg.2 _ _
  | checkpoint checkpoint hat =>
    exact h.gate hat fun hg => onCheckpoint_backed hg.1 hg.2 _ _
  | observed answer hat =>
    exact h.gate hat fun hg => onObserved_backed hg.1 hg.2 _ _
  | @bump entry reason last deadline now answer hat =>
    exact (h.bump entry.finalityCheckAttempts deadline now).gate hat
      fun hg => onBumped_backed hg.1 hg.2 answer
  | bumpFailed e hat => exact h.gate hat fun hg => onBumped_backed hg.1 hg.2 _
  | begin hat => exact h.begin (.begin hat)
  | attempt hat htask hevent hattempt => exact h.attempt (.attempt hat htask hevent hattempt)
  | finish hat hdone => exact h.finish (.finish hat hdone)
  | requeue hat =>
    have hstage := h.backed hat
    exact h.moveTo (by rw [hat]; exact nofun) hstage
  | resolve hat => exact h.resolve (.resolve hat)
  | write now hat => exact h.write (.write now hat)
  | writeFailed hat => exact h.write (.writeFailed hat)
  | crash => exact h.crash
  | gc => exact h.gc
  | indexer now hop => exact h.indexer hop now
  | channel hext hvalid hlands =>
    exact h.beside (h.core.advance (.advance hext hvalid hlands)) h.solana
      ⟨rfl, rfl, hext, .refl _, fun hs => hs⟩ rfl (List.Subset.refl _) rfl rfl
  | solana hext hvalid =>
    exact h.beside h.core hvalid ⟨rfl, rfl, .refl _, hext, fun hs => hs⟩ rfl (List.Subset.refl _)
      rfl rfl

end

/-- A fresh queue has the invariant. -/
theorem RefundSystem.Fresh.inv (h : s.Fresh w) : RefundInv w s where
  core := h.core.inv
  solana := h.solana
  releases := h.releases
  journaled := by simp [h.core.journal]
  remints := by simp [h.core.unsent]
  dead hne := absurd h.core.unclaimed hne
  stage := by
    rcases h.stage with hidle | ⟨_, entry, hqueued, hentry⟩
    · rw [hidle]
      trivial
    · rw [hqueued]
      exact hentry
  busy hbusy := ⟨(h.stage.resolve_left hbusy).1, h.outbox, .inl h.status⟩
  unloaded _ := h.outbox
  outbox := by simp [h.outbox]
  row := .inl h.status

/-- A broadcast remint that may still land, or has landed. -/
def AtLarge (w : RefundWorld) (s : RefundSystem) (x : Signature) : Prop :=
  x ∈ s.core.broadcast ∧ (s.core.channel.Landed x ∨ ¬ s.core.channel.Doomed w.valid x)

/-- A row whose remint is at large awaits its refund until that remint is recorded, unless an
answer gave it up: of a gate on the release, of the mint history, or of a classification that
covered this remint. -/
theorem remint_at_large_kept {first : RefundSystem} {events : List RefundEvent}
    (h0 : first.Fresh w) (hrun : Run (RefundStep w) first events s) {x : Signature}
    (hx : AtLarge w s x) :
    s.row.status = .pendingRemint ∨
    (s.row.status = .failedReminted ∧ s.row.landedRemintSignature = some x ∧
      s.core.channel.Landed x) ∨
    (s.row.status = .manualReview ∧
      ∃ answer, s.reviewed = some answer ∧ answer.GivesUp w.info s.core.broadcast) := by
  have hinv : RefundInv w s := hrun.stateInvariant h0.inv fun _ _ _ hi hs => hi.step hs
  obtain ⟨hsent, hlarge⟩ := hx
  have hclaimed := hinv.core.claims.outbox.sent x hsent
  have hvalid := hinv.core.claims.outbox.admitted
  rcases hinv.row with hrow | hrow | ⟨_, hlanded⟩ | ⟨hrow, answer, hanswer, hexcused⟩
  · exact .inl hrow
  · obtain ⟨y, hrecorded, hremint, hlanded⟩ := hinv.core.journal.refunded hrow
    have hx : s.core.channel.Landed x := by
      rcases hinv.core.journal.finished (by rw [hrow]; rfl) x hclaimed with hdoomed | hx
      · exact hlarge.resolve_right (not_not_intro hdoomed)
      · exact hx
    obtain rfl := hinv.core.claims.outbox.landed_unique (hinv.remints x hsent) hx hremint hlanded
    exact .inr (.inl ⟨hrow, hrecorded, hx⟩)
  · exact absurd (hinv.dead (List.ne_nil_of_mem hclaimed)) (hlanded.not_dead hinv.solana)
  · refine .inr (.inr ⟨hrow, answer, hanswer, hexcused.resolve_right fun hdoomed => ?_⟩)
    rcases hlarge with hlanded | halive
    · exact (hdoomed x hsent).not_landed hvalid hlanded
    · exact halive (hdoomed x hsent)

def queueWorld : RefundWorld where
  info := withdrawWorld.info
  valid c := Admissible .channel onlyRemint c
  remint x := x = onlyRemint.signature
  window := withdrawWorld.window
  nonce := 4
  validSolana c := Admissible .solana onlyRelease c
  releases := [onlyRelease]
  releases_ne_nil := nofun
  admissible _ hsig _ hc := List.mem_singleton.mp hsig ▸ hc

/-- The entry, which has been deferred twice. -/
def queuedRefund : PendingRemint :=
  ⟨some 4, [onlyRelease], "release failed", 2, false, none, none, 0⟩

/-- The release has failed and its refund is queued. -/
def queueStart : RefundSystem where
  core :=
    { store := ⟨{ Row.new 7 .withdrawal 40 (some 4) 0 with
        status := .pendingRemint, releaseJournal := [onlyRelease] }, false, none, []⟩
      channel := Ledger.Chain.empty
      tasks := fun _ => none
      claimed := []
      provenDead := []
      broadcast := [] }
  solana := releaseFailed
  loaded := true
  stage := .queued queuedRefund
  outbox := []
  reviewed := none

/-- The queue at its start. -/
theorem queueStart_fresh : queueStart.Fresh queueWorld where
  core :=
    { admitted := nofun
      unlanded := by
        simp [queueStart, Ledger.Chain.empty, Ledger.Chain.Landed, Ledger.Chain.Executed]
      journal := rfl
      unrefunded := nofun
      idle := fun _ => rfl
      unclaimed := rfl
      unproven := rfl
      unsent := rfl }
  solana := by
    simp [queueWorld, queueStart, Admissible, releaseFailed, onlyRelease, maxProcessingAge]
  status := rfl
  releases := rfl
  outbox := rfl
  stage := .inr ⟨rfl, queuedRefund, rfl, rfl⟩

/-- The release is dead, its bit is clear and its record is covered. -/
theorem gates_pass {events : List RefundEvent} {slot : Option ℕ}
    (hrun : Run (RefundStep queueWorld) queueStart events s)
    (hslot : slot = none ∨ slot = some 210) (hsolana : s.solana = releaseFailed)
    (hat : s.stage = .queued { queuedRefund with coverageSlot := slot }) :
    ∃ events, Run (RefundStep queueWorld) queueStart events { s with
      core := s.core.resume 0 .lookup
      stage := .attempt { queuedRefund with coverageSlot := some 210 }
        (.record .provenAbsent) } := by
  have hhonest : HonestSolana s.solana failureFinality [onlyRelease] := by
    rw [hsolana]
    exact failureFinality_honest
  have hmature := hrun.snoc (RefundStep.mature hat)
  have hdead := hmature.snoc (RefundStep.classify rfl hhonest)
  have hclear := hdead.snoc
    (RefundStep.bitmap clearReads ⟨.ok 210, fun _ => .ok ⟨0, [3]⟩⟩ rfl)
  rcases hslot with rfl | rfl
  all_goals
    have hcovered := hclear.snoc (RefundStep.checkpoint (.ok (some 300)) rfl)
    have habsent := hcovered.snoc (RefundStep.observed (.ok none) rfl)
    exact ⟨_, habsent.snoc (RefundStep.begin rfl)⟩

/-- The claim is about to be sent. -/
def queueSending : RefundSystem :=
  { queueStart with
    core :=
      { ((((queueStart.core.resume 0 .lookup).resume 0 .readJournal).resume 0 (.sign [])).resume 0
          (.claim [] onlyRemint)).resume 0 (.send onlyRemint) with
        store := ⟨{ queueStart.row with
          updatedAt := 1, remintJournal := [⟨onlyRemint, false⟩] }, false, none, []⟩
        claimed := [onlyRemint.signature] }
    stage := .attempt { queuedRefund with coverageSlot := some 210 } .other }

/-- The run up to the send. -/
theorem queueSending_run :
    ∃ events, Run (RefundStep queueWorld) queueStart events queueSending := by
  obtain ⟨_, hgates⟩ := gates_pass Run.nil (.inl rfl) rfl rfl
  have hlookup := hgates.snoc (RefundStep.attempt rfl rfl rfl
    (@RemintStep.lookup queueWorld.toRemintWorld _ 0 (.ok none) rfl nofun))
  have hjournal := hlookup.snoc (RefundStep.attempt rfl rfl rfl
    (@RemintStep.readJournal queueWorld.toRemintWorld _ 0 (.ok []) rfl
      fun _ h => (Except.ok.inj h).symm))
  have hsigned := hjournal.snoc (RefundStep.attempt rfl rfl rfl
    (@RemintStep.sign queueWorld.toRemintWorld _ 0 [] (.ok onlyRemint) rfl
      fun _ h => Except.ok.inj h ▸ ⟨rfl, fun _ hc => hc⟩))
  have hclaimed := hsigned.snoc (RefundStep.attempt rfl rfl rfl
    (@RemintStep.claim queueWorld.toRemintWorld _ 0 [] onlyRemint 1 .claimed _
    (.ok .claimed) rfl rfl
      fun _ h => (Except.ok.inj h).symm))
  exact ⟨_, hclaimed⟩

/-- The refund lands, is confirmed and recorded. -/
theorem remint_at_large_kept_recorded :
    ∃ events s, Run (RefundStep queueWorld) queueStart events s ∧
      s.row.status = .failedReminted ∧
      s.row.landedRemintSignature = some onlyRemint.signature := by
  obtain ⟨_, hsending⟩ := queueSending_run
  have hsent := hsending.snoc (RefundStep.attempt rfl rfl rfl
    (@RemintStep.send queueWorld.toRemintWorld _ 0 onlyRemint (.ok ()) rfl))
  have hlanded := hsent.snoc (RefundStep.channel (c := onlyRemintLanded) List.nil_prefix
    (by simp [queueWorld, Admissible, onlyRemintLanded, onlyRemint])
    (by rintro x rfl -; exact List.mem_cons_self))
  have hconfirmed := hlanded.snoc (RefundStep.attempt rfl rfl rfl
    (@RemintStep.confirm queueWorld.toRemintWorld _ 0 onlyRemint
      (fun _ => .ok (some ⟨true, none, 230⟩)) rfl
      fun _ _ _ _ _ => ⟨_, List.mem_singleton_self _, List.mem_singleton_self _⟩))
  have hrecorded := hconfirmed.snoc (RefundStep.attempt rfl rfl rfl
    (@RemintStep.record queueWorld.toRemintWorld _ 0 onlyRemint.signature 0 2 _ (.ok ()) rfl rfl))
  have hlarge := remint_at_large_kept queueStart_fresh hrecorded (x := onlyRemint.signature)
    ⟨List.mem_cons_self, .inl ⟨_, List.mem_singleton_self _, List.mem_singleton_self _⟩⟩
  rcases hlarge with hrow | ⟨hrow, hsignature, _⟩ | ⟨hrow, _⟩
  · cases hrow
  · exact ⟨_, _, hrecorded, hrow, hsignature⟩
  · cases hrow

/-- While its blockhash is valid a sent refund may land. -/
theorem onlyRemint_may_land :
    ¬ Ledger.Chain.empty.Doomed queueWorld.valid onlyRemint.signature := by
  intro hdoomed
  refine hdoomed onlyRemintLanded List.nil_prefix ?_
    ⟨_, List.mem_singleton_self _, List.mem_singleton_self _⟩
  simp [queueWorld, Admissible, onlyRemintLanded, onlyRemint]

/-- The send was not acknowledged, and the next pass hands the row to review: once because the
remint cannot be classified, once because the release could not be for the third time. -/
theorem remint_at_large_reviewed :
    (∃ events s, Run (RefundStep queueWorld) queueStart events s ∧
      AtLarge queueWorld s onlyRemint.signature ∧
      RemintSystem.LiveEntry s.row onlyRemint.signature ∧
      s.row.status = .manualReview ∧
      ∃ reason, s.reviewed = some (.remints [onlyRemint] (.uncertain reason))) ∧
    (∃ events s, Run (RefundStep queueWorld) queueStart events s ∧
      AtLarge queueWorld s onlyRemint.signature ∧
      RemintSystem.LiveEntry s.row onlyRemint.signature ∧
      s.row.status = .manualReview ∧
      ∃ reason, s.reviewed = some (.release (.uncertain reason))) := by
  obtain ⟨_, hsending⟩ := queueSending_run
  have hsent := hsending.snoc (RefundStep.attempt rfl rfl rfl
    (@RemintStep.send queueWorld.toRemintWorld _ 0 onlyRemint (.error "timeout") rfl))
  have hqueued := (hsent.snoc (RefundStep.finish rfl rfl)).snoc (RefundStep.requeue rfl)
  constructor
  · obtain ⟨_, hgates⟩ := gates_pass hqueued (.inr rfl) rfl rfl
    have hlookup := hgates.snoc (RefundStep.attempt rfl rfl rfl
      (@RemintStep.lookup queueWorld.toRemintWorld _ 0 (.ok none) rfl nofun))
    have hjournal := hlookup.snoc (RefundStep.attempt rfl rfl rfl
      (@RemintStep.readJournal queueWorld.toRemintWorld _ 0 (.ok [onlyRemint]) rfl
        fun _ h => (Except.ok.inj h).symm))
    have hunclear := hjournal.snoc (RefundStep.attempt rfl rfl rfl
      (@RemintStep.classify queueWorld.toRemintWorld _ 0 [onlyRemint]
        ⟨⟨.error "Method not found", .error "", .error "", .error ""⟩, none, .channel⟩ rfl rfl rfl
        nofun))
    have hresolved := (hunclear.snoc (RefundStep.finish rfl rfl)).snoc (RefundStep.resolve rfl)
    have hwritten := hresolved.snoc (RefundStep.write 2 rfl)
    exact ⟨_, _, hwritten, ⟨List.mem_cons_self, .inr onlyRemint_may_land⟩,
      ⟨_, List.mem_cons_self, rfl, rfl⟩, rfl, _, rfl⟩
  · have hmature := hqueued.snoc (RefundStep.mature rfl)
    have hunclear := hmature.snoc (@RefundStep.classify queueWorld _ _ _
      ⟨⟨.error "", .error "", .error "connection refused", .error ""⟩, none, .solana⟩ rfl
      ⟨rfl, nofun, nofun⟩)
    have hwritten := (hunclear.snoc (RefundStep.resolve rfl)).snoc (RefundStep.write 2 rfl)
    exact ⟨_, _, hwritten, ⟨List.mem_cons_self, .inr onlyRemint_may_land⟩,
      ⟨_, List.mem_cons_self, rfl, rfl⟩, rfl, _, rfl⟩

end PrivateChannels.Operator
