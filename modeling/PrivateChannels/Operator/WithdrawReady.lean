import PrivateChannels.Operator.WithdrawSystem

/-!
# What the withdraw sender relies on

A refund is claimed only on a row that has left the release path, so its releases are all
claimed by then, and the first gate sees each of them dead.
-/

namespace PrivateChannels.Operator

open Storage
open Ledger (Accounted)

variable {w : WithdrawWorld} {s t : WithdrawSystem} {mem : SenderMemory}

namespace WithdrawSystem

/-- The row has left the release path, and no statement returns it there. -/
def Closed (s : WithdrawSystem) : Prop := s.store.row.status.active = false

/-- The row is not terminal. -/
def Unfinished (s : WithdrawSystem) : Prop := s.store.row.status.terminal = false

/-- No release claimed so far can land any more. -/
def ReleasesDoomed (w : WithdrawWorld) (s : WithdrawSystem) : Prop :=
  ∀ x ∈ s.releaseClaims, s.solana.Doomed w.validSolana x

/-- These entries are releases of the nonce and name every claim that may land. -/
structure Covers (w : WithdrawWorld) (s : WithdrawSystem) (pending : List PendingSig) : Prop where
  signed : ∀ p ∈ pending, w.SignedRelease p
  claims : ∀ x ∈ s.releaseClaims,
    (∃ p ∈ pending, p.signature = x) ∨ s.solana.Doomed w.validSolana x

theorem closed_of_pendingRemint (h : s.store.row.status = .pendingRemint) : s.Closed := by
  rw [Closed, h]
  rfl

end WithdrawSystem

/-- A queued refund names every release that may land. -/
structure PendingRemint.Sound (w : WithdrawWorld) (s : WithdrawSystem) (entry : PendingRemint) :
    Prop where
  closed : s.Closed
  covers : s.Unfinished → s.Covers w entry.signatures

/-- A queued refund past the first gate. -/
structure PendingRemint.Cleared (w : WithdrawWorld) (s : WithdrawSystem) (entry : PendingRemint) :
    Prop extends PendingRemint.Sound w s entry where
  doomed : s.Unfinished → s.ReleasesDoomed w

/-- A status message whose write is one of the shared ones. -/
def TransactionStatusUpdate.Shared (update : TransactionStatusUpdate) : Prop :=
  update.alertOnly = false → sharedOp (.updateTransactionStatus update.status none 0 none) = true

/-- What a gate has proved. -/
def GateTask.Sound (w : WithdrawWorld) (s : WithdrawSystem) : GateTask → Prop
  | .classify entry | .requeue entry | .bump entry _ => entry.Sound w s
  | .bitmap entry | .checkpoint entry _ | .observed entry _ | .remint entry => entry.Cleared w s
  | .resolved update _ => update.Shared

/-- A refund attempt sends only what it was granted. -/
def RemintTask.Granted (s : WithdrawSystem) : RemintTask → Prop
  | .send sig => sig.signature ∈ s.remintClaims
  | .done _ update => ∀ u, update = some u → u.Shared
  | _ => True

/-- A refused task was refused by the program on chain. -/
def SenderTask.Sound (w : WithdrawWorld) (s : WithdrawSystem) : SenderTask → Prop
  | .fence sig | .claim sig => w.SignedRelease sig
  | .send sig => sig.signature ∈ s.releaseClaims
  | .generation x | .parkRefused x _ | .forget x => s.solana.Doomed w.validSolana x
  | .handoff _ pending _ | .handoffStatus _ pending | .handoffAgain _ pending =>
    s.Unfinished → s.Covers w pending
  | .hydrate _ _ => s.Closed
  | .gate task => task.Sound w s
  | .remint entry task => entry.Cleared w s ∧ task.Granted s
  | .write op => sharedOp op = true
  | _ => True

/-- The sender may stand at this point with this memory. -/
structure Ready (w : WithdrawWorld) (s : WithdrawSystem) (at' : SenderMemory × SenderTask) :
    Prop where
  queue : ∀ entry ∈ at'.1.pendingRemints, entry.Sound w s
  task : at'.2.Sound w s

/-- The invariant but for the sender. -/
structure WithdrawCore (w : WithdrawWorld) (s : WithdrawSystem) : Prop where
  admitted : w.validSolana s.solana
  releases : Accounted w.release s.solana s.releaseClaims s.releaseSent
  remints : Accounted w.remint s.channel s.remintClaims s.remintSent
  covered : s.Unfinished → s.Covers w s.store.row.releaseJournal
  refunding : s.remintClaims ≠ [] → s.Closed ∧ s.ReleasesDoomed w
  sweeps : ∀ i op, s.sweeps i = some (.write op) → sharedOp op = true

/-- The invariant of a withdrawal's runs. -/
structure WithdrawInv (w : WithdrawWorld) (s : WithdrawSystem) : Prop
    extends WithdrawCore w s where
  ready : Ready w s (s.memory, s.sender)

/-- A fresh withdrawal has the invariant. -/
theorem WithdrawSystem.Fresh.inv (h : s.Fresh w) : WithdrawInv w s where
  admitted := h.solana
  releases := by
    rw [h.noReleaseClaims, h.noReleaseSent]
    exact .init h.unreleased
  remints := by
    rw [h.noRemintClaims, h.noRemintSent]
    exact .init h.unreminted
  covered := fun _ => ⟨by simp [h.journal], by simp [h.noReleaseClaims]⟩
  refunding := fun hne => absurd h.noRemintClaims hne
  sweeps := fun i op hi => by simp [h.sweeps i] at hi
  ready := ⟨by simp [h.memory, SenderMemory.empty], by rw [h.sender]; trivial⟩

/-- The row closes or finishes, Solana advances and remints are claimed. -/
structure WithdrawSystem.Carries (s t : WithdrawSystem) : Prop where
  closed : s.Closed → t.Closed
  unfinished : t.Unfinished → s.Unfinished
  releaseClaims : t.releaseClaims = s.releaseClaims
  solana : t.solana.Extends s.solana
  remintClaims : ∀ x ∈ s.remintClaims, x ∈ t.remintClaims

namespace WithdrawSystem.Carries

variable (h : s.Carries t)
include h

theorem releasesDoomed (hd : s.ReleasesDoomed w) : t.ReleasesDoomed w := by
  intro x hx
  rw [h.releaseClaims] at hx
  exact (hd x hx).mono h.solana

theorem covers {pending : List PendingSig} (hc : s.Covers w pending) : t.Covers w pending := by
  refine ⟨hc.signed, fun x hx => ?_⟩
  rw [h.releaseClaims] at hx
  exact (hc.claims x hx).imp_right (·.mono h.solana)

theorem entry {entry : PendingRemint} (he : entry.Sound w s) : entry.Sound w t :=
  ⟨h.closed he.closed, fun hu => h.covers (he.covers (h.unfinished hu))⟩

theorem cleared {entry : PendingRemint} (he : entry.Cleared w s) : entry.Cleared w t :=
  ⟨h.entry he.toSound, fun hu => h.releasesDoomed (he.doomed (h.unfinished hu))⟩

theorem gate {task : GateTask} (hs : task.Sound w s) : task.Sound w t := by
  cases task with
  | classify entry | requeue entry | bump entry _ => exact h.entry hs
  | bitmap entry | checkpoint entry _ | observed entry _ | remint entry => exact h.cleared hs
  | resolved update _ => exact hs

theorem remintTask {task : RemintTask} (hs : task.Granted s) : task.Granted t := by
  cases task with
  | send sig => exact h.remintClaims _ hs
  | done outcome update => exact hs
  | _ => trivial

theorem task {task : SenderTask} (hs : task.Sound w s) : task.Sound w t := by
  cases task with
  | fence sig | claim sig => exact hs
  | send sig => simpa only [SenderTask.Sound, h.releaseClaims] using hs
  | generation x | parkRefused x _ | forget x => exact Ledger.Chain.Doomed.mono hs h.solana
  | handoff _ pending _ | handoffStatus _ pending | handoffAgain _ pending =>
    exact fun hu => h.covers (hs (h.unfinished hu))
  | hydrate _ _ => exact h.closed hs
  | gate task => exact h.gate hs
  | remint entry task => exact ⟨h.cleared hs.1, h.remintTask hs.2⟩
  | write op => exact hs
  | _ => trivial

theorem ready {at' : SenderMemory × SenderTask} (hr : Ready w s at') : Ready w t at' :=
  ⟨fun entry he => h.entry (hr.queue entry he), h.task hr.task⟩

end WithdrawSystem.Carries

/-- Nothing the sender relies on changed. -/
theorem WithdrawSystem.Carries.of_same (hrow : t.store.row.status = s.store.row.status)
    (hreleases : t.releaseClaims = s.releaseClaims) (hsolana : t.solana = s.solana)
    (hremints : t.remintClaims = s.remintClaims) : s.Carries t where
  closed := fun hc => by simpa only [WithdrawSystem.Closed, hrow] using hc
  unfinished := fun hu => by simpa only [WithdrawSystem.Unfinished, hrow] using hu
  releaseClaims := hreleases
  solana := hsolana ▸ .refl _
  remintClaims := fun _ hx => hremints ▸ hx

section Gates

variable {entry : PendingRemint}

theorem deferOrEscalate_sound (h : entry.Sound w s) (reason : String) :
    (deferOrEscalate entry reason).Sound w s := by
  simp only [deferOrEscalate]
  split
  · exact fun _ => rfl
  · exact ⟨h.closed, h.covers⟩

theorem waitOrDefer_sound (h : entry.Sound w s) (reason : String) :
    (waitOrDefer entry reason).Sound w s := by
  unfold waitOrDefer
  split
  · exact ⟨h.closed, h.covers⟩
  · exact deferOrEscalate_sound h reason

theorem onBumped_sound (h : entry.Sound w s) (answer : Except String Unit) :
    (onBumped entry answer).Sound w s := by
  cases answer with
  | ok u => exact h
  | error e => exact fun _ => rfl

/-- A dead verdict over entries that name every claim that may land dooms all of
them. -/
theorem WithdrawSystem.Covers.releasesDoomed {pending : List PendingSig} {finality : FinalityRpc}
    (hcovers : s.Covers w pending) (hvalid : w.validSolana s.solana)
    (hhonest : HonestSolana s.solana finality pending)
    (hdead : classifySignatures finality pending = .dead) : s.ReleasesDoomed w := by
  intro x hx
  rcases hcovers.claims x hx with ⟨p, hp, rfl⟩ | hdoomed
  · exact (classifySignatures_doomed hvalid (fun p hp => (hcovers.signed p hp).window)
      hhonest.chain hhonest.primary hhonest.fallback).2 hdead p hp
  · exact hdoomed

/-- The first gate lets an entry through only when no release can land. -/
theorem onReleaseFinality_sound {finality : FinalityRpc} (h : entry.Sound w s)
    (hvalid : w.validSolana s.solana) (hhonest : HonestSolana s.solana finality entry.signatures) :
    (onReleaseFinality entry (classifySignatures finality entry.signatures)).Sound w s := by
  cases hverdict : classifySignatures finality entry.signatures with
  | landed x => exact fun _ => rfl
  | live reason => exact waitOrDefer_sound h reason
  | uncertain reason => exact deferOrEscalate_sound h reason
  | dead => exact ⟨h, fun hu => (h.covers hu).releasesDoomed hvalid hhonest hverdict⟩

/-- After the bitmap gate. -/
theorem onBitmap_sound (h : entry.Cleared w s) (answer : BitmapVerdict × Option ℕ) :
    (onBitmap entry answer).Sound w s := by
  obtain ⟨verdict, closedAt⟩ := answer
  have hsame : ({ entry with
      coverageSlot := entry.coverageSlot.orElse fun _ => closedAt } : PendingRemint).Cleared w s :=
    ⟨⟨h.closed, h.covers⟩, h.doomed⟩
  cases verdict with
  | blocked reason => exact fun _ => rfl
  | clear => exact hsame
  | unfinalized reason => exact deferOrEscalate_sound hsame.toSound reason
  | pending reason =>
    simp only [onBitmap]
    split
    · exact hsame
    · exact waitOrDefer_sound hsame.toSound reason
  | unknown reason =>
    simp only [onBitmap]
    split
    · exact hsame
    · exact deferOrEscalate_sound hsame.toSound reason

/-- Reading the checkpoint keeps the entry's signatures. -/
theorem releaseCoverage_signatures (nonce : ℕ) (pending : Bool)
    (checkpoint : Except String (Option ℕ)) :
    (releaseCoverage entry nonce pending checkpoint).2.signatures = entry.signatures := by
  unfold releaseCoverage
  repeat' split
  all_goals rfl

theorem onCheckpoint_sound (h : entry.Cleared w s) (pending : Bool)
    (checkpoint : Except String (Option ℕ)) :
    (onCheckpoint entry pending checkpoint).Sound w s := by
  unfold onCheckpoint
  split
  · exact h
  · next nonce _ =>
    refine ⟨⟨h.closed, fun hu => ?_⟩, h.doomed⟩
    change s.Covers w (releaseCoverage entry nonce.toNat pending checkpoint).2.signatures
    rw [releaseCoverage_signatures]
    exact h.covers hu

theorem onObserved_sound (h : entry.Cleared w s) (coverage : ReleaseCoverage)
    (answer : Except String (Option ObservedRelease)) :
    (onObserved entry coverage answer).Sound w s := by
  unfold onObserved
  split
  · exact fun _ => rfl
  · exact waitOrDefer_sound h.toSound _
  · exact deferOrEscalate_sound h.toSound _
  · exact h

end Gates

theorem settleAttempt_granted (info : WithdrawalRemintInfo) (outcome : RemintAttempt) :
    (settleAttempt info outcome).Granted s := by
  cases outcome with
  | confirmed x => trivial
  | deferPreBroadcast reason | deferInFlight reason | abandoned => exact nofun
  | releaseObserved reason | failed reason =>
    rintro u hu
    cases hu
    exact fun _ => rfl

theorem remintedAlert_shared (x : Signature) (reason : String) : (remintedAlert x reason).Shared :=
  nofun

variable {sig : StoredSig}

/-- A send follows only a granted claim. -/
theorem onClaim_granted {info : WithdrawalRemintInfo} {answer : Except String RemintClaim}
    (hclaimed : answer = .ok .claimed → sig.signature ∈ s.remintClaims) :
    (onClaim info sig answer).Granted s := by
  unfold onClaim
  split
  · exact hclaimed rfl
  all_goals exact settleAttempt_granted _ _

theorem onSent_granted (info : WithdrawalRemintInfo) (sig : StoredSig)
    (answer : Except String Unit) :
    (onSent info sig answer).Granted s := by
  unfold onSent
  split
  · trivial
  · exact settleAttempt_granted _ _

theorem onRecorded_granted (x : Signature) (attempt : ℕ) (answer : Except String Unit) :
    (onRecorded x attempt answer).Granted s := by
  unfold onRecorded
  repeat' split
  all_goals trivial

theorem onReadBack_granted (info : WithdrawalRemintInfo) (x : Signature) (attempt : ℕ) (e : String)
    (answer : Except String TransactionStatus) :
    (onReadBack info x attempt e answer).Granted s := by
  unfold onReadBack
  repeat' split
  · trivial
  · exact nofun
  · exact fun u hu => Option.some.inj hu ▸ remintedAlert_shared _ _
  · trivial
  · exact nofun

theorem onCleared_granted (info : WithdrawalRemintInfo) (x : Signature) :
    (onCleared info x).Granted s :=
  fun _ hu => Option.some.inj hu ▸ remintedAlert_shared _ _

/-- No move short of a claim leads to a send. -/
theorem RemintMove.granted {info : WithdrawalRemintInfo} {task task' : RemintTask}
    (h : RemintMove info task task') : task'.Granted s := by
  cases h with
  | lookup answer =>
    unfold onLookup
    repeat' split
    all_goals first | trivial | exact settleAttempt_granted _ _
  | readJournal answer =>
    unfold onJournal
    split
    all_goals first | trivial | exact settleAttempt_granted _ _
  | classify stored verdict =>
    unfold onFinality
    repeat' split
    all_goals first | trivial | exact settleAttempt_granted _ _
  | countRejected stored answer =>
    unfold onRejected
    repeat' split
    all_goals first | trivial | exact settleAttempt_granted _ _
  | sign dead answer =>
    unfold onSigned
    split
    all_goals first | trivial | exact settleAttempt_granted _ _
  | claimFailed dead sig e => exact onClaim_granted nofun
  | confirm sig answer =>
    unfold onConfirmation
    split
    all_goals exact settleAttempt_granted _ _
  | recordFailed x attempt e => exact onRecorded_granted x attempt _
  | readBack x attempt e answer => exact onReadBack_granted _ x attempt e answer
  | clear x => exact onCleared_granted _ x

section Answers

theorem fencedOutcome_sound (mem : SenderMemory) {status : TransactionStatus}
    (h : sharedOp (.updateTransactionStatus status none 0 none) = true) :
    (fencedOutcome mem status).Sound w s := by
  unfold fencedOutcome
  split
  · rfl
  · rfl
  · exact h

variable (hqueue : ∀ entry ∈ mem.pendingRemints, entry.Sound w s)
include hqueue

/-- A sound gate leads to a sound point. -/
theorem onGateTask_ready (task : GateTask) (h : task.Sound w s) :
    Ready w s (onGateTask mem task) := by
  cases task with
  | requeue entry =>
    refine ⟨fun e he => ?_, trivial⟩
    rcases List.mem_append.mp he with he | he
    · exact hqueue e he
    · exact List.mem_singleton.mp he ▸ h
  | remint entry => exact ⟨hqueue, h, trivial⟩
  | resolved update counterpart =>
    refine ⟨hqueue, ?_⟩
    cases halert : update.alertOnly with
    | true => simp only [onGateTask, halert, if_true]; trivial
    | false =>
      simp only [onGateTask, halert, Bool.false_eq_true, if_false]
      exact h halert
  | classify entry | bitmap entry | checkpoint entry _ | observed entry _ | bump entry _ =>
    exact ⟨hqueue, h⟩

/-- A granted attempt goes on. -/
theorem onRemintTask_ready {entry : PendingRemint} {task : RemintTask} (hentry : entry.Cleared w s)
    (h : task.Granted s) : Ready w s (onRemintTask mem entry task) := by
  cases task with
  | done outcome update =>
    cases outcome with
    | resolved =>
      cases update with
      | none => exact ⟨hqueue, trivial⟩
      | some u => exact onGateTask_ready hqueue (.resolved u none) (h u rfl)
    | deferPreBroadcast reason =>
      exact onGateTask_ready hqueue _ (deferOrEscalate_sound hentry.toSound reason)
    | deferInFlight reason => exact onGateTask_ready hqueue (.requeue entry) hentry.toSound
  | _ => exact ⟨hqueue, hentry, h⟩

theorem sendManualReview_ready : Ready w s (sendManualReview mem) :=
  ⟨hqueue, fencedOutcome_sound mem rfl⟩

theorem deferRemintAfterFailure_ready (error : String) (refused : Bool) :
    Ready w s (deferRemintAfterFailure mem error refused) := by
  unfold deferRemintAfterFailure
  split
  · exact ⟨hqueue, trivial⟩
  · exact ⟨hqueue, fencedOutcome_sound mem rfl⟩

theorem sendAndConfirm_ready (cap : ℕ) : Ready w s (sendAndConfirm mem cap) := by
  unfold sendAndConfirm
  split
  · exact deferRemintAfterFailure_ready hqueue _ _
  · exact ⟨hqueue, trivial⟩

theorem onWindow_ready (window : Escrow.Window) (nonce : UInt64) (cap : ℕ) (cached : Bool)
    (read : Except String ℕ) : Ready w s (onWindow window nonce mem cap cached read) := by
  unfold onWindow
  repeat' split
  · exact sendAndConfirm_ready hqueue cap
  · exact sendAndConfirm_ready hqueue cap
  · exact ⟨hqueue, trivial⟩
  · exact deferRemintAfterFailure_ready hqueue _ _

theorem onReleaseSigned_ready {answer : Except String StoredSig}
    (hsigned : ∀ sig, answer = .ok sig → w.SignedRelease sig) :
    Ready w s (onReleaseSigned mem answer) := by
  unfold onReleaseSigned
  repeat' split
  · exact ⟨hqueue, hsigned _ rfl⟩
  · exact ⟨hqueue, trivial⟩
  · exact ⟨hqueue, trivial⟩
  · exact deferRemintAfterFailure_ready hqueue _ _

theorem onRequeued_ready (reason : String) (answer : Except String RequeueOutcome) :
    Ready w s (onRequeued mem reason answer) := by
  unfold onRequeued
  split
  · exact deferRemintAfterFailure_ready (by exact hqueue) reason false
  all_goals exact ⟨hqueue, trivial⟩

theorem onReleaseFence_ready (hsigned : w.SignedRelease sig) (isOpen : Bool) :
    Ready w s (onReleaseFence mem sig isOpen) := by
  unfold onReleaseFence
  split
  · exact ⟨hqueue, hsigned⟩
  · refine ⟨hqueue, ?_⟩
    cases mem.lease with
    | none => trivial
    | some lease => rfl

/-- A release is sent only after a committed claim. -/
theorem onReleaseClaim_ready {isOpen : Bool} {answer : Except String (Option Stamp)}
    (hclaimed : ∀ lease, answer = .ok (some lease) → sig.signature ∈ s.releaseClaims) :
    Ready w s (onReleaseClaim mem sig isOpen answer) := by
  unfold onReleaseClaim
  repeat' split
  · exact ⟨hqueue, hclaimed _ rfl⟩
  all_goals exact ⟨hqueue, trivial⟩

theorem onReleaseHaltRead_ready (answer : Except String Bool) :
    Ready w s (onReleaseHaltRead mem answer) := by
  unfold onReleaseHaltRead
  split
  · refine ⟨hqueue, ?_⟩
    cases mem.lease with
    | none => trivial
    | some lease => rfl
  · exact ⟨hqueue, trivial⟩

theorem onReleaseSent_ready (sig : StoredSig) (answer : Except String Unit) :
    Ready w s (onReleaseSent mem sig answer) := by
  unfold onReleaseSent
  split
  · exact ⟨hqueue, trivial⟩
  · exact deferRemintAfterFailure_ready hqueue _ _

/-- A refusal names a signature that failed on chain. -/
theorem onReleaseConfirmation_ready {cap : ℕ}
    {answer : Except String ConfirmationResult}
    (hfailed : ∀ e slot, answer = .ok (.failed e slot) →
      s.solana.Doomed w.validSolana sig.signature) :
    Ready w s (onReleaseConfirmation mem cap sig answer) := by
  unfold onReleaseConfirmation
  repeat' split
  · exact ⟨hqueue, trivial⟩
  · exact ⟨hqueue, trivial⟩
  · exact ⟨hqueue, trivial⟩
  · exact ⟨hqueue, hfailed _ _ rfl⟩
  · exact deferRemintAfterFailure_ready hqueue _ _
  · exact sendAndConfirm_ready hqueue cap
  · exact ⟨hqueue, trivial⟩
  · exact deferRemintAfterFailure_ready hqueue _ _
  · exact deferRemintAfterFailure_ready hqueue _ _

theorem onUsedJournal_ready (answer : Except String (List PendingSig)) :
    Ready w s (onUsedJournal mem answer) := by
  unfold onUsedJournal
  split
  · exact ⟨hqueue, trivial⟩
  · exact sendManualReview_ready hqueue
  · exact ⟨hqueue, trivial⟩

theorem onUsedFinality_ready (verdict : SigFinality) : Ready w s (onUsedFinality mem verdict) := by
  unfold onUsedFinality
  split
  · exact ⟨hqueue, trivial⟩
  · exact deferRemintAfterFailure_ready hqueue _ _
  · exact deferRemintAfterFailure_ready hqueue _ _
  · exact sendManualReview_ready hqueue

theorem onGeneration_ready (window : Escrow.Window) (nonce : UInt64) {x : Signature}
    (hdoomed : s.solana.Doomed w.validSolana x) (read : Except String ℕ) :
    Ready w s (onGeneration window nonce mem x read) := by
  unfold onGeneration
  repeat' split
  · exact ⟨hqueue, hdoomed⟩
  · exact deferRemintAfterFailure_ready hqueue _ _
  · exact ⟨hqueue, hdoomed⟩

theorem onParked_ready (answer : Except String Bool) : Ready w s (onParked mem answer) := by
  unfold onParked
  split <;> exact ⟨hqueue, trivial⟩

theorem onParkedRefused_ready {x : Signature} (hdoomed : s.solana.Doomed w.validSolana x)
    (forget : Bool) (answer : Except String Bool) :
    Ready w s (onParkedRefused mem x forget answer) := by
  unfold onParkedRefused
  repeat' split
  · exact ⟨hqueue, hdoomed⟩
  · exact ⟨hqueue, trivial⟩
  · exact ⟨hqueue, trivial⟩

theorem onDrain_ready (window : Escrow.Window) (nonce : UInt64) (read : Option ℕ) :
    Ready w s (onDrain window nonce mem read) := by
  unfold onDrain
  repeat' split
  all_goals exact ⟨hqueue, trivial⟩

theorem onUnparked_ready (cap : ℕ) (answer : Except String (Option Stamp)) :
    Ready w s (onUnparked mem cap answer) := by
  unfold onUnparked
  split
  · exact sendAndConfirm_ready (by exact hqueue) cap
  all_goals exact ⟨hqueue, trivial⟩

variable {failure : Failure} {pending : List PendingSig} {answer : Except String (List PendingSig)}

theorem onDeferJournal_ready (failure : Failure)
    (hcovers : ∀ pending, answer = .ok pending → s.Unfinished → s.Covers w pending) :
    Ready w s (onDeferJournal mem failure answer) := by
  unfold onDeferJournal
  split
  · exact ⟨hqueue, trivial⟩
  · exact sendManualReview_ready hqueue
  · exact ⟨hqueue, hcovers _ rfl⟩

/-- An entry joins the queue on a row that has left the release path. -/
theorem queueRuntimeRemint_ready (nonce : UInt64) (hclosed : s.Closed)
    (hcovers : s.Unfinished → s.Covers w pending) :
    Ready w s (queueRuntimeRemint nonce mem failure pending) := by
  refine ⟨fun entry he => ?_, trivial⟩
  rcases List.mem_append.mp he with he | he
  · exact hqueue entry he
  · exact List.mem_singleton.mp he ▸ ⟨hclosed, hcovers⟩

variable {nonce : UInt64}

theorem onHandoff_ready {tries : ℕ} {answer : Except String Unit}
    (hclosed : answer = .ok () → s.Closed) (hcovers : s.Unfinished → s.Covers w pending) :
    Ready w s (onHandoff nonce mem failure pending tries answer) := by
  unfold onHandoff
  repeat' split
  · exact queueRuntimeRemint_ready hqueue nonce (hclosed rfl) hcovers
  · exact ⟨hqueue, hcovers⟩
  · exact ⟨hqueue, hcovers⟩

/-- After the handoff. -/
theorem onHandoffStatus_ready {answer : Except String (Option TransactionStatus)}
    (hread : ∀ status, answer = .ok (some status) → status = s.store.row.status)
    (hcovers : s.Unfinished → s.Covers w pending) :
    Ready w s (onHandoffStatus nonce mem failure pending answer) := by
  unfold onHandoffStatus
  split
  · exact queueRuntimeRemint_ready hqueue nonce
      (WithdrawSystem.closed_of_pendingRemint (hread _ rfl).symm) hcovers
  · exact ⟨hqueue, trivial⟩
  · exact ⟨hqueue, trivial⟩
  · exact ⟨hqueue, hcovers⟩
  · exact ⟨hqueue, hcovers⟩

theorem onHandoffAgain_ready {answer : Except String Unit}
    (hclosed : answer = .ok () → s.Closed) (hcovers : s.Unfinished → s.Covers w pending) :
    Ready w s (onHandoffAgain nonce mem failure pending answer) := by
  unfold onHandoffAgain
  split
  · exact queueRuntimeRemint_ready hqueue nonce (hclosed rfl) hcovers
  · exact ⟨hqueue, trivial⟩

/-- After the journal read. -/
theorem onHydrate_ready {attempts : ℕ} {refused : Bool} (hclosed : s.Closed)
    (hcovers : ∀ pending, answer = .ok pending → s.Unfinished → s.Covers w pending) :
    Ready w s (onHydrate nonce mem attempts refused answer) := by
  unfold onHydrate
  split
  · exact ⟨hqueue, trivial⟩
  · exact onGateTask_ready hqueue (.resolved _ none) fun _ => rfl
  · refine ⟨fun entry he => ?_, trivial⟩
    rcases List.mem_append.mp he with he | he
    · exact hqueue entry he
    · exact List.mem_singleton.mp he ▸ ⟨hclosed, hcovers _ rfl⟩

end Answers

end PrivateChannels.Operator
