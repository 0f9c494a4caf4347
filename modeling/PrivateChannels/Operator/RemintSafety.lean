import PrivateChannels.Operator.RemintSystem

/-!
# At most one remint lands

While the row is open its journal holds every claimed signature, and at most one entry is
not superseded. Once it is finished, every claimed signature has landed or is doomed.
-/

namespace PrivateChannels.Operator

open Storage
open Ledger (Disciplined)

variable {w : RemintWorld} {s s' : RemintSystem} {stored : List StoredSig} {dead : List Signature}
  {sig : StoredSig} {x : Signature}

/-- What a task may rely on at its suspension point. -/
def RemintTask.Sound (w : RemintWorld) (s : RemintSystem) : RemintTask → Prop
  | .classify stored => ∀ sig ∈ stored, w.Signed sig
  | .countRejected stored => ∀ sig ∈ stored, sig.signature ∈ s.provenDead
  | .sign dead => ∀ x ∈ dead, x ∈ s.provenDead
  | .claim dead sig =>
    (∀ x ∈ dead, x ∈ s.provenDead) ∧ w.Signed sig
  | .send sig =>
    sig.signature ∈ s.claimed ∧ sig.signature ∉ s.broadcast ∧ w.remint sig.signature
  | .confirm sig => w.remint sig.signature
  | .record x _ | .readBack x _ _ => w.remint x ∧ s.channel.Landed x
  | .clear _ => s.store.row.status = .failedReminted
  | .lookup | .readJournal | .done _ _ => True

/-- The signatures and the channel. -/
structure ClaimsInv (w : RemintWorld) (s : RemintSystem) : Prop where
  outbox : Disciplined w.valid w.remint s.channel s.claimed s.broadcast
  dead : ∀ x ∈ s.provenDead, s.channel.Doomed w.valid x

/-- The row and its journal. -/
structure JournalInv (w : RemintWorld) (s : RemintSystem) : Prop where
  signed : ∀ e ∈ s.store.row.remintJournal, w.Signed e.toStoredSig
  oneLive : s.store.row.remintJournal.Pairwise fun e e' =>
    e.superseded = true ∨ e'.superseded = true
  retired : ∀ e ∈ s.store.row.remintJournal, e.superseded = true → e.signature ∈ s.provenDead
  held : s.store.row.status.terminal = false →
    ∀ x ∈ s.claimed, ∃ e ∈ s.store.row.remintJournal, e.signature = x
  finished : s.store.row.status.terminal = true →
    ∀ x ∈ s.claimed, s.channel.Doomed w.valid x ∨ s.channel.Landed x
  refunded : s.store.row.status = .failedReminted →
    ∃ x, s.store.row.landedRemintSignature = some x ∧ w.remint x ∧ s.channel.Landed x

/-- The attempts in progress. -/
structure TasksInv (w : RemintWorld) (s : RemintSystem) : Prop where
  sound : ∀ i t, s.tasks i = some t → t.Sound w s
  sends : ∀ i j sig sig', s.tasks i = some (.send sig) → s.tasks j = some (.send sig') →
    sig.signature = sig'.signature → i = j

/-- What every step keeps. -/
structure RemintInv (w : RemintWorld) (s : RemintSystem) : Prop where
  claims : ClaimsInv w s
  journal : JournalInv w s
  tasks : TasksInv w s

variable {t : RemintTask}

/-- A task stays sound while nobody else broadcasts its claim and no refund is undone. -/
theorem RemintTask.Sound.mono (h : t.Sound w s)
    (hdead : ∀ x ∈ s.provenDead, x ∈ s'.provenDead) (hclaimed : ∀ x ∈ s.claimed, x ∈ s'.claimed)
    (hext : s'.channel.Extends s.channel)
    (hstatus : s.store.row.status = .failedReminted → s'.store.row.status = .failedReminted)
    (hbroadcast : ∀ sig, t = .send sig → sig.signature ∉ s.broadcast →
      sig.signature ∉ s'.broadcast) : t.Sound w s' := by
  cases t with
  | lookup => trivial
  | readJournal => trivial
  | classify stored => exact h
  | countRejected stored => exact fun sig hsig => hdead _ (h sig hsig)
  | sign dead => exact fun x hx => hdead x (h x hx)
  | claim dead sig => exact ⟨fun x hx => hdead x (h.1 x hx), h.2⟩
  | send sig => exact ⟨hclaimed _ h.1, hbroadcast sig rfl h.2.1, h.2.2⟩
  | confirm sig => exact h
  | clear x => exact hstatus h
  | done outcome update => trivial
  | _ => exact ⟨h.1, h.2.mono hext⟩

variable {i : ℕ}

/-- Moving one attempt on: its new task must be sound, and a new send fresh. -/
theorem TasksInv.resume (h : TasksInv w s) (ht : t.Sound w s)
    (hsend : ∀ sig, t = .send sig → ∀ j sig', j ≠ i → s.tasks j = some (.send sig') →
      sig.signature ≠ sig'.signature) : TasksInv w (s.resume i t) := by
  refine ⟨fun j u hj => ?_, fun j k sig sig' hj hk heq => ?_⟩
  · rcases of_update_eq_some hj with ⟨-, ⟨⟩⟩ | hj
    · exact ht
    · exact h.sound j u hj
  · simp only [RemintSystem.resume, Function.update_apply] at hj hk
    split at hj <;> split at hk
    · next hji hki => rw [hji, hki]
    · next hji hki => exact absurd heq (hsend sig (Option.some.inj hj) k sig' hki hk)
    · next hji hki => exact absurd heq.symm (hsend sig' (Option.some.inj hk) j sig hji hj)
    · exact h.sends j k sig sig' hj hk heq

/-- Everything but the tasks of a resumed system is unchanged. -/
theorem RemintInv.resume (h : RemintInv w s) (ht : t.Sound w s)
    (hsend : ∀ sig, t = .send sig → ∀ j sig', j ≠ i → s.tasks j = some (.send sig') →
      sig.signature ≠ sig'.signature) : RemintInv w (s.resume i t) :=
  ⟨⟨h.claims.outbox, h.claims.dead⟩,
    ⟨h.journal.signed, h.journal.oneLive, h.journal.retired, h.journal.held,
      h.journal.finished, h.journal.refunded⟩, h.tasks.resume ht hsend⟩

/-- A sound task that is not about to send, which only an acknowledged claim leads to. -/
def RemintTask.Proceeds (w : RemintWorld) (s : RemintSystem) (t : RemintTask) : Prop :=
  t.Sound w s ∧ ∀ sig, t ≠ .send sig

theorem RemintInv.proceed (h : RemintInv w s) (i : ℕ) (ht : t.Proceeds w s) :
    RemintInv w (s.resume i t) :=
  h.resume ht.1 fun sig hsig => absurd hsig (ht.2 sig)

/-- Only a confirmation needs evidence: its signature has landed. -/
theorem settleAttempt_proceeds {a : RemintAttempt}
    (h : ∀ x, a = .confirmed x → w.remint x ∧ s.channel.Landed x) :
    (settleAttempt w.info a).Proceeds w s := by
  cases a with
  | confirmed x => exact ⟨h x rfl, nofun⟩
  | _ => exact ⟨trivial, nofun⟩

/-- After the channel's history. -/
theorem onLookup_proceeds {answer : Except String (Option ConsumedMint)}
    (h : ∀ consumed, answer = .ok (some consumed) → consumed.kind = .remint →
      w.remint consumed.signature ∧ s.channel.Landed consumed.signature) :
    (onLookup w.info answer).Proceeds w s := by
  unfold onLookup
  split
  · exact ⟨trivial, nofun⟩
  · next consumed =>
    split
    · next hpays =>
      have hkind : consumed.kind = .remint := by
        simp only [ConsumedMint.pays, Bool.and_eq_true, beq_iff_eq] at hpays
        exact hpays.1.1.1
      refine settleAttempt_proceeds fun x hx => ?_
      obtain rfl := RemintAttempt.confirmed.inj hx
      exact h consumed rfl hkind
    · exact settleAttempt_proceeds nofun
  · exact settleAttempt_proceeds nofun

theorem onJournal_proceeds {answer : Except String (List StoredSig)}
    (h : ∀ stored, answer = .ok stored → ∀ sig ∈ stored, w.Signed sig) :
    (onJournal w.info answer).Proceeds w s := by
  unfold onJournal
  split
  · exact settleAttempt_proceeds nofun
  · exact ⟨nofun, nofun⟩
  · exact ⟨h _ rfl, nofun⟩

/-- After the classification. -/
theorem onFinality_proceeds {v : SigFinality}
    (hlanded : ∀ x, v = .landed x → w.remint x ∧ s.channel.Landed x)
    (hdead : v = .dead → ∀ sig ∈ stored, sig.signature ∈ s.provenDead) :
    (onFinality w.info stored v).Proceeds w s := by
  unfold onFinality
  split
  · refine settleAttempt_proceeds fun y hy => ?_
    obtain rfl := RemintAttempt.confirmed.inj hy
    exact hlanded _ rfl
  · exact settleAttempt_proceeds nofun
  · exact settleAttempt_proceeds nofun
  · split
    · exact ⟨hdead rfl, nofun⟩
    · refine ⟨fun x hx => ?_, nofun⟩
      obtain ⟨sig, hsig, rfl⟩ := List.mem_map.mp hx
      exact hdead rfl sig hsig

theorem onRejected_proceeds {answer : Except String ℕ}
    (h : ∀ sig ∈ stored, sig.signature ∈ s.provenDead) :
    (onRejected w.info stored answer).Proceeds w s := by
  unfold onRejected
  split
  · split
    · exact settleAttempt_proceeds nofun
    · refine ⟨fun x hx => ?_, nofun⟩
      obtain ⟨sig, hsig, rfl⟩ := List.mem_map.mp hx
      exact h sig hsig
  · exact settleAttempt_proceeds nofun

theorem onSigned_proceeds {answer : Except BuildError StoredSig}
    (hdead : ∀ x ∈ dead, x ∈ s.provenDead) (h : ∀ sig, answer = .ok sig → w.Signed sig) :
    (onSigned w.info dead answer).Proceeds w s := by
  unfold onSigned
  split
  · exact ⟨⟨hdead, h _ rfl⟩, nofun⟩
  all_goals exact settleAttempt_proceeds nofun

theorem onClaim_proceeds {answer : Except String RemintClaim}
    (h : answer ≠ .ok .claimed) : (onClaim w.info sig answer).Proceeds w s := by
  unfold onClaim
  split
  · exact absurd rfl h
  all_goals exact settleAttempt_proceeds nofun

variable {answer : Except String Unit}

theorem onSent_proceeds (h : w.remint sig.signature) : (onSent w.info sig answer).Proceeds w s := by
  unfold onSent
  split
  · exact ⟨h, nofun⟩
  · exact settleAttempt_proceeds nofun

theorem onConfirmation_proceeds {answer : Except String ConfirmationResult}
    (hremint : w.remint sig.signature)
    (h : answer = .ok .confirmed → s.channel.Landed sig.signature) :
    (onConfirmation w.info sig answer).Proceeds w s := by
  unfold onConfirmation
  split
  · refine settleAttempt_proceeds fun x hx => ?_
    obtain rfl := RemintAttempt.confirmed.inj hx
    exact ⟨hremint, h rfl⟩
  · exact settleAttempt_proceeds nofun
  · exact settleAttempt_proceeds nofun

theorem onRecorded_proceeds {attempt : ℕ} (hx : w.remint x ∧ s.channel.Landed x)
    (h : answer = .ok () → s.store.row.status = .failedReminted) :
    (onRecorded x attempt answer).Proceeds w s := by
  cases answer with
  | ok _ => exact ⟨h rfl, nofun⟩
  | error e =>
    simp only [onRecorded]
    split <;> exact ⟨hx, nofun⟩

theorem onReadBack_proceeds {attempt : ℕ} {persistError : String}
    {answer : Except String TransactionStatus} (hx : w.remint x ∧ s.channel.Landed x)
    (h : ∀ status, answer = .ok status → status = s.store.row.status) :
    (onReadBack w.info x attempt persistError answer).Proceeds w s := by
  unfold onReadBack
  split
  · exact ⟨(h _ rfl).symm, nofun⟩
  · exact ⟨trivial, nofun⟩
  · exact ⟨trivial, nofun⟩
  · split
    · exact ⟨hx, nofun⟩
    · exact ⟨trivial, nofun⟩

/-- The tasks survive a change of everything around them. -/
theorem TasksInv.mono (h : TasksInv w s) (htasks : s'.tasks = s.tasks)
    (hdead : ∀ x ∈ s.provenDead, x ∈ s'.provenDead) (hclaimed : ∀ x ∈ s.claimed, x ∈ s'.claimed)
    (hext : s'.channel.Extends s.channel)
    (hstatus : s.store.row.status = .failedReminted → s'.store.row.status = .failedReminted)
    (hbroadcast : s'.broadcast = s.broadcast) : TasksInv w s' := by
  refine ⟨fun i t ht => ?_, fun i j sig sig' hi hj => ?_⟩
  · rw [htasks] at ht
    exact (h.sound i t ht).mono hdead hclaimed hext hstatus fun _ _ hn => hbroadcast ▸ hn
  · rw [htasks] at hi hj
    exact h.sends i j sig sig' hi hj

/-- The verdict over signed attempts is backed by the channel. -/
theorem ClaimsInv.verdict (h : ClaimsInv w s) {finality : FinalityRpc}
    (hsigned : ∀ sig ∈ stored, w.Signed sig) (hchain : finality.chain = .channel)
    (hfallback : finality.fallback = none)
    (hhonest : finality.primary.Honest s.channel s.channel .channel stored) :
    (∀ x, classifySignatures finality stored = .landed x → w.remint x ∧ s.channel.Landed x) ∧
    (classifySignatures finality stored = .dead →
      ∀ sig ∈ stored, s.channel.Doomed w.valid sig.signature) := by
  obtain ⟨hlanded, hdead⟩ := classifySignatures_doomed h.outbox.admitted
    (fun sig hsig => (hsigned sig hsig).window) hchain hhonest (by simp [hfallback])
  refine ⟨fun x hx => ?_, hdead⟩
  obtain ⟨⟨sig, hsig, rfl⟩, hl⟩ := hlanded x hx
  exact ⟨(hsigned sig hsig).remint, hl⟩

theorem supersede_eq (dead : List Signature) (journal : List RemintEntry) :
    supersede dead journal = journal.map fun e =>
      { e with superseded := e.superseded || dead.contains e.signature } := by
  refine List.map_congr_left fun e _ => ?_
  split
  · next h => rw [h, Bool.or_true]
  · next h => rw [(Bool.not_eq_true _).mp h, Bool.or_false]

/-- Retiring proven-dead entries keeps the journal's invariant. -/
theorem JournalInv.supersede (h : JournalInv w s) (now : Stamp)
    (hdead : ∀ x ∈ dead, x ∈ s.provenDead) :
    JournalInv w (s.withRow { s.store.row with
      remintJournal := supersede dead s.store.row.remintJournal, updatedAt := now }) where
  signed := by
    simp only [RemintSystem.withRow, supersede_eq, List.mem_map]
    rintro _ ⟨e, he, rfl⟩
    exact h.signed e he
  oneLive := by
    simp only [RemintSystem.withRow, supersede_eq, List.pairwise_map]
    exact h.oneLive.imp fun hor => hor.imp (fun hs => by simp [hs]) (fun hs => by simp [hs])
  retired := by
    simp only [RemintSystem.withRow, supersede_eq, List.mem_map]
    rintro _ ⟨e, he, rfl⟩ hs
    rcases Bool.or_eq_true _ _ ▸ hs with hs | hs
    · exact h.retired e he hs
    · exact hdead _ (List.contains_iff_mem.mp hs)
  held := by
    intro hopen x hx
    obtain ⟨e, he, rfl⟩ := h.held hopen x hx
    simp only [RemintSystem.withRow, supersede_eq, List.mem_map]
    exact ⟨_, ⟨e, he, rfl⟩, rfl⟩
  finished := h.finished
  refunded := h.refunded

variable {now : Stamp}

/-- An open row is finished as refunded by this signature. -/
structure Refunds (x : Signature) (r r' : Row) : Prop where
  opened : r.status.terminal = false
  status : r'.status = .failedReminted
  signature : r'.landedRemintSignature = some x
  journal : r'.remintJournal = r.remintJournal

theorem recordRemintResult_refunds {r r' : Row}
    (h : recordRemintResult x now r = some r') : Refunds x r r' := by
  obtain ⟨hg, rfl⟩ := updateWhere_eq_some.mp h
  exact ⟨by rw [beq_iff_eq.mp hg]; rfl, rfl, rfl, rfl⟩

theorem tryMarkReminted_refunds {expected : Stamp} {r r' : Row}
    (h : tryMarkReminted expected x now r = some r') : Refunds x r r' := by
  obtain ⟨hg, rfl⟩ := updateWhere_eq_some.mp h
  simp only [Bool.and_eq_true, Bool.or_eq_true, beq_iff_eq] at hg
  exact ⟨by rcases hg.1 with hs | hs <;> rw [hs] <;> rfl, rfl, rfl, rfl⟩

/-- The other writers keep the remint journal and record no refund. -/
theorem run_other {op : Op} (hop : remintOp op = false) (store : Store) (now : Stamp) :
    (op.run store now).2.row.remintJournal = store.row.remintJournal ∧
      ((op.run store now).2.row = store.row ∨
        (op.run store now).2.row.status ≠ .failedReminted) := by
  have hput : ∀ guard set, (∀ r, (set r).remintJournal = r.remintJournal) →
      (guard store.row = true → (set store.row).status ≠ .failedReminted) →
      (store.put (updateWhere guard set now store.row)).2.row.remintJournal =
          store.row.remintJournal ∧
        ((store.put (updateWhere guard set now store.row)).2.row = store.row ∨
          (store.put (updateWhere guard set now store.row)).2.row.status ≠
            .failedReminted) := by
    intro guard set hkeep hne
    unfold updateWhere
    split
    · next hg => exact ⟨hkeep _, .inr (hne hg)⟩
    · exact ⟨rfl, .inl rfl⟩
  cases op <;> simp only [remintOp, Bool.true_eq_false] at hop
  case insertObservedRelease | setHalted | commitCheckpoint => exact ⟨rfl, .inl rfl⟩
  all_goals
    refine hput _ _ ?_ ?_
    all_goals grind [heldAt]

variable {e : RemintEvent}

section

variable (h : RemintInv w s)
include h

theorem RemintInv.crash (i : ℕ) :
    RemintInv w { s with tasks := Function.update s.tasks i none } := by
  refine ⟨{ h.claims with }, { h.journal with }, fun j t hj => ?_, fun j k sig sig' hj hk => ?_⟩
  · rcases of_update_eq_some hj with ⟨-, ⟨⟩⟩ | hj
    exact h.tasks.sound j t hj
  · rcases of_update_eq_some hj with ⟨-, ⟨⟩⟩ | hj
    rcases of_update_eq_some hk with ⟨-, ⟨⟩⟩ | hk
    exact h.tasks.sends j k sig sig' hj hk

/-- The channel advances. -/
theorem RemintInv.advance (hstep : RemintStep w s .advance s') : RemintInv w s' := by
  cases hstep with
  | advance hext hvalid hlands =>
  exact {
    claims :=
      { outbox := h.claims.outbox.advance hext hvalid hlands
        dead := fun x hx => (h.claims.dead x hx).mono hext }
    journal := { h.journal with
      finished := fun ht x hx =>
        (h.journal.finished ht x hx).imp (fun hd => hd.mono hext) (fun hl => hl.mono hext)
      refunded := fun hs =>
        let ⟨x, hx, hr, hl⟩ := h.journal.refunded hs
        ⟨x, hx, hr, hl.mono hext⟩ }
    tasks := h.tasks.mono rfl (fun _ hx => hx) (fun _ hx => hx) hext (fun hs => hs) rfl }

/-- A `Dead` verdict dooms the whole list it was taken over. -/
theorem RemintInv.noteVerdict {v : SigFinality}
    (hdead : v = .dead → ∀ sig ∈ stored, s.channel.Doomed w.valid sig.signature) :
    RemintInv w (s.noteVerdict stored v) := by
  unfold RemintSystem.noteVerdict
  split
  · next hv =>
    refine ⟨⟨h.claims.outbox, fun x hx => ?_⟩, { h.journal with retired := fun e he hs => ?_ },
      h.tasks.mono rfl (fun x hx => List.mem_append_right _ hx) (fun _ hx => hx) (.refl _)
        (fun hs => hs) rfl⟩
    · rcases List.mem_append.mp hx with hx | hx
      · obtain ⟨sig, hsig, rfl⟩ := List.mem_map.mp hx
        exact hdead hv sig hsig
      · exact h.claims.dead x hx
    · exact List.mem_append_right _ (h.journal.retired e he hs)
  · exact h

/-- A claimed signature may go out when no task is still about to send it. -/
theorem RemintInv.broadcast (hclaimed : x ∈ s.claimed)
    (hfree : ∀ j sig, s.tasks j = some (.send sig) → sig.signature ≠ x) :
    RemintInv w { s with broadcast := x :: s.broadcast } := by
  refine ⟨⟨h.claims.outbox.send hclaimed, h.claims.dead⟩, { h.journal with }, fun j t hj => ?_,
    h.tasks.sends⟩
  refine (h.tasks.sound j t hj).mono (fun _ hy => hy) (fun _ hy => hy) (.refl _)
    (fun hs => hs) fun sig ht hnew hmem => ?_
  rcases List.mem_cons.mp hmem with heq | hmem
  · exact hfree j sig (ht ▸ hj) heq
  · exact hnew hmem

/-- A claim is sent by the one task that holds it. -/
theorem RemintInv.send (hstep : RemintStep w s (.send i answer) s') : RemintInv w s' := by
  cases hstep with
  | @send _ sig _ hat =>
  obtain ⟨hclaimed, _, hremint⟩ := h.tasks.sound i _ hat
  have hfree : ∀ j sig', Function.update s.tasks i none j = some (.send sig') →
      sig'.signature ≠ sig.signature := by
    intro j sig' hj heq
    simp only [Function.update_apply] at hj
    split at hj
    · cases hj
    · next hji => exact hji (h.tasks.sends j i sig' sig hj hat heq)
  have hsent := ((h.crash i).broadcast hclaimed hfree).proceed i
    (t := onSent w.info sig answer) (onSent_proceeds hremint)
  simpa only [RemintSystem.resume, Function.update_idem] using hsent

/-- A write of the row that keeps the journal's invariant and the recorded
refund keeps the rest. -/
theorem RemintInv.write {store : Store} (hjournal : JournalInv w { s with store := store })
    (hstatus : s.store.row.status = .failedReminted → store.row.status = .failedReminted) :
    RemintInv w { s with store := store } :=
  ⟨⟨h.claims.outbox, h.claims.dead⟩, hjournal,
    h.tasks.mono rfl (fun _ hx => hx) (fun _ hx => hx) (.refl _) hstatus rfl⟩

/-- A committed claim: whatever was claimed before is doomed, and every earlier entry is
superseded. -/
theorem RemintInv.claim {claim : RemintClaim} {row : Row} (hdead : ∀ x ∈ dead, x ∈ s.provenDead)
    (hsig : w.Signed sig)
    (hcommit : claimRemintAttempt s.store.observedReleases sig dead now s.store.row =
      some (claim, row)) :
    RemintInv w ((s.withRow row).noteClaim sig claim) ∧
      (claim = .claimed → sig.signature ∉ s.claimed) := by
  rcases claimRemintAttempt_cases hcommit with
    ⟨hclaim, rfl⟩ | ⟨hstatus, _, _, ⟨rfl, _, rfl⟩ | ⟨rfl, hall, rfl⟩⟩
  · rcases hclaim with rfl | rfl <;> exact ⟨h, nofun⟩
  · exact ⟨h.write (h.journal.supersede now hdead) fun hs => hs, nofun⟩
  · have hopen : s.store.row.status.terminal = false := by rw [hstatus]; rfl
    have hj := h.journal.supersede now hdead
    have hdoomed : ∀ x ∈ s.claimed, s.channel.Doomed w.valid x ∧ x ≠ sig.signature := by
      intro x hx
      obtain ⟨e, he, rfl⟩ := hj.held hopen x hx
      obtain ⟨hsup, hne⟩ := hall e he
      exact ⟨h.claims.dead _ (hj.retired e he hsup), hne⟩
    refine ⟨⟨⟨?_, h.claims.dead⟩, ?_, ?_⟩, fun _ hmem => ?_⟩
    · exact h.claims.outbox.issue fun x hx => .inr (hdoomed x hx).1
    · refine ⟨fun e he => ?_, ?_, fun e he hs => ?_, fun _ x hx => ?_, ?_, h.journal.refunded⟩
      · rcases List.mem_append.mp he with he | he
        · exact hj.signed e he
        · rw [List.mem_singleton.mp he]
          exact hsig
      · refine List.pairwise_append.mpr ⟨hj.oneLive, List.pairwise_singleton _ _, ?_⟩
        exact fun e he _ _ => .inl (hall e he).1
      · rcases List.mem_append.mp he with he | he
        · exact hj.retired e he hs
        · rw [List.mem_singleton.mp he] at hs
          cases hs
      · rcases List.mem_cons.mp hx with rfl | hx
        · exact ⟨_, List.mem_append_right _ (List.mem_singleton_self _), rfl⟩
        · obtain ⟨e, he, heq⟩ := hj.held hopen x hx
          exact ⟨e, List.mem_append_left _ he, heq⟩
      · intro hclosed
        exact absurd (hopen.symm.trans hclosed) Bool.false_ne_true
    · exact h.tasks.mono rfl (fun _ hx => hx) (fun _ hx => List.mem_cons_of_mem _ hx) (.refl _)
        (fun hs => hs) rfl
    · exact (hdoomed _ hmem).2 rfl

/-- The claimant sends only what it knows to be claimed; nobody else holds it. -/
theorem RemintInv.claimAnswered {answer : Except String RemintClaim}
    (hstep : RemintStep w s (.claim i now answer) s') : RemintInv w s' := by
  cases hstep with
  | claimFailed hat => exact h.proceed _ (onClaim_proceeds nofun)
  | claim hat hcommit hack =>
  obtain ⟨hdead, hsig⟩ := h.tasks.sound _ _ hat
  obtain ⟨hclaimed, hfresh⟩ := h.claim hdead hsig hcommit
  by_cases hanswer : answer = .ok .claimed
  · obtain rfl := hack _ hanswer
    rw [hanswer]
    have hnew := hfresh rfl
    refine hclaimed.resume ⟨List.mem_cons_self, fun hmem => hnew (h.claims.outbox.sent _ hmem),
      hsig.remint⟩ fun sig' hsig' j sig'' _ hj heq => ?_
    obtain rfl := RemintTask.send.inj hsig'
    have hold := h.tasks.sound j _ hj
    exact hnew (heq ▸ hold.1)
  · exact hclaimed.proceed _ (onClaim_proceeds hanswer)

/-- Recording a remint that landed finishes the row: the live entry is the one
that landed. -/
theorem RemintInv.refund {row : Row} (hr : Refunds x s.store.row row)
    (hx : w.remint x ∧ s.channel.Landed x) : RemintInv w (s.withRow row) := by
  obtain ⟨hopen, hstatus, hsig, hjournal⟩ := hr
  have hfate : ∀ y ∈ s.claimed, s.channel.Doomed w.valid y ∨ s.channel.Landed y := by
    have live : ∀ e ∈ s.store.row.remintJournal, s.channel.Landed e.signature →
        e.superseded = false := by
      intro e he hl
      by_contra hs
      exact (h.claims.dead _ (h.journal.retired e he (by simpa using hs))).not_landed
        h.claims.outbox.admitted hl
    intro y hy
    obtain ⟨e, he, rfl⟩ := h.journal.held hopen y hy
    obtain ⟨e₀, he₀, rfl⟩ := h.journal.held hopen x
      (h.claims.outbox.sent x (h.claims.outbox.landed x hx.1 hx.2))
    cases hs : e.superseded with
    | true => exact .inl (h.claims.dead _ (h.journal.retired e he hs))
    | false =>
      have hsymm : Std.Symm fun e e' : RemintEntry => e.superseded = true ∨ e'.superseded = true :=
        ⟨fun _ _ => Or.symm⟩
      by_cases heq : e = e₀
      · exact .inr (heq ▸ hx.2)
      · rcases h.journal.oneLive.forall he he₀ heq with hor | hor
        · rw [hs] at hor
          cases hor
        · rw [live e₀ he₀ hx.2] at hor
          cases hor
  refine h.write ⟨?_, ?_, ?_, ?_, fun _ => hfate, fun _ => ⟨x, hsig, hx⟩⟩ fun _ => hstatus
  · simpa only [RemintSystem.withRow, hjournal] using h.journal.signed
  · simpa only [RemintSystem.withRow, hjournal] using h.journal.oneLive
  · simpa only [RemintSystem.withRow, hjournal] using h.journal.retired
  · intro hterm
    rw [hstatus] at hterm
    cases hterm

/-- A finished row needs no journal. -/
theorem RemintInv.clear (hterm : s.store.row.status.terminal = true) :
    RemintInv w (s.withRow { s.store.row with remintJournal := [] }) := by
  refine h.write ⟨nofun, .nil, nofun, fun hopen => ?_, h.journal.finished, h.journal.refunded⟩
    fun hs => hs
  exact absurd (hopen.symm.trans hterm) Bool.false_ne_true

/-- A writer that finishes the row found no live entry. -/
theorem RemintInv.other {op : Op} (hstep : RemintStep w s (.other op now) s') : RemintInv w s' := by
  cases hstep with
  | other hop hfinish =>
  obtain ⟨hjournal, hrow⟩ := run_other hop s.store now
  have hj := h.journal
  rcases op.touched s.store now with heq | hwritten
  · refine h.write ?_ fun hs => by rw [heq]; exact hs
    exact ⟨heq ▸ hj.signed, heq ▸ hj.oneLive, heq ▸ hj.retired, heq ▸ hj.held,
      heq ▸ hj.finished, heq ▸ hj.refunded⟩
  · have hopen := hwritten.nonterminal
    have hstill : s.store.row.status ≠ .failedReminted := fun hs => by
      rw [hs] at hopen
      cases hopen
    have hne : (op.run s.store now).2.row.status ≠ .failedReminted := by
      rcases hrow with heq | hne
      · rwa [heq]
      · exact hne
    refine h.write ⟨hjournal ▸ hj.signed, hjournal ▸ hj.oneLive, hjournal ▸ hj.retired,
      fun _ => hjournal ▸ hj.held hopen, fun hterm x hx => ?_, fun hs => absurd hs hne⟩
      fun hs => absurd hs hstill
    obtain ⟨e, he, rfl⟩ := hj.held hopen x hx
    cases hs : e.superseded with
    | true => exact .inl (h.claims.dead _ (hj.retired e he hs))
    | false =>
      have := hfinish _ ⟨e, he, rfl, hs⟩ hopen
      exact absurd (this.symm.trans hterm) Bool.false_ne_true

/-- Every step keeps the invariant. -/
theorem RemintInv.step (hstep : RemintStep w s e s') : RemintInv w s' := by
  cases hstep with
  | crash => exact h.crash _
  | lookup hat hlisted => exact h.proceed _ (onLookup_proceeds hlisted)
  | readJournal hat hread =>
    refine h.proceed _ (onJournal_proceeds fun stored hs sig hsig => ?_)
    obtain ⟨e, he, rfl⟩ := List.mem_map.mp (hread stored hs ▸ hsig)
    exact h.journal.signed e he
  | @classify i stored finality hat hchain hfallback hhonest =>
    obtain ⟨hlanded, hdead⟩ := h.claims.verdict (h.tasks.sound _ _ hat) hchain hfallback hhonest
    refine (h.noteVerdict hdead).proceed _ (onFinality_proceeds (fun x hx => ?_) fun hv => ?_)
    · unfold RemintSystem.noteVerdict
      split <;> exact hlanded x hx
    · intro sig hsig
      rw [RemintSystem.noteVerdict, if_pos hv]
      exact List.mem_append_left _ (List.mem_map_of_mem hsig)
  | countRejected hat => exact h.proceed _ (onRejected_proceeds (h.tasks.sound _ _ hat))
  | sign hat hsigned => exact h.proceed _ (onSigned_proceeds (h.tasks.sound _ _ hat) hsigned)
  | claim hat hcommit hack => exact h.claimAnswered (.claim hat hcommit hack)
  | claimFailed hat => exact h.proceed _ (onClaim_proceeds nofun)
  | send hat => exact h.send (.send hat)
  | confirm hat hseen =>
    refine h.proceed _ (onConfirmation_proceeds (h.tasks.sound _ _ hat) fun hc => ?_)
    obtain ⟨k, status, hpoll, hsat, herr⟩ := pollStatus_confirmed hc
    exact hseen k status hpoll hsat herr
  | record hat hcommit =>
    have hx := h.tasks.sound _ _ hat
    have hr := recordRemintResult_refunds hcommit
    exact (h.refund hr hx).proceed _ (onRecorded_proceeds hx fun _ => hr.status)
  | recordFailed hat =>
    exact h.proceed _ (onRecorded_proceeds (h.tasks.sound _ _ hat) nofun)
  | readBack hat hread =>
    exact h.proceed _ (onReadBack_proceeds (h.tasks.sound _ _ hat) hread)
  | clear hat =>
    have hstatus : s.store.row.status = .failedReminted := h.tasks.sound _ _ hat
    exact (h.clear (by rw [hstatus]; rfl)).proceed _ ⟨trivial, nofun⟩
  | gc =>
    unfold gcStaleRemintSignatures
    split
    · next hterm => exact h.clear hterm
    · exact h
  | markReminted hlisted hcommit =>
    exact h.refund (tryMarkReminted_refunds hcommit) hlisted
  | other hop hfinish => exact h.other (.other hop hfinish)
  | advance hext hvalid hlands => exact h.advance (.advance hext hvalid hlands)
  | _ => exact h.proceed _ ⟨trivial, nofun⟩

/-- A task about to send holds a claim that is live or doomed. -/
theorem RemintInv.about_to_send (hat : s.tasks i = some (.send sig)) :
    RemintSystem.LiveEntry s.store.row sig.signature ∨
      s.channel.Doomed w.valid sig.signature := by
  obtain ⟨hclaimed, hunsent, hremint⟩ := h.tasks.sound i _ hat
  cases hterm : s.store.row.status.terminal with
  | false =>
    obtain ⟨e, he, heq⟩ := h.journal.held hterm _ hclaimed
    cases hs : e.superseded with
    | true => exact .inr (heq ▸ h.claims.dead _ (h.journal.retired e he hs))
    | false => exact .inl ⟨e, he, heq, hs⟩
  | true =>
    rcases h.journal.finished hterm _ hclaimed with hd | hl
    · exact .inr hd
    · exact absurd (h.claims.outbox.landed _ hremint hl) hunsent

/-- A signature joins the claimed ones as the live entry, before it is sent. -/
theorem RemintInv.newly_claimed (hstep : RemintStep w s e s') (hx : x ∈ s'.claimed) :
    x ∈ s.claimed ∨ (RemintSystem.LiveEntry s'.store.row x ∧ x ∉ s'.broadcast) := by
  cases hstep with
  | classify hat =>
    unfold RemintSystem.noteVerdict at hx
    split at hx <;> exact .inl hx
  | claim hat hcommit =>
    obtain ⟨hdead, hsig⟩ := h.tasks.sound _ _ hat
    obtain ⟨_, hfresh⟩ := h.claim hdead hsig hcommit
    rcases claimRemintAttempt_cases hcommit with
      ⟨hclaim, _⟩ | ⟨_, _, _, ⟨rfl, _, _⟩ | ⟨rfl, _, rfl⟩⟩
    · rcases hclaim with rfl | rfl <;> exact .inl hx
    · exact .inl hx
    · rcases List.mem_cons.mp hx with rfl | hx
      · exact .inr ⟨⟨_, List.mem_append_right _ (List.mem_singleton_self _), rfl, rfl⟩,
          fun hmem => hfresh rfl (h.claims.outbox.sent _ hmem)⟩
      · exact .inl hx
  | _ => exact .inl hx

end

/-- A fresh row has the invariant. -/
theorem RemintSystem.Fresh.inv (h : s.Fresh w) : RemintInv w s where
  claims :=
    { outbox := h.unclaimed ▸ h.unsent ▸ .init h.admitted h.unlanded
      dead := by simp [h.unproven] }
  journal :=
    { signed := by simp [h.journal]
      oneLive := by simp [h.journal]
      retired := by simp [h.journal]
      held := by simp [h.unclaimed]
      finished := by simp [h.unclaimed]
      refunded := fun hs => absurd hs h.unrefunded }
  tasks := ⟨fun i t hi => by simp [h.idle] at hi, fun i j sig sig' hi => by simp [h.idle] at hi⟩

theorem remintInv_of_run {s₀ : RemintSystem} {events : List RemintEvent} (h0 : s₀.Fresh w)
    (h : Run (RemintStep w) s₀ events s) : RemintInv w s :=
  h.stateInvariant h0.inv fun _ _ _ hi hs => hi.step hs

/-- At some earlier point of the run the signature was the live entry and not
yet broadcast. -/
def WasLive (w : RemintWorld) (s₀ : RemintSystem) (events : List RemintEvent) (t : RemintSystem)
    (x : Signature) : Prop :=
  ∃ l m mid, events = l ++ m ∧ Run (RemintStep w) s₀ l mid ∧ Run (RemintStep w) mid m t ∧
    RemintSystem.LiveEntry mid.store.row x ∧ x ∉ mid.broadcast

/-- Every claim was the live entry once. -/
theorem wasLive_of_claimed {s₀ : RemintSystem} {events : List RemintEvent} (h0 : s₀.Fresh w)
    (h : Run (RemintStep w) s₀ events s) : ∀ x ∈ s.claimed, WasLive w s₀ events s x := by
  induction h with
  | nil => simp [h0.unclaimed]
  | @snoc l t u a hrun hstep ih =>
    intro x hx
    rcases (remintInv_of_run h0 hrun).newly_claimed hstep hx with hold | ⟨hlive, hunsent⟩
    · obtain ⟨l₁, l₂, mid, rfl, h₁, h₂, hmid⟩ := ih x hold
      exact ⟨l₁, l₂ ++ [a], mid, by simp, h₁, h₂.snoc hstep, hmid⟩
    · exact ⟨l ++ [a], [], u, by simp, hrun.snoc hstep, .nil, hlive, hunsent⟩

/-- A refunded row stays as it is, and nothing is claimed for it again. -/
theorem RemintStep.refunded (hstep : RemintStep w s e s')
    (hs : s.store.row.status = .failedReminted) :
    s'.store.row.status = .failedReminted ∧
      s'.store.row.landedRemintSignature = s.store.row.landedRemintSignature ∧
      s'.claimed = s.claimed := by
  have hclosed : ¬ s.store.row.status.terminal = false := by simp [hs, TransactionStatus.terminal]
  cases hstep with
  | classify hat =>
    unfold RemintSystem.noteVerdict
    split <;> exact ⟨hs, rfl, rfl⟩
  | claim hat hcommit =>
    rcases claimRemintAttempt_cases hcommit with ⟨hclaim, rfl⟩ | ⟨hstatus, _⟩
    · rcases hclaim with rfl | rfl <;> exact ⟨hs, rfl, rfl⟩
    · rw [hs] at hstatus
      cases hstatus
  | record hat hcommit => exact absurd (recordRemintResult_refunds hcommit).opened hclosed
  | markReminted hlisted hcommit => exact absurd (tryMarkReminted_refunds hcommit).opened hclosed
  | gc =>
    unfold gcStaleRemintSignatures
    split <;> exact ⟨hs, rfl, rfl⟩
  | other hop hfinish =>
    rcases Op.touched _ s.store _ with heq | hwritten
    · exact ⟨heq ▸ hs, by rw [heq], rfl⟩
    · exact absurd hwritten.nonterminal hclosed
  | _ => exact ⟨hs, rfl, rfl⟩

theorem refunded_of_run {later : List RemintEvent} {t : RemintSystem}
    (hs : s.store.row.status = .failedReminted) (h : Run (RemintStep w) s later t) :
    t.store.row.status = .failedReminted ∧
      t.store.row.landedRemintSignature = s.store.row.landedRemintSignature ∧
      t.claimed = s.claimed := by
  induction h with
  | nil => exact ⟨hs, rfl, rfl⟩
  | snoc _ hstep ih =>
    obtain ⟨h1, h2, h3⟩ := hstep.refunded ih.1
    exact ⟨h1, h2.trans ih.2.1, h3.trans ih.2.2⟩

/-- At most one remint lands and no two entries are live; a superseded entry was covered by a
`Dead` verdict and never lands; a signature is sent while it is the live entry or doomed; and a
refunded row carries the signature that landed and is claimed no more. -/
theorem remint_lands_at_most_once {s₀ t : RemintSystem} {events : List RemintEvent}
    (h0 : s₀.Fresh w) (h : Run (RemintStep w) s₀ events t) :
    (∀ x y, w.remint x → t.channel.Landed x → w.remint y → t.channel.Landed y → x = y) ∧
    (t.store.row.remintJournal.Pairwise fun e e' =>
      e.superseded = true ∨ e'.superseded = true) ∧
    (∀ e ∈ t.store.row.remintJournal, e.superseded = true →
      e.signature ∈ t.provenDead ∧ t.channel.Doomed w.valid e.signature) ∧
    (∀ x ∈ t.broadcast, WasLive w s₀ events t x) ∧
    (∀ i sig, t.tasks i = some (.send sig) →
      RemintSystem.LiveEntry t.store.row sig.signature ∨
        t.channel.Doomed w.valid sig.signature) ∧
    (t.store.row.status = .failedReminted →
      ∃ x, t.store.row.landedRemintSignature = some x ∧ w.remint x ∧ t.channel.Landed x ∧
        ∀ later u, Run (RemintStep w) t later u →
          u.store.row.status = .failedReminted ∧ u.claimed = t.claimed ∧
            ∀ y, w.remint y → u.channel.Landed y → y = x) := by
  have hinv := remintInv_of_run h0 h
  refine ⟨fun x y hx hlx hy hly => hinv.claims.outbox.landed_unique hx hlx hy hly,
    hinv.journal.oneLive, fun e he hs => ?_, fun x hx => ?_, fun i sig hat => ?_, fun hs => ?_⟩
  · have hdead := hinv.journal.retired e he hs
    exact ⟨hdead, hinv.claims.dead _ hdead⟩
  · exact wasLive_of_claimed h0 h x (hinv.claims.outbox.sent x hx)
  · exact hinv.about_to_send hat
  · obtain ⟨x, hsig, hremint, hlanded⟩ := hinv.journal.refunded hs
    refine ⟨x, hsig, hremint, hlanded, fun later u hlater => ?_⟩
    obtain ⟨hstatus, hsame, hclaimed⟩ := refunded_of_run hs hlater
    have hinv' := remintInv_of_run h0 (h.append hlater)
    obtain ⟨x', hsig', hremint', hlanded'⟩ := hinv'.journal.refunded hstatus
    obtain rfl : x' = x := Option.some.inj (hsig'.symm.trans (hsame.trans hsig))
    exact ⟨hstatus, hclaimed, fun y hy hly =>
      hinv'.claims.outbox.landed_unique hy hly hremint' hlanded'⟩

def firstAttempt : StoredSig := ⟨⟨1⟩, 100, some 5⟩

def secondAttempt : StoredSig := ⟨⟨2⟩, 350, some 200⟩

/-- A row whose refund is signed at most twice. -/
def refundWorld : RemintWorld where
  info := ⟨7, ⟨1⟩, ⟨2⟩, 50, "release failed"⟩
  valid c := Admissible .channel firstAttempt c ∧ Admissible .channel secondAttempt c
  remint x := x = firstAttempt.signature ∨ x = secondAttempt.signature

/-- The row awaits its refund and the channel is still empty. -/
def refundStart : RemintSystem where
  store := ⟨{ Row.new 7 .withdrawal 40 (some 3) 0 with status := .pendingRemint }, false, none, []⟩
  channel := Ledger.Chain.empty
  tasks _ := none
  claimed := []
  provenDead := []
  broadcast := []

theorem refundStart_fresh : refundStart.Fresh refundWorld where
  admitted := ⟨nofun, nofun⟩
  unlanded := by simp [refundStart, Ledger.Chain.empty, Ledger.Chain.Landed, Ledger.Chain.Executed]
  journal := rfl
  unrefunded := nofun
  idle _ := rfl
  unclaimed := rfl
  unproven := rfl
  unsent := rfl

theorem firstAttempt_signed : refundWorld.Signed firstAttempt := ⟨.inl rfl, fun _ h => h.1⟩

theorem secondAttempt_signed : refundWorld.Signed secondAttempt := ⟨.inr rfl, fun _ h => h.2⟩

/-- The first attempt claims the row and is about to send. -/
def refundClaimed : RemintSystem :=
  ({ refundStart with
    store := ⟨{ refundStart.store.row with
      updatedAt := 1, remintJournal := [⟨firstAttempt, false⟩] }, false, none, []⟩
    claimed := [firstAttempt.signature]
    tasks := Function.update (Function.update (Function.update (Function.update refundStart.tasks
      0 (some .lookup)) 0 (some .readJournal)) 0 (some (.sign [])))
      0 (some (.claim [] firstAttempt)) }).resume 0 (.send firstAttempt)

theorem refundClaimed_run : Run (RemintStep refundWorld) refundStart
    [.begin 0, .lookup 0 (.ok none), .readJournal 0 (.ok []), .sign 0 (.ok firstAttempt),
      .claim 0 1 (.ok .claimed)] refundClaimed :=
  .cons (.begin rfl) <|
  .cons (.lookup rfl nofun) <|
  .cons (.readJournal rfl fun _ h => (Except.ok.inj h).symm) <|
  .cons (.sign rfl fun _ h => Except.ok.inj h ▸ firstAttempt_signed) <|
  .single (.claim rfl rfl fun _ h => (Except.ok.inj h).symm)

/-- The channel once the first attempt has landed. -/
def refundLanded : Ledger.Chain Signature :=
  ⟨[⟨60, 50, [(⟨1⟩, true)]⟩], by simp, by simp, by simp, by simp⟩

theorem refundLanded_landed : refundLanded.Landed firstAttempt.signature :=
  ⟨_, List.mem_singleton_self _, List.mem_singleton_self _⟩

/-- A refund that is claimed, sent, confirmed and recorded. -/
theorem remint_lands_at_most_once_recorded :
    ∃ events t, Run (RemintStep refundWorld) refundStart events t ∧
      t.store.row.landedRemintSignature = some firstAttempt.signature ∧
      ∀ y, refundWorld.remint y → t.channel.Landed y → y = firstAttempt.signature := by
  have hrun : ∃ t, Run (RemintStep refundWorld) refundClaimed
      [.send 0 (.ok ()), .advance, .confirm 0 (fun _ => .ok (some ⟨true, none, 60⟩)),
        .record 0 2 (.ok ())] t ∧
      t.store.row.landedRemintSignature = some firstAttempt.signature ∧
      t.channel = refundLanded := by
    refine ⟨_, .cons (.send rfl) <| .cons (.advance (c := refundLanded) List.nil_prefix ?_ ?_) <|
      .cons (.confirm rfl fun _ _ _ _ _ => refundLanded_landed) <| .single (.record rfl rfl),
      rfl, rfl⟩
    · constructor <;> simp [Admissible, refundLanded, firstAttempt, secondAttempt]
    · rintro x _ ⟨b, hb, hx⟩
      obtain rfl := List.mem_singleton.mp hb
      obtain rfl := (Prod.mk.inj (List.mem_singleton.mp hx)).1
      exact List.mem_cons_self
  obtain ⟨t, hrun, hsig, hchannel⟩ := hrun
  have hsafe := remint_lands_at_most_once refundStart_fresh (refundClaimed_run.append hrun)
  refine ⟨_, t, refundClaimed_run.append hrun, hsig, fun y hy hly => ?_⟩
  exact hsafe.1 y _ hy hly (.inl rfl) (hchannel ▸ refundLanded_landed)

/-- An expired claim is superseded before its owner sends it. -/
theorem superseded_claim_is_sent :
    ∃ events t t', Run (RemintStep refundWorld) refundStart events t ∧
      RemintStep refundWorld t (.send 0 (.ok ())) t' ∧
      firstAttempt.signature ∈ t'.broadcast ∧ firstAttempt.signature ∉ t.broadcast ∧
      ¬ RemintSystem.LiveEntry t.store.row firstAttempt.signature := by
  let later : Ledger.Chain Signature := ⟨[⟨210, 200, []⟩], by simp, by simp, by simp, by simp⟩
  let snapshot : StatusSnapshot := ⟨200, [none], 0⟩
  let finality : FinalityRpc :=
    ⟨⟨.ok snapshot, .error "unused", .error "unused", .error "unused"⟩, none, .channel⟩
  have hhonest : finality.primary.Honest later later .channel [firstAttempt] := by
    intro answer ha
    obtain rfl : snapshot = answer := Except.ok.inj ha
    refine ⟨later, .refl _, .refl _, ?_, ?_⟩
    · rintro h hh
      obtain rfl : 200 = h := Except.ok.inj hh
      simp [Ledger.Chain.tip, later]
    · intro p hp
      obtain rfl : (firstAttempt, none) = p := (List.mem_singleton.mp hp).symm
      exact ⟨by simp [later], by simp⟩
  have hrun : ∃ t, Run (RemintStep refundWorld) refundClaimed
      [.begin 1, .lookup 1 (.ok none), .readJournal 1 (.ok [firstAttempt]), .advance,
        .classify 1 finality, .sign 1 (.ok secondAttempt), .claim 1 2 (.ok .claimed)] t ∧
      t.tasks 0 = some (.send firstAttempt) ∧ t.broadcast = [] ∧
      t.store.row.remintJournal = [⟨firstAttempt, true⟩, ⟨secondAttempt, false⟩] := by
    refine ⟨_, .cons (.begin rfl) <| .cons (.lookup rfl (by simp)) <|
      .cons (.readJournal rfl fun _ h => (Except.ok.inj h).symm) <|
      .cons (.advance (c := later) List.nil_prefix ?_ ?_) <|
      .cons (.classify rfl rfl rfl hhonest) <|
      .cons (.sign rfl fun _ h => Except.ok.inj h ▸ secondAttempt_signed) <|
      .single (.claim rfl rfl fun _ h => (Except.ok.inj h).symm), rfl, rfl, rfl⟩
    · constructor <;> simp [Admissible, later]
    · simp [later, Ledger.Chain.Landed, Ledger.Chain.Executed]
  obtain ⟨t, hrun, hat, hsent, hjournal⟩ := hrun
  refine ⟨_, t, _, refundClaimed_run.append hrun, .send hat, List.mem_cons_self, ?_, ?_⟩
  · simp [hsent]
  · simp [RemintSystem.LiveEntry, hjournal, firstAttempt, secondAttempt]

end PrivateChannels.Operator
