import PrivateChannels.Operator.DepositSystem

/-!
# A deposit is minted at most once

Holding the lease of a `processing` row means that no earlier mint can still land, except
the one its holder has just journaled. Every write stamps the row anew, so a lease given
up is never held again.
-/

namespace PrivateChannels.Operator

open Storage

variable {w : DepositWorld} {s t : DepositSystem} {lease : Stamp} {sig : StoredSig}
  {e : DepositEvent} {events : List DepositEvent}

namespace DepositSystem

/-- The row is being processed under this lease. -/
def Held (s : DepositSystem) (lease : Stamp) : Prop :=
  s.store.row.status = .processing ∧ s.store.row.updatedAt = lease

/-- A fact the holder of a lease may rely on. -/
def Leased (s : DepositSystem) (lease : Stamp) (fact : Prop) : Prop :=
  lease ∈ s.stamps ∧ (s.Held lease → fact)

/-- No mint claimed so far can land any more. -/
def AllDoomed (w : DepositWorld) (s : DepositSystem) : Prop :=
  ∀ x ∈ s.claimed, s.channel.Doomed w.valid x

/-- No mint claimed so far can land any more, this one apart. -/
def OthersDoomed (w : DepositWorld) (s : DepositSystem) (sig : Signature) : Prop :=
  ∀ x ∈ s.claimed, x = sig ∨ s.channel.Doomed w.valid x

/-- These entries are mints of the deposit and cover every claim. -/
structure Covered (w : DepositWorld) (s : DepositSystem) (pending : List PendingSig) : Prop where
  signed : ∀ p ∈ pending, w.Signed p
  claims : ∀ x ∈ s.claimed, ∃ p ∈ pending, p.signature = x

end DepositSystem

/-- A storage write that cannot reopen the row while a mint may still land. -/
inductive SafeWrite (w : DepositWorld) (s : DepositSystem) : Op → Prop
  | closing {op : Op} (h : closingOp op = true) : SafeWrite w s op
  /-- Guarded on an empty journal by the statement itself. -/
  | halted (lease : Stamp) : SafeWrite w s (.requeueHaltedClaim lease)
  | unclaimed (lease : Stamp) : SafeWrite w s (.requeueUnclaimed lease)
  | requeue {lease : Stamp} (h : s.Leased lease (s.AllDoomed w)) :
      SafeWrite w s (.tryRequeueProcessing lease)
  | prebroadcast {lease : Stamp} {cap : ℕ} (h : s.Leased lease (s.AllDoomed w)) :
      SafeWrite w s (.tryRequeuePrebroadcast lease cap)

/-- What a task may rely on at its suspension point. -/
def MintTask.Sound (w : DepositWorld) (s : DepositSystem) : MintTask → Prop
  | .buffered lease | .gate lease _ | .settle lease | .sign lease | .haltRead lease
  | .jit lease => s.Leased lease (s.AllDoomed w)
  | .fence lease sig | .claim lease sig => s.Leased lease (s.AllDoomed w) ∧ w.Signed sig
  | .send lease sig | .poll lease sig _ =>
    s.Leased lease (s.OthersDoomed w sig.signature) ∧ sig.signature ∈ s.claimed
  | .swept lease _ => s.Leased lease True
  | .decide lease _ journal => ∀ pending, journal = .ok pending →
    s.Leased lease (s.Covered w pending)
  | .write op => SafeWrite w s op
  | .done => True

/-- The invariant of a deposit's runs. -/
structure DepositInv (w : DepositWorld) (s : DepositSystem) : Prop where
  outbox : Ledger.Disciplined w.valid w.mint s.channel s.claimed s.broadcast
  signed : ∀ p ∈ s.store.row.releaseJournal, w.Signed p
  recorded : ∀ p ∈ s.store.row.releaseJournal, p.signature ∈ s.claimed
  journaled : s.store.row.status.terminal = false →
    ∀ x ∈ s.claimed, ∃ p ∈ s.store.row.releaseJournal, p.signature = x
  reopened : s.store.row.status = .pending → s.AllDoomed w
  carried : s.store.row.updatedAt ∈ s.stamps
  tasks : ∀ i task, s.tasks i = some task → task.Sound w s

theorem DepositInv.covered (h : DepositInv w s) (hopen : s.store.row.status.terminal = false) :
    s.Covered w s.store.row.releaseJournal :=
  ⟨h.signed, h.journaled hopen⟩

theorem DepositSystem.Fresh.inv (h : s.Fresh w) : DepositInv w s where
  outbox := by
    rw [h.unclaimed, h.unsent]
    exact .init h.admitted h.unlanded
  signed := by simp [h.journal]
  recorded := by simp [h.journal]
  journaled := by simp [h.unclaimed]
  reopened := by simp [DepositSystem.AllDoomed, h.unclaimed]
  carried := h.carried
  tasks := fun i task hi => by simp [h.idle i] at hi

/-- Claims and stamps grow, the channel extends, and a lease held was held before. -/
structure Carries (s t : DepositSystem) : Prop where
  stamps : ∀ l ∈ s.stamps, l ∈ t.stamps
  claims : ∀ x ∈ s.claimed, x ∈ t.claimed
  channel : t.channel.Extends s.channel
  held : ∀ l ∈ s.stamps, t.Held l → s.Held l ∧ t.claimed = s.claimed

theorem Carries.leased (h : Carries s t) {fact fact' : Prop}
    (hl : s.Leased lease fact) (himp : t.claimed = s.claimed → fact → fact') :
    t.Leased lease fact' := by
  refine ⟨h.stamps lease hl.1, fun hheld => ?_⟩
  obtain ⟨hbefore, hclaims⟩ := h.held lease hl.1 hheld
  exact himp hclaims (hl.2 hbefore)

theorem Carries.allDoomed (h : Carries s t)
    (hl : s.Leased lease (s.AllDoomed w)) : t.Leased lease (t.AllDoomed w) :=
  h.leased hl fun hclaims hd x hx => (hd x (hclaims ▸ hx)).mono h.channel

variable {op : Op}

theorem Carries.safeWrite (h : Carries s t) (hw : SafeWrite w s op) : SafeWrite w t op := by
  cases hw with
  | closing hop => exact .closing hop
  | halted lease => exact .halted lease
  | unclaimed lease => exact .unclaimed lease
  | requeue hl => exact .requeue (h.allDoomed hl)
  | prebroadcast hl => exact .prebroadcast (h.allDoomed hl)

/-- Soundness of a task survives every step of another. -/
theorem Carries.sound (h : Carries s t) {task : MintTask} (hs : task.Sound w s) :
    task.Sound w t := by
  cases task with
  | buffered lease | gate lease _ | settle lease | sign lease | haltRead lease | jit lease =>
    exact h.allDoomed hs
  | fence lease sig | claim lease sig => exact ⟨h.allDoomed hs.1, hs.2⟩
  | send lease sig | poll lease sig _ =>
    exact ⟨h.leased hs.1 fun hclaims hd x hx =>
      (hd x (hclaims ▸ hx)).imp_right (·.mono h.channel), h.claims _ hs.2⟩
  | swept lease _ => exact h.leased hs fun _ hf => hf
  | decide lease _ journal =>
    exact fun pending hp => h.leased (hs pending hp) fun hclaims hc =>
      ⟨hc.signed, fun x hx => hc.claims x (hclaims ▸ hx)⟩
  | write op => exact h.safeWrite hs
  | done => trivial

variable {now : Stamp}

/-- A row stamped anew is held under no earlier lease. -/
theorem Carries.of_stamp (hnow : now ∉ s.stamps) (hstamps : t.stamps = now :: s.stamps)
    (hclaims : ∀ x ∈ s.claimed, x ∈ t.claimed) (hchannel : t.channel = s.channel)
    (hrow : t.store.row.updatedAt = now ∨
      (t.store.row = s.store.row ∧ t.claimed = s.claimed)) : Carries s t where
  stamps := fun l hl => hstamps ▸ List.mem_cons_of_mem now hl
  claims := hclaims
  channel := hchannel ▸ .refl _
  held := by
    intro l hl hheld
    rcases hrow with hr | ⟨hr, hc⟩
    · exact absurd (hr ▸ hheld.2 ▸ hl) hnow
    · exact ⟨⟨hr ▸ hheld.1, hr ▸ hheld.2⟩, hc⟩

/-- Steps that touch neither the row, the claims nor the channel. -/
theorem Carries.of_same (hstamps : t.stamps = s.stamps) (hrow : t.store.row = s.store.row)
    (hclaims : t.claimed = s.claimed) (hchannel : t.channel = s.channel) : Carries s t where
  stamps := fun _ hl => hstamps ▸ hl
  claims := fun _ hx => hclaims ▸ hx
  channel := hchannel ▸ .refl _
  held := fun _ _ hheld => ⟨⟨hrow ▸ hheld.1, hrow ▸ hheld.2⟩, hclaims⟩

/-- A closing write keeps the journal and does not reopen the row. -/
theorem closingOp_row (hop : closingOp op = true) (store : Store) (now : Stamp) :
    (op.run store now).2.row = store.row ∨
      ((op.run store now).2.row.releaseJournal = store.row.releaseJournal ∧
        (op.run store now).2.row.status ≠ .pending) := by
  cases op <;> simp only [closingOp, Bool.false_eq_true] at hop
  case insertObservedRelease => exact .inl rfl
  case setHalted => exact .inl rfl
  case commitCheckpoint => exact .inl rfl
  all_goals
    refine (put_row_cases store _).imp_right fun hsome => ?_
    obtain ⟨_, hrow⟩ := updateWhere_eq_some.mp hsome
    simp only [Op.run, hrow]
    refine ⟨trivial, ?_⟩
    grind

/-- What a requeue under a lease does when it matches. -/
theorem requeue_row {guard : Row → Bool} {set : Row → Row} {store : Store}
    (lease : Stamp)
    (hguard : guard store.row = true → heldAt .processing lease store.row = true)
    (hset : (set store.row).releaseJournal = store.row.releaseJournal) :
    (store.put (updateWhere guard set now store.row)).2.row = store.row ∨
      ((store.put (updateWhere guard set now store.row)).2.row.releaseJournal =
          store.row.releaseJournal ∧
        guard store.row = true ∧ store.row.status = .processing ∧
        store.row.updatedAt = lease) := by
  refine (put_row_cases store _).imp_right fun hsome => ?_
  obtain ⟨hg, hrow⟩ := updateWhere_eq_some.mp hsome
  rw [hrow]
  exact ⟨hset, hg, heldAt_eq_true.mp (hguard hg)⟩

variable {answer : Except String (Option Stamp)}

/-- A refused claim sends nothing. -/
theorem onMintClaim_refused_sound {isOpen : Bool} (hs : s.Leased lease (s.AllDoomed w))
    (hnone : ∀ a, answer = .ok a → a = none) : (onMintClaim lease sig isOpen answer).Sound w s := by
  cases answer with
  | error e => exact trivial
  | ok a =>
    obtain rfl := hnone a rfl
    exact hs

section

variable (h : DepositInv w s)
include h

/-- What only moves tasks or the fence keeps the invariant. -/
theorem DepositInv.retask (hrest : t = { s with tasks := t.tasks, fenceOpen := t.fenceOpen })
    (htasks : ∀ i task, t.tasks i = some task → s.tasks i = some task ∨ task.Sound w s) :
    DepositInv w t := by
  have hcarry : Carries s t := by
    rw [hrest]
    exact .of_same rfl rfl rfl rfl
  have hsound : ∀ i task, t.tasks i = some task → task.Sound w t := fun i task hi =>
    hcarry.sound ((htasks i task hi).elim (h.tasks i task) id)
  rw [hrest] at hsound ⊢
  exact ⟨h.outbox, h.signed, h.recorded, h.journaled, h.reopened, h.carried, hsound⟩

/-- A task resumes where what it relies on holds. -/
theorem DepositInv.resume (i : ℕ) {task : MintTask} (hs : task.Sound w s) :
    DepositInv w (s.resume i task) := by
  refine h.retask rfl fun j t' hj => ?_
  rcases of_update_eq_some hj with ⟨-, ⟨⟩⟩ | hj
  · exact .inr hs
  · exact .inl hj

/-- Over an empty journal of an open row nothing was ever claimed. -/
theorem DepositInv.allDoomed_of_empty (hopen : s.store.row.status = .processing)
    (hempty : s.store.row.releaseJournal = []) : s.AllDoomed w := by
  intro x hx
  obtain ⟨p, hp, _⟩ := h.journaled (by rw [hopen]; rfl) x hx
  rw [hempty] at hp
  cases hp

/-- A safe write keeps the journal, and reopens the row only when every claimed
mint is beyond landing. -/
theorem SafeWrite.row (hw : SafeWrite w s op) (now : Stamp) :
    (op.run s.store now).2.row = s.store.row ∨
      ((op.run s.store now).2.row.releaseJournal = s.store.row.releaseJournal ∧
        ((op.run s.store now).2.row.status = .pending → s.AllDoomed w)) := by
  cases hw with
  | closing hop =>
    exact (closingOp_row hop s.store now).imp_right fun hr => ⟨hr.1, fun hp => absurd hp hr.2⟩
  | halted lease | unclaimed lease =>
    refine (requeue_row lease (by grind) rfl).imp_right fun hr => ⟨hr.1, fun _ => ?_⟩
    exact h.allDoomed_of_empty hr.2.2.1 (by grind)
  | requeue hl =>
    exact (requeue_row _ (fun hg => hg) rfl).imp_right fun hr => ⟨hr.1, fun _ => hl.2 hr.2.2⟩
  | prebroadcast hl =>
    refine (requeue_row _ (fun hg => hg) ?_).imp_right fun hr => ⟨hr.1, fun _ => hl.2 hr.2.2⟩
    split <;> rfl

/-- Safe writes keep the invariant. -/
theorem DepositInv.commit (hw : SafeWrite w s op) (hnow : now ∉ s.stamps) :
    DepositInv w (s.commit (op.run s.store now).2 now) := by
  have htouched := op.touched s.store now
  have hcarry : Carries s (s.commit (op.run s.store now).2 now) := by
    refine .of_stamp hnow rfl (fun _ hx => hx) rfl ?_
    exact htouched.elim (fun he => .inr ⟨he, rfl⟩) fun hr => .inl hr.stamped
  have htasks : ∀ i task, s.tasks i = some task →
      task.Sound w (s.commit (op.run s.store now).2 now) :=
    fun i task hi => hcarry.sound (h.tasks i task hi)
  rcases hw.row h now with hrow | ⟨hjournal, hpending⟩
  · refine ⟨h.outbox, ?_, ?_, ?_, ?_, ?_, htasks⟩ <;> simp only [DepositSystem.commit, hrow]
    · exact h.signed
    · exact h.recorded
    · exact h.journaled
    · exact h.reopened
    · exact List.mem_cons_of_mem now h.carried
  · refine ⟨h.outbox, ?_, ?_, ?_, hpending, ?_, htasks⟩ <;>
      simp only [DepositSystem.commit, hjournal]
    · exact h.signed
    · exact h.recorded
    · intro hopen
      rcases htouched with he | hr
      · exact h.journaled (he ▸ hopen)
      · exact h.journaled hr.nonterminal
    · rcases htouched with he | hr
      · rw [he]
        exact List.mem_cons_of_mem now h.carried
      · rw [hr.stamped]
        exact List.mem_cons_self

/-- The fetcher takes over a row whose earlier mints are all beyond landing. -/
theorem DepositInv.fetch {i : ℕ} (hstep : DepositStep w s (.fetch i now) t) : DepositInv w t := by
  cases hstep with
  | @fetch _ _ row _ hnow hcommit =>
  obtain ⟨hg, hrow⟩ := updateWhere_eq_some.mp hcommit
  have hpending : s.store.row.status = .pending := by
    simp only [Bool.and_eq_true, beq_iff_eq] at hg
    exact hg.1.1
  have hdoomed := h.reopened hpending
  have hcarry : Carries s (s.withRow row now) :=
    .of_stamp hnow rfl (fun _ hx => hx) rfl (.inl (by rw [hrow]; rfl))
  subst hrow
  refine DepositInv.resume ?_ i ⟨List.mem_cons_self, fun _ => hdoomed⟩
  exact ⟨h.outbox, h.signed, h.recorded, fun _ => h.journaled (by rw [hpending]; rfl), nofun,
    List.mem_cons_self, fun j task hj => hcarry.sound (h.tasks j task hj)⟩

/-- A committed claim journals one more mint, all earlier ones being beyond landing. -/
theorem DepositInv.claim {i : ℕ} {isOpen : Bool}
    (hstep : DepositStep w s (.claim i now isOpen answer) t) : DepositInv w t := by
  cases hstep with
  | claimRefused hat hack =>
    exact h.resume _ (onMintClaim_refused_sound (h.tasks _ _ hat).1 fun a ha => (hack a ha).1)
  | @claim _ _ sig _ row _ _ hat hnow hcommit hack =>
  obtain ⟨hleased, hsigned⟩ := h.tasks i _ hat
  obtain ⟨hstatus, hlease, hrow⟩ := claim_row hcommit
  have hdoomed : s.AllDoomed w := hleased.2 ⟨hstatus, hlease⟩
  have hcarry : Carries s { s.withRow row now with claimed := sig.signature :: s.claimed } :=
    .of_stamp hnow rfl (fun _ hx => List.mem_cons_of_mem _ hx) rfl (.inl (by rw [hrow]; rfl))
  subst hrow
  refine DepositInv.resume ?_ i ?_
  · refine ⟨h.outbox.issue fun x hx => .inr (hdoomed x hx), ?_, ?_, ?_, ?_, List.mem_cons_self,
      fun j task hj => hcarry.sound (h.tasks j task hj)⟩
    · intro p hp
      rcases mem_journalRelease hp with hp | rfl
      · exact h.signed p hp
      · exact hsigned
    · intro p hp
      rcases mem_journalRelease hp with hp | rfl
      · exact List.mem_cons_of_mem _ (h.recorded p hp)
      · exact List.mem_cons_self
    · intro _ x hx
      rcases List.mem_cons.mp hx with rfl | hx
      · exact journalRelease_inserted sig _
      · obtain ⟨p, hp, rfl⟩ := h.journaled (by rw [hstatus]; rfl) x hx
        exact ⟨p, journalRelease_subset hp, rfl⟩
    · intro hpending
      cases hstatus.symm.trans hpending
  · cases answer with
    | error e => exact trivial
    | ok a =>
      obtain rfl := hack a rfl
      cases isOpen with
      | false => exact trivial
      | true =>
        refine ⟨⟨List.mem_cons_self, fun _ x hx => ?_⟩, List.mem_cons_self⟩
        exact (List.mem_cons.mp hx).imp_right (hdoomed x)

/-- A journaled mint goes out. -/
theorem DepositInv.send {i : ℕ} {answer : Except String Unit}
    (hstep : DepositStep w s (.send i answer) t) : DepositInv w t := by
  cases hstep with
  | @send _ lease sig _ hat =>
  have hsound : (MintTask.send lease sig).Sound w s := h.tasks i _ hat
  have hcarry : Carries s { s with broadcast := sig.signature :: s.broadcast } :=
    .of_same rfl rfl rfl rfl
  refine DepositInv.resume ?_ i ?_
  · exact { h with
      outbox := h.outbox.send hsound.2
      tasks := fun j task hj => hcarry.sound (h.tasks j task hj) }
  · cases answer with
    | error e => exact trivial
    | ok u => exact hsound

/-- Garbage collection empties the journal of a finished row only. -/
theorem DepositInv.gc : DepositInv w
    { s with store := { s.store with row := gcStaleReleaseSignatures s.store.row } } := by
  by_cases hterm : s.store.row.status.terminal = true
  · have hrow : gcStaleReleaseSignatures s.store.row =
        { s.store.row with releaseJournal := [] } := if_pos hterm
    simp only [hrow]
    refine ⟨h.outbox, nofun, nofun, fun hopen => ?_, h.reopened, h.carried, fun j task hj => ?_⟩
    · cases hterm.symm.trans hopen
    · have hcarry : Carries s { s with
          store := { s.store with row := { s.store.row with releaseJournal := [] } } } :=
        ⟨fun _ hl => hl, fun _ hx => hx, .refl _, fun _ _ hheld => ⟨hheld, rfl⟩⟩
      exact hcarry.sound (h.tasks j task hj)
  · have hrow : gcStaleReleaseSignatures s.store.row = s.store.row := if_neg hterm
    simpa only [hrow] using h

/-- The channel advances. -/
theorem DepositInv.advance (hstep : DepositStep w s .advance t) : DepositInv w t := by
  cases hstep with
  | @advance c hext hvalid hlands =>
  have hcarry : Carries s { s with channel := c } :=
    ⟨fun _ hl => hl, fun _ hx => hx, hext, fun _ _ hheld => ⟨hheld, rfl⟩⟩
  exact { h with
    outbox := h.outbox.advance hext hvalid hlands
    reopened := fun hp x hx => (h.reopened hp x hx).mono hext
    tasks := fun j task hj => hcarry.sound (h.tasks j task hj) }

/-- A dead verdict over entries that cover every claim leaves no mint to land. -/
theorem DepositInv.allDoomed_of_dead {pending : List PendingSig} {finality : FinalityRpc}
    (hcovered : s.Covered w pending) (hhonest : HonestChannel s.channel finality pending)
    (hdead : classifySignatures finality pending = .dead) : s.AllDoomed w := by
  intro x hx
  obtain ⟨p, hp, rfl⟩ := hcovered.claims x hx
  exact (classifySignatures_doomed h.outbox.admitted (fun p hp => (hcovered.signed p hp).window)
    hhonest.chain hhonest.primary hhonest.fallback).2 hdead p hp

/-- Recovery demotes a row only when no mint of it can land. -/
theorem DepositInv.recover_sound {attempts : ℕ} {journal : Except String (List PendingSig)}
    {finality : FinalityRpc} (hs : (MintTask.decide lease attempts journal).Sound w s)
    (hhonest : ∀ pending, journal = .ok pending → HonestChannel s.channel finality pending) :
    (onRecovery lease (decideDeposit attempts (checkDeposit journal finality))).Sound w s := by
  cases houtcome : checkDeposit journal finality with
  | live reason => exact trivial
  | notLanded =>
    simp only [decideDeposit]
    split
    · exact .closing rfl
    · obtain ⟨pending, hjournal, hread⟩ := checkDeposit_notLanded houtcome
      obtain ⟨hstamp, hcovered⟩ := hs pending hjournal
      refine .requeue ⟨hstamp, fun hheld => ?_⟩
      rcases hread with rfl | hdead
      · intro x hx
        obtain ⟨p, hp, _⟩ := (hcovered hheld).claims x hx
        cases hp
      · exact h.allDoomed_of_dead (hcovered hheld) (hhonest pending hjournal) hdead
  | _ => exact .closing rfl

end

theorem onGate_sound (hs : s.Leased lease (s.AllDoomed w))
    (outcome : DepositOutcome) : (onGate lease outcome).Sound w s := by
  cases outcome with
  | notLanded => exact hs
  | landed x => exact .closing rfl
  | live reason | ambiguous reason => exact trivial

theorem onConsumed_sound (hs : s.Leased lease (s.AllDoomed w))
    (answer : Except String ConsumedLookup) : (onConsumed lease answer).Sound w s := by
  cases answer with
  | error e => exact trivial
  | ok lookup =>
    cases lookup with
    | miss => exact hs
    | _ => exact .closing rfl

theorem onMintSigned_sound (hs : s.Leased lease (s.AllDoomed w))
    {answer : Except String StoredSig} (hsigned : ∀ sig, answer = .ok sig → w.Signed sig) :
    (onMintSigned lease answer).Sound w s := by
  cases answer with
  | error e => exact trivial
  | ok sig => exact ⟨hs, hsigned sig rfl⟩

theorem onFence_sound (hs : s.Leased lease (s.AllDoomed w) ∧ w.Signed sig) (isOpen : Bool) :
    (onFence lease sig isOpen).Sound w s := by
  cases isOpen with
  | false => exact .unclaimed lease
  | true => exact hs

theorem onHaltRead_sound (lease : Stamp) (answer : Except String Bool) :
    (onHaltRead lease answer).Sound w s := by
  unfold onHaltRead
  split
  · exact .halted lease
  · exact trivial

/-- A mint that finalized with an error joins the ones beyond landing. -/
theorem onPoll_sound {attempts processedAt : ℕ}
    {status : Option PolledStatus} (hs : (MintTask.poll lease sig attempts).Sound w s)
    (hseen : ∀ st, status = some st → st.satisfied = true →
      s.channel.Executed sig.signature st.err.isNone) :
    (onPoll lease sig attempts processedAt status).Sound w s := by
  rcases onPoll_cases lease sig attempts processedAt status with
    ⟨op, heq, rfl | rfl⟩ | ⟨heq, st, hst, hsat, herr⟩ | heq | heq <;> rw [heq]
  · exact .closing rfl
  · exact .closing rfl
  · have hfailed : s.channel.Executed sig.signature false := herr ▸ hseen st hst hsat
    refine ⟨hs.1.1, fun hheld x hx => ?_⟩
    rcases hs.1.2 hheld x hx with rfl | hdoomed
    · exact hfailed.doomed
    · exact hdoomed
  · exact trivial
  · exact hs

theorem onJit_sound (hs : s.Leased lease (s.AllDoomed w)) (hasPermit : Bool)
    (outcome : JitOutcome) : (onJit lease hasPermit outcome).Sound w s := by
  cases outcome with
  | retry =>
    cases hasPermit with
    | false => exact trivial
    | true => exact hs
  | manualReview reason => exact .closing rfl
  | transient reason => exact .prebroadcast hs

/-- A write is retried or left, whichever its acknowledgement calls for. -/
theorem again_sound (hw : SafeWrite w s op) (again : Bool) :
    (if again then MintTask.write op else .done).Sound w s := by
  cases again with
  | false => exact trivial
  | true => exact hw

/-- Every step keeps the invariant. -/
theorem DepositInv.step (h : DepositInv w s) (hstep : DepositStep w s e t) : DepositInv w t := by
  cases hstep with
  | fetch hfree hnow hcommit => exact h.fetch (.fetch hfree hnow hcommit)
  | sweep _ _ => exact h.resume _ ⟨h.carried, fun _ => trivial⟩
  | crash =>
    refine h.retask rfl fun j task hj => .inl ?_
    rcases of_update_eq_some hj with ⟨-, ⟨⟩⟩ | hj
    exact hj
  | readGate hat _ =>
    have hs := h.tasks _ _ hat
    exact h.resume _ hs
  | readSwept hat hread =>
    refine h.resume _ fun pending hp => ⟨(h.tasks _ _ hat).1, fun hheld => ?_⟩
    rw [hread pending hp]
    exact h.covered (by rw [hheld.1]; rfl)
  | gate hat _ => exact h.resume _ (onGate_sound (h.tasks _ _ hat) _)
  | consumed hat => exact h.resume _ (onConsumed_sound (h.tasks _ _ hat) _)
  | sign hat hsigned => exact h.resume _ (onMintSigned_sound (h.tasks _ _ hat) hsigned)
  | fence hat => exact h.resume _ (onFence_sound (h.tasks _ _ hat) _)
  | claim hat hnow hcommit hack => exact h.claim (.claim hat hnow hcommit hack)
  | claimRefused hat hack => exact h.claim (.claimRefused hat hack)
  | haltRead _ _ => exact h.resume _ (onHaltRead_sound _ _)
  | send hat => exact h.send (.send hat)
  | poll hat hseen => exact h.resume _ (onPoll_sound (h.tasks _ _ hat) hseen)
  | jit hat => exact h.resume _ (onJit_sound (h.tasks _ _ hat) _ _)
  | recover hat hhonest => exact h.resume _ (h.recover_sound (h.tasks _ _ hat) hhonest)
  | write hat hnow =>
    have hw : SafeWrite w s _ := h.tasks _ _ hat
    have hafter := h.commit hw hnow
    exact hafter.resume _ (again_sound (hafter.tasks _ _ hat) _)
  | writeFailed hat => exact h.resume _ (again_sound (h.tasks _ _ hat) _)
  | setFence => exact h.retask rfl fun _ _ => .inl
  | other hop hnow => exact h.commit (.closing hop) hnow
  | gc => exact h.gc
  | advance hext hvalid hlands => exact h.advance (.advance hext hvalid hlands)

theorem depositInv_of_run (hfresh : s.Fresh w)
    (h : Run (DepositStep w) s events t) : DepositInv w t :=
  h.stateInvariant hfresh.inv fun _ _ _ hinv hstep => hinv.step hstep

/-- This signature was journaled by a committed claim that presented the row's lease. -/
def ClaimedIn (w : DepositWorld) (s₀ : DepositSystem) (events : List DepositEvent)
    (t : DepositSystem) (x : Signature) : Prop :=
  ∃ before after i now isOpen answer u v lease sig,
    events = before ++ .claim i now isOpen answer :: after ∧
    Run (DepositStep w) s₀ before u ∧ DepositStep w u (.claim i now isOpen answer) v ∧
    Run (DepositStep w) v after t ∧
    u.tasks i = some (.claim lease sig) ∧ sig.signature = x ∧ u.Held lease ∧
    claimAndPersistSignature u.store.halted lease sig now u.store.row =
      some v.store.row ∧
    ∃ p ∈ v.store.row.releaseJournal, p.signature = x

variable {x : Signature}

theorem ClaimedIn.snoc {s₀ : DepositSystem}
    (h : ClaimedIn w s₀ events s x) (hstep : DepositStep w s e t) :
    ClaimedIn w s₀ (events ++ [e]) t x := by
  obtain ⟨before, after, i, now, isOpen, answer, u, v, lease, sig, rfl, hu, hclaim, hv, hrest⟩ := h
  exact ⟨before, after ++ [e], i, now, isOpen, answer, u, v, lease, sig, by simp, hu, hclaim,
    hv.snoc hstep, hrest⟩

/-- Only a committed claim adds to the claimed signatures. -/
theorem DepositStep.claimed_cases (hstep : DepositStep w s e t) :
    t.claimed = s.claimed ∨
      ∃ i now isOpen answer lease sig, e = .claim i now isOpen answer ∧
        s.tasks i = some (.claim lease sig) ∧ s.Held lease ∧
        t.claimed = sig.signature :: s.claimed ∧
        claimAndPersistSignature s.store.halted lease sig now s.store.row =
          some t.store.row ∧
        ∃ p ∈ t.store.row.releaseJournal, p.signature = sig.signature := by
  cases hstep with
  | @claim i lease sig now row isOpen answer hat _ hcommit _ =>
    obtain ⟨hstatus, hlease, hrow⟩ := claim_row hcommit
    refine .inr ⟨i, now, isOpen, answer, lease, sig, rfl, hat, ⟨hstatus, hlease⟩, rfl, hcommit, ?_⟩
    subst hrow
    exact journalRelease_inserted sig _
  | _ => exact .inl rfl

theorem claimed_mono (h : Run (DepositStep w) s events t) (hx : x ∈ s.claimed) : x ∈ t.claimed := by
  induction h with
  | nil => exact hx
  | snoc _ hstep ih =>
    rcases hstep.claimed_cases with hsame | ⟨_, _, _, _, _, _, _, _, _, hclaimed, _⟩
    · exact hsame ▸ ih
    · exact hclaimed ▸ List.mem_cons_of_mem _ ih

/-- The claimed signatures are those with a claim in the run. -/
theorem mem_claimed_iff {s₀ : DepositSystem} (hfresh : s₀.Fresh w)
    (h : Run (DepositStep w) s₀ events s) : x ∈ s.claimed ↔ ClaimedIn w s₀ events s x := by
  constructor
  · intro hx
    induction h with
    | nil => simp [hfresh.unclaimed] at hx
    | @snoc l u v e hrun hstep ih =>
      rcases hstep.claimed_cases with hsame |
        ⟨i, now, isOpen, answer, lease, sig, rfl, hat, hheld, hclaimed, hcommit, hjournal⟩
      · exact (ih (hsame ▸ hx)).snoc hstep
      · rw [hclaimed] at hx
        rcases List.mem_cons.mp hx with rfl | hx
        · exact ⟨l, [], i, now, isOpen, answer, u, v, lease, sig, rfl, hrun, hstep, .nil, hat, rfl,
            hheld, hcommit, hjournal⟩
        · exact (ih hx).snoc hstep
  · rintro ⟨before, after, i, now, isOpen, answer, u, v, lease, sig, -, hu, hclaim, hv, -, -, -, -,
      p, hp, rfl⟩
    exact claimed_mono hv ((depositInv_of_run hfresh (hu.snoc hclaim)).recorded p hp)

/-- A step broadcasts only what was claimed before it. -/
theorem DepositInv.broadcast_claimed (h : DepositInv w s)
    (hstep : DepositStep w s e t) (hx : x ∈ t.broadcast) : x ∈ s.claimed := by
  cases hstep with
  | send hat =>
    rcases List.mem_cons.mp hx with rfl | hx
    · exact (h.tasks _ _ hat).2
    · exact h.outbox.sent x hx
  | _ => exact h.outbox.sent x hx

/-- The step returns the row to `pending`, locks it again, or claims it. -/
def Reopens (s t : DepositSystem) : Prop :=
  (s.store.row.status ≠ .pending ∧ t.store.row.status = .pending) ∨
    (s.store.row.status = .pending ∧ t.store.row.status = .processing) ∨ t.claimed ≠ s.claimed

theorem not_reopens (hstatus : t.store.row.status = s.store.row.status)
    (hclaims : t.claimed = s.claimed) : ¬ Reopens s t := by
  rintro (⟨hne, heq⟩ | ⟨heq, heq'⟩ | hne)
  · exact hne (hstatus ▸ heq)
  · cases heq.symm.trans (hstatus ▸ heq')
  · exact hne hclaims

/-- A write that reopens the row does so over doomed mints only. -/
theorem DepositInv.allDoomed_of_commit (h : DepositInv w s) (hw : SafeWrite w s op)
    (hreopens : Reopens s (s.commit (op.run s.store now).2 now)) : s.AllDoomed w := by
  rcases hreopens with ⟨hbefore, hafter⟩ | ⟨hbefore, _⟩ | hclaims
  · rcases hw.row h now with hrow | ⟨_, hpending⟩
    · exact absurd (hrow ▸ hafter) hbefore
    · exact hpending hafter
  · exact h.reopened hbefore
  · exact absurd rfl hclaims

/-- The row is reopened only when no claimed mint can land. -/
theorem DepositInv.allDoomed_of_reopens (h : DepositInv w s)
    (hstep : DepositStep w s e t) (hreopens : Reopens s t) : s.AllDoomed w := by
  by_cases hpending : s.store.row.status = .pending
  · exact h.reopened hpending
  cases hstep with
  | fetch _ _ hcommit =>
    obtain ⟨hg, _⟩ := updateWhere_eq_some.mp hcommit
    simp only [Bool.and_eq_true, beq_iff_eq] at hg
    exact h.reopened hg.1.1
  | claim hat _ hcommit _ =>
    obtain ⟨hstatus, hlease, _⟩ := claim_row hcommit
    exact (h.tasks _ _ hat).1.2 ⟨hstatus, hlease⟩
  | write hat _ => exact h.allDoomed_of_commit (h.tasks _ _ hat) hreopens
  | other hop _ => exact h.allDoomed_of_commit (.closing hop) hreopens
  | gc =>
    refine absurd hreopens (not_reopens ?_ rfl)
    simp only [gcStaleReleaseSignatures]
    split <;> rfl
  | _ => exact absurd hreopens (not_reopens rfl rfl)

/-- At most one `MintTo` of the deposit lands. What is broadcast was journaled by an earlier
claim under the row's lease, and a step that reopens, locks or claims the row finds that no
journaled signature can land any more. -/
theorem deposit_minted_at_most_once {s₀ : DepositSystem} {events : List DepositEvent}
    (hfresh : s₀.Fresh w) (h : Run (DepositStep w) s₀ events t) :
    (∀ x y, w.mint x → t.channel.Landed x → w.mint y → t.channel.Landed y → x = y) ∧
    (∀ e u, DepositStep w t e u → ∀ x ∈ u.broadcast, ClaimedIn w s₀ events t x) ∧
    (∀ e u, DepositStep w t e u → Reopens t u →
      (∀ x, ClaimedIn w s₀ events t x → t.channel.Doomed w.valid x) ∧
      ∀ p ∈ t.store.row.releaseJournal, t.channel.Doomed w.valid p.signature) := by
  have hinv := depositInv_of_run hfresh h
  refine ⟨fun x y hx hlx hy hly => hinv.outbox.landed_unique hx hlx hy hly,
    fun e u hstep x hx => ?_, fun e u hstep hreopens => ?_⟩
  · exact (mem_claimed_iff hfresh h).mp (hinv.broadcast_claimed hstep hx)
  · have hdoomed := hinv.allDoomed_of_reopens hstep hreopens
    exact ⟨fun x hx => hdoomed x ((mem_claimed_iff hfresh h).mpr hx),
      fun p hp => hdoomed _ (hinv.recorded p hp)⟩

def firstMint : StoredSig := ⟨⟨1⟩, 100, some 5⟩

def secondMint : StoredSig := ⟨⟨2⟩, 350, some 200⟩

/-- A deposit whose mint is signed at most twice. -/
def depositWorld : DepositWorld where
  valid c := Admissible .channel firstMint c ∧ Admissible .channel secondMint c
  mint x := x = firstMint.signature ∨ x = secondMint.signature

/-- The deposit is pending, behind the checkpoint, and the channel is empty. -/
def depositStart : DepositSystem where
  store := ⟨Row.new 7 .deposit 40 none 0, false, some 50, []⟩
  stamps := [0]
  channel := Ledger.Chain.empty
  fenceOpen := true
  tasks _ := none
  claimed := []
  broadcast := []

theorem depositStart_fresh : depositStart.Fresh depositWorld where
  admitted := ⟨nofun, nofun⟩
  unlanded := by
    simp [depositStart, Ledger.Chain.empty, Ledger.Chain.Landed, Ledger.Chain.Executed]
  journal := rfl
  carried := by decide
  idle _ := rfl
  unclaimed := rfl
  unsent := rfl

theorem firstMint_signed : depositWorld.Signed firstMint := ⟨.inl rfl, fun _ h => h.1⟩

theorem secondMint_signed : depositWorld.Signed secondMint := ⟨.inr rfl, fun _ h => h.2⟩

/-- The first mint finalized with an error. -/
def mintFailed : Ledger.Chain Signature :=
  ⟨[⟨60, 50, [(⟨1⟩, false)]⟩], by simp, by simp, by simp, by simp⟩

/-- The second one landed after it. -/
def mintLanded : Ledger.Chain Signature :=
  ⟨[⟨60, 50, [(⟨1⟩, false)]⟩, ⟨230, 220, [(⟨2⟩, true)]⟩],
    by simp, by simp, by simp, by simp⟩

theorem mintLanded_landed : mintLanded.Landed secondMint.signature :=
  ⟨⟨230, 220, [(⟨2⟩, true)]⟩, by simp [mintLanded], List.mem_singleton_self _⟩

/-- An endpoint the gate does not need for a row that never broadcast. -/
def silentFinality : FinalityRpc :=
  ⟨⟨.error "unused", .error "unused", .error "unused", .error "unused"⟩, none, .channel⟩

/-- The uninitialised mint refuses the first `MintTo`; the row is claimed again and the second
one lands. -/
theorem deposit_minted_at_most_once_after_jit :
    ∃ events t, Run (DepositStep depositWorld) depositStart events t ∧
      t.store.row.status = .completed ∧ t.broadcast = [secondMint.signature, firstMint.signature] ∧
      ∀ y, depositWorld.mint y → t.channel.Landed y → y = secondMint.signature := by
  have hrun : ∃ t, Run (DepositStep depositWorld) depositStart
      [.fetch 0 1, .readJournal 0 (.ok []), .gate 0 silentFinality, .consumed 0 (.ok .miss),
        .sign 0 (.ok firstMint), .fence 0, .claim 0 2 true (.ok (some 2)), .send 0 (.ok ()),
        .advance, .poll 0 (some ⟨true, some .invalidAccountData, 60⟩) 9, .jit 0 true .retry,
        .sign 0 (.ok secondMint), .fence 0, .claim 0 3 true (.ok (some 3)), .send 0 (.ok ()),
        .advance, .poll 0 (some ⟨true, none, 230⟩) 9, .write 0 4 false] t ∧
      t.store.row.status = .completed ∧
      t.broadcast = [secondMint.signature, firstMint.signature] ∧ t.channel = mintLanded := by
    refine ⟨_, .cons (.fetch rfl (by decide) rfl) <|
      .cons (.readGate rfl fun _ h => (Except.ok.inj h).symm) <|
      .cons (.gate rfl fun _ _ => ⟨rfl, nofun, nofun⟩) <| .cons (.consumed rfl) <|
      .cons (.sign rfl fun _ h => Except.ok.inj h ▸ firstMint_signed) <| .cons (.fence rfl) <|
      .cons (.claim rfl (by decide) rfl fun _ h => (Except.ok.inj h).symm) <|
      .cons (.send rfl) <| .cons (.advance (c := mintFailed) List.nil_prefix ?_ ?_) <|
      .cons (.poll rfl ?_) <| .cons (.jit rfl) <|
      .cons (.sign rfl fun _ h => Except.ok.inj h ▸ secondMint_signed) <| .cons (.fence rfl) <|
      .cons (.claim rfl (by decide) rfl fun _ h => (Except.ok.inj h).symm) <|
      .cons (.send rfl) <| .cons (.advance (c := mintLanded) ?_ ?_ ?_) <|
      .cons (.poll rfl ?_) <| .single (.write rfl (by decide)), rfl, rfl, rfl⟩
    · constructor <;> simp [Admissible, mintFailed, firstMint, secondMint]
    · simp [mintFailed, Ledger.Chain.Landed, Ledger.Chain.Executed]
    · rintro st hst -
      cases hst
      exact ⟨_, List.mem_singleton_self _, List.mem_singleton_self _⟩
    · exact ⟨[⟨230, 220, [(⟨2⟩, true)]⟩], rfl⟩
    · constructor <;> simp [Admissible, mintLanded, firstMint, secondMint]
    · rintro x _ ⟨b, hb, hx⟩
      simp only [mintLanded, List.mem_cons, List.not_mem_nil, or_false] at hb
      rcases hb with rfl | rfl <;> simp at hx
      exact hx ▸ List.mem_cons_self
    · rintro st hst -
      cases hst
      exact mintLanded_landed
  obtain ⟨t, hrun, hstatus, hsent, hchannel⟩ := hrun
  have hsafe := deposit_minted_at_most_once depositStart_fresh hrun
  refine ⟨_, t, hrun, hstatus, hsent, fun y hy hly => ?_⟩
  exact hsafe.1 y _ hy hly (.inr rfl) (hchannel ▸ mintLanded_landed)

end PrivateChannels.Operator
