import PrivateChannels.Operator.DepositSafety
import PrivateChannels.Operator.RestoreSystem

/-!
# What survives a restore

A forgotten mint is newer than every mint the restored database knows, or recorded as
consumed, so the walk finds it and its row is never served again.
-/

namespace PrivateChannels.Operator

open Storage (Signature StoredSig Stamp Op Store Row)
open Listing

variable {w : RestoreWorld} {s t : EscrowSystem} {c c' : Ledger.Chain Signature} {x : Signature}
  {mint : Pubkey} {e : SourceEventId} {shown : SourceEventId → Signature → Prop}
  {what : DepositEvent} {d : DepositSystem} {journal : Except String (List PendingSig)}

/-- The mint follows the newest one the database knows. -/
def EscrowDb.Newer (w : RestoreWorld) (c : Ledger.Chain Signature) (db : EscrowDb)
    (e : SourceEventId) (x : Signature) : Prop :=
  ∀ b, db.newestKnown w (w.info e).mint = some b → Precedes c.signatures b x

/-- A walk of the restored database finds the mint, or has recorded it. -/
def EscrowDb.Shows (w : RestoreWorld) (c : Ledger.Chain Signature) (db : EscrowDb)
    (e : SourceEventId) (x : Signature) : Prop :=
  db.consumed.Has e ∨ db.Newer w c e x

/-- One row with the signatures claimed for it on its timeline. -/
structure RowOk (w : RestoreWorld) (c : Ledger.Chain Signature) (e : SourceEventId)
    (stamps : List Stamp) (row : Row) (claimed : List Signature) : Prop where
  signed : ∀ p ∈ row.releaseJournal, (w.deposit e).Signed p
  recorded : ∀ p ∈ row.releaseJournal, p.signature ∈ claimed
  journaled : row.status.terminal = false →
    ∀ x ∈ claimed, ∃ p ∈ row.releaseJournal, p.signature = x
  reopened : row.status = .pending → ∀ x ∈ claimed, c.Doomed w.valid x
  carried : row.updatedAt ∈ stamps

/-- A state of the database that may be restored. -/
structure EscrowDb.Ok (w : RestoreWorld) (c : Ledger.Chain Signature)
    (stamps : SourceEventId → List Stamp) (db : EscrowDb) : Prop where
  rows : ∀ e, RowOk w c e (stamps e) (db.stores e).row (db.claimed e)
  completed : ∀ e x, (db.stores e).row.status = .completed →
    (db.stores e).row.counterpartSignature = some x → c.Landed x
  allowed : ∀ e, db.claimed e ≠ [] → (w.info e).mint ∈ db.mints
  genuine : ∀ entry ∈ db.consumed, Genuine w.tx c entry
  unindexed : ∀ e, e ∉ db.indexed → db.claimed e = []
  covered : ∀ e x, w.mints e x → c.Landed x → x ∈ db.claimed e ∨ db.Shows w c e x

/-- What the database knows has landed. -/
theorem EscrowDb.Ok.landed_of_newestKnown {stamps : SourceEventId → List Stamp} {db : EscrowDb}
    (h : db.Ok w c stamps) (hx : db.newestKnown w mint = some x) : c.Landed x := by
  obtain ⟨row, hrow, hstatus, hsig⟩ := getNewestKnownMintSignatures_deposit hx
  obtain ⟨e, _, rfl⟩ := List.mem_map.mp hrow
  exact h.completed e x hstatus hsig

theorem EscrowDb.Newer.mono {db : EscrowDb}
    (h : db.Newer w c e x) (hext : c'.Extends c) : db.Newer w c' e x := by
  intro b hb
  obtain ⟨later, hlater⟩ := hext.signatures
  rw [hlater]
  exact (h b hb).append later

/-- A mint that lands now is newer than all the database knows. -/
theorem EscrowDb.Ok.newer_of_landed {stamps : SourceEventId → List Stamp} {db : EscrowDb}
    (h : db.Ok w c stamps) (hext : c'.Extends c) (hnew : ¬ c.Landed x)
    (hl : c'.Landed x) (e : SourceEventId) : db.Newer w c' e x := by
  intro b hb
  obtain ⟨later, hlater⟩ := hext.signatures
  have hmem : x ∈ later := by
    have hx := hl.mem_signatures
    rw [hlater, List.mem_append] at hx
    exact hx.resolve_left (hext.new_of_landed hl hnew)
  rw [hlater]
  exact precedes_of_append (h.landed_of_newestKnown hb).mem_signatures hmem

/-- A restorable state stays one while the channel advances and stamps are used up. -/
theorem EscrowDb.Ok.mono {stamps stamps' : SourceEventId → List Stamp} {db : EscrowDb}
    (h : db.Ok w c stamps) (hext : c'.Extends c) (hstamps : ∀ e, ∀ l ∈ stamps e, l ∈ stamps' e) :
    db.Ok w c' stamps' where
  rows e := ⟨(h.rows e).signed, (h.rows e).recorded, (h.rows e).journaled,
    fun hp x hx => ((h.rows e).reopened hp x hx).mono hext, hstamps e _ (h.rows e).carried⟩
  completed e x hs hx := (h.completed e x hs hx).mono hext
  allowed := h.allowed
  genuine entry he := (h.genuine entry he).mono hext
  unindexed := h.unindexed
  covered := by
    intro e x hx hl
    by_cases hbefore : c.Landed x
    · exact (h.covered e x hx hbefore).imp_right fun hs => hs.imp_right (·.mono hext)
    · exact .inr (.inr (h.newer_of_landed hext hbefore hl e))

/-- The deposit's world without `shown`, the landed mints the current timeline has forgotten. -/
def RestoreWorld.unshown (w : RestoreWorld) (shown : SourceEventId → Signature → Prop)
    (e : SourceEventId) : DepositWorld :=
  ⟨w.valid, fun x => w.mints e x ∧ ¬ shown e x⟩

variable {sig : StoredSig}

theorem signed_of_unshown (h : (w.unshown shown e).Signed sig) : (w.deposit e).Signed sig :=
  ⟨h.mint.1, h.window⟩

namespace EscrowSystem

/-- The operator has walked this mint since it came up. -/
def Walked (s : EscrowSystem) (mint : Pubkey) : Prop :=
  ∃ session, s.session = some session ∧ mint ∈ session.walked

variable {session : ConsumedSession}

theorem Walked.mem (h : s.Walked mint) (hup : s.session = some session) :
    mint ∈ session.walked := by
  obtain ⟨session', hup', hmem⟩ := h
  obtain rfl : session = session' := Option.some.inj (hup.symm.trans hup')
  exact hmem

theorem Serving.todo (h : s.Serving) (hup : s.session = some session) : session.todo = [] := by
  obtain ⟨session', hup', hdone⟩ := h
  obtain rfl : session = session' := Option.some.inj (hup.symm.trans hup')
  exact hdone

/-- What the service of a row rests on: its mint is walked and known, and none of
its mints is forgotten. -/
structure Served (w : RestoreWorld) (shown : SourceEventId → Signature → Prop) (s : EscrowSystem)
    (e : SourceEventId) : Prop where
  walked : s.Walked (w.info e).mint
  allowed : (w.info e).mint ∈ s.db.mints
  unshown : ∀ x, ¬ shown e x

/-- A journal that was read: its entries are mints of the deposit, and a row that
has any is of a walked mint. -/
def ReadOk (w : RestoreWorld) (s : EscrowSystem) (e : SourceEventId)
    (journal : Except String (List PendingSig)) : Prop :=
  ∀ pending, journal = .ok pending →
    (∀ p ∈ pending, (w.deposit e).Signed p) ∧ (pending ≠ [] → s.Walked (w.info e).mint)

/-- What is known at a suspension point beyond the soundness of the deposit's task. -/
def TaskOk (w : RestoreWorld) (shown : SourceEventId → Signature → Prop) (s : EscrowSystem)
    (e : SourceEventId) : MintTask → Prop
  | .sign _ | .fence _ _ | .claim _ _ | .haltRead _ | .send _ _ | .poll _ _ _ | .jit _ =>
    Served w shown s e
  | .gate _ journal | .decide _ _ journal => s.ReadOk w e journal
  | .write op => ∀ counterpart, op.completion = some counterpart →
    s.Walked (w.info e).mint ∧ ∃ x, counterpart = some x ∧ s.channel.Landed x
  | .buffered _ | .settle _ | .swept _ _ | .done => True

/-- The set or the table would stop the service of this event. -/
def Recorded (s : EscrowSystem) (session : ConsumedSession) (e : SourceEventId) : Prop :=
  session.set.Has e ∧ s.db.consumed.Has e

/-- A walk under way. -/
structure WalkOk (w : RestoreWorld) (shown : SourceEventId → Signature → Prop) (s : EscrowSystem)
    (session : ConsumedSession) (walk : Walk) : Prop where
  unwalked : walk.mint ∉ session.walked
  genuine : ∀ entry ∈ walk.found, Genuine w.tx s.channel entry
  recorded : ∀ entry ∈ walk.found, entry ∈ walk.unrecorded ∨ s.db.consumed.Has entry.1
  pending : ∀ entry ∈ walk.unrecorded, entry ∈ walk.found
  complete : ∀ e x, (w.tx x).Pays .deposit e walk.mint → walk.seen.Landed x →
    (∀ b, s.db.newestKnown w walk.mint = some b → Precedes walk.seen.signatures b x) →
    walk.found.Has e
  shown : ∀ e x, shown e x → (w.info e).mint = walk.mint →
    walk.found.Has e ∨ s.Recorded session e

/-- The session of an operator that is up. -/
structure SessionOk (w : RestoreWorld) (shown : SourceEventId → Signature → Prop)
    (s : EscrowSystem) (session : ConsumedSession) : Prop where
  genuine : ∀ entry ∈ session.set, Genuine w.tx s.channel entry
  loaded : ∀ e x, shown e x → s.Recorded session e ∨ s.db.Newer w s.channel e x
  walked : ∀ e x, shown e x → (w.info e).mint ∈ session.walked → s.Recorded session e
  listed : ∀ e, s.db.claimed e ≠ [] →
    (w.info e).mint ∈ session.todo ∨ (w.info e).mint ∈ session.walked
  walking : ∀ walk, session.walking = some walk → s.WalkOk w shown session walk

end EscrowSystem

open EscrowSystem

/-- The invariant of runs whose restores stop every service. -/
structure RestoreInv (w : RestoreWorld) (shown : SourceEventId → Signature → Prop)
    (s : EscrowSystem) : Prop where
  rows : ∀ e, DepositInv (w.unshown shown e) (s.deposit e)
  forgotten : ∀ e x, shown e x → w.mints e x ∧ s.channel.Landed x ∧ x ∉ s.db.claimed e
  single : ∀ e x y, shown e x → shown e y → x = y
  superseded : ∀ e x, shown e x → ∀ y ∈ s.db.claimed e, s.channel.Doomed w.valid y
  states : ∀ db ∈ s.db :: s.past, db.Ok w s.channel s.stamps
  timeline : (s.db :: s.past).Pairwise fun new old => ∀ e, old.claimed e <:+ new.claimed e
  tasks : ∀ e i task, s.tasks e i = some task → s.TaskOk w shown e task
  working : ∀ e i task, s.tasks e i = some task → s.Serving ∧ e ∈ s.db.indexed
  session : ∀ session, s.session = some session → s.SessionOk w shown session

namespace RestoreInv

section

variable (h : RestoreInv w shown s)

include h

theorem db : s.db.Ok w s.channel s.stamps :=
  h.states _ List.mem_cons_self

theorem admitted (e : SourceEventId) : w.valid s.channel :=
  (h.rows e).outbox.admitted

/-- A landed mint the timeline has not forgotten was claimed on it. -/
theorem claimed_of_landed
    (hx : w.mints e x) (hl : s.channel.Landed x) (hshown : ¬ shown e x) : x ∈ s.db.claimed e :=
  (h.rows e).outbox.issued_of_landed ⟨hx, hshown⟩ hl

/-- Beside a forgotten mint nothing else of the deposit has landed. -/
theorem eq_of_shown {x y : Signature}
    (hx : shown e x) (hy : w.mints e y) (hly : s.channel.Landed y) : y = x := by
  by_cases hshown : shown e y
  · exact h.single e y x hshown hx
  · have hdoomed := h.superseded e x hx y (h.claimed_of_landed hy hly hshown)
    exact absurd hly (hdoomed.not_landed (h.admitted e))

theorem landed_unique {x y : Signature}
    (hx : w.mints e x) (hlx : s.channel.Landed x) (hy : w.mints e y) (hly : s.channel.Landed y) :
    x = y := by
  by_cases hsx : shown e x
  · exact (h.eq_of_shown hsx hy hly).symm
  · by_cases hsy : shown e y
    · exact h.eq_of_shown hsy hx hlx
    · exact (h.rows e).outbox.landed_unique ⟨hx, hsx⟩ hlx ⟨hy, hsy⟩ hly

end

end RestoreInv

/-- The row's place among the known mints did not change. -/
structure KnownKept (r r' : Row) : Prop where
  completed : r'.status = .completed →
    r.status = .completed ∧ r'.counterpartSignature = r.counterpartSignature
  known : knownMint .deposit r' = knownMint .deposit r

theorem KnownKept.refl (r : Row) : KnownKept r r := ⟨fun h => ⟨h, rfl⟩, rfl⟩

theorem KnownKept.of_open {r r' : Row} (h : r.status ≠ .completed) (h' : r'.status ≠ .completed) :
    KnownKept r r' :=
  ⟨fun hc => absurd hc h', by simp [knownMint, h, h']⟩

/-- Known mints stay known. -/
theorem knownKept_of_run (op : Op) (store : Store) (now : Stamp) :
    KnownKept store.row (op.run store now).2.row ∨ ∃ counterpart, op.completion = some counterpart ∧
      ∀ x, counterpart = some x → (op.run store now).2.row.counterpartSignature = some x := by
  by_cases hafter : (op.run store now).2.row.status = .completed
  · rcases Op.run_completed hafter with hsame | hcompletes
    · exact .inl (hsame ▸ .refl _)
    · exact .inr hcompletes
  · rcases op.touched store now with hsame | hwritten
    · exact .inl (hsame ▸ .refl _)
    · refine .inl (.of_open (fun hbefore => ?_) hafter)
      have hopen := hwritten.nonterminal
      rw [hbefore] at hopen
      cases hopen

variable {v : DepositWorld} {d' : DepositSystem}

/-- What is known changes only when a task completes the row. -/
theorem DepositStep.known (hstep : DepositStep v d what d')
    (hother : ∀ op now, what = .other op now → op.completion = none) :
    KnownKept d.store.row d'.store.row ∨ ∃ i op counterpart, d.tasks i = some (.write op) ∧
      op.completion = some counterpart ∧
      ∀ x, counterpart = some x → d'.store.row.counterpartSignature = some x := by
  cases hstep with
  | fetch _ _ hcommit =>
    obtain ⟨hg, hrow⟩ := Storage.updateWhere_eq_some.mp hcommit
    simp only [Bool.and_eq_true, beq_iff_eq] at hg
    subst hrow
    exact .inl (.of_open (by simp [hg.1.1]) nofun)
  | claim hat _ hcommit _ =>
    obtain ⟨hstatus, _, hrow⟩ := Storage.claim_row hcommit
    subst hrow
    exact .inl (.of_open (by simp [hstatus]) (by
      simp [DepositSystem.resume, DepositSystem.withRow, DepositSystem.commit, hstatus]))
  | @write i op now again hat _ =>
    refine (knownKept_of_run op d.store now).imp_right ?_
    rintro ⟨counterpart, hop, hbound⟩
    exact ⟨i, op, counterpart, hat, hop, hbound⟩
  | @other op now _ _ =>
    refine .inl ((knownKept_of_run op d.store now).resolve_right ?_)
    rintro ⟨counterpart, hop, _⟩
    rw [hother op now rfl] at hop
    cases hop
  | gc =>
    refine .inl ?_
    rcases Storage.gcStaleReleaseSignatures_cases d.store.row with hrow | ⟨_, hrow⟩
    · simp only [hrow]
      exact .refl _
    · simp only [hrow]
      exact ⟨fun hc => ⟨hc, rfl⟩, rfl⟩
  | _ => exact .inl (.refl _)

/-- A step of the deposit is one of its world without forgotten mints, as long as
none is signed for beside them. -/
theorem DepositStep.unshown
    (hstep : DepositStep (w.deposit e) d what d') (hadvance : what ≠ .advance)
    (hsign : ∀ i lease, d.tasks i = some (.sign lease) → ∀ x, ¬ shown e x) :
    DepositStep (w.unshown shown e) d what d' := by
  cases hstep with
  | sign hat hsigned =>
    exact .sign hat fun sig h =>
      ⟨⟨(hsigned sig h).mint, hsign _ _ hat _⟩, (hsigned sig h).window⟩
  | advance => exact absurd rfl hadvance
  | crash => exact .crash
  | setFence => exact .setFence
  | gc => exact .gc
  | fetch hfree hnow hcommit => exact .fetch hfree hnow hcommit
  | sweep hfree hstale => exact .sweep hfree hstale
  | readGate hat hread => exact .readGate hat hread
  | readSwept hat hread => exact .readSwept hat hread
  | gate hat hhonest => exact .gate hat hhonest
  | consumed hat => exact .consumed hat
  | fence hat => exact .fence hat
  | claim hat hnow hcommit hack => exact .claim hat hnow hcommit hack
  | claimRefused hat hack => exact .claimRefused hat hack
  | haltRead hat hread => exact .haltRead hat hread
  | send hat => exact .send hat
  | poll hat hseen => exact .poll hat hseen
  | jit hat => exact .jit hat
  | recover hat hhonest => exact .recover hat hhonest
  | write hat hnow => exact .write hat hnow
  | writeFailed hat => exact .writeFailed hat
  | other hop hnow => exact .other hop hnow

theorem DepositStep.channel
    (hstep : DepositStep v d what d') (hadvance : what ≠ .advance) : d'.channel = d.channel := by
  cases hstep with
  | advance => exact absurd rfl hadvance
  | _ => rfl

theorem DepositStep.stamps
    (hstep : DepositStep v d what d') : ∀ l ∈ d.stamps, l ∈ d'.stamps := by
  cases hstep with
  | fetch | claim | write | other => exact fun l hl => List.mem_cons_of_mem _ hl
  | _ => exact fun l hl => hl

variable {task : MintTask}

theorem forall_tasks_resume {P : MintTask → Prop} {i : ℕ}
    (hold : ∀ j t, d.tasks j = some t → P t) (hnew : P task) :
    ∀ j t, (d.resume i task).tasks j = some t → P t := by
  intro j t hj
  rcases of_update_eq_some hj with ⟨-, ⟨⟩⟩ | hj
  · exact hnew
  · exact hold j t hj

/-- A mint classified as landed has landed. -/
theorem landed_of_classified {pending : List PendingSig}
    {finality : FinalityRpc} (hvalid : w.valid c)
    (hsigned : ∀ p ∈ pending, (w.deposit e).Signed p) (hhonest : HonestChannel c finality pending)
    (h : classifySignatures finality pending = .landed x) : c.Landed x := by
  have hverdict := classifySignatures_doomed hvalid (fun p hp => (hsigned p hp).window)
    hhonest.chain hhonest.primary hhonest.fallback
  exact (hverdict.1 x h).2

variable {lease : Stamp}

/-- Completing with a landed mint of a walked mint is in order. -/
theorem taskOk_complete (hwalked : s.Walked (w.info e).mint) (hl : s.channel.Landed x) :
    s.TaskOk w shown e (.write (.tryCompleteProcessing lease (some x) none)) := by
  intro counterpart hop
  exact ⟨hwalked, x, (Option.some.inj hop).symm, hl⟩

theorem onMintClaim_served {isOpen : Bool}
    (h : s.Served w shown e) (answer : Except String (Option Stamp)) :
    s.TaskOk w shown e (onMintClaim lease sig isOpen answer) := by
  cases answer with
  | error reason => exact trivial
  | ok owned =>
    cases owned with
    | none => exact h
    | some owned =>
      cases isOpen with
      | false => exact trivial
      | true => exact h

/-- After a poll. -/
theorem onPoll_served
    {attempts processedAt : ℕ} {status : Option PolledStatus} (h : s.Served w shown e)
    (hseen : ∀ st, status = some st → st.satisfied = true →
      s.channel.Executed sig.signature st.err.isNone) :
    s.TaskOk w shown e (onPoll lease sig attempts processedAt status) := by
  rcases onPoll_cases lease sig attempts processedAt status with
    ⟨op, heq, _⟩ | ⟨heq, _⟩ | heq | heq <;> rw [heq]
  · intro counterpart hop
    obtain ⟨hbound, st, hst, hsat, herr⟩ := onPoll_completes heq hop
    have hlanded := hseen st hst hsat
    rw [herr] at hlanded
    exact ⟨h.walked, _, hbound, hlanded⟩
  · exact h
  · exact trivial
  · exact h

namespace RestoreInv

/-- Whatever journal is read, its row has been walked if it has entries. -/
theorem readOk (h : RestoreInv w shown s) {i : ℕ} (hat : s.tasks e i = some task)
    (hread : JournalRead (s.db.stores e).row journal) : s.ReadOk w e journal := by
  intro pending hp
  obtain rfl := hread pending hp
  refine ⟨(h.db.rows e).signed, fun hne => ?_⟩
  obtain ⟨p, hmem⟩ := List.exists_mem_of_ne_nil _ hne
  have hclaimed : s.db.claimed e ≠ [] := List.ne_nil_of_mem ((h.db.rows e).recorded p hmem)
  obtain ⟨session, hup, hdone⟩ := (h.working e i task hat).1
  refine ⟨session, hup, ?_⟩
  exact ((h.session session hup).listed e hclaimed).resolve_left (by simp [hdone])

/-- A landed mint was found. -/
theorem landed_outcome (h : RestoreInv w shown s) {finality : FinalityRpc}
    (hread : s.ReadOk w e journal)
    (hhonest : ∀ pending, journal = .ok pending → HonestChannel s.channel finality pending)
    (hout : checkDeposit journal finality = .landed x) :
    s.Walked (w.info e).mint ∧ s.channel.Landed x := by
  obtain ⟨pending, hjournal, hne, hclass⟩ := checkDeposit_landed hout
  obtain ⟨hsigned, hwalked⟩ := hread pending hjournal
  exact ⟨hwalked hne, landed_of_classified (h.admitted e) hsigned (hhonest pending hjournal) hclass⟩

/-- The lookup leads to service only where no mint is forgotten. -/
theorem onConsumed_ok (h : RestoreInv w shown s) {i : ℕ}
    {answer : Except String ConsumedLookup} (hpermitted : Permitted w s e (.consumed i answer)) :
    s.TaskOk w shown e (onConsumed lease answer) := by
  cases answer with
  | error reason => exact trivial
  | ok lookup =>
    obtain ⟨session, hup, hwalked, hlookup, hallowed⟩ := hpermitted lookup rfl
    have hsession := h.session session hup
    cases lookup with
    | miss =>
      refine ⟨⟨session, hup, hwalked⟩, hallowed rfl, fun x hx => ?_⟩
      exact lookupConsumed_ne_miss (hsession.walked e x hx hwalked).1 hlookup.symm
    | hit consumed =>
      have hmem := lookupConsumed_hit hlookup.symm
      exact taskOk_complete ⟨session, hup, hwalked⟩ (hsession.genuine _ hmem).1
    | mismatch reason => exact fun _ hop => nomatch hop

/-- A step of the deposit leaves its tasks in order. -/
theorem tasks_of_step (h : RestoreInv w shown s) (hpermitted : Permitted w s e what)
    (hstep : DepositStep (w.deposit e) (s.deposit e) what d) :
    ∀ i task, d.tasks i = some task → s.TaskOk w shown e task := by
  have hold : ∀ i task, s.tasks e i = some task → s.TaskOk w shown e task := h.tasks e
  have hat' : ∀ {i task}, (s.deposit e).tasks i = some task → s.TaskOk w shown e task :=
    fun hat => hold _ _ hat
  cases hstep with
  | @crash i =>
    intro j task hj
    rcases of_update_eq_some hj with ⟨-, ⟨⟩⟩ | hj
    exact hold j task hj
  | readGate hat hread | readSwept hat hread => exact forall_tasks_resume hold (h.readOk hat hread)
  | gate hat hhonest =>
    refine forall_tasks_resume hold ?_
    cases hout : checkDeposit _ _ with
    | landed x =>
      obtain ⟨hwalked, hl⟩ := h.landed_outcome (hat' hat) hhonest hout
      exact taskOk_complete hwalked hl
    | notLanded | live _ | ambiguous _ => exact trivial
  | consumed hat => exact forall_tasks_resume hold (h.onConsumed_ok hpermitted)
  | @sign _ _ answer hat _ =>
    have hserved : s.Served w shown e := hat' hat
    refine forall_tasks_resume hold ?_
    cases answer with
    | error reason => exact trivial
    | ok sig => exact hserved
  | fence hat =>
    have hserved : s.Served w shown e := hat' hat
    refine forall_tasks_resume hold ?_
    unfold onFence
    split
    · exact hserved
    · rintro _ ⟨⟩
  | claim hat | claimRefused hat => exact forall_tasks_resume hold (onMintClaim_served (hat' hat) _)
  | haltRead =>
    refine forall_tasks_resume hold ?_
    unfold onHaltRead
    split
    · rintro _ ⟨⟩
    · exact trivial
  | @send _ _ _ answer hat =>
    have hserved : s.Served w shown e := hat' hat
    refine forall_tasks_resume hold ?_
    cases answer with
    | error reason => exact trivial
    | ok _ => exact hserved
  | poll hat hseen => exact forall_tasks_resume hold (onPoll_served (hat' hat) hseen)
  | @jit _ _ hasPermit outcome hat =>
    have hserved : s.Served w shown e := hat' hat
    refine forall_tasks_resume hold ?_
    cases outcome with
    | retry =>
      cases hasPermit with
      | false => exact trivial
      | true => exact hserved
    | _ => rintro _ ⟨⟩
  | @recover _ _ attempts _ _ hat hhonest =>
    refine forall_tasks_resume hold ?_
    cases hout : checkDeposit _ _ with
    | landed x =>
      obtain ⟨hwalked, hl⟩ := h.landed_outcome (hat' hat) hhonest hout
      exact taskOk_complete hwalked hl
    | live _ => exact trivial
    | ambiguous _ => rintro _ ⟨⟩
    | notLanded =>
      simp only [decideDeposit]
      split <;> rintro _ ⟨⟩
  | @write _ op _ again hat | @writeFailed _ op _ again hat =>
    refine forall_tasks_resume hold ?_
    cases again with
    | false => exact trivial
    | true => exact hat' hat
  | setFence | other | gc => exact hold
  | advance => exact hpermitted.elim
  | _ => exact forall_tasks_resume hold trivial

end RestoreInv

/-- What a step that is not a restore leaves untouched. -/
structure Frames (w : RestoreWorld) (shown : SourceEventId → Signature → Prop)
    (s t : EscrowSystem) : Prop where
  channel : t.channel.Extends s.channel
  stamps : ∀ e, ∀ l ∈ s.stamps e, l ∈ t.stamps e
  walked : ∀ mint, s.Walked mint → t.Walked mint
  consumed : ∀ entry ∈ s.db.consumed, entry ∈ t.db.consumed
  mints : ∀ mint ∈ s.db.mints, mint ∈ t.db.mints
  known : ∀ mint, ¬ s.Walked mint → t.db.newestKnown w mint = s.db.newestKnown w mint
  claims : ∀ e, s.db.claimed e <:+ t.db.claimed e
  claimed : ∀ e, t.db.claimed e ≠ s.db.claimed e → s.Served w shown e
  past : t.past = s.db :: s.past ∨ (t.past = s.past ∧ t.db = s.db)

namespace Frames

/-- Nothing happens; a step is described by what it does otherwise. -/
theorem refl (w : RestoreWorld) (shown : SourceEventId → Signature → Prop) (s : EscrowSystem) :
    Frames w shown s s where
  channel := .refl _
  stamps _ _ hl := hl
  walked _ hm := hm
  consumed _ he := he
  mints _ hm := hm
  known _ _ := rfl
  claims _ := List.suffix_refl _
  claimed _ hne := absurd rfl hne
  past := .inr ⟨rfl, rfl⟩

variable (hf : Frames w shown s t)

include hf

theorem recorded {session : ConsumedSession} (h : s.Recorded session e) : t.Recorded session e :=
  ⟨h.1, h.2.mono hf.consumed⟩

/-- A forgotten mint is still newer than what is known, or recorded. -/
theorem recorded_or_newer {session : ConsumedSession} (hup : s.session = some session)
    (h : s.SessionOk w shown session) (hx : shown e x) :
    t.Recorded session e ∨ t.db.Newer w t.channel e x := by
  by_cases hwalked : s.Walked (w.info e).mint
  · exact .inl (hf.recorded (h.walked e x hx (hwalked.mem hup)))
  · refine (h.loaded e x hx).imp hf.recorded fun hnewer b hb => ?_
    rw [hf.known _ hwalked] at hb
    exact hnewer.mono hf.channel b hb

theorem walkOk {session : ConsumedSession} (hup : s.session = some session) {walk : Walk}
    (h : s.WalkOk w shown session walk) : t.WalkOk w shown session walk where
  unwalked := h.unwalked
  genuine entry he := (h.genuine entry he).mono hf.channel
  recorded entry he := (h.recorded entry he).imp_right (·.mono hf.consumed)
  pending := h.pending
  complete := by
    have hwalked : ¬ s.Walked walk.mint := fun hm => h.unwalked (hm.mem hup)
    rw [hf.known _ hwalked]
    exact h.complete
  shown e x hx hmint := (h.shown e x hx hmint).imp_right hf.recorded

/-- A session survives what happens beside it. -/
theorem sessionOk {session : ConsumedSession} (hup : s.session = some session)
    (h : s.SessionOk w shown session) : t.SessionOk w shown session where
  genuine entry he := (h.genuine entry he).mono hf.channel
  loaded _ _ hx := hf.recorded_or_newer hup h hx
  walked e x hx hmem := hf.recorded (h.walked e x hx hmem)
  listed := by
    intro e hclaimed
    by_cases hsame : t.db.claimed e = s.db.claimed e
    · exact h.listed e (hsame ▸ hclaimed)
    · exact .inr ((hf.claimed e hsame).walked.mem hup)
  walking walk hwalk := hf.walkOk hup (h.walking walk hwalk)

theorem served (h : s.Served w shown e) : t.Served w shown e :=
  ⟨hf.walked _ h.walked, hf.mints _ h.allowed, h.unshown⟩

theorem readOk (h : s.ReadOk w e journal) : t.ReadOk w e journal :=
  fun pending hp => (h pending hp).imp_right fun hwalked hne => hf.walked _ (hwalked hne)

theorem taskOk (h : s.TaskOk w shown e task) : t.TaskOk w shown e task := by
  cases task with
  | sign | fence | claim | haltRead | send | poll | jit => exact hf.served h
  | gate _ journal | decide _ _ journal => exact hf.readOk h
  | write op =>
    intro counterpart hop
    obtain ⟨hwalked, x, hx, hl⟩ := h counterpart hop
    exact ⟨hf.walked _ hwalked, x, hx, hl.mono hf.channel⟩
  | buffered | settle | swept | done => exact trivial

/-- A forgotten mint stays within reach of the next restore. -/
theorem shows (h : RestoreInv w shown s) (hx : shown e x) : t.db.Shows w t.channel e x := by
  obtain ⟨hmint, hl, hunclaimed⟩ := h.forgotten e x hx
  by_cases hwalked : s.Walked (w.info e).mint
  · obtain ⟨session, hup, hmem⟩ := hwalked
    exact .inl (((h.session session hup).walked e x hx hmem).2.mono hf.consumed)
  · refine ((h.db.covered e x hmint hl).resolve_left hunclaimed).imp (·.mono hf.consumed) ?_
    intro hnewer b hb
    rw [hf.known _ hwalked] at hb
    exact hnewer.mono hf.channel b hb

/-- The new state of the database covers every landed mint. -/
theorem covered (h : RestoreInv w shown s) (hchannel : t.channel = s.channel)
    (hx : w.mints e x) (hl : t.channel.Landed x) :
    x ∈ t.db.claimed e ∨ t.db.Shows w t.channel e x := by
  by_cases hshown : shown e x
  · exact .inr (hf.shows h hshown)
  · exact .inl ((hf.claims e).subset (h.claimed_of_landed hx (hchannel ▸ hl) hshown))

/-- The invariant of the new state, from what the step did touch. -/
theorem inv (h : RestoreInv w shown s) (hrows : ∀ e, DepositInv (w.unshown shown e) (t.deposit e))
    (hdb : t.db.Ok w t.channel t.stamps)
    (htasks : ∀ e i task, t.tasks e i = some task → s.TaskOk w shown e task)
    (hworking : ∀ e i task, t.tasks e i = some task → t.Serving ∧ e ∈ t.db.indexed)
    (hsession : ∀ session, t.session = some session → t.SessionOk w shown session) :
    RestoreInv w shown t where
  rows := hrows
  forgotten := by
    intro e x hx
    obtain ⟨hmint, hl, hunclaimed⟩ := h.forgotten e x hx
    refine ⟨hmint, hl.mono hf.channel, ?_⟩
    by_cases hsame : t.db.claimed e = s.db.claimed e
    · rwa [hsame]
    · exact absurd hx ((hf.claimed e hsame).unshown x)
  single := h.single
  superseded := by
    intro e x hx y hy
    by_cases hsame : t.db.claimed e = s.db.claimed e
    · exact (h.superseded e x hx y (hsame ▸ hy)).mono hf.channel
    · exact absurd hx ((hf.claimed e hsame).unshown x)
  states := by
    have hpast : ∀ db ∈ t.past, db ∈ s.db :: s.past := by
      rcases hf.past with hp | ⟨hp, _⟩ <;> rw [hp]
      · exact fun _ hdb => hdb
      · exact fun _ hdb => List.mem_cons_of_mem _ hdb
    exact List.forall_mem_cons.mpr ⟨hdb, fun db hmem =>
      (h.states db (hpast db hmem)).mono hf.channel hf.stamps⟩
  timeline := by
    rcases hf.past with hp | ⟨hp, hdb⟩
    · rw [hp]
      refine List.pairwise_cons.mpr ⟨fun old hold e => ?_, h.timeline⟩
      rcases List.mem_cons.mp hold with rfl | hold
      · exact hf.claims e
      · exact ((List.pairwise_cons.mp h.timeline).1 old hold e).trans (hf.claims e)
    · rw [hp, hdb]
      exact h.timeline
  tasks e i task hi := hf.taskOk (htasks e i task hi)
  working := hworking
  session := hsession

end Frames

namespace EscrowSystem

theorem deposit_put_self (hchannel : d.channel = s.channel) : (s.put e d).deposit e = d := by
  cases d
  simp only [put, write, deposit, Function.update_self]
  simp_all

theorem deposit_put_ne {e e' : SourceEventId} (hne : e' ≠ e) :
    (s.put e d).deposit e' = s.deposit e' := by
  simp [put, write, deposit, Function.update_of_ne hne]

end EscrowSystem

/-- The newest known mint depends on the rows of the mint only. -/
theorem EscrowDb.newestKnown_congr {db db' : EscrowDb}
    (hindexed : db'.indexed = db.indexed)
    (hknown : ∀ e ∈ db.indexed, (w.info e).mint = mint →
      knownMint .deposit (db'.stores e).row = knownMint .deposit (db.stores e).row) :
    db'.newestKnown w mint = db.newestKnown w mint := by
  unfold EscrowDb.newestKnown getNewestKnownMintSignatures
  rw [hindexed, List.filterMap_map, List.filterMap_map]
  have hcongr : ∀ e ∈ db.indexed.filter fun e => (w.info e).mint == mint,
      (knownMint .deposit ∘ fun e => (db'.stores e).row) e =
        (knownMint .deposit ∘ fun e => (db.stores e).row) e := by
    intro e he
    obtain ⟨he, hmint⟩ := List.mem_filter.mp he
    exact hknown e he (by simpa using hmint)
  rw [List.filterMap_congr hcongr]

theorem RowOk.of_inv (h : DepositInv (w.unshown shown e) d) :
    RowOk w d.channel e d.stamps d.store.row d.claimed :=
  ⟨fun p hp => signed_of_unshown (h.signed p hp), h.recorded, h.journaled, h.reopened, h.carried⟩

namespace RestoreInv

section

variable (h : RestoreInv w shown s) (hstep : DepositStep (w.deposit e) (s.deposit e) what d)
include h hstep

/-- Whoever works on a row does so while the operator serves. -/
theorem serving_of_step (hpermitted : Permitted w s e what) {j : ℕ} (hj : d.tasks j = some task) :
    s.Serving := by
  cases hstep with
  | fetch | sweep => exact hpermitted
  | advance => exact hpermitted.elim
  | setFence | other | gc => exact (h.working e j task hj).1
  | @crash i =>
    rcases of_update_eq_some hj with ⟨-, ⟨⟩⟩ | hj
    exact (h.working e j task hj).1
  | readGate hat | readSwept hat | gate hat | consumed hat | sign hat | fence hat | claim hat
  | claimRefused hat | haltRead hat | send hat | poll hat | jit hat | recover hat | write hat
  | writeFailed hat => exact (h.working e _ _ hat).1

/-- A step of a deposit among the others. -/
theorem frames_of_step (hpermitted : Permitted w s e what) : Frames w shown s (s.put e d) where
  channel := .refl _
  stamps := by
    intro e'
    by_cases he : e' = e
    · subst he
      simpa [put, EscrowSystem.deposit] using hstep.stamps
    · simp [put, write, Function.update_of_ne he]
  walked _ hwalked := hwalked
  consumed _ he := he
  mints _ hm := hm
  known := by
    intro mint hunwalked
    refine EscrowDb.newestKnown_congr rfl fun e' _ hmint => ?_
    by_cases he : e' = e
    · subst he
      rcases hstep.known (by rintro op now rfl; exact hpermitted) with
        hkept | ⟨i, op, counterpart, hat, hop, _⟩
      · simpa [put, write, EscrowSystem.deposit] using hkept.known
      · exact absurd (hmint ▸ (h.tasks e' i _ hat counterpart hop).1) hunwalked
    · simp [put, write, Function.update_of_ne he]
  claims := by
    intro e'
    by_cases he : e' = e
    · subst he
      have hclaimed : ((s.put e' d).db.claimed e') = d.claimed := by simp [put, write]
      rw [hclaimed]
      rcases hstep.claimed_cases with hsame | ⟨_, _, _, _, _, sig, _, _, _, hcons, _⟩
      · rw [hsame]
        exact List.suffix_refl _
      · rw [hcons]
        exact List.suffix_cons sig.signature _
    · simp [put, write, Function.update_of_ne he]
  claimed := by
    intro e' hne
    by_cases he : e' = e
    · subst he
      rcases hstep.claimed_cases with hsame | ⟨i, _, _, _, _, _, _, hat, _⟩
      · exact absurd (by simpa [put, write, EscrowSystem.deposit] using hsame) hne
      · exact h.tasks e' i _ hat
    · exact absurd (by simp [put, write, Function.update_of_ne he]) hne
  past := .inl rfl

/-- The database after a step of one deposit. -/
theorem db_of_step (hindexed : e ∈ s.db.indexed) (hpermitted : Permitted w s e what)
    (hinv : DepositInv (w.unshown shown e) d) (hchannel : d.channel = s.channel) :
    (s.put e d).db.Ok w s.channel (s.put e d).stamps where
  rows := by
    intro e'
    by_cases he : e' = e
    · subst he
      have hrow := RowOk.of_inv hinv
      rw [hchannel] at hrow
      simpa [put, write] using hrow
    · simpa [put, write, Function.update_of_ne he] using h.db.rows e'
  completed := by
    intro e' x hstatus hx
    by_cases he : e' = e
    · subst he
      simp only [put, write, Function.update_self] at hstatus hx
      rcases hstep.known (by rintro op now rfl; exact hpermitted) with
        hkept | ⟨i, op, counterpart, hat, hop, hbound⟩
      · obtain ⟨hbefore, hsame⟩ := hkept.completed hstatus
        exact h.db.completed e' x hbefore (hsame ▸ hx)
      · obtain ⟨_, y, hy, hl⟩ := h.tasks e' i _ hat counterpart hop
        rw [hbound y hy] at hx
        exact Option.some.inj hx ▸ hl
    · simp only [put, write, Function.update_of_ne he] at hstatus hx
      exact h.db.completed e' x hstatus hx
  allowed := by
    intro e' hclaimed
    by_cases hsame : (s.put e d).db.claimed e' = s.db.claimed e'
    · exact h.db.allowed e' (hsame ▸ hclaimed)
    · exact ((h.frames_of_step hstep hpermitted).claimed e' hsame).allowed
  genuine := h.db.genuine
  unindexed := by
    intro e' hout
    have he : e' ≠ e := fun he => hout (he ▸ hindexed)
    simpa [put, write, Function.update_of_ne he] using h.db.unindexed e' hout
  covered e' x hx hl := (h.frames_of_step hstep hpermitted).covered h rfl hx hl

end

/-- A step of one deposit. -/
theorem deposit (h : RestoreInv w shown s) (hstep : EscrowStep w s (.deposit e what) t) :
    RestoreInv w shown t := by
  cases hstep with
  | @deposit _ _ d hindexed hpermitted hstep =>
  have hadvance : what ≠ .advance := by
    rintro rfl
    exact hpermitted
  have hchannel := hstep.channel hadvance
  have hinv : DepositInv (w.unshown shown e) d :=
    (h.rows e).step (hstep.unshown hadvance fun i lease hat => (h.tasks e i _ hat).unshown)
  have hf := h.frames_of_step hstep hpermitted
  have htasks : ∀ e' i task, (s.put e d).tasks e' i = some task →
      (e' = e ∧ d.tasks i = some task) ∨ s.tasks e' i = some task := by
    intro e' i task hi
    by_cases he : e' = e
    · subst he
      exact .inl ⟨rfl, by simpa [put] using hi⟩
    · exact .inr (by simpa [put, write, Function.update_of_ne he] using hi)
  refine hf.inv h (fun e' => ?_) (h.db_of_step hstep hindexed hpermitted hinv hchannel) ?_ ?_
    fun session hup => hf.sessionOk hup (h.session session hup)
  · by_cases he : e' = e
    · subst he
      rw [deposit_put_self hchannel]
      exact hinv
    · rw [deposit_put_ne he]
      exact h.rows e'
  · intro e' i task hi
    rcases htasks e' i task hi with ⟨rfl, hnew⟩ | hold
    · exact h.tasks_of_step hpermitted hstep i task hnew
    · exact h.tasks e' i task hold
  · intro e' i task hi
    rcases htasks e' i task hi with ⟨rfl, hnew⟩ | hold
    · exact ⟨h.serving_of_step hstep hpermitted hnew, hindexed⟩
    · exact h.working e' i task hold

variable {session : ConsumedSession}

section

variable (h : RestoreInv w shown s)

include h

/-- Only the session changes. -/
theorem withSession
    (hwalked : ∀ mint, s.Walked mint → mint ∈ session.walked)
    (hserving : s.Serving → session.todo = []) (hok : s.SessionOk w shown session) :
    RestoreInv w shown { s with session := some session } := by
  have hf : Frames w shown s { s with session := some session } :=
    { Frames.refl w shown s with walked := fun mint hm => ⟨session, rfl, hwalked mint hm⟩ }
  refine hf.inv h h.rows h.db h.tasks (fun e i task hi => ?_) ?_
  · obtain ⟨hserves, hindexed⟩ := h.working e i task hi
    exact ⟨⟨session, rfl, hserving hserves⟩, hindexed⟩
  · intro session' hup
    cases hup
    exact { hok with walking := fun walk hwalk => { hok.walking walk hwalk with } }

/-- Only the walk under way changes. -/
theorem withWalking {walking : Option Walk}
    (hup : s.session = some session)
    (hok : ∀ walk, walking = some walk → s.WalkOk w shown session walk) :
    RestoreInv w shown { s with session := some { session with walking := walking } } := by
  have hwalked : ∀ mint, s.Walked mint → mint ∈ session.walked := fun _ hm => hm.mem hup
  have hdone : s.Serving → session.todo = [] := fun hserves => hserves.todo hup
  exact h.withSession hwalked hdone
    { h.session session hup with walking := fun walk hwalk => { hok walk hwalk with } }

/-- The recorded mints are loaded; what is forgotten is among them or newer than
what the database knows. -/
theorem boot (hstep : EscrowStep w s .boot t) : RestoreInv w shown t := by
  cases hstep with
  | boot hdown =>
  refine h.withSession ?_ ?_ ⟨h.db.genuine, fun e x hx => ?_, nofun, fun e hclaimed => ?_, nofun⟩
  · rintro mint ⟨session, hup, _⟩
    rw [hdown] at hup
    cases hup
  · rintro ⟨session, hup, _⟩
    rw [hdown] at hup
    cases hup
  · obtain ⟨hmint, hl, hunclaimed⟩ := h.forgotten e x hx
    exact ((h.db.covered e x hmint hl).resolve_left hunclaimed).imp_left fun hhas => ⟨hhas, hhas⟩
  · exact .inl (h.db.allowed e hclaimed)

/-- A walk that was read finds every mint newer than the newest known one. -/
theorem walk_complete {rpc : ChannelRpc}
    {floor fuel : ℕ} {found : ConsumedSet}
    (hrpc : rpc.Honest w.tx s.channel floor w.pageLimit mint)
    (hretained : Retained w s mint floor)
    (hfound : walkMint rpc w.pageLimit fuel .deposit mint
      (s.db.newestKnown w mint).toList = some (.ok found))
    (hpays : (w.tx x).Pays .deposit e mint) (hl : s.channel.Landed x)
    (hnewer : ∀ b, s.db.newestKnown w mint = some b → Precedes s.channel.signatures b x) :
    found.Has e := by
  obtain ⟨b, hb, hx⟩ := hl
  have hfloor : floor ≤ b.slot := by
    by_contra hpruned
    obtain ⟨known, hknown, hnot⟩ := hretained b hb (by omega) x true hx
    exact hnot (hnewer known hknown)
  have hnodup := w.once s.channel (h.admitted e)
  refine (walkMint_ok hnodup hrpc hfound).2 e x b hb hfloor hx hpays fun stop hstop => ?_
  exact hnewer stop (by simpa using hstop)

/-- A mint's walk is recorded. -/
theorem walk (hstep : EscrowStep w s (.walk mint) t) : RestoreInv w shown t := by
  cases hstep with
  | walk rpc floor fuel hup _ hnew hrpc hretained hfound =>
  have hsession := h.session _ hup
  refine h.withWalking hup fun walk hwalk => ?_
  cases hwalk
  have hnodup := w.once s.channel (h.admitted ⟨0⟩)
  refine ⟨hnew, fun entry he => ((walkMint_ok hnodup hrpc hfound).1 entry he).1,
    fun _ he => .inl he, fun _ he => he,
    fun e x hpays hl hnewer => h.walk_complete hrpc hretained hfound hpays hl hnewer,
    fun e x hx hmint => ?_⟩
  obtain ⟨hpays, hl, _⟩ := h.forgotten e x hx
  subst hmint
  rcases hsession.loaded e x hx with hrecorded | hnewer
  · exact .inr hrecorded
  · exact .inl (h.walk_complete hrpc hretained hfound hpays hl hnewer)

/-- What has been found and recorded joins the set. -/
theorem walked (hstep : EscrowStep w s (.walked mint) t) : RestoreInv w shown t := by
  cases hstep with
  | @walked session walk set hup hwalking hrecorded hmerge =>
  have hsession := h.session session hup
  have hwalk := hsession.walking walk hwalking
  obtain ⟨hkept, honly, hhas⟩ := mergeWalked_ok hmerge
  have hgrow : ∀ e, s.Recorded session e → set.Has e ∧ s.db.consumed.Has e :=
    fun e hr => ⟨hr.1.mono hkept, hr.2⟩
  refine h.withSession ?_ ?_ ⟨fun entry he => ?_, fun e x hx => ?_, fun e x hx hmem => ?_,
    fun e hclaimed => ?_, nofun⟩
  · exact fun _ hm => List.mem_cons_of_mem _ (hm.mem hup)
  · exact fun hserves => by simp [hserves.todo hup]
  · exact (honly entry he).elim (hsession.genuine entry) (hwalk.genuine entry)
  · exact (hsession.loaded e x hx).imp_left (hgrow e)
  · rcases List.mem_cons.mp hmem with hmint | hmem
    · rcases hwalk.shown e x hx hmint with hfound | hr
      · obtain ⟨consumed, hentry⟩ := ConsumedSet.has_iff.mp hfound
        refine ⟨hhas _ hentry, (hwalk.recorded _ hentry).resolve_left ?_⟩
        simp [hrecorded]
      · exact hgrow e hr
    · exact hgrow e (hsession.walked e x hx hmem)
  · by_cases hmint : (w.info e).mint = walk.mint
    · exact .inr (by simp [hmint])
    · refine (hsession.listed e hclaimed).imp (fun hm => ?_) (List.mem_cons_of_mem _)
      exact List.mem_filter.mpr ⟨hm, by simpa using hmint⟩

/-- One of the found mints is recorded. -/
theorem record (hstep : EscrowStep w s .record t) : RestoreInv w shown t := by
  cases hstep with
  | @record session walk entry rest hup hwalking hnext =>
  have hadded := insertConsumedMint_added s.db.consumed entry.1 entry.2
  have hwalk := (h.session session hup).walking walk hwalking
  have hf : Frames w shown s (s.write { s.db with
      consumed := insertConsumedMint s.db.consumed entry.1 entry.2 }) :=
    { Frames.refl w shown s with consumed := hadded.kept, past := .inl rfl }
  have hdb : RestoreInv w shown (s.write { s.db with
      consumed := insertConsumedMint s.db.consumed entry.1 entry.2 }) := by
    refine hf.inv h h.rows { h.db with
      genuine := fun other he => ?_
      covered := fun e x hx hl => hf.covered h rfl hx hl } h.tasks h.working
      fun session hup => hf.sessionOk hup (h.session session hup)
    rcases hadded.only other he with he | rfl
    · exact h.db.genuine other he
    · exact hwalk.genuine entry (hwalk.pending entry (by simp [hnext]))
  refine hdb.withWalking hup fun walk' hwalk' => ?_
  cases hwalk'
  refine { (hdb.session session hup).walking walk hwalking with
    recorded := fun other he => ?_
    pending := fun other he => hwalk.pending other (hnext ▸ List.mem_cons_of_mem _ he) }
  rcases hwalk.recorded other he with hleft | hhas
  · rw [hnext] at hleft
    rcases List.mem_cons.mp hleft with rfl | hrest
    · exact .inr hadded.has
    · exact .inl hrest
  · exact .inr (hhas.mono hadded.kept)

/-- A mint is allowed. -/
theorem allowMint (mint : Pubkey) :
    RestoreInv w shown (s.write { s.db with mints := s.db.mints ++ [mint] }) := by
  have hf : Frames w shown s (s.write { s.db with mints := s.db.mints ++ [mint] }) :=
    { Frames.refl w shown s with mints := fun _ hm => List.mem_append_left _ hm, past := .inl rfl }
  exact hf.inv h h.rows { h.db with
    allowed := fun e hne => List.mem_append_left _ (h.db.allowed e hne)
    covered := fun e x hx hl => hf.covered h rfl hx hl } h.tasks h.working
    fun session hup => hf.sessionOk hup (h.session session hup)

/-- The operator stops. -/
theorem crash :
    RestoreInv w shown { s with session := none, tasks := fun _ _ => none } :=
  { h with
    rows := fun e => { h.rows e with tasks := nofun }
    tasks := nofun
    working := nofun
    session := nofun }

/-- The channel advances: a mint that lands was broadcast on this timeline. -/
theorem advance (hstep : EscrowStep w s .advance t) : RestoreInv w shown t := by
  cases hstep with
  | advance c hext hvalid hlands =>
  have hf : Frames w shown s { s with channel := c } :=
    { Frames.refl w shown s with channel := hext }
  refine hf.inv h (fun e => ?_) (h.db.mono hext fun _ _ hl => hl) h.tasks h.working
    fun session hup => hf.sessionOk hup (h.session session hup)
  refine (h.rows e).advance (.advance hext hvalid fun x hx hl => ?_)
  rcases hlands e x hx.1 hl with hbefore | hsent
  · exact (h.rows e).outbox.landed x hx hbefore
  · exact hsent

end

/-- A row inserted anew is not among the known mints. -/
theorem newestKnown_index {db : EscrowDb} {store : Store}
    (hnew : e ∉ db.indexed) (hrow : knownMint .deposit store.row = none) :
    { db with
      indexed := db.indexed ++ [e]
      stores := Function.update db.stores e store }.newestKnown w mint =
      db.newestKnown w mint := by
  have hold : { db with stores := Function.update db.stores e store }.newestKnown w mint =
      db.newestKnown w mint := by
    refine EscrowDb.newestKnown_congr rfl fun e' he' _ => ?_
    have hne : e' ≠ e := fun heq => hnew (heq ▸ he')
    simp [Function.update_of_ne hne]
  rw [← hold]
  unfold EscrowDb.newestKnown getNewestKnownMintSignatures
  simp only [List.filter_append, List.map_append, List.filterMap_append]
  have hlast : (([e].filter fun e => (w.info e).mint == mint).map
      fun e' => (Function.update db.stores e store e').row).filterMap
        (knownMint .deposit) = [] := by
    cases (w.info e).mint == mint <;> simp [hrow]
  rw [hlast, List.append_nil]

/-- The state once the indexer has inserted the row of `e`. -/
abbrev inserted (w : RestoreWorld) (s : EscrowSystem) (e : SourceEventId) (id : ℕ) (now : Stamp) :
    EscrowSystem :=
  { s.write { s.db with
      indexed := s.db.indexed ++ [e]
      stores := Function.update s.db.stores e { s.db.stores e with
        row := Row.new id .deposit (w.info e).slot none now } } with
    stamps := Function.update s.stamps e (now :: s.stamps e) }

/-- The indexer inserts a row, for the first time or again. -/
theorem index (h : RestoreInv w shown s) (hstep : EscrowStep w s (.index e) t) :
    RestoreInv w shown t := by
  cases hstep with
  | @index _ id now hnew _ =>
  have hclaimed : s.db.claimed e = [] := h.db.unindexed e hnew
  have hidle : ∀ i, s.tasks e i = none := by
    intro i
    cases hi : s.tasks e i with
    | none => rfl
    | some task => exact absurd (h.working e i task hi).2 hnew
  have hf : Frames w shown s (inserted w s e id now) := {
    channel := .refl _
    stamps := by
      intro e' l hl
      by_cases he : e' = e
      · subst he
        simpa using .inr hl
      · simpa [Function.update_of_ne he] using hl
    walked := fun _ hm => hm
    consumed := fun _ he => he
    mints := fun _ hm => hm
    known := fun _ _ => newestKnown_index hnew rfl
    claims := fun _ => List.suffix_refl _
    claimed := fun _ hne => absurd rfl hne
    past := .inl rfl }
  have hrows : ∀ e', DepositInv (w.unshown shown e') ((inserted w s e id now).deposit e') := by
    intro e'
    by_cases he : e' = e
    · subst he
      refine ⟨(h.rows e').outbox, ?_, ?_, ?_, ?_, ?_, fun i task hi => ?_⟩
      · simp [EscrowSystem.deposit, Row.new, write]
      · simp [EscrowSystem.deposit, Row.new, write]
      · simp [EscrowSystem.deposit, hclaimed, write]
      · simp [EscrowSystem.deposit, hclaimed, write, DepositSystem.AllDoomed]
      · simp [EscrowSystem.deposit, Row.new, write]
      · cases (hidle i).symm.trans hi
    · have hsame := h.rows e'
      simpa [EscrowSystem.deposit, write, Function.update_of_ne he] using hsame
  refine hf.inv h hrows ⟨fun e' => RowOk.of_inv (hrows e'), fun e' x hstatus hx => ?_,
    h.db.allowed, h.db.genuine, fun e' hout => ?_, fun e' x hx hl => hf.covered h rfl hx hl⟩ h.tasks
    (fun e' i task hi => ?_) fun session hup => hf.sessionOk hup (h.session session hup)
  · by_cases he : e' = e
    · subst he
      simp [Row.new, write] at hstatus
    · simp only [write, Function.update_of_ne he] at hstatus hx
      exact h.db.completed e' x hstatus hx
  · exact h.db.unindexed e' fun hmem => hout (List.mem_append_left _ hmem)
  · obtain ⟨hserves, hindexed⟩ := h.working e' i task hi
    exact ⟨hserves, List.mem_append_left _ hindexed⟩

/-- The mints an earlier state has not claimed doom the ones it has. -/
theorem doomed_of_lost (h : RestoreInv w shown s) {db : EscrowDb} (hpast : db ∈ s.past)
    (hx : w.mints e x) (hl : s.channel.Landed x)
    (hlost : x ∉ db.claimed e) : ∀ y ∈ db.claimed e, s.channel.Doomed w.valid y := by
  have hsuffix := (List.pairwise_cons.mp h.timeline).1 db hpast e
  intro y hy
  by_cases hshown : shown e x
  · exact h.superseded e x hshown y (hsuffix.subset hy)
  · obtain ⟨front, hfront⟩ := hsuffix
    have hclaimed := h.claimed_of_landed hx hl hshown
    have holder := (h.rows e).outbox.older
    change (s.db.claimed e).Pairwise _ at holder
    rw [← hfront] at hclaimed holder
    have hnewer : x ∈ front := (List.mem_append.mp hclaimed).resolve_right hlost
    refine ((List.pairwise_append.mp holder).2.2 x hnewer y hy).resolve_left fun heq => ?_
    exact hlost (heq ▸ hy)

/-- After a restore that stopped every service, what has landed and is not claimed
on the restored timeline is forgotten. -/
theorem restore (h : RestoreInv w shown s) (hstep : EscrowStep w s (.restore true) t) :
    RestoreInv w (fun e x => w.mints e x ∧ s.channel.Landed x ∧ x ∉ t.db.claimed e) t := by
  cases hstep with
  | @restore newer older db _ hdown hidle hpast =>
  have hmem : db ∈ s.past := by simp [hpast]
  have hok := h.states db (List.mem_cons_of_mem _ hmem)
  have hsuffix : ∀ e, db.claimed e <:+ s.db.claimed e :=
    (List.pairwise_cons.mp h.timeline).1 db hmem
  have hsub : (db :: older).Sublist (s.db :: s.past) := by
    rw [hpast]
    exact (List.sublist_append_right newer _).cons _
  refine {
    rows := fun e => ⟨⟨⟨fun x hx => ?_, fun x hx hl => ?_⟩, h.admitted e, ?_⟩, fun p hp => ?_,
      (hok.rows e).recorded, (hok.rows e).journaled, (hok.rows e).reopened, (hok.rows e).carried,
      fun i task hi => absurd ((hidle e i).symm.trans hi) nofun⟩
    forgotten := fun _ _ hx => hx
    single := fun e x y hx hy => h.landed_unique hx.1 hx.2.1 hy.1 hy.2.1
    superseded := fun e x hx => h.doomed_of_lost hmem hx.1 hx.2.1 hx.2.2
    states := fun db' hdb => h.states db' (hsub.subset hdb)
    timeline := h.timeline.sublist hsub
    tasks := fun e i task hi => absurd ((hidle e i).symm.trans hi) nofun
    working := fun e i task hi => absurd ((hidle e i).symm.trans hi) nofun
    session := fun session hup => absurd (hdown.symm.trans hup) nofun }
  · have hkept := (List.mem_filter.mp hx).2
    simp only [decide_eq_true_eq] at hkept
    exact hkept.2
  · have hclaimed : x ∈ db.claimed e := by
      by_contra hlost
      exact hx.2 ⟨hx.1, hl, hlost⟩
    have hsent : x ∈ s.broadcast e := by
      by_cases hshown : shown e x
      · exact absurd ((hsuffix e).subset hclaimed) (h.forgotten e x hshown).2.2
      · exact (h.rows e).outbox.landed x ⟨hx.1, hshown⟩ hl
    exact List.mem_filter.mpr ⟨hsent, by simpa using ⟨hl, hclaimed⟩⟩
  · exact (h.rows e).outbox.older.sublist (hsuffix e).sublist
  · have hsigned := (hok.rows e).signed p hp
    exact ⟨⟨hsigned.mint, fun hlost => hlost.2.2 ((hok.rows e).recorded p hp)⟩, hsigned.window⟩

/-- Every step of a run whose restores stop every service keeps the invariant. -/
theorem step (h : RestoreInv w shown s) {e : EscrowEvent} (hstopped : Stopped e)
    (hstep : EscrowStep w s e t) : ∃ shown', RestoreInv w shown' t := by
  cases e with
  | deposit e what => exact ⟨shown, h.deposit hstep⟩
  | index e => exact ⟨shown, h.index hstep⟩
  | allowMint mint => cases hstep; exact ⟨shown, h.allowMint mint⟩
  | boot => exact ⟨shown, h.boot hstep⟩
  | walk mint => exact ⟨shown, h.walk hstep⟩
  | record => exact ⟨shown, h.record hstep⟩
  | walked mint => exact ⟨shown, h.walked hstep⟩
  | walkFailed =>
    cases hstep with
    | walkFailed hup => exact ⟨shown, h.withWalking hup nofun⟩
  | crash => cases hstep; exact ⟨shown, h.crash⟩
  | restore stopped =>
    cases stopped with
    | false => exact absurd rfl hstopped
    | true => exact ⟨_, h.restore hstep⟩
  | advance => exact ⟨shown, h.advance hstep⟩

end RestoreInv

end PrivateChannels.Operator
