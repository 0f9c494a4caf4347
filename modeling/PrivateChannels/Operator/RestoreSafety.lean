import PrivateChannels.Operator.RestoreInvariant

/-!
# A deposit is minted at most once across restores

Each restore is made with every service stopped. Without that, a `MintTo` still queued in
a node lands after the walk that should have found it.
-/

namespace PrivateChannels.Operator

open Storage
open Listing EscrowSystem

variable {w : RestoreWorld} {s t : EscrowSystem}

/-- A fresh system has the invariant. -/
theorem EscrowSystem.Fresh.inv (h : s.Fresh w) : RestoreInv w (fun _ _ => False) s where
  rows e := DepositSystem.Fresh.inv {
    admitted := h.admitted
    unlanded := fun x hx => h.unlanded e x hx.1
    journal := (h.rows e).2
    carried := h.carried e
    idle := h.idle e
    unclaimed := h.unclaimed e
    unsent := h.unsent e }
  forgotten := nofun
  single := nofun
  superseded := nofun
  states := by
    intro db hdb
    rw [h.past, List.mem_singleton] at hdb
    subst hdb
    exact {
      rows := fun e => ⟨by simp [(h.rows e).2], by simp [(h.rows e).2], by simp [h.unclaimed e],
        by simp [h.unclaimed e], h.carried e⟩
      completed := fun e x hstatus _ => by simp [(h.rows e).1] at hstatus
      allowed := fun e hne => absurd (h.unclaimed e) hne
      genuine := by simp [h.unrecorded]
      unindexed := fun e _ => h.unclaimed e
      covered := fun e x hx hl => absurd hl (h.unlanded e x hx) }
  timeline := by simp [h.past]
  tasks e i task hi := by simp [h.idle e i] at hi
  working e i task hi := by simp [h.idle e i] at hi
  session session hup := by simp [h.down] at hup

theorem restoreInv_of_run {events : List EscrowEvent} (hfresh : s.Fresh w)
    (h : Run (EscrowStep w) s events t) (hstopped : ∀ e ∈ events, Stopped e) :
    ∃ shown, RestoreInv w shown t := by
  refine h.invariant
    (P := fun events t => (∀ e ∈ events, Stopped e) → ∃ shown, RestoreInv w shown t)
    (fun _ => ⟨_, hfresh.inv⟩) (fun l u e v ih hstep hall => ?_) hstopped
  obtain ⟨shown, hinv⟩ := ih fun e' he' => hall e' (List.mem_append_left _ he')
  exact hinv.step (hall e (by simp)) hstep

variable {shown : SourceEventId → Signature → Prop}

/-- Every deposit mint listed above the newest known one is in the new set and in the table. -/
theorem RestoreInv.walked_complete
    (h : RestoreInv w shown s) {mint : Pubkey} (hstep : EscrowStep w s (.walked mint) t) :
    ∃ session walk set, s.session = some session ∧ session.walking = some walk ∧
      walk.mint = mint ∧ t.session = some set ∧ mint ∈ set.walked ∧
      ∀ e x, (w.tx x).Pays .deposit e mint → walk.seen.Landed x →
        (∀ b, s.db.newestKnown w mint = some b → Precedes walk.seen.signatures b x) →
        set.set.Has e ∧ t.db.consumed.Has e := by
  cases hstep with
  | @walked session walk set hup hwalking hrecorded hmerge =>
    have hwalk := (h.session session hup).walking walk hwalking
    obtain ⟨_, _, hhas⟩ := mergeWalked_ok hmerge
    refine ⟨session, walk, _, hup, hwalking, rfl, rfl, List.mem_cons_self,
      fun e x hpays hl hnewer => ?_⟩
    obtain ⟨consumed, hentry⟩ := ConsumedSet.has_iff.mp (hwalk.complete e x hpays hl hnewer)
    refine ⟨hhas _ hentry, (hwalk.recorded _ hentry).resolve_left ?_⟩
    simp [hrecorded]

theorem served_of_taskOk {e : SourceEventId}
    {task : MintTask} (h : s.TaskOk w shown e task) (hserved : task.served = true) :
    s.Served w shown e := by
  cases task with
  | sign | fence | claim | haltRead | send | poll | jit => exact h
  | buffered | gate | settle | swept | decide | write | done => cases hserved

/-- With restores made while every service is stopped, at most one `MintTo` of a source event
lands. Work goes on only while the operator serves, and past the lookup only once the row's mint
is walked; a walk finds every deposit mint above the newest known one, and a row whose event was
found is never a miss. -/
theorem deposits_minted_once_across_restores {s₀ : EscrowSystem} {events : List EscrowEvent}
    (hfresh : s₀.Fresh w) (h : Run (EscrowStep w) s₀ events t)
    (hstopped : ∀ e ∈ events, Stopped e) :
    (∀ e x y, w.mints e x → t.channel.Landed x → w.mints e y → t.channel.Landed y → x = y) ∧
    (∀ e i task, t.tasks e i = some task →
      t.Serving ∧ (task.served = true → t.Walked (w.info e).mint)) ∧
    (∀ mint u, EscrowStep w t (.walked mint) u →
      ∃ session walk set, t.session = some session ∧ session.walking = some walk ∧
        walk.mint = mint ∧ u.session = some set ∧ mint ∈ set.walked ∧
        ∀ e x, (w.tx x).Pays .deposit e mint → walk.seen.Landed x →
          (∀ b, t.db.newestKnown w mint = some b → Precedes walk.seen.signatures b x) →
          set.set.Has e ∧ u.db.consumed.Has e) ∧
    (∀ e i lookup u, EscrowStep w t (.deposit e (.consumed i (.ok lookup))) u →
      ∃ session, t.session = some session ∧ (w.info e).mint ∈ session.walked ∧
        (session.set.Has e → lookup ≠ .miss)) := by
  obtain ⟨shown, hinv⟩ := restoreInv_of_run hfresh h hstopped
  refine ⟨fun e x y hx hlx hy hly => hinv.landed_unique hx hlx hy hly, fun e i task hi => ?_,
    fun mint u hstep => hinv.walked_complete hstep, fun e i lookup u hstep => ?_⟩
  · refine ⟨(hinv.working e i task hi).1, fun hserved => ?_⟩
    exact (served_of_taskOk (hinv.tasks e i task hi) hserved).walked
  · cases hstep with
    | deposit _ hpermitted _ =>
      obtain ⟨session, hup, hwalked, rfl, _⟩ := hpermitted lookup rfl
      exact ⟨session, hup, hwalked, fun hhas => lookupConsumed_ne_miss hhas⟩

def restoredEvent : SourceEventId := ⟨7⟩

def receiptMint : Pubkey := ⟨1⟩

/-- The `MintTo` of the event. -/
def restoredTx : ChannelTransaction :=
  ⟨[receiptMint], [⟨9⟩], [(.deposit, some restoredEvent)], [(.deposit, restoredEvent)],
    [receiptMint], [⟨receiptMint, ⟨4⟩, ⟨9⟩, ⟨5⟩, 25⟩]⟩

/-- A refund on the same mint, of another event. -/
def otherRefundTx : ChannelTransaction :=
  ⟨[receiptMint], [⟨9⟩], [(.remint, some ⟨8⟩)], [(.remint, ⟨8⟩)],
    [receiptMint], [⟨receiptMint, ⟨4⟩, ⟨9⟩, ⟨5⟩, 30⟩]⟩

/-- One deposit, minted by the first or the second signature; the third is a refund. -/
def restoreWorld : RestoreWorld where
  valid c := Admissible .channel firstMint c ∧ Admissible .channel secondMint c ∧
    c.signatures.Nodup
  once _ h := h.2.2
  tx x := if x = ⟨3⟩ then otherRefundTx else restoredTx
  info _ := ⟨⟨90⟩, 40, receiptMint, ⟨2⟩, ⟨3⟩, 25⟩
  ata _ _ _ := ⟨4⟩
  pageLimit := 5

/-- Nothing is indexed, and the mint is allowed. -/
def restoreStart : EscrowSystem where
  db := ⟨[], fun _ => ⟨Row.new 7 .deposit 40 none 0, false, some 50, []⟩, fun _ => [], [],
    [receiptMint]⟩
  past := []
  channel := Ledger.Chain.empty
  session := none
  stamps _ := [0]
  fenceOpen _ := true
  tasks _ _ := none
  broadcast _ := []

theorem restoreStart_fresh : restoreStart.Fresh restoreWorld where
  admitted := ⟨nofun, nofun, by simp [restoreStart, Ledger.Chain.empty, Ledger.Chain.signatures]⟩
  unlanded := by
    simp [restoreStart, Ledger.Chain.empty, Ledger.Chain.Landed, Ledger.Chain.Executed]
  rows _ := ⟨rfl, rfl⟩
  carried _ := List.mem_singleton_self _
  indexed := rfl
  unclaimed _ := rfl
  unrecorded := rfl
  past := rfl
  down := rfl
  idle _ _ := rfl
  unsent _ := rfl

theorem firstMint_signed_restore : (restoreWorld.deposit restoredEvent).Signed firstMint :=
  ⟨⟨List.mem_singleton_self _, rfl, List.mem_singleton_self _, rfl, _, rfl, rfl⟩, fun _ h => h.1⟩

theorem secondMint_signed_restore : (restoreWorld.deposit restoredEvent).Signed secondMint :=
  ⟨⟨List.mem_singleton_self _, rfl, List.mem_singleton_self _, rfl, _, rfl, rfl⟩, fun _ h => h.2.1⟩

/-- An endpoint that has the whole history of this state. -/
def fullHistory (w : RestoreWorld) (c : Ledger.Chain Signature) : ChannelRpc where
  signatures address before := .ok ((afterCursor (·.signature)
    (history w.tx (c.blocks.filter fun b => 0 ≤ b.slot) address) before).take w.pageLimit)
  transaction x := .ok (w.tx x, decide (c.Landed x))
  firstAvailableBlock := .ok 0

theorem fullHistory_honest (w : RestoreWorld) (c : Ledger.Chain Signature) (mint : Pubkey) :
    (fullHistory w c).Honest w.tx c 0 w.pageLimit mint where
  pages _ _ h := (Except.ok.inj h).symm
  fetched := by
    rintro x _ h
    cases h
    exact ⟨rfl, decide_eq_true_iff⟩

theorem retained_zero (w : RestoreWorld) (s : EscrowSystem) (mint : Pubkey) : Retained w s mint 0 :=
  fun _ _ hslot => absurd hslot (Nat.not_lt_zero _)

/-- The first mint has landed. -/
def firstLanded : Ledger.Chain Signature :=
  ⟨[⟨60, 50, [(firstMint.signature, true)]⟩], by simp, by simp, by simp, by simp⟩

/-- On a node that keeps its history a walk from the tip down is exact: it finds an event if and
only if a transaction that pays it has landed. -/
theorem walkMint_exact {rpc : ChannelRpc} {tx : Signature → ChannelTransaction}
    {c : Ledger.Chain Signature} {pageLimit fuel : ℕ} {role : TransactionType}
    {mint : Pubkey} {found : ConsumedSet} (hnodup : c.signatures.Nodup)
    (hrpc : rpc.Honest tx c 0 pageLimit mint)
    (h : walkMint rpc pageLimit fuel role mint [] = some (.ok found)) (event : SourceEventId) :
    found.Has event ↔ ∃ x, c.Landed x ∧ (tx x).Pays (consumedKind role) event mint := by
  obtain ⟨hsound, hcomplete⟩ := walkMint_ok hnodup hrpc h
  constructor
  · intro hhas
    obtain ⟨consumed, hmem⟩ := ConsumedSet.has_iff.mp hhas
    obtain ⟨⟨hlanded, hpays⟩, hmint, hkind⟩ := hsound _ hmem
    exact ⟨consumed.signature, hlanded, hmint ▸ hkind ▸ hpays⟩
  · rintro ⟨x, ⟨b, hb, hx⟩, hpays⟩
    exact hcomplete event x b hb (Nat.zero_le _) hx hpays nofun

/-- The first mint and, later, the refund of another event. -/
def mintThenRefund : Ledger.Chain Signature :=
  ⟨[⟨60, 50, [(⟨1⟩, true)]⟩, ⟨230, 220, [(⟨3⟩, true)]⟩], by simp, by simp, by simp, by simp⟩

/-- A node that lists one signature a page. -/
def onePerPage : RestoreWorld := { restoreWorld with pageLimit := 1 }

/-- The walk goes past the refund and the page boundary, and finds the deposit alone. -/
theorem walkMint_exact_paged :
    ∃ found, walkMint (fullHistory onePerPage mintThenRefund) 1 3 .deposit receiptMint [] =
        some (.ok found) ∧ found.Has restoredEvent ∧ ¬ found.Has ⟨8⟩ ∧
      ∀ event, found.Has event ↔ ∃ x, mintThenRefund.Landed x ∧
        (onePerPage.tx x).Pays (consumedKind .deposit) event receiptMint := by
  have hexact := fun found => @walkMint_exact _ _ mintThenRefund 1 3 .deposit receiptMint found
    (by decide) (fullHistory_honest onePerPage _ _)
  refine ⟨[(restoredEvent, ⟨⟨1⟩, .deposit, receiptMint, ⟨4⟩, ⟨5⟩, 25⟩)], rfl, ?_, ?_,
    hexact _ rfl⟩
  · exact (hexact _ rfl _).mpr ⟨⟨1⟩, by decide, firstMint_signed_restore.mint⟩
  · unfold ConsumedSet.Has
    decide

/-- Both have. -/
def bothLanded : Ledger.Chain Signature :=
  ⟨[⟨60, 50, [(⟨1⟩, true)]⟩, ⟨230, 220, [(⟨2⟩, true)]⟩], by simp, by simp, by simp, by simp⟩

/-- The refund has landed. -/
def otherRefundLanded : Ledger.Chain Signature :=
  ⟨[⟨60, 50, [(⟨3⟩, true)]⟩], by simp, by simp, by simp, by simp⟩

/-- The start, with the stamps and broadcasts of earlier timelines. -/
def restartedAt (stamps : SourceEventId → List Stamp) (broadcast : SourceEventId → List Signature) :
    EscrowSystem :=
  { restoreStart with stamps := stamps, broadcast := broadcast }

/-- From there the operator comes up, walks the mint and serves the row up to its
broadcast. -/
theorem broadcast_from (stamps : SourceEventId → List Stamp)
    (broadcast : SourceEventId → List Signature) {sig : StoredSig} {now : Stamp}
    (hsigned : (restoreWorld.deposit restoredEvent).Signed sig)
    (hnow : ∀ l ∈ stamps restoredEvent, l < now) :
    ∃ events t, Run (EscrowStep restoreWorld) (restartedAt stamps broadcast) events t ∧
      (∀ e ∈ events, Stopped e) ∧ t.past.getLast? = some restoreStart.db ∧
      t.channel = Ledger.Chain.empty ∧ t.fenceOpen = restoreStart.fenceOpen ∧
      t.stamps = Function.update stamps restoredEvent
        ((now + 2) :: (now + 1) :: now :: stamps restoredEvent) ∧
      t.broadcast = Function.update broadcast restoredEvent
        (sig.signature :: broadcast restoredEvent) := by
  have hnew : ∀ k, now + k ∉ stamps restoredEvent := by
    intro k hk
    exact absurd (hnow _ hk) (Nat.not_lt.mpr (Nat.le_add_right now k))
  have hlock : now + 1 ∉ now :: stamps restoredEvent := by simp [hnew]
  have hclaim : now + 2 ∉ (now + 1) :: now :: stamps restoredEvent := by simp [hnew]
  have hcommit : claimAndPersistSignature false (now + 1) sig (now + 2)
      { Row.new 7 .deposit 40 none now with status := .processing, updatedAt := now + 1 } =
      some { Row.new 7 .deposit 40 none now with
        status := .processing, updatedAt := now + 2, releaseJournal := [sig] } := by
    simp [claimAndPersistSignature, updateWhere, heldAt,
      journalRelease, Row.new]
  have h1 := Run.nil.snoc (@EscrowStep.index restoreWorld (restartedAt stamps broadcast)
    restoredEvent 7 now List.not_mem_nil (hnew 0))
  have h2 := h1.snoc (.boot rfl)
  have h3 := h2.snoc (@EscrowStep.walk restoreWorld _ _ receiptMint []
    (fullHistory restoreWorld Ledger.Chain.empty) 0 2 rfl rfl (by simp) (fullHistory_honest _ _ _)
    (retained_zero _ _ _) rfl)
  have h4 := h3.snoc (.walked rfl rfl rfl rfl)
  have h5 := h4.snoc (@EscrowStep.deposit restoreWorld _ restoredEvent (.fetch 0 (now + 1)) _
    (List.mem_singleton_self _) ⟨_, rfl, rfl⟩ (.fetch rfl hlock rfl))
  have h6 := h5.snoc (@EscrowStep.deposit restoreWorld _ restoredEvent (.readJournal 0 (.ok [])) _
    (List.mem_singleton_self _) trivial (.readGate rfl fun _ h => (Except.ok.inj h).symm))
  have h7 := h6.snoc (@EscrowStep.deposit restoreWorld _ restoredEvent (.gate 0 silentFinality) _
    (List.mem_singleton_self _) trivial
    (.gate rfl fun _ _ => ⟨rfl, by rintro _ ⟨⟩, by rintro _ ⟨⟩⟩))
  have h8 := h7.snoc (@EscrowStep.deposit restoreWorld _ restoredEvent (.consumed 0 (.ok .miss)) _
    (List.mem_singleton_self _) (fun lookup h => ⟨_, rfl, List.mem_singleton_self _,
      (Except.ok.inj h).symm, fun _ => List.mem_singleton_self _⟩) (.consumed rfl))
  have h9 := h8.snoc (@EscrowStep.deposit restoreWorld _ restoredEvent (.sign 0 (.ok sig)) _
    (List.mem_singleton_self _) trivial (.sign rfl fun _ h => Except.ok.inj h ▸ hsigned))
  have h10 := h9.snoc (@EscrowStep.deposit restoreWorld _ restoredEvent (.fence 0) _
    (List.mem_singleton_self _) trivial (.fence rfl))
  have h11 := h10.snoc (@EscrowStep.deposit restoreWorld _ restoredEvent
    (.claim 0 (now + 2) true (.ok (some (now + 2)))) _ (List.mem_singleton_self _) trivial
    (.claim rfl hclaim hcommit fun _ h => (Except.ok.inj h).symm))
  have h12 := h11.snoc (@EscrowStep.deposit restoreWorld _ restoredEvent (.send 0 (.ok ())) _
    (List.mem_singleton_self _) trivial (.send rfl))
  refine ⟨_, _, h12, by simp [Stopped], rfl, rfl, ?_, ?_, ?_⟩ <;>
    simp [EscrowSystem.put, EscrowSystem.write, EscrowSystem.deposit, DepositSystem.resume,
      DepositSystem.withRow, DepositSystem.commit, restartedAt]

/-- The stamps that are used up once the first mint was broadcast. -/
def firstStamps : SourceEventId → List Stamp :=
  Function.update restoreStart.stamps restoredEvent [3, 2, 1, 0]

theorem first_broadcast : ∃ events t, Run (EscrowStep restoreWorld) restoreStart events t ∧
    (∀ e ∈ events, Stopped e) ∧ t.past.getLast? = some restoreStart.db ∧
    t.channel = Ledger.Chain.empty ∧ t.fenceOpen = restoreStart.fenceOpen ∧
    t.stamps = firstStamps ∧
    t.broadcast = Function.update restoreStart.broadcast restoredEvent [firstMint.signature] :=
  broadcast_from restoreStart.stamps restoreStart.broadcast firstMint_signed_restore
    (by simp [restoreStart])

/-- The database is restored once the first mint has landed, with every service stopped. -/
def restoredStopped : EscrowSystem :=
  { restartedAt firstStamps restoreStart.broadcast with channel := firstLanded }

/-- The run up to that restore. -/
theorem restored_stopped :
    ∃ events, Run (EscrowStep restoreWorld) restoreStart events restoredStopped ∧
      ∀ e ∈ events, Stopped e := by
  obtain ⟨events, t, hrun, hstopped, hlast, hchannel, hfence, hstamps, hsent⟩ := first_broadcast
  obtain ⟨newer, hpast⟩ := List.getLast?_eq_some_iff.mp hlast
  have hlands : ∀ e x, restoreWorld.mints e x → firstLanded.Landed x →
      t.channel.Landed x ∨ x ∈ t.broadcast e := by
    rintro e x hx ⟨b, hb, htx⟩
    obtain rfl : b = ⟨60, 50, [(⟨1⟩, true)]⟩ := List.mem_singleton.mp hb
    obtain rfl : x = ⟨1⟩ := (Prod.mk.inj (List.mem_singleton.mp htx)).1
    obtain rfl : restoredEvent = e := by simpa [restoreWorld, restoredTx] using hx.markers
    exact .inr (by simp [hsent, firstMint])
  have hadvance := hrun.snoc (.advance firstLanded (hchannel ▸ List.nil_prefix)
    ⟨by simp [Admissible, firstLanded, firstMint],
      by simp [Admissible, firstLanded, firstMint, secondMint], by decide⟩ hlands)
  have hrestore := (hadvance.snoc .crash).snoc (.restore true rfl (fun _ _ => rfl) hpast)
  refine ⟨events ++ [.advance] ++ [.crash] ++ [.restore true], ?_, ?_⟩
  · convert hrestore using 1
    simp [restoredStopped, restartedAt, restoreStart, hfence, hstamps]
  · simpa [Stopped, or_imp, forall_and] using hstopped

/-- The walk finds the forgotten mint, and the row indexed again is completed with it. -/
theorem deposits_minted_once_across_restores_hit :
    ∃ events t, Run (EscrowStep restoreWorld) restoreStart events t ∧
      (t.db.stores restoredEvent).row.status = .completed ∧
      (t.db.stores restoredEvent).row.counterpartSignature = some firstMint.signature ∧
      t.db.claimed restoredEvent = [] ∧
      ∀ y, restoreWorld.mints restoredEvent y → t.channel.Landed y → y = firstMint.signature := by
  obtain ⟨events, hrun, hstopped⟩ := restored_stopped
  have h1 := hrun.snoc (@EscrowStep.index restoreWorld restoredStopped restoredEvent 8 4 (by decide)
    (by decide))
  have h2 := h1.snoc (.boot rfl)
  have h3 := h2.snoc (@EscrowStep.walk restoreWorld _ _ receiptMint
    [(restoredEvent, ⟨⟨1⟩, .deposit, receiptMint, ⟨4⟩, ⟨5⟩, 25⟩)]
    (fullHistory restoreWorld firstLanded) 0 2 rfl rfl (by simp) (fullHistory_honest _ _ _)
    (retained_zero _ _ _) rfl)
  have h4 := h3.snoc (.record rfl rfl rfl)
  have h5 := h4.snoc (.walked rfl rfl rfl rfl)
  have h6 := h5.snoc (@EscrowStep.deposit restoreWorld _ restoredEvent (.fetch 0 5) _ (by decide)
    ⟨_, rfl, rfl⟩ (.fetch rfl (by decide) rfl))
  have h7 := h6.snoc (@EscrowStep.deposit restoreWorld _ restoredEvent (.readJournal 0 (.ok [])) _
    (by decide) trivial (.readGate rfl fun _ h => (Except.ok.inj h).symm))
  have h8 := h7.snoc (@EscrowStep.deposit restoreWorld _ restoredEvent (.gate 0 silentFinality) _
    (by decide) trivial (.gate rfl fun _ _ => ⟨rfl, by rintro _ ⟨⟩, by rintro _ ⟨⟩⟩))
  have h9 := h8.snoc (@EscrowStep.deposit restoreWorld _ restoredEvent
    (.consumed 0 (.ok (.hit ⟨⟨1⟩, .deposit, receiptMint, ⟨4⟩, ⟨5⟩, 25⟩))) _
    (by decide) (fun lookup h => ⟨_, rfl, List.mem_singleton_self _, (Except.ok.inj h).symm,
      fun _ => List.mem_singleton_self _⟩) (.consumed rfl))
  have h10 := h9.snoc (@EscrowStep.deposit restoreWorld _ restoredEvent (.write 0 6 false) _
    (by decide) trivial (.write rfl (by decide)))
  refine ⟨_, _, h10, rfl, rfl, rfl, fun y hy hly => ?_⟩
  refine (deposits_minted_once_across_restores restoreStart_fresh h10 ?_).1 restoredEvent y _ hy hly
    firstMint_signed_restore.mint ?_
  · simpa [Stopped, or_imp, forall_and] using hstopped
  · exact ⟨_, List.mem_singleton_self _, List.mem_singleton_self _⟩

/-- The same restore while the channel's nodes keep what they have queued. -/
theorem restored_running : ∃ events, Run (EscrowStep restoreWorld) restoreStart events
    (restartedAt firstStamps
      (Function.update restoreStart.broadcast restoredEvent [firstMint.signature])) := by
  obtain ⟨events, t, hrun, _, hlast, hchannel, hfence, hstamps, hsent⟩ := first_broadcast
  obtain ⟨newer, hpast⟩ := List.getLast?_eq_some_iff.mp hlast
  have hrestore := (hrun.snoc .crash).snoc (.restore false rfl (fun _ _ => rfl) hpast)
  refine ⟨events ++ [.crash] ++ [.restore false], ?_⟩
  convert hrestore using 1
  simp [restartedAt, restoreStart, hfence, hstamps, hsent, hchannel]

/-- A restore that leaves a node running forgets a mint that has yet to land, and the
deposit is minted twice. -/
theorem minted_twice_after_running_restore :
    ∃ events t, Run (EscrowStep restoreWorld) restoreStart events t ∧
      t.channel.Landed firstMint.signature ∧ t.channel.Landed secondMint.signature := by
  obtain ⟨before, hrun⟩ := restored_running
  obtain ⟨events, t, hserve, _, _, hchannel, _, _, hsent⟩ :=
    broadcast_from firstStamps
      (Function.update restoreStart.broadcast restoredEvent [firstMint.signature])
      secondMint_signed_restore (by simp [firstStamps] : ∀ l ∈ firstStamps restoredEvent, l < 4)
  have hlands : ∀ e x, restoreWorld.mints e x → bothLanded.Landed x →
      t.channel.Landed x ∨ x ∈ t.broadcast e := by
    rintro e x hx ⟨b, hb, htx⟩
    have hlisted : x = ⟨1⟩ ∨ x = ⟨2⟩ := by
      simp only [bothLanded, List.mem_cons, List.not_mem_nil, or_false] at hb
      rcases hb with rfl | rfl <;> simp at htx <;> simp [htx]
    have hmarkers := hx.markers
    rcases hlisted with rfl | rfl <;>
      obtain rfl : restoredEvent = e := by simpa [restoreWorld, restoredTx] using hmarkers
    · exact .inr (by simp [hsent, firstMint])
    · exact .inr (by simp [hsent, secondMint])
  have hlanded := (hrun.append hserve).snoc (.advance bothLanded (hchannel ▸ List.nil_prefix)
    ⟨by simp [Admissible, bothLanded, firstMint], by simp [Admissible, bothLanded, secondMint],
      by decide⟩ hlands)
  exact ⟨_, _, hlanded, ⟨_, List.mem_cons_self, List.mem_singleton_self _⟩,
    ⟨_, List.mem_cons_of_mem _ List.mem_cons_self, List.mem_singleton_self _⟩⟩

/-- Beside a running node a deposit is minted twice, and a walk leaves out the refunds. -/
theorem running_restores_and_refunds :
    (∃ events t, Run (EscrowStep restoreWorld) restoreStart events t ∧
      t.channel.Landed firstMint.signature ∧ t.channel.Landed secondMint.signature ∧
      restoreWorld.mints restoredEvent firstMint.signature ∧
      restoreWorld.mints restoredEvent secondMint.signature ∧
      firstMint.signature ≠ secondMint.signature) ∧
    ∃ events t u, Run (EscrowStep restoreWorld) restoreStart events t ∧
      (∀ e ∈ events, Stopped e) ∧ EscrowStep restoreWorld t (.walked receiptMint) u ∧
      (restoreWorld.tx ⟨3⟩).Pays .remint ⟨8⟩ receiptMint ∧ t.channel.Landed ⟨3⟩ ∧
      t.db.newestKnown restoreWorld receiptMint = none ∧
      ∀ session, u.session = some session → ¬ session.set.Has ⟨8⟩ ∧ ¬ u.db.consumed.Has ⟨8⟩ := by
  obtain ⟨events, t, hrun, hfirst, hsecond⟩ := minted_twice_after_running_restore
  refine ⟨⟨events, t, hrun, hfirst, hsecond, firstMint_signed_restore.mint,
    secondMint_signed_restore.mint, by decide⟩, ?_⟩
  have hlands : ∀ e x, restoreWorld.mints e x → otherRefundLanded.Landed x →
      restoreStart.channel.Landed x ∨ x ∈ restoreStart.broadcast e := by
    rintro e x hx ⟨b, hb, htx⟩
    obtain rfl : b = ⟨60, 50, [(⟨3⟩, true)]⟩ := List.mem_singleton.mp hb
    obtain rfl : x = ⟨3⟩ := (Prod.mk.inj (List.mem_singleton.mp htx)).1
    have hmarkers := hx.markers
    simp [restoreWorld, otherRefundTx] at hmarkers
  have hpays : (restoreWorld.tx ⟨3⟩).Pays .remint ⟨8⟩ receiptMint :=
    ⟨List.mem_singleton_self _, rfl, List.mem_singleton_self _, rfl, _, rfl, rfl⟩
  have h1 := Run.nil.snoc (@EscrowStep.advance restoreWorld restoreStart otherRefundLanded
    List.nil_prefix ⟨by simp [Admissible, otherRefundLanded, firstMint],
      by simp [Admissible, otherRefundLanded, secondMint], by decide⟩ hlands)
  have h2 := h1.snoc (.boot rfl)
  have h3 := h2.snoc (@EscrowStep.walk restoreWorld _ _ receiptMint []
    (fullHistory restoreWorld otherRefundLanded) 0 2 rfl rfl (by simp) (fullHistory_honest _ _ _)
    (retained_zero _ _ _) rfl)
  let walk : Walk := ⟨receiptMint, [], [], otherRefundLanded⟩
  refine ⟨_, _, _, h3, by simp [Stopped], @EscrowStep.walked restoreWorld _
    ⟨[], [], [receiptMint], some walk⟩ walk [] rfl rfl rfl rfl, hpays,
    ⟨_, List.mem_singleton_self _, List.mem_singleton_self _⟩, rfl, fun session hup => ?_⟩
  cases hup
  constructor <;> rintro ⟨⟩

end PrivateChannels.Operator
