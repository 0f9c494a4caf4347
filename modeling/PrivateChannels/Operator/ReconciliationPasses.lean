import PrivateChannels.Operator.Verdicts

/-!
# Passes of the reconciliation loop

`run_reconciliation` runs counted ticks and, while the fence is closed, probes in between.
Over every interleaving the counters are the streaks of the passes.
-/

namespace PrivateChannels.Operator

variable {κ : Type*} [DecidableEq κ]

/-- One pass of the loop. -/
structure Pass (κ : Type*) where
  probe : Bool
  readings : TickReadings κ

/-- Shutdown cut the pass short, which ends the loop. -/
def Pass.cancelled (pass : Pass κ) : Bool :=
  pass.readings.cancelled || pass.readings.waitCancelled

/-- A process and the passes its loop has run, newest first. -/
structure LoopSystem (κ : Type*) where
  process : FenceSystem κ
  passes : List (Pass κ)

namespace LoopSystem

/-- The loop was not cancelled. -/
def Running (s : LoopSystem κ) : Prop := ∀ pass ∈ s.passes, pass.cancelled = false

/-- The readings of the counted passes, newest first. -/
def counted (s : LoopSystem κ) : List (TickReadings κ) :=
  (s.passes.filter fun pass => !pass.probe).map (·.readings)

/-- Breaches in a row among the passes. -/
def supplyStreak (toleranceBps : ℕ) (s : LoopSystem κ) (mint : κ) : ℕ :=
  streak (s.counted.map fun readings => supplyVerdict toleranceBps readings mint)

def liabilityStreak (toleranceBps : ℕ) (s : LoopSystem κ) (mint : κ) : ℕ :=
  streak (s.counted.map fun readings => liabilityVerdict toleranceBps readings mint)

/-- A pass confirms a breach: with it a streak is long enough to halt. -/
def Confirms (toleranceBps : ℕ) (s : LoopSystem κ) (readings : TickReadings κ) : Prop :=
  ∃ mint, (supplyVerdict toleranceBps readings mint = .breach ∧
      haltConfirmTicks ≤ s.supplyStreak toleranceBps mint + 1) ∨
    liabilityVerdict toleranceBps readings mint = .breach ∧
      haltConfirmTicks ≤ s.liabilityStreak toleranceBps mint + 1

/-- The durable halt, or where the pass could not read it the one the process last held for
true. -/
def inForce (s : LoopSystem κ) (readings : TickReadings κ) : Bool :=
  match readings.haltFlag with
  | .ok _ => s.process.halt.any (·.insolvency)
  | .error _ => s.process.memory.breachCounters.insolvencyHalted

/-- Every counter of a running loop is the streak of its mint. -/
def CountersLawful (toleranceBps : ℕ) (s : LoopSystem κ) : Prop :=
  s.Running → ∀ mint,
    (s.process.memory.breachCounters.supply.lookup mint).getD 0 =
        s.supplyStreak toleranceBps mint ∧
      (s.process.memory.breachCounters.liability.lookup mint).getD 0 =
        s.liabilityStreak toleranceBps mint

/-- A loop before its first pass. -/
structure Fresh (s : LoopSystem κ) : Prop where
  process : s.process.Fresh
  passes : s.passes = []

end LoopSystem

/-- One step of the process, with the passes of its loop. A loop that was cancelled
runs no further pass. -/
inductive LoopStep [ToString κ] (toleranceBps : ℕ) :
    LoopSystem κ → FenceEvent κ → LoopSystem κ → Prop
  | pass {s : LoopSystem κ} {probe : Bool} {readings : TickReadings κ} {t : FenceSystem κ}
      (hrunning : s.Running) (hstep : FenceStep toleranceBps s.process (.tick probe readings) t) :
      LoopStep toleranceBps s (.tick probe readings) ⟨t, ⟨probe, readings⟩ :: s.passes⟩
  | restart {s : LoopSystem κ} {flag : Except String (Option HaltInfo)} {t : FenceSystem κ}
      (hstep : FenceStep toleranceBps s.process (.restart flag) t) :
      LoopStep toleranceBps s (.restart flag) ⟨t, []⟩
  | other {s : LoopSystem κ} {e : FenceEvent κ} {t : FenceSystem κ}
      (hstep : FenceStep toleranceBps s.process e t)
      (hpass : ∀ probe readings, e ≠ .tick probe readings) (hlive : ∀ flag, e ≠ .restart flag) :
      LoopStep toleranceBps s e ⟨t, s.passes⟩

/-- The counters are the streaks, a halt is tried exactly on a confirmed breach under no
insolvency halt, an outage replaces no insolvency, and a probe at most opens the fence. -/
structure PassLawful (toleranceBps : ℕ) (s : LoopSystem κ) (e : FenceEvent κ) (t : LoopSystem κ) :
    Prop where
  counters : t.CountersLawful toleranceBps
  attempts : ∀ readings, e = .tick false readings →
    (.trip ∈ t.process.pending ↔ s.Confirms toleranceBps readings ∧ s.inForce readings = false)
  outage : ∀ now reason write rest, e = .effect now →
    s.process.pending = .writeHalt .outage reason write :: rest →
    s.process.halt.any (·.insolvency) = true → t.process.halt = s.process.halt
  probe : ∀ readings, e = .tick true readings →
    (∀ effect ∈ t.process.pending, ∃ record, effect = .openFence record) ∧
      (t.Running → t.process.memory.breachCounters = s.process.memory.breachCounters ∧
        t.process.memory.liabilityDarkTicks = s.process.memory.liabilityDarkTicks ∧
        t.process.memory.inputDarkTicks = s.process.memory.inputDarkTicks)

section Steps

variable [ToString κ] {toleranceBps : ℕ} {t : FenceSystem κ}

/-- Only a tick and a restart touch the memory of the loop. -/
theorem FenceStep.memory_eq {s : FenceSystem κ} {e : FenceEvent κ}
    (hstep : FenceStep toleranceBps s e t) (hpass : ∀ probe readings, e ≠ .tick probe readings)
    (hlive : ∀ flag, e ≠ .restart flag) : t.memory = s.memory := by
  cases hstep with
  | @recheck i id lease sig answer hat =>
    unfold FenceSystem.recheck
    split
    · split <;> rfl
    · rfl
  | @writeHalt rest kind reason write now hnext hanswer => cases write <;> rfl
  | @quarantine rest landed now hnext hnow => cases landed <;> rfl
  | tick => exact absurd rfl (hpass _ _)
  | restart => exact absurd rfl (hlive _)
  | _ => rfl

variable {readings : TickReadings κ}

theorem FenceStep.of_tick {s : FenceSystem κ} {probe : Bool}
    (hstep : FenceStep toleranceBps s (.tick probe readings) t) :
    s.ReadsHalt readings.haltFlag ∧ (probe = true → oneMoreTickIsSafe s.memory = true) ∧
      performReconciliationCheck toleranceBps probe s.memory readings = (t.memory, t.pending) := by
  cases hstep with
  | tick hidle hflag hprobe => exact ⟨hflag, fun hp => (hprobe hp).2, rfl⟩

variable {s : LoopSystem κ}

omit [DecidableEq κ] [ToString κ] in
/-- The guard after the re-sync. -/
theorem inForce_eq (hflag : s.process.ReadsHalt readings.haltFlag) :
    (syncHalted s.process.memory readings.haltFlag).breachCounters.insolvencyHalted =
      s.inForce readings := by
  unfold LoopSystem.inForce
  cases hread : readings.haltFlag with
  | error e => rfl
  | ok halt =>
    rw [← hflag halt hread]
    rfl

/-- A counted pass, from the counters before it. -/
theorem counted_step (hlaw : s.CountersLawful toleranceBps) (hrunning : s.Running)
    (hstep : FenceStep toleranceBps s.process (.tick false readings) t) :
    LoopSystem.CountersLawful toleranceBps ⟨t, ⟨false, readings⟩ :: s.passes⟩ ∧
      (.trip ∈ t.pending ↔ s.Confirms toleranceBps readings ∧ s.inForce readings = false) := by
  obtain ⟨hflag, -, hcheck⟩ := hstep.of_tick
  have hcounts := counted_pass hcheck
  obtain ⟨hsupply, hliability, -, -⟩ := syncHalted_counters s.process.memory readings.haltFlag
  refine ⟨fun _ mint => ⟨?_, ?_⟩, ?_⟩
  · rw [hcounts.supply, hsupply, (hlaw hrunning mint).1]
    exact (streak_cons _ _).symm
  · rw [hcounts.liability, hliability, (hlaw hrunning mint).2]
    exact (streak_cons _ _).symm
  · rw [hcounts.tried, inForce_eq hflag, and_comm]
    refine and_congr_left' (exists_congr fun mint => ?_)
    rw [hsupply, hliability, (hlaw hrunning mint).1, (hlaw hrunning mint).2]

/-- A probe leaves every counter; outside it reports orphans and opens the fence. -/
theorem probe_step (hstep : FenceStep toleranceBps s.process (.tick true readings) t) :
    ((∀ effect ∈ t.pending, ∃ record, effect = .openFence record) ↔
        OrphansQuiet readings s.process.memory) ∧
      (LoopSystem.Running ⟨t, ⟨true, readings⟩ :: s.passes⟩ →
        t.memory.breachCounters = s.process.memory.breachCounters ∧
          t.memory.liabilityDarkTicks = s.process.memory.liabilityDarkTicks ∧
          t.memory.inputDarkTicks = s.process.memory.inputDarkTicks) := by
  obtain ⟨-, hsafe, hcheck⟩ := hstep.of_tick
  obtain ⟨⟨opening, hpending, hopening⟩, hkept⟩ := probe_pass (hsafe rfl) hcheck
  refine ⟨?_, fun hrunning => hkept (hrunning _ List.mem_cons_self)⟩
  rw [← checkOrphanDepositRows_eq_nil, hpending]
  refine ⟨fun hall => List.eq_nil_iff_forall_not_mem.mpr fun effect hmem => ?_, fun hnil => ?_⟩
  · obtain ⟨page, rfl⟩ := (checkOrphanDepositRows_spec _ _).1 _ hmem
    obtain ⟨record, he⟩ := hall _ (List.mem_append_left _ hmem)
    cases he
  · rw [hnil, List.nil_append]
    exact hopening

/-- Every step keeps the streaks. -/
theorem LoopStep.counters {t : LoopSystem κ} {e : FenceEvent κ}
    (hlaw : s.CountersLawful toleranceBps) (hstep : LoopStep toleranceBps s e t) :
    t.CountersLawful toleranceBps := by
  cases hstep with
  | @pass probe readings t hrunning hstep =>
    cases probe with
    | false => exact (counted_step hlaw hrunning hstep).1
    | true =>
      intro hrunning' mint
      rw [((probe_step hstep).2 hrunning').1]
      exact hlaw hrunning mint
  | restart hstep =>
    cases hstep
    exact fun _ mint => ⟨rfl, rfl⟩
  | other hstep hpass hlive =>
    intro hrunning mint
    rw [hstep.memory_eq hpass hlive]
    exact hlaw hrunning mint

omit [ToString κ] in
theorem LoopSystem.Fresh.counters (h : s.Fresh) : s.CountersLawful toleranceBps := by
  intro _ mint
  obtain ⟨flag, -, hseeded⟩ := h.process.memory
  unfold LoopSystem.supplyStreak LoopSystem.liabilityStreak LoopSystem.counted
  rw [hseeded, h.passes]
  exact ⟨rfl, rfl⟩

theorem run_counters {s₀ : LoopSystem κ} {l : List (FenceEvent κ)} (hfresh : s₀.Fresh)
    (hrun : Run (LoopStep toleranceBps) s₀ l s) : s.CountersLawful toleranceBps :=
  hrun.stateInvariant hfresh.counters fun _ _ _ hlaw hstep => hstep.counters hlaw

/-- An outage never takes the place of an insolvency halt. -/
theorem LoopStep.outage {t : LoopSystem κ} {now : Storage.Stamp} {reason : String}
    {write : HaltWrite} {rest : List (TickEffect κ)}
    (hstep : LoopStep toleranceBps s (.effect now) t)
    (hnext : s.process.pending = .writeHalt .outage reason write :: rest)
    (hforce : s.process.halt.any (·.insolvency) = true) : t.process.halt = s.process.halt := by
  cases hstep with
  | other hstep hpass hlive =>
    cases hstep with
    | trip hnext' | page hnext' | quarantine hnext' | openFence hnext' =>
      cases hnext.symm.trans hnext'
    | @writeHalt rest' kind reason' write' now hnext' hanswer =>
      cases hnext.symm.trans hnext'
      cases write with
      | failed reason => rfl
      | _ => exact if_pos hforce

/-- In every interleaving a step of the loop is lawful exactly when it is no probe with an
unpaged orphan to report. -/
theorem pass_lawful_iff {s₀ s t : LoopSystem κ} {l : List (FenceEvent κ)} {e : FenceEvent κ}
    (hfresh : s₀.Fresh) (hrun : Run (LoopStep toleranceBps) s₀ l s)
    (hstep : LoopStep toleranceBps s e t) :
    PassLawful toleranceBps s e t ↔
      ∀ readings, e = .tick true readings → OrphansQuiet readings s.process.memory := by
  have hlaw := run_counters hfresh hrun
  refine ⟨fun h readings he => ?_, fun hquiet => ⟨hstep.counters hlaw, fun readings he => ?_,
    fun now reason write rest he hnext hforce => ?_, fun readings he => ?_⟩⟩
  · subst he
    cases hstep with
    | pass hrunning hstep => exact (probe_step hstep).1.mp (h.probe readings rfl).1
    | other _ hpass _ => exact absurd rfl (hpass _ _)
  · subst he
    cases hstep with
    | pass hrunning hstep => exact (counted_step hlaw hrunning hstep).2
    | other _ hpass _ => exact absurd rfl (hpass _ _)
  · subst he
    exact hstep.outage hnext hforce
  · cases he
    cases hstep with
    | pass hrunning hstep =>
      exact ⟨(probe_step hstep).1.mpr (hquiet readings rfl), (probe_step hstep).2⟩
    | other _ hpass _ => exact absurd rfl (hpass _ _)

end Steps

/-- A tick that could not list the mints. -/
def darkReadings : TickReadings ℕ :=
  { quietReadings (.ok none) with mintUniverse := .error "storage unavailable" }

/-- A clean pass that also finds a deposit row without its transaction. -/
def orphanReadings (ids : List ℕ) : TickReadings ℕ :=
  { quietReadings (.ok none) with webhookConfigured := true, orphanDepositIds := .ok ids }

def loopStart : LoopSystem ℕ := ⟨fenceStart none (.ok none), []⟩

theorem loopStart_fresh : loopStart.Fresh :=
  ⟨fenceStart_fresh fun _ h => (Except.ok.inj h).symm, rfl⟩

/-- The first tick goes dark, so the loop probes. -/
theorem probe_after_dark (ids : List ℕ) :
    ∃ l s t, Run (LoopStep 0) loopStart l s ∧ LoopStep 0 s (.tick true (orphanReadings ids)) t ∧
      s.process.memory.previouslyAlertedOrphans = some [] := by
  have hread : ∀ halt, (.ok none : Except String (Option HaltInfo)) = .ok halt →
      halt = (fenceStart none (.ok none)).halt := fun _ h => (Except.ok.inj h).symm
  have h1 := Run.nil.snoc (@LoopStep.pass ℕ _ _ 0 loopStart false darkReadings _
    (fun _ hmem => absurd hmem List.not_mem_nil)
    (@FenceStep.tick ℕ _ _ 0 (fenceStart none (.ok none)) false darkReadings rfl
      hread nofun))
  refine ⟨_, _, _, h1, .pass ?_ (.tick rfl hread fun _ => ⟨rfl, rfl⟩), rfl⟩
  intro pass hpass
  obtain rfl := List.mem_singleton.mp hpass
  rfl

/-- A probe with no new orphan is lawful. -/
theorem pass_lawful_quiet_probe :
    ∃ s t, LoopStep 0 s (.tick true (orphanReadings [])) t ∧
      PassLawful 0 s (.tick true (orphanReadings [])) t := by
  obtain ⟨l, s, t, hrun, hstep, -⟩ := probe_after_dark []
  refine ⟨s, t, hstep, (pass_lawful_iff loopStart_fresh hrun hstep).mpr fun readings he => ?_⟩
  cases he
  exact .inr fun ids hids id hmem => by cases hids; cases hmem

/-- A probe pages the orphan it found. -/
theorem probe_pages_orphan :
    ∃ l s t, loopStart.Fresh ∧ Run (LoopStep 0) loopStart l s ∧
      LoopStep 0 s (.tick true (orphanReadings [7])) t ∧
      .page (.orphanDeposits [7]) ∈ t.process.pending ∧
      ¬PassLawful 0 s (.tick true (orphanReadings [7])) t := by
  obtain ⟨l, s, t, hrun, hstep, hseen⟩ := probe_after_dark [7]
  have hpage : .page (.orphanDeposits [7]) ∈ t.process.pending := by
    cases hstep with
    | pass hrunning hstep =>
      obtain ⟨-, hsafe, hcheck⟩ := hstep.of_tick
      obtain ⟨⟨opening, hpending, -⟩, -⟩ := probe_pass (hsafe rfl) hcheck
      rw [hpending]
      refine List.mem_append_left _ ?_
      simp [checkOrphanDepositRows, orphanReadings, hseen, alert]
    | other _ hpass _ => exact absurd rfl (hpass _ _)
  refine ⟨l, s, t, loopStart_fresh, hrun, hstep, hpage, fun h => ?_⟩
  obtain ⟨record, he⟩ := (h.probe _ rfl).1 _ hpage
  cases he

end PrivateChannels.Operator
