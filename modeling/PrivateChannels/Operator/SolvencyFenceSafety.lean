import PrivateChannels.Operator.SolvencyFence

/-!
# No value moves before a clean tick, and none after a trip

The one effect that opens the fence comes last, from a tick that read every input clean
and knew of no halt. A claim becomes `Owned` at its second look at the fence.
-/

namespace PrivateChannels.Operator

open Storage

variable {κ : Type*} {marks : List (FenceMark κ)} {flag : Except String (Option HaltInfo)}

/-- The guard is down only where the last answered read of the flag found none. -/
def ReconciliationMemory.Aware (m : ReconciliationMemory κ) : Prop :=
  m.halted = false → ∀ flag, m.known = some flag → flag = none

/-- The guard was not lowered and the flag not read. -/
structure ReconciliationMemory.Raised (m m' : ReconciliationMemory κ) : Prop where
  known : m'.known = m.known
  halted : m'.halted = false → m.halted = false

theorem ReconciliationMemory.Raised.refl (m : ReconciliationMemory κ) : m.Raised m := ⟨rfl, id⟩

variable {effects : List (TickEffect κ)} {m m' : ReconciliationMemory κ}

theorem ReconciliationMemory.Raised.trans {m'' : ReconciliationMemory κ} (h : m.Raised m')
    (h' : m'.Raised m'') : m.Raised m'' :=
  ⟨h'.known.trans h.known, fun hd => h.halted (h'.halted hd)⟩

theorem ReconciliationMemory.Raised.aware (h : m.Raised m') (ha : m.Aware) : m'.Aware := by
  intro hd flag hk
  rw [h.known] at hk
  exact ha (h.halted hd) flag hk

theorem seeded_aware (flag : Except String (Option HaltInfo)) :
    (ReconciliationMemory.seeded flag : ReconciliationMemory κ).Aware := by
  intro hd known hk
  cases flag with
  | error e => cases hk
  | ok halt =>
    cases hk
    simpa [ReconciliationMemory.seeded, Except.toOption] using hd

theorem syncHalted_aware (h : m.Aware) (flag : Except String (Option HaltInfo)) :
    (syncHalted m flag).Aware := by
  cases flag with
  | error e => exact h
  | ok halt =>
    intro hd known hk
    cases hk
    simpa [syncHalted] using hd

/-- None of the effects opens the fence. -/
def NoOpening (effects : List (TickEffect κ)) : Prop :=
  ∀ record, TickEffect.openFence record ∉ effects

theorem NoOpening.append {l l' : List (TickEffect κ)} (h : NoOpening l) (h' : NoOpening l') :
    NoOpening (l ++ l') := by
  intro record hmem
  rcases List.mem_append.mp hmem with hl | hl
  · exact h record hl
  · exact h' record hl

/-- The effects are pages, and nothing else. -/
def OnlyPages (effects : List (TickEffect κ)) : Prop :=
  ∀ effect ∈ effects, ∃ page, effect = .page page

theorem OnlyPages.noOpening (h : OnlyPages effects) : NoOpening effects := by
  intro record hmem
  obtain ⟨page, he⟩ := h _ hmem
  cases he

theorem OnlyPages.no_trip (h : OnlyPages effects) : .trip ∉ effects := by
  intro hmem
  obtain ⟨page, he⟩ := h _ hmem
  cases he

theorem onlyPages_nil : OnlyPages ([] : List (TickEffect κ)) :=
  fun _ hmem => absurd hmem List.not_mem_nil

theorem OnlyPages.unless (h : OnlyPages effects) {c : Prop} [Decidable c] :
    OnlyPages (if c then [] else effects) := by
  split
  · exact onlyPages_nil
  · exact h

theorem onlyPages_alert (readings : TickReadings κ) (page : Page κ) :
    OnlyPages (alert readings page) := by
  unfold alert
  split
  · simp [OnlyPages]
  · exact onlyPages_nil

theorem onlyPages_alerts (readings : TickReadings κ) (pages : List (Page κ)) :
    OnlyPages (pages.flatMap (alert readings)) := by
  intro effect hmem
  obtain ⟨page, -, hpage⟩ := List.mem_flatMap.mp hmem
  exact onlyPages_alert readings page effect hpage

theorem onlyPages_report (readings : TickReadings κ) (darkTicks : ℕ) :
    OnlyPages (reportLiabilityArmState readings darkTicks) :=
  (onlyPages_alert _ _).unless

/-- The tries at a halt write have no effect but the writes. -/
theorem mem_writeHalts {kind : HaltKind} {reason : String} {attempts : ℕ} {writes : List HaltWrite}
    {effect : TickEffect κ} (hmem : effect ∈ (writeHalts kind reason attempts writes).2.2) :
    ∃ write, effect = .writeHalt kind reason write := by
  induction attempts generalizing writes with
  | zero => exact absurd hmem List.not_mem_nil
  | succ attempts ih =>
    cases writes with
    | nil => exact absurd hmem List.not_mem_nil
    | cons write rest =>
      cases write with
      | acknowledged written => exact ⟨_, List.mem_singleton.mp hmem⟩
      | _ =>
        rcases List.mem_cons.mp hmem with he | hrest
        · exact ⟨_, he⟩
        · exact ih hrest

theorem freezePipelines_noOpening (kind : HaltKind) (reason : String) (quarantined : Bool)
    (writes : List HaltWrite) :
    NoOpening (freezePipelines kind reason quarantined writes :
      _ × _ × List (TickEffect κ)).2.2 := by
  refine NoOpening.append (fun record hmem => ?_) ?_
  · obtain ⟨write, he⟩ := mem_writeHalts hmem
    cases he
  · split <;> simp [NoOpening]

/-- An evaluation under way: it opens nothing and never lowers the guard. -/
structure Evaluation.Guarded (halted : Bool) (e : Evaluation κ) : Prop where
  effects : NoOpening e.effects
  halted : e.halted = false → halted = false

variable {e : Evaluation κ} {halted : Bool}

/-- The checkpoint has reached the slot. -/
theorem waitForLedger_covered {slot : ℕ} {cancelled : Bool}
    {polls : List (Except String (Option ℕ))} {readOnce : Bool}
    (h : waitForLedger slot cancelled polls readOnce = .covered) :
    ∃ committed, .ok (some committed) ∈ polls ∧ slot ≤ committed := by
  induction polls generalizing readOnce with
  | nil =>
    unfold waitForLedger at h
    split at h
    · cases h
    · split at h <;> cases h
  | cons poll rest ih =>
    cases poll with
    | error e =>
      obtain ⟨committed, hmem, hle⟩ := ih h
      exact ⟨committed, List.mem_cons_of_mem _ hmem, hle⟩
    | ok checkpoint =>
      cases checkpoint with
      | none => cases h
      | some committed =>
        unfold waitForLedger at h
        split at h
        · next hle => exact ⟨committed, List.mem_cons_self, hle⟩
        · obtain ⟨committed', hmem, hle⟩ := ih h
          exact ⟨committed', List.mem_cons_of_mem _ hmem, hle⟩

theorem missingInput_eq_none [ToString κ] {supplyMissing : Option String} {wait : LedgerWait}
    {unresolved : List κ} (h : missingInput supplyMissing wait unresolved = none) :
    supplyMissing = none ∧ unresolved = [] := by
  unfold missingInput at h
  cases supplyMissing with
  | some reason => simp at h
  | none =>
    refine ⟨rfl, ?_⟩
    by_contra hne
    have hempty : unresolved.isEmpty = false := by simpa using hne
    rw [hempty] at h
    split at h <;> simp at h

variable [DecidableEq κ]

theorem Evaluation.Guarded.tripHalt (h : e.Guarded halted)
    (readings : TickReadings κ) (mint : κ) (custody dbBalance : ℕ) (reason : String) :
    (tripHalt readings mint custody dbBalance reason e).Guarded halted := by
  refine ⟨h.effects.append ?_, fun hd => ?_⟩
  · intro record hmem
    rcases List.mem_cons.mp hmem with he | hrest
    · cases he
    · exact ((freezePipelines_noOpening _ _ _ _).append (onlyPages_alert _ _).unless.noOpening)
        record hrest
  · simp only [Operator.tripHalt] at hd
    split at hd
    · cases hd
    · exact h.halted hd

theorem holdSupply_guarded {previous : BreachCounters κ} (h : e.Guarded halted) (mint : κ) :
    (holdSupply previous e mint).Guarded halted := by
  unfold holdSupply
  split
  · exact h
  · exact ⟨h.effects, h.halted⟩

theorem holdLiability_guarded {previous : BreachCounters κ} (h : e.Guarded halted) (mint : κ) :
    (holdLiability previous e mint).Guarded halted := by
  unfold holdLiability
  split
  · exact h
  · exact ⟨h.effects, h.halted⟩

section Arms

variable [ToString κ] {toleranceBps : ℕ} {readings : TickReadings κ} {custody : EscrowCustody κ}
  {previous : BreachCounters κ} {halted : Bool}

/-- The supply arm never lowers the guard. -/
theorem supplyArm_guarded {supply : List (κ × ℕ)} {envelope : κ → Option (ℤ × ℤ)}
    (h : e.Guarded halted) (mint : κ) :
    (supplyArm toleranceBps readings custody previous supply envelope e mint).Guarded halted := by
  unfold supplyArm
  split
  · exact holdSupply_guarded h mint
  · dsimp only
    split
    · split
      · exact h
      · next breach _ =>
        have hmasked : Evaluation.Guarded halted { e with masked := e.masked ++ [.maskedBreach mint
            breach (((envelope mint).map fun row => envelopeToU64 row.2).getD 0)] } :=
          ⟨h.effects, h.halted⟩
        exact holdSupply_guarded hmasked mint
    · split
      · exact ⟨h.effects, h.halted⟩
      · apply Evaluation.Guarded.tripHalt
        exact ⟨h.effects, h.halted⟩

theorem liabilityArm_guarded {liabilities : Option (κ → Option ℕ)}
    (h : e.Guarded halted) (mint : κ) :
    (liabilityArm toleranceBps readings custody previous liabilities e mint).Guarded halted := by
  unfold liabilityArm
  split
  · exact holdLiability_guarded h mint
  · dsimp only
    split
    · exact h
    · split
      · exact ⟨h.effects, h.halted⟩
      · apply Evaluation.Guarded.tripHalt
        exact ⟨h.effects, h.halted⟩

theorem evaluateAndMaybeHalt_guarded (mints : List κ) (supply : List (κ × ℕ))
    (envelope : κ → Option (ℤ × ℤ)) (liabilities : Option (κ → Option ℕ)) :
    (evaluateAndMaybeHalt toleranceBps readings custody previous mints supply envelope liabilities
      halted).Guarded halted := by
  refine mints.foldlRecOn _ ?_ fun e h mint _ => liabilityArm_guarded h mint
  refine mints.foldlRecOn _ ?_ fun e h mint _ => supplyArm_guarded h mint
  exact ⟨fun _ => List.not_mem_nil, id⟩

/-- The supply of the mint was answered at or past the channel's anchor. -/
def FreshSupply (readings : TickReadings κ) (mint : κ) : Prop :=
  ∃ anchor s slot, readings.channelAnchor = .ok anchor ∧
    readings.channelSupply mint = .ok (s, slot) ∧ anchor ≤ slot

/-- Every supply was read fresh. -/
theorem readSupply_foldl {anchor : ℕ} (mints : List κ) {acc : SupplyReads κ}
    (h : (mints.foldl (readSupply readings anchor) acc).missing = none) :
    acc.missing = none ∧ ∀ mint ∈ mints, ∃ s slot,
      readings.channelSupply mint = .ok (s, slot) ∧ anchor ≤ slot := by
  induction mints generalizing acc with
  | nil => exact ⟨h, nofun⟩
  | cons mint rest ih =>
    obtain ⟨hacc, hrest⟩ := ih h
    unfold readSupply at hacc
    split at hacc
    · next s slot hread =>
      split at hacc
      · next hfresh =>
        refine ⟨hacc, fun m hm => ?_⟩
        rcases List.mem_cons.mp hm with rfl | hm
        · exact ⟨s, slot, hread, hfresh⟩
        · exact hrest m hm
      · cases hacc
    · cases hacc

theorem loadHaltInputs_complete {mints : List κ}
    (h : (loadHaltInputs readings mints).missing = none) :
    ∀ mint ∈ mints, FreshSupply readings mint := by
  unfold loadHaltInputs at h
  split at h
  · next hempty =>
    rw [List.isEmpty_iff] at hempty
    simp [hempty]
  · split at h
    · cases h
    · next anchor hanchor =>
      intro mint hmem
      obtain ⟨s, slot, hread, hle⟩ :=
        (readSupply_foldl _ h).2 mint ((readings.visit_perm mints).mem_iff.mpr hmem)
      exact ⟨anchor, s, slot, hanchor, hread, hle⟩

/-- Every input was read, every supply fresh, and the checkpoint had reached the custody
slot. -/
def CompleteReadings (readings : TickReadings κ) : Prop :=
  ∃ resolved custody envelope ledger,
    readings.mintUniverse = .ok (resolved, []) ∧ readings.onChainBalances = .ok custody ∧
    readings.inFlightEnvelope = .ok envelope ∧ readings.ledger = .ok ledger ∧
    (∀ mint ∈ resolved, FreshSupply readings mint) ∧
    ∃ committed, .ok (some committed) ∈ readings.checkpointPolls ∧ custody.slot ≤ committed

variable {checked : Checked κ} {probe : Bool}

/-- What `check_invariants` can do from the ledger wait on. -/
theorem checkLedger_spec (m : ReconciliationMemory κ) (resolved unresolved : List κ)
    (custody : EscrowCustody κ) (envelope : κ → Option (ℤ × ℤ))
    (h : checkLedger toleranceBps probe m readings resolved unresolved custody envelope = checked) :
    NoOpening checked.effects ∧ m.Raised checked.memory ∧
      (checked.result = .ok (.complete true) →
        unresolved = [] ∧ (∃ ledger, readings.ledger = .ok ledger) ∧
        (∀ mint ∈ resolved, FreshSupply readings mint) ∧
        ∃ committed, .ok (some committed) ∈ readings.checkpointPolls ∧
          custody.slot ≤ committed) := by
  unfold checkLedger at h
  dsimp only at h
  split at h
  · subst h
    exact ⟨fun _ => List.not_mem_nil, .refl m, by simp⟩
  · split at h
    · subst h
      exact ⟨(onlyPages_report _ _).noOpening, ⟨rfl, id⟩, by simp⟩
    · next ledger hledger =>
      subst h
      have hguard : ∀ mints supply liabilities, (evaluateAndMaybeHalt toleranceBps readings custody
          m.breachCounters mints supply envelope liabilities m.halted).Guarded m.halted :=
        fun mints supply liabilities =>
          evaluateAndMaybeHalt_guarded mints supply envelope liabilities
      refine ⟨((onlyPages_report _ _).noOpening.append (hguard _ _ _).effects).append
        (onlyPages_alerts _ _).unless.noOpening, ⟨rfl, (hguard _ _ _).halted⟩, fun hresult => ?_⟩
      split at hresult
      · cases hresult
      · next hmissing =>
        obtain ⟨hsupply, hresolved⟩ := missingInput_eq_none hmissing
        have hcovered : waitForLedger custody.slot readings.waitCancelled readings.checkpointPolls
            false = .covered := by simpa using hresult
        exact ⟨hresolved, ⟨ledger, hledger⟩, loadHaltInputs_complete hsupply,
          waitForLedger_covered hcovered⟩

/-- It opens nothing, lowers the guard only on an answered read of the flag, and reports a
covered complete tick only when every input was read. -/
theorem checkInputs_spec (m : ReconciliationMemory κ)
    (h : checkInputs toleranceBps probe m readings = checked) :
    NoOpening checked.effects ∧ (syncHalted m readings.haltFlag).Raised checked.memory ∧
      (checked.result = .ok (.complete true) → CompleteReadings readings) := by
  unfold checkInputs at h
  split at h
  · subst h
    exact ⟨fun _ => List.not_mem_nil, .refl _, by simp⟩
  next resolved unresolved huniverse =>
  split at h
  · subst h
    exact ⟨fun _ => List.not_mem_nil, .refl _, by simp⟩
  next custody hcustody =>
  split at h
  · subst h
    exact ⟨fun _ => List.not_mem_nil, .refl _, by simp⟩
  next envelope henvelope =>
  obtain ⟨heffects, hraised, hcomplete⟩ := checkLedger_spec _ resolved unresolved custody envelope h
  refine ⟨heffects, hraised, fun hresult => ?_⟩
  obtain ⟨rfl, ⟨ledger, hledger⟩, hsupply, hcovered⟩ := hcomplete hresult
  exact ⟨resolved, custody, envelope, ledger, huniverse, hcustody, henvelope, hledger, hsupply,
    hcovered⟩

omit [DecidableEq κ] [ToString κ] in
/-- The orphan report pages, and touches only the memory of the orphans. -/
theorem checkOrphanDepositRows_spec (readings : TickReadings κ) (m : ReconciliationMemory κ) :
    OnlyPages (checkOrphanDepositRows readings m).2 ∧
      ∃ seen, (checkOrphanDepositRows readings m).1 =
      { m with previouslyAlertedOrphans := seen } := by
  unfold checkOrphanDepositRows
  split
  · exact ⟨onlyPages_nil, _, rfl⟩
  · split
    · split
      · exact ⟨onlyPages_nil, _, rfl⟩
      · refine ⟨onlyPages_alert _ _, ?_⟩
        split <;> exact ⟨_, rfl⟩
    · dsimp only
      split
      · exact ⟨onlyPages_nil, _, rfl⟩
      · refine ⟨onlyPages_alert _ _, ?_⟩
        split <;> exact ⟨_, rfl⟩

/-- What the checks can do. -/
theorem checkInvariants_spec (m : ReconciliationMemory κ)
    (h : checkInvariants toleranceBps probe m readings = checked) :
    NoOpening checked.effects ∧ (syncHalted m readings.haltFlag).Raised checked.memory ∧
      (checked.result = .ok (.complete true) → CompleteReadings readings) := by
  subst h
  obtain ⟨heffects, hraised, hcomplete⟩ := checkInputs_spec (checkOrphanDepositRows readings m).1
    (rfl : checkInputs toleranceBps probe _ readings = _)
  obtain ⟨horphans, seen, hseen⟩ := checkOrphanDepositRows_spec readings m
  have hsame : (syncHalted m readings.haltFlag).Raised
      (syncHalted (checkOrphanDepositRows readings m).1 readings.haltFlag) := by
    rw [hseen]
    cases readings.haltFlag <;> exact ⟨rfl, id⟩
  exact ⟨horphans.noOpening.append heffects, hsame.trans hraised, hcomplete⟩

end Arms

omit [DecidableEq κ] in
/-- The outage counter opens nothing. -/
theorem trackInputState_spec (readings : TickReadings κ) (missing : Option String)
    (haltWrites : List HaltWrite) (m : ReconciliationMemory κ) :
    NoOpening (trackInputState readings missing haltWrites m).2 ∧
      m.Raised (trackInputState readings missing haltWrites m).1 := by
  unfold trackInputState
  split
  · exact ⟨fun _ => List.not_mem_nil, ⟨rfl, id⟩⟩
  · dsimp only
    split
    · next hfreeze =>
      exact ⟨(freezePipelines_noOpening _ _ _ _).append (onlyPages_alert _ _).unless.noOpening,
        ⟨rfl, fun _ => hfreeze.2⟩⟩
    · exact ⟨fun _ => List.not_mem_nil, ⟨rfl, id⟩⟩

omit [DecidableEq κ] in
theorem endIncident_raised (m : ReconciliationMemory κ) : m.Raised (endIncident m) := by
  unfold endIncident
  split
  · exact ⟨rfl, id⟩
  · exact .refl m

/-- The tick that opens the fence: every input read, no halt known to the process
and no breach even suspected. -/
structure TickRecord.Clean (record : TickRecord κ) : Prop where
  complete : CompleteReadings record.readings
  result : record.result = .ok (.complete true)
  unhalted : record.memory.halted = false
  known : ∀ flag, record.memory.known = some flag → flag = none
  answered : ∀ flag, record.readings.haltFlag = .ok flag → flag = none
  supply : record.memory.breachCounters.supply = []
  liability : record.memory.breachCounters.liability = []

/-- A tick keeps its memory aware, and opens the fence only with a clean record. -/
theorem performReconciliationCheck_spec [ToString κ] {toleranceBps : ℕ} {readings : TickReadings κ}
    (haware : m.Aware)
    (h : performReconciliationCheck toleranceBps probe m readings = (m', effects)) :
    m'.Aware ∧ ∀ record, .openFence record ∈ effects → record.Clean := by
  have hsync := syncHalted_aware haware readings.haltFlag
  unfold performReconciliationCheck at h
  generalize hc : checkInvariants toleranceBps probe m readings = checked at h
  obtain ⟨hnone, hraised, hcomplete⟩ := checkInvariants_spec m hc
  dsimp only at h
  split at h
  · cases h
    exact ⟨hraised.aware hsync, fun record hmem => absurd hmem (hnone record)⟩
  · obtain ⟨htracked, hraised'⟩ := trackInputState_spec readings (darkReason checked.result)
      checked.haltWrites checked.memory
    generalize trackInputState readings (darkReason checked.result) checked.haltWrites
      checked.memory = tracked at h htracked hraised'
    have hall := (hraised.trans hraised').trans (endIncident_raised tracked.1)
    have haware' := hall.aware hsync
    have hopen : ∀ record, TickEffect.openFence record ∈ checked.effects ++ tracked.2 ++
        (if (⟨readings, checked.result, endIncident tracked.1⟩ : TickRecord κ).clean then
          [.openFence ⟨readings, checked.result, endIncident tracked.1⟩] else []) →
        record.Clean := by
      intro record hmem
      rcases List.mem_append.mp hmem with hold | hnew
      · exact absurd hold (hnone.append htracked record)
      · split at hnew
        · next hclean =>
          obtain rfl := TickEffect.openFence.inj (List.mem_singleton.mp hnew)
          simp only [TickRecord.clean, Bool.and_eq_true, Bool.not_eq_true', List.isEmpty_iff,
            beq_iff_eq] at hclean
          obtain ⟨⟨⟨hresult, hhalted⟩, hsupply⟩, hliability⟩ := hclean
          have hok : checked.result = .ok (.complete true) := by
            cases hr : checked.result with
            | error e => simp [hr, Except.toOption] at hresult
            | ok inputs => simpa [hr, Except.toOption] using hresult
          refine ⟨hcomplete hok, hok, hhalted, haware' hhalted, fun flag hflag => ?_, hsupply,
            hliability⟩
          refine haware' hhalted flag ?_
          rw [hall.known, hflag]
          rfl
        · cases hnew
    split at h
    · cases h
      exact ⟨haware', hopen⟩
    · cases h
      exact ⟨haware', hopen⟩

omit [DecidableEq κ]

/-- A clean tick has opened the fence. -/
def OpenedBefore (marks : List (FenceMark κ)) : Prop :=
  ∃ record inForce, FenceMark.opened record inForce ∈ marks ∧ record.Clean

/-- The fence stands as its marks say, and every claim was owned between a clean
opening and any trip. -/
structure MarksSound (fence : FenceState) (marks : List (FenceMark κ)) : Prop where
  opened : fence = .opened → OpenedBefore marks
  latched : .tripped ∈ marks → fence = .tripped
  owned : ∀ newer i older, marks = newer ++ .owned i :: older →
    OpenedBefore older ∧ .tripped ∉ older

theorem MarksSound.nil : MarksSound .closed ([] : List (FenceMark κ)) :=
  ⟨nofun, nofun, by simp⟩

/-- A mark that is no claim adds nothing to what is asked of the claims. -/
theorem owned_cons {mark : FenceMark κ} {marks newer older : List (FenceMark κ)} {i : ℕ}
    (h : mark :: marks = newer ++ .owned i :: older) :
    (mark = .owned i ∧ older = marks) ∨ ∃ newer', marks = newer' ++ .owned i :: older := by
  cases newer with
  | nil =>
    obtain ⟨rfl, rfl⟩ := List.cons.inj h
    exact .inl ⟨rfl, rfl⟩
  | cons head rest => exact .inr ⟨rest, (List.cons.inj h).2⟩

theorem OpenedBefore.cons (h : OpenedBefore marks)
    (mark : FenceMark κ) : OpenedBefore (mark :: marks) := by
  obtain ⟨record, inForce, hmem, hclean⟩ := h
  exact ⟨record, inForce, List.mem_cons_of_mem _ hmem, hclean⟩

variable {fence : FenceState}

theorem MarksSound.trip
    (h : MarksSound fence marks) : MarksSound fence.trip (.tripped :: marks) := by
  refine ⟨nofun, fun _ => rfl, fun newer i older he => ?_⟩
  rcases owned_cons he with ⟨hbad, -⟩ | ⟨newer', he'⟩
  · cases hbad
  · exact h.owned newer' i older he'

/-- Opening a closed fence after a clean tick. -/
theorem MarksSound.openFence (h : MarksSound fence marks) {record : TickRecord κ}
    (hclean : record.Clean) (inForce : Option HaltInfo) :
    MarksSound fence.openFence
      (if fence = .closed then .opened record inForce :: marks else marks) := by
  cases fence with
  | closed =>
    refine ⟨fun _ => ⟨record, inForce, List.mem_cons_self, hclean⟩, fun htrip => ?_,
      fun newer i older he => ?_⟩
    · rcases List.mem_cons.mp htrip with hbad | hold
      · cases hbad
      · cases h.latched hold
    · rcases owned_cons he with ⟨hbad, -⟩ | ⟨newer', he'⟩
      · cases hbad
      · exact h.owned newer' i older he'
  | opened => exact h
  | tripped => exact h

/-- A claim owned under an open fence. -/
theorem MarksSound.own (h : MarksSound fence marks) (hopen : fence = .opened) (i : ℕ) :
    MarksSound fence (.owned i :: marks) := by
  refine ⟨fun _ => (h.opened hopen).cons _, fun htrip => ?_, fun newer j older he => ?_⟩
  · rcases List.mem_cons.mp htrip with hbad | hold
    · cases hbad
    · exact h.latched hold
  · rcases owned_cons he with ⟨-, rfl⟩ | ⟨newer', he'⟩
    · refine ⟨h.opened hopen, fun htrip => ?_⟩
      rw [hopen] at h
      cases h.latched htrip
    · exact h.owned newer' j older he'

/-- Recovery can take the row back to `pending` once its signatures are dead. -/
structure Reservable (row : Row) : Prop where
  processing : row.status = .processing
  demoted : ∀ finality attempts, attempts < maxRecoveryRequeueAttempts →
    row.releaseJournal = [] ∨ classifySignatures finality row.releaseJournal = .dead →
    onRecovery row.updatedAt
      (decideDeposit attempts (checkDeposit (.ok row.releaseJournal) finality)) =
      .write (.tryRequeueProcessing row.updatedAt)
  requeued : ∀ now, ∃ row', tryRequeueProcessing row.updatedAt now row = some row' ∧
    row'.status = .pending

/-- Recovery can reopen the row. -/
theorem reservable_of_processing {row : Row} (h : row.status = .processing) : Reservable row := by
  refine ⟨h, fun finality attempts hlt hdead => ?_, fun now => ?_⟩
  · have hcheck : checkDeposit (.ok row.releaseJournal) finality = .notLanded := by
      cases hj : row.releaseJournal with
      | nil => rfl
      | cons sig rest =>
        rw [hj] at hdead
        rcases hdead with hnil | hdead
        · cases hnil
        · simp [checkDeposit, hdead]
    rw [hcheck, decideDeposit, if_neg (by omega)]
    rfl
  · refine ⟨_, updateWhere_eq_some.mpr ⟨?_, rfl⟩, rfl⟩
    exact heldAt_eq_true.mpr ⟨h, rfl⟩

/-- The lease is spent, and a row that still carries it is `processing`. -/
def Leased (s : FenceSystem κ) (id : ℕ) (lease : Stamp) : Prop :=
  lease ∈ s.stamps ∧ ((s.rows id).updatedAt = lease → (s.rows id).status = .processing)

/-- Each row kept its status and stamp, or carries a stamp never used before. -/
structure RowsMoved (s t : FenceSystem κ) : Prop where
  stamps : s.stamps ⊆ t.stamps
  rows : ∀ id, ((t.rows id).updatedAt = (s.rows id).updatedAt ∧
    (t.rows id).status = (s.rows id).status) ∨ (t.rows id).updatedAt ∉ s.stamps

variable {s t : FenceSystem κ}

theorem RowsMoved.of_eq (hrows : t.rows = s.rows)
    (hstamps : t.stamps = s.stamps) : RowsMoved s t := by
  refine ⟨?_, fun id => .inl ?_⟩
  · rw [hstamps]
    exact List.Subset.refl _
  · rw [hrows]
    exact ⟨rfl, rfl⟩

variable {lease : Stamp}

theorem Leased.moved {id : ℕ} (h : Leased s id lease) (hm : RowsMoved s t) : Leased t id lease := by
  refine ⟨hm.stamps h.1, fun hcarried => ?_⟩
  rcases hm.rows id with ⟨hstamp, hstatus⟩ | hfresh
  · rw [hstatus]
    exact h.2 (hstamp ▸ hcarried)
  · rw [hcarried] at hfresh
    exact absurd h.1 hfresh

theorem rowsMoved_withRow {id : ℕ} {row : Row} {now : Stamp}
    (hnow : now ∉ s.stamps) (hrow : row = s.rows id ∨ row.updatedAt = now) :
    RowsMoved s (s.withRow id row now) := by
  refine ⟨List.subset_cons_self _ _, fun id' => ?_⟩
  by_cases hid : id' = id
  · subst hid
    rcases hrow with rfl | hstamp
    · exact .inl (by simp [FenceSystem.withRow])
    · refine .inr ?_
      simpa [FenceSystem.withRow, hstamp] using hnow
  · exact .inl (by simp [FenceSystem.withRow, hid])

theorem rowsMoved_op {id : ℕ} {now : Stamp} (hnow : now ∉ s.stamps) (op : Op)
    (escrowCheckpoint : Option ℕ) (observedReleases : List ObservedRelease) :
    RowsMoved s
      (s.withRow id (op.run (s.storeOf id escrowCheckpoint observedReleases) now).2.row now) := by
  apply rowsMoved_withRow hnow
  rcases op.touched (s.storeOf id escrowCheckpoint observedReleases) now with hsame | hwritten
  · exact .inl hsame
  · exact .inr hwritten.stamped

theorem rowsMoved_gc (s : FenceSystem κ) (id : ℕ) :
    RowsMoved s { s with
      rows := Function.update s.rows id (gcStaleReleaseSignatures (s.rows id)) } := by
  refine ⟨fun _ h => h, fun id' => .inl ?_⟩
  by_cases hid : id' = id
  · subst hid
    rcases gcStaleReleaseSignatures_cases (s.rows id') with he | ⟨-, he⟩ <;> simp [he]
  · simp [hid]

/-- The quarantine moves rows only. -/
theorem rowsMoved_quarantine {now : Stamp} (hnow : now ∉ s.stamps)
    (landed : Bool) : RowsMoved s (s.quarantine landed now) := by
  cases landed with
  | false => exact .of_eq rfl rfl
  | true =>
    refine ⟨List.subset_cons_self _ _, fun id => ?_⟩
    cases hq : quarantineActiveWithdrawals none none now (s.rows id) with
    | none => exact .inl (by simp [FenceSystem.quarantine, hq])
    | some row =>
      refine .inr ?_
      have hstamp : row.updatedAt = now := by rw [(updateWhere_eq_some.mp hq).2]
      simpa [FenceSystem.quarantine, hq, hstamp] using hnow

/-- The attempt has broadcast, or ended. -/
def MintTask.Past (t : MintTask) : Prop :=
  t = .done ∨ ∃ lease sig attempts, t = .poll lease sig attempts

/-- Written claims hold a spent lease, refused ones are over without a broadcast, and a
broadcast attempt is past its claim. -/
structure ClaimsSound (s : FenceSystem κ) : Prop where
  leased : ∀ i id lease sig owned, s.tasks i = some (id, .recheck lease sig (.ok (some owned))) →
    Leased s id owned
  refused : ∀ r ∈ s.refused, Leased s r.transactionId r.lease ∧
    s.tasks r.attempt = some (r.transactionId, .work .done) ∧ r.attempt ∉ s.sent
  sent : ∀ i ∈ s.sent, ∃ id t, s.tasks i = some (id, .work t) ∧ t.Past

section Claims

variable {s t : FenceSystem κ} {i id : ℕ}

/-- The attempt is still on its way to a claim or a send. -/
def AtWork (task : Option (ℕ × ClaimTask)) : Prop :=
  ∀ id t, task = some (id, .work t) → ¬ t.Past

theorem atWork_none : AtWork none := nofun

variable {answer : Except String (Option Stamp)} {sig : StoredSig}

theorem atWork_recheck : AtWork (some (id, .recheck lease sig answer)) := by
  intro id' t he
  simp at he

theorem atWork_work {m : MintTask} (h : ¬ m.Past) : AtWork (some (id, .work m)) := by
  intro id' t he
  simp only [Option.some.injEq, Prod.mk.injEq, ClaimTask.work.injEq] at he
  rw [← he.2]
  exact h

variable {task : ClaimTask}

section

variable (h : ClaimsSound s)
include h

/-- Nothing is recorded yet of an attempt at work. -/
theorem ClaimsSound.unrecorded (hat : AtWork (s.tasks i)) :
    (∀ r ∈ s.refused, r.attempt ≠ i) ∧ i ∉ s.sent := by
  constructor
  · rintro r hr rfl
    exact hat _ _ (h.refused r hr).2.1 (.inl rfl)
  · intro hsent
    obtain ⟨id', m, htask, hpast⟩ := h.sent i hsent
    exact hat id' m htask hpast

/-- Rows move and nothing else the claims depend on. -/
theorem ClaimsSound.moved (hm : RowsMoved s t) (htasks : t.tasks = s.tasks)
    (hsent : t.sent = s.sent) (hrefused : t.refused = s.refused) : ClaimsSound t := by
  refine ⟨fun i id lease sig owned hat => ?_, fun r hr => ?_, fun i hi => ?_⟩
  · rw [htasks] at hat
    exact (h.leased i id lease sig owned hat).moved hm
  · rw [hrefused] at hr
    rw [htasks, hsent]
    obtain ⟨hleased, hrest⟩ := h.refused r hr
    exact ⟨hleased.moved hm, hrest⟩
  · rw [hsent] at hi
    rw [htasks]
    exact h.sent i hi

/-- An attempt at work moves on without a broadcast. -/
theorem ClaimsSound.resume (hat : AtWork (s.tasks i))
    (hlease : ∀ lease sig owned, task = .recheck lease sig (.ok (some owned)) → Leased s id owned) :
    ClaimsSound (s.resume i id task) := by
  obtain ⟨hrefused, hsent⟩ := h.unrecorded hat
  refine ⟨fun j jd lease sig owned hj => ?_, fun r hr => ?_, fun j hj => ?_⟩
  · rcases of_update_eq_some hj with ⟨-, ⟨⟩⟩ | hj
    · exact hlease lease sig owned rfl
    · exact h.leased j jd lease sig owned hj
  · obtain ⟨hleased, hdone, hunsent⟩ := h.refused r hr
    refine ⟨hleased, ?_, hunsent⟩
    simp only [FenceSystem.resume, Function.update_of_ne (hrefused r hr)]
    exact hdone
  · have hji : j ≠ i := by
      rintro rfl
      exact hsent hj
    simp only [FenceSystem.resume, Function.update_of_ne hji]
    exact h.sent j hj

/-- A task that holds no acknowledged claim needs no lease. -/
theorem ClaimsSound.resume_work (hat : AtWork (s.tasks i)) (m : MintTask) :
    ClaimsSound (s.resume i id (.work m)) :=
  h.resume hat nofun

/-- A written claim is refused. -/
theorem ClaimsSound.refuse {owned : Stamp}
    (hat : s.tasks i = some (id, .recheck lease sig (.ok (some owned)))) :
    ClaimsSound { s.resume i id (.work .done) with refused := ⟨i, id, owned⟩ :: s.refused } := by
  have hwork : AtWork (s.tasks i) := by
    rw [hat]
    exact atWork_recheck
  have hbase : ClaimsSound (s.resume i id (.work .done)) := h.resume_work hwork .done
  refine ⟨hbase.leased, fun r hr => ?_, hbase.sent⟩
  rcases List.mem_cons.mp hr with rfl | hold
  · refine ⟨h.leased i id lease sig owned hat, ?_, (h.unrecorded hwork).2⟩
    simp [FenceSystem.resume]
  · exact hbase.refused r hold

/-- An owned claim is broadcast. -/
theorem ClaimsSound.send (hat : s.tasks i = some (id, .work (.send lease sig)))
    (answer : Except String Unit) :
    ClaimsSound
      ({ s with sent := i :: s.sent }.resume i id (.work (onMintSent lease sig answer))) := by
  have hwork : AtWork (s.tasks i) := by
    rw [hat]
    exact atWork_work (by rintro (hbad | ⟨_, _, _, hbad⟩) <;> cases hbad)
  have hbase : ClaimsSound (s.resume i id (.work (onMintSent lease sig answer))) :=
    h.resume_work hwork _
  refine ⟨hbase.leased, fun r hr => ?_, fun j hj => ?_⟩
  · obtain ⟨hleased, hdone, hunsent⟩ := hbase.refused r hr
    refine ⟨hleased, hdone, fun hmem => ?_⟩
    rcases List.mem_cons.mp hmem with he | hold
    · exact (h.unrecorded hwork).1 r hr he
    · exact hunsent hold
  · rcases List.mem_cons.mp hj with rfl | hold
    · refine ⟨id, onMintSent lease sig answer, by simp [FenceSystem.resume], ?_⟩
      cases answer with
      | ok _ => exact .inr ⟨lease, sig, 0, rfl⟩
      | error e => exact .inl rfl
    · exact hbase.sent j hold

/-- The process restarts. -/
theorem ClaimsSound.restarted (flag : Except String (Option HaltInfo)) :
    ClaimsSound (s.restarted flag) := by
  refine ⟨fun i id lease sig owned hat => ?_, fun r hr => ?_, fun i hi => ?_⟩
  · simp only [FenceSystem.restarted, Option.map_eq_some_iff] at hat
    obtain ⟨task, -, he⟩ := hat
    simp at he
  · obtain ⟨hleased, hdone, hunsent⟩ := h.refused r hr
    exact ⟨hleased, by simp [FenceSystem.restarted, hdone], hunsent⟩
  · obtain ⟨id, m, htask, -⟩ := h.sent i hi
    exact ⟨id, .done, by simp [FenceSystem.restarted, htask], .inl rfl⟩

end

end Claims

/-- Who is about to broadcast was owned in this process. -/
def SendingOwned (s : FenceSystem κ) : Prop :=
  ∀ i id lease sig, s.tasks i = some (id, .work (.send lease sig)) → .owned i ∈ s.marks

theorem SendingOwned.resume (h : SendingOwned s) {i id : ℕ}
    (htask : ∀ lease sig, task ≠ .work (.send lease sig)) : SendingOwned (s.resume i id task) := by
  intro j jd lease sig hj
  rcases of_update_eq_some hj with ⟨-, ⟨⟩⟩ | hj
  · exact absurd rfl (htask lease sig)
  · exact h j jd lease sig hj

theorem SendingOwned.mono (h : SendingOwned s) (htasks : t.tasks = s.tasks)
    (hmarks : s.marks ⊆ t.marks) : SendingOwned t := by
  intro i id lease sig hat
  rw [htasks] at hat
  exact hmarks (h i id lease sig hat)

/-- What is known of the halt, what the tick may still do, the fence with its marks, and the
claims. -/
structure FenceInv (s : FenceSystem κ) : Prop where
  aware : s.memory.Aware
  pending : ∀ record, .openFence record ∈ s.pending → record.Clean
  marks : MarksSound s.fence s.marks
  claims : ClaimsSound s
  sending : SendingOwned s

theorem FenceInv.of_fresh (h : s.Fresh) : FenceInv s := by
  refine ⟨?_, ?_, ?_, ⟨?_, ?_, ?_⟩, ?_⟩
  · obtain ⟨flag, -, he⟩ := h.memory
    rw [he]
    exact seeded_aware flag
  · simp [h.pending]
  · rw [h.fence, h.marks]
    exact .nil
  · simp [h.tasks]
  · simp [h.refused]
  · simp [h.sent]
  · intro i id lease sig hat
    simp [h.tasks] at hat

/-- A claim moves on, and the fence and the tick stay as they are. -/
theorem FenceInv.resume (h : FenceInv s) {i id : ℕ}
    (hat : AtWork (s.tasks i)) (htask : ∀ lease sig, task ≠ .work (.send lease sig))
    (hlease : ∀ lease sig owned, task = .recheck lease sig (.ok (some owned)) → Leased s id owned) :
    FenceInv (s.resume i id task) :=
  ⟨h.aware, h.pending, h.marks, h.claims.resume hat hlease, h.sending.resume htask⟩

/-- Rows move, and nothing else. -/
theorem FenceInv.moved (h : FenceInv s) (hm : RowsMoved s t)
    (hrest : t = { s with rows := t.rows, stamps := t.stamps, halt := t.halt }) : FenceInv t := by
  rw [hrest]
  have hm' : RowsMoved s { s with rows := t.rows, stamps := t.stamps, halt := t.halt } :=
    ⟨hm.stamps, hm.rows⟩
  exact ⟨h.aware, h.pending, h.marks, h.claims.moved hm' rfl rfl rfl, h.sending⟩

/-- The tick goes on to its next effect, which did not concern the fence. -/
theorem FenceInv.next (h : FenceInv s) {effect : TickEffect κ}
    {rest : List (TickEffect κ)} (hnext : s.pending = effect :: rest) (hm : RowsMoved s t)
    (hrest : t = { s with rows := t.rows, stamps := t.stamps, halt := t.halt }) :
    FenceInv { t with pending := rest } := by
  have ht := h.moved hm hrest
  have hpending : t.pending = s.pending := by rw [hrest]
  refine ⟨ht.aware, fun record hmem => ht.pending record ?_, ht.marks,
    ht.claims.moved (.of_eq rfl rfl) rfl rfl rfl, ht.sending⟩
  rw [hpending, hnext]
  exact List.mem_cons_of_mem _ hmem

/-- The second look at the fence. -/
theorem FenceInv.recheck (h : FenceInv s) {i id : ℕ}
    (hat : s.tasks i = some (id, .recheck lease sig answer)) :
    FenceInv (s.recheck i id lease sig answer) := by
  have hwork : AtWork (s.tasks i) := by
    rw [hat]
    exact atWork_recheck
  unfold FenceSystem.recheck
  split
  · next owned =>
    split
    · next hopen =>
      have hbase : ClaimsSound (s.resume i id
          (.work (onMintClaim lease sig s.fence.isOpen (.ok (some owned))))) :=
        h.claims.resume_work hwork _
      refine ⟨h.aware, h.pending, h.marks.own (by simpa [FenceState.isOpen] using hopen) i,
        hbase.moved (.of_eq rfl rfl) rfl rfl rfl, fun j jd lease' sig' hj => ?_⟩
      rcases of_update_eq_some hj with ⟨rfl, -⟩ | hj
      · exact List.mem_cons_self
      · exact List.mem_cons_of_mem _ (h.sending j jd lease' sig' hj)
    · next hclosed =>
      have htask : onMintClaim lease sig s.fence.isOpen (.ok (some owned)) = .done := by
        simp [onMintClaim, hclosed]
      rw [htask]
      exact ⟨h.aware, h.pending, h.marks, h.claims.refuse hat, h.sending.resume nofun⟩
  · next hanswer =>
    refine h.resume hwork (fun lease' sig' he => ?_) nofun
    cases answer with
    | error e => simp [onMintClaim] at he
    | ok a =>
      cases a with
      | none => simp [onMintClaim] at he
      | some owned => exact hanswer owned rfl

section Steps

variable [DecidableEq κ] [ToString κ] {toleranceBps : ℕ} {s t : FenceSystem κ} {e : FenceEvent κ}

/-- A task short of a poll is at work, and an acknowledged lease is the stamp of its commit. -/
theorem FenceStep.inv (hstep : FenceStep toleranceBps s e t) (h : FenceInv s) : FenceInv t := by
  have hwork : ∀ {i id m}, s.tasks i = some (id, .work m) → ¬ m.Past → AtWork (s.tasks i) := by
    intro i id m hat hm
    rw [hat]
    exact atWork_work hm
  cases hstep with
  | arrive hfree =>
    refine h.resume ?_ nofun nofun
    rw [hfree]
    exact atWork_none
  | @check i id lease sig hat =>
    refine h.resume (hwork hat (by simp [MintTask.Past])) (fun lease' sig' he => ?_) nofun
    unfold onFence at he
    split at he <;> simp at he
  | @claim i id lease sig now row answer hat hnow hcommit hack =>
    obtain ⟨hstatus, -, hrow⟩ := claim_row hcommit
    have hmoved : RowsMoved s (s.withRow id row now) :=
      rowsMoved_withRow hnow (.inr (by rw [hrow]))
    refine (h.moved hmoved rfl).resume (hwork hat (by simp [MintTask.Past])) nofun
      fun lease' sig' owned he => ?_
    obtain ⟨-, -, rfl⟩ := ClaimTask.recheck.inj he
    cases hack _ rfl
    refine ⟨List.mem_cons_self, fun _ => ?_⟩
    simp [FenceSystem.withRow, hrow, hstatus]
  | @claimRefused i id lease sig now answer hat hack =>
    refine h.resume (hwork hat (by simp [MintTask.Past])) nofun fun lease' sig' owned he => ?_
    obtain ⟨-, -, rfl⟩ := ClaimTask.recheck.inj he
    cases (hack _ rfl).1
  | recheck hat => exact h.recheck hat
  | @haltRead i id lease answer hat hread =>
    refine h.resume (hwork hat (by simp [MintTask.Past])) (fun lease' sig' he => ?_) nofun
    unfold onHaltRead at he
    split at he <;> simp at he
  | @requeue i id op now hat hnow =>
    exact (h.moved (rowsMoved_op hnow op none []) rfl).resume
      (hwork hat (by simp [MintTask.Past])) nofun nofun
  | @requeueFailed i id op now hat =>
    exact h.resume (hwork hat (by simp [MintTask.Past])) nofun nofun
  | @send i id lease sig answer hat =>
    refine ⟨h.aware, h.pending, h.marks, h.claims.send hat answer, ?_⟩
    have hnot : ∀ lease' sig', onMintSent lease sig answer ≠ .send lease' sig' := by
      intro lease' sig'
      cases answer <;> simp [onMintSent]
    have hresume : SendingOwned (s.resume i id (.work (onMintSent lease sig answer))) :=
      h.sending.resume fun lease' sig' he => hnot lease' sig' (ClaimTask.work.inj he)
    exact hresume.mono rfl (List.Subset.refl _)
  | @other id op now checkpoint observed hnow =>
    exact h.moved (rowsMoved_op hnow op checkpoint observed) rfl
  | @gc id => exact h.moved (rowsMoved_gc s id) rfl
  | @tick probe readings hidle hflag hprobe =>
    obtain ⟨haware, hopen⟩ := performReconciliationCheck_spec h.aware
      (show performReconciliationCheck toleranceBps probe s.memory readings = (_, _) from rfl)
    exact ⟨haware, hopen, h.marks, h.claims.moved (.of_eq rfl rfl) rfl rfl rfl, h.sending⟩
  | @trip rest now hnext =>
    refine ⟨h.aware, fun record hmem => h.pending record ?_, h.marks.trip,
      h.claims.moved (.of_eq rfl rfl) rfl rfl rfl, h.sending.mono rfl (List.subset_cons_self _ _)⟩
    rw [hnext]
    exact List.mem_cons_of_mem _ hmem
  | @page rest page now hnext => exact h.next hnext (.of_eq rfl rfl) rfl
  | @writeHalt rest kind reason write now hnext hanswer =>
    refine h.next hnext ?_ ?_ <;> cases write <;> first | exact .of_eq rfl rfl | rfl
  | @quarantine rest landed now hnext hnow =>
    refine h.next hnext (rowsMoved_quarantine hnow landed) ?_
    cases landed <;> rfl
  | @openFence rest record now hnext =>
    have hclean : record.Clean := h.pending record (by rw [hnext]; exact List.mem_cons_self)
    refine ⟨h.aware, fun record' hmem => h.pending record' ?_, h.marks.openFence hclean s.halt,
      h.claims.moved (.of_eq rfl rfl) rfl rfl rfl, h.sending.mono rfl ?_⟩
    · rw [hnext]
      exact List.mem_cons_of_mem _ hmem
    · simp only [FenceSystem.openFence]
      split
      · exact List.subset_cons_self _ _
      · exact List.Subset.refl _
  | setHalt => exact h.moved (.of_eq rfl rfl) rfl
  | restart hflag =>
    refine ⟨seeded_aware _, fun _ hmem => absurd hmem List.not_mem_nil, .nil,
      h.claims.restarted _, fun i id lease sig hat => ?_⟩
    simp only [FenceSystem.restarted, Option.map_eq_some_iff] at hat
    obtain ⟨task, -, he⟩ := hat
    simp at he

/-- Only a restart leaves `tripped`. -/
theorem FenceStep.tripped (hstep : FenceStep toleranceBps s e t) (htrip : s.fence = .tripped)
    (hlive : ∀ flag, e ≠ .restart flag) : t.fence = .tripped := by
  cases hstep with
  | @recheck i id lease sig answer hat =>
    unfold FenceSystem.recheck
    split
    · split
      · exact htrip
      · exact htrip
    · exact htrip
  | writeHalt hnext hanswer =>
    unfold FenceSystem.writeHalt
    split <;> exact htrip
  | quarantine hnext hnow =>
    unfold FenceSystem.quarantine
    split <;> exact htrip
  | openFence hnext =>
    simp only [FenceSystem.openFence, htrip]
    rfl
  | trip hnext => rfl
  | restart hflag => exact absurd rfl (hlive _)
  | _ => exact htrip

theorem run_tripped {l : List (FenceEvent κ)} (h : Run (FenceStep toleranceBps) s l t)
    (htrip : s.fence = .tripped) (hlive : ∀ e ∈ l, ∀ flag, e ≠ .restart flag) :
    t.fence = .tripped := by
  induction h with
  | nil => exact htrip
  | snoc _ hs ih =>
    refine hs.tripped (ih fun e he => hlive e (List.mem_append_left _ he)) ?_
    exact hlive _ (List.mem_append_right _ (List.mem_singleton_self _))

end Steps

/-- Who is about to broadcast was owned, every claim was owned after a clean tick had opened the
fence and before any trip, and a claim written and then refused is over and left its row to be
served again. -/
structure FenceSafe (s : FenceSystem κ) : Prop where
  sending : SendingOwned s
  owned : ∀ newer i older, s.marks = newer ++ .owned i :: older →
    OpenedBefore older ∧ .tripped ∉ older
  refused : ∀ r ∈ s.refused, r.attempt ∉ s.sent ∧
    ((s.rows r.transactionId).updatedAt = r.lease → Reservable (s.rows r.transactionId))

theorem FenceInv.safe (h : FenceInv s) : FenceSafe s := by
  refine ⟨h.sending, h.marks.owned, fun r hr => ?_⟩
  obtain ⟨hleased, -, hunsent⟩ := h.claims.refused r hr
  exact ⟨hunsent, fun hcarried => reservable_of_processing (hleased.2 hcarried)⟩

/-- The fence and the claims keep their promises, and a tripped fence stays tripped until the
process restarts. -/
theorem solvency_fence_safe [DecidableEq κ] [ToString κ] {toleranceBps : ℕ}
    {s₀ s : FenceSystem κ} {l : List (FenceEvent κ)} (hfresh : s₀.Fresh)
    (hrun : Run (FenceStep toleranceBps) s₀ l s) :
    FenceSafe s ∧ (.tripped ∈ s.marks → s.fence = .tripped) ∧
      ∀ later t, Run (FenceStep toleranceBps) s later t → s.fence = .tripped →
        (∀ e ∈ later, ∀ flag, e ≠ .restart flag) → t.fence = .tripped := by
  have hinv : FenceInv s :=
    hrun.stateInvariant (FenceInv.of_fresh hfresh) fun _ _ _ h hstep => hstep.inv h
  exact ⟨hinv.safe, hinv.marks.latched, fun later t hlater htrip hlive =>
    run_tripped hlater htrip hlive⟩

/-- A tick over no mints, with every other input read. -/
def quietReadings (flag : Except String (Option HaltInfo)) : TickReadings ℕ where
  webhookConfigured := false
  orphanDepositIds := .ok []
  orphansPaged := false
  haltFlag := flag
  mintUniverse := .ok ([], [])
  onChainBalances := .ok ⟨fun _ => none, fun _ => none, 5⟩
  channelAnchor := .ok 0
  channelSupply := fun _ => .error "no mint is asked for"
  inFlightEnvelope := .ok fun _ => none
  checkpointPolls := [.ok (some 5)]
  waitCancelled := false
  ledger := .ok []
  visit := id
  visit_perm := fun _ => .refl _
  haltWrites := []
  quarantined := false
  paged := fun _ => false
  outagePaged := false
  cancelled := false

/-- A deposit as the fetcher left it. -/
def fetchedDeposit : Row := { Row.new 1 .deposit 3 none 7 with status := .processing }

/-- One fetched deposit, and a process whose read of the flag was answered `flag`. -/
def fenceStart (halt : Option HaltInfo) (flag : Except String (Option HaltInfo)) :
    FenceSystem ℕ where
  rows := fun _ => fetchedDeposit
  stamps := [7]
  halt := halt
  fence := .closed
  memory := .seeded flag
  pending := []
  tasks := fun _ => none
  sent := []
  refused := []
  marks := []

theorem fenceStart_fresh {halt : Option HaltInfo}
    (hread : ∀ answer, flag = .ok answer → answer = halt) : (fenceStart halt flag).Fresh :=
  ⟨rfl, ⟨flag, hread, rfl⟩, rfl, fun _ => rfl, rfl, rfl, rfl⟩

theorem quiet_tick_opens (hcalm : flag.toOption.join = none) :
    ∃ record, (performReconciliationCheck 0 false (.seeded flag) (quietReadings flag)).2 =
      [.openFence record] := by
  match flag, hcalm with
  | .error e, _ => exact ⟨_, rfl⟩
  | .ok none, _ => exact ⟨_, rfl⟩

/-- Under an open fence and no halt a claim of the fetched deposit is owned. -/
theorem claim_owned {s₀ s : FenceSystem ℕ} {l : List (FenceEvent ℕ)}
    (hrun : Run (FenceStep 0) s₀ l s) (hopen : s.fence = .opened) (hhalt : s.halt = none)
    (hfree : s.tasks 0 = none) (hrow : s.rows 1 = fetchedDeposit) (hstamp : 8 ∉ s.stamps) :
    ∃ l' t, Run (FenceStep 0) s₀ l' t ∧ t.marks = .owned 0 :: s.marks := by
  let sig : StoredSig := ⟨⟨1⟩, 100, some 2⟩
  have h1 := hrun.snoc (@FenceStep.arrive ℕ _ _ 0 s 0 1 7 sig hfree)
  have h2 := h1.snoc (@FenceStep.check ℕ _ _ 0 _ 0 1 7 sig (by simp [FenceSystem.resume]))
  have hcommit : claimAndPersistSignature s.halt.isSome 7 sig 8 (s.rows 1) =
      some { fetchedDeposit with releaseJournal := [sig], updatedAt := 8 } := by
    rw [hhalt, hrow]
    rfl
  have h3 := h2.snoc (@FenceStep.claim ℕ _ _ 0 _ 0 1 7 sig 8 _ (.ok (some 8))
    (by simp [FenceSystem.resume, FenceState.isOpen, hopen, onFence]) hstamp hcommit
    (fun a ha => (Except.ok.inj ha).symm))
  have h4 := h3.snoc (@FenceStep.recheck ℕ _ _ 0 _ 0 1 7 sig (.ok (some 8))
    (by simp [FenceSystem.resume]))
  refine ⟨_, _, h4, ?_⟩
  simp [FenceSystem.recheck, FenceSystem.resume, FenceSystem.withRow, FenceState.isOpen, hopen]

/-- Where no read of the flag showed a halt, the quiet tick opens the fence, and a
claim is owned once the halt is cleared. -/
theorem owned_after_quiet_tick {halt : Option HaltInfo}
    (hread : ∀ answer, flag = .ok answer → answer = halt) (hcalm : flag.toOption.join = none) :
    ∃ l s record, Run (FenceStep 0) (fenceStart halt flag) l s ∧
      s.marks = [.owned 0, .opened record halt] := by
  obtain ⟨record, hopens⟩ := quiet_tick_opens hcalm
  have h1 := Run.nil.snoc (@FenceStep.tick ℕ _ _ 0 (fenceStart halt flag) false
    (quietReadings flag) rfl hread nofun)
  have h2 := h1.snoc (@FenceStep.openFence ℕ _ _ 0 _ [] record 0 hopens)
  have h3 := h2.snoc (@FenceStep.setHalt ℕ _ _ 0 _ none)
  have hstamp : 8 ∉ [7] := by decide
  obtain ⟨l, s, hrun, hmarks⟩ := claim_owned h3 rfl rfl rfl rfl hstamp
  exact ⟨l, s, record, hrun, hmarks⟩

/-- The fence opens for a process that read no halt, and the claim is owned. -/
theorem solvency_fence_safe_owned :
    ∃ (s₀ s : FenceSystem ℕ) (l : List (FenceEvent ℕ)), s₀.Fresh ∧ Run (FenceStep 0) s₀ l s ∧
      .owned 0 ∈ s.marks ∧ FenceSafe s := by
  have hread : ∀ answer, (.ok none : Except String (Option HaltInfo)) = .ok answer →
      answer = none := fun answer h => (Except.ok.inj h).symm
  obtain ⟨l, s, record, hrun, hmarks⟩ := owned_after_quiet_tick hread rfl
  refine ⟨_, s, l, fenceStart_fresh hread, hrun, ?_,
    (solvency_fence_safe (fenceStart_fresh hread) hrun).1⟩
  rw [hmarks]
  exact List.mem_cons_self

/-- The process fails to read the durable halt, at its start and in its first tick, which opens
the fence; once the halt is cleared a claim is owned. -/
theorem fence_opened_under_unread_halt :
    ∃ (s₀ s : FenceSystem ℕ) (l : List (FenceEvent ℕ)) (record : TickRecord ℕ), s₀.Fresh ∧
      s₀.halt = some ⟨"prior halt", true⟩ ∧ Run (FenceStep 0) s₀ l s ∧
      s.marks = [.owned 0, .opened record (some ⟨"prior halt", true⟩)] := by
  have hread : ∀ answer, (.error "connection reset" : Except String (Option HaltInfo)) =
      .ok answer → answer = some ⟨"prior halt", true⟩ := nofun
  obtain ⟨l, s, record, hrun, hmarks⟩ := owned_after_quiet_tick hread rfl
  exact ⟨_, s, l, record, fenceStart_fresh hread, rfl, hrun, hmarks⟩

end PrivateChannels.Operator
