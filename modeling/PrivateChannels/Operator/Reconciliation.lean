import PrivateChannels.Operator.ReleaseProof

/-!
# One reconciliation tick

The tick is a function of its readings, the answers of its writes among them, to its
effects in order. Its counters are natural numbers where the source has `u32`. Logs,
metrics and the health latch are left out.
-/

namespace PrivateChannels.Operator

/-- `HALT_CONFIRM_TICKS`. -/
def haltConfirmTicks : ℕ := 3

/-- `HALT_WRITE_ATTEMPTS`. -/
def haltWriteAttempts : ℕ := 3

/-- `INPUT_DARK_HALT_TICKS`. -/
def inputDarkHaltTicks : ℕ := 3

/-- `LIABILITY_DARK_ALERT_TICKS`. -/
def liabilityDarkAlertTicks : ℕ := 3

/-- `u64::saturating_add`. -/
def saturatingAdd (a b : ℕ) : ℕ := min (a + b) (2 ^ 64 - 1)

/-- Deposits less withdrawals. -/
inductive NetBalance
  | exact (value : ℕ)
  | negative
  | overflow
  deriving DecidableEq, Repr

def netToU64 (net : ℤ) : NetBalance :=
  if net < 0 then .negative
  else if net.toNat < 2 ^ 64 then .exact net.toNat
  else .overflow

/-- A negative net reads as 0, one above `u64::MAX` as `u64::MAX`. -/
def NetBalance.clamped : NetBalance → ℕ
  | .exact value => value
  | .negative => 0
  | .overflow => 2 ^ 64 - 1

theorem clamped_netToU64 (net : ℤ) : (netToU64 net).clamped = min net.toNat (2 ^ 64 - 1) := by
  unfold netToU64
  split
  · simp only [NetBalance.clamped]
    omega
  · split
    · simp only [NetBalance.clamped]
      omega
    · simp only [NetBalance.clamped]
      omega

/-- Deposits minus released withdrawals. -/
def ledgerLiability (totalDeposits totalWithdrawals : ℤ) : ℕ :=
  (netToU64 (totalDeposits - totalWithdrawals)).clamped

def envelopeToU64 (amount : ℤ) : ℕ := (netToU64 amount).clamped

/-- Supply beyond custody. -/
structure InsolvencyBreach where
  supplyGap : ℕ
  envelope : ℕ
  tolerance : ℕ
  deriving DecidableEq, Repr

/-- Supply beyond custody and envelope. -/
def evaluateInsolvency (custody supply envelope tolerance : ℕ) : Option InsolvencyBreach :=
  let supplyGap := supply - custody
  if supplyGap > saturatingAdd envelope tolerance then some ⟨supplyGap, envelope, tolerance⟩
  else none

/-- Liabilities beyond custody. -/
structure LiabilityBreach where
  gap : ℕ
  liabilities : ℕ
  tolerance : ℕ
  deriving DecidableEq, Repr

/-- Liabilities beyond custody. -/
def evaluateLiabilityShortfall (custody liabilities tolerance : ℕ) : Option LiabilityBreach :=
  let gap := liabilities - custody
  if gap > tolerance then some ⟨gap, liabilities, tolerance⟩ else none

def insolvencyToleranceRaw (custody toleranceBps : ℕ) : ℕ :=
  min (custody * toleranceBps / 10000) (2 ^ 64 - 1)

/-- The durable halt, as it is read back. -/
structure HaltInfo where
  reason : String
  insolvency : Bool
  deriving DecidableEq, Repr

/-- Why the pipelines are frozen. -/
inductive HaltKind
  | outage
  | insolvency
  deriving DecidableEq, Repr

/-- Consecutive breaches to a mint, one map per invariant, and what the current
incident has paged. -/
structure BreachCounters (κ : Type*) where
  supply : List (κ × ℕ)
  liability : List (κ × ℕ)
  announcedOutage : Bool
  announcedMints : List κ
  insolvencyHalted : Bool
  deriving DecidableEq, Repr

/-- What is kept from tick to tick. `known` is history: the last answer to a read of the halt
flag. -/
structure ReconciliationMemory (κ : Type*) where
  previouslyAlertedOrphans : Option (List ℕ)
  breachCounters : BreachCounters κ
  halted : Bool
  liabilityDarkTicks : ℕ
  inputDarkTicks : ℕ
  known : Option (Option HaltInfo)
  deriving DecidableEq, Repr

variable {κ : Type*}

def BreachCounters.default : BreachCounters κ := ⟨[], [], false, [], false⟩

/-- The start of a process: a failed read of the flag seeds "not halted". -/
def ReconciliationMemory.seeded (flag : Except String (Option HaltInfo)) : ReconciliationMemory κ :=
  let seeded := flag.toOption.join
  { previouslyAlertedOrphans := none
    breachCounters := { BreachCounters.default with insolvencyHalted := seeded.any (·.insolvency) }
    halted := seeded.isSome
    liabilityDarkTicks := 0
    inputDarkTicks := 0
    known := flag.toOption }

def BreachCounters.clearAnnounced (c : BreachCounters κ) : BreachCounters κ :=
  { c with announcedOutage := false, announcedMints := [] }

def BreachCounters.anyConfirmed (c : BreachCounters κ) : Bool :=
  (c.supply ++ c.liability).any fun entry => entry.2 ≥ haltConfirmTicks

/-- `one_more_tick_is_safe`: no extra tick can reach a threshold. -/
def oneMoreTickIsSafe (m : ReconciliationMemory κ) : Bool :=
  let streak := ((m.breachCounters.supply ++ m.breachCounters.liability).map (·.2)).max?.getD 0
  streak + 1 < haltConfirmTicks && m.inputDarkTicks + 1 < inputDarkHaltTicks &&
    m.liabilityDarkTicks + 1 < liabilityDarkAlertTicks

/-- The custody balances of a tick. -/
structure EscrowCustody (κ : Type*) where
  balances : κ → Option ℕ
  slots : κ → Option ℕ
  slot : ℕ

/-- The answer to one try at writing the halt. -/
inductive HaltWrite
  /-- Acknowledged; for an outage, whether it was written over what was there. -/
  | acknowledged (written : Bool)
  /-- It took effect and the answer was lost. -/
  | lost (reason : String)
  | failed (reason : String)
  deriving DecidableEq, Repr

/-- Everything one tick is answered. A `HashSet` is walked in the order of `visit`. -/
structure TickReadings (κ : Type*) where
  webhookConfigured : Bool
  orphanDepositIds : Except String (List ℕ)
  orphansPaged : Bool
  haltFlag : Except String (Option HaltInfo)
  /-- The resolved and the unresolved mints. -/
  mintUniverse : Except String (List κ × List κ)
  onChainBalances : Except String (EscrowCustody κ)
  channelAnchor : Except String ℕ
  /-- Supply with the slot it was answered at. -/
  channelSupply : κ → Except String (ℕ × ℕ)
  /-- In-flight amount and adjustment. -/
  inFlightEnvelope : Except String (κ → Option (ℤ × ℤ))
  /-- Polls of the escrow checkpoint until the wait ended. -/
  checkpointPolls : List (Except String (Option ℕ))
  waitCancelled : Bool
  /-- Deposits and withdrawals of each mint at its custody slot. -/
  ledger : Except String (List (κ × ℤ × ℤ))
  visit : List κ → List κ
  visit_perm : ∀ mints, (visit mints).Perm mints
  haltWrites : List HaltWrite
  quarantined : Bool
  paged : κ → Bool
  outagePaged : Bool
  cancelled : Bool

/-- Whether a tick read its inputs. -/
inductive TickInputs
  | complete (ledgerCovered : Bool)
  | missing (reason : String)
  deriving DecidableEq, Repr

/-- What a clean tick was judged by, when it came to open the fence. -/
structure TickRecord (κ : Type*) where
  readings : TickReadings κ
  result : Except String TickInputs
  memory : ReconciliationMemory κ

/-- A page to the webhook. -/
inductive Page (κ : Type*)
  | orphanDeposits (ids : List ℕ)
  | liabilityDark (ticks : ℕ)
  | inputsDark (ticks : ℕ) (reason : String)
  | balanceMismatch (mint : κ) (custody dbBalance : ℕ)
  | maskedBreach (mint : κ) (breach : InsolvencyBreach) (adjustment : ℕ)
  deriving DecidableEq, Repr

/-- What a tick does outside its own memory, in order. -/
inductive TickEffect (κ : Type*)
  | trip
  | page (page : Page κ)
  | writeHalt (kind : HaltKind) (reason : String) (write : HaltWrite)
  | quarantine (landed : Bool)
  | openFence (record : TickRecord κ)

/-- An alert goes out only where a webhook is configured. -/
def alert (readings : TickReadings κ) (page : Page κ) : List (TickEffect κ) :=
  if readings.webhookConfigured then [.page page] else []

/-- The tries at the halt write, until one is acknowledged; also the answers left. -/
def writeHalts (kind : HaltKind) (reason : String) :
    ℕ → List HaltWrite → Option HaltKind × List HaltWrite × List (TickEffect κ)
  | 0, writes => (none, writes, [])
  | _ + 1, [] => (none, [], [])
  | attempts + 1, write :: writes =>
    match write with
    | .acknowledged written =>
      let held := match kind with
        | .insolvency => HaltKind.insolvency
        | .outage => if written then .outage else .insolvency
      (some held, writes, [.writeHalt kind reason write])
    | .lost _ | .failed _ =>
      let rest := writeHalts kind reason attempts writes
      (rest.1, rest.2.1, .writeHalt kind reason write :: rest.2.2)

/-- `freeze_pipelines`; only an insolvency quarantines. -/
def freezePipelines (kind : HaltKind) (reason : String) (quarantined : Bool)
    (writes : List HaltWrite) : Option HaltKind × List HaltWrite × List (TickEffect κ) :=
  let written := writeHalts kind reason haltWriteAttempts writes
  (written.1, written.2.1,
    written.2.2 ++ if kind = .insolvency then [.quarantine quarantined] else [])

/-- The counters, the guard, the answers left for halt writes, the masked breaches and the
effects. -/
structure Evaluation (κ : Type*) where
  nextCounters : BreachCounters κ
  halted : Bool
  haltWrites : List HaltWrite
  masked : List (Page κ)
  effects : List (TickEffect κ)

variable [DecidableEq κ]

/-- `HashMap::insert`. -/
def insertStreak (mint : κ) (count : ℕ) (streaks : List (κ × ℕ)) : List (κ × ℕ) :=
  (mint, count) :: streaks.filter (·.1 ≠ mint)

/-- `trip_halt`: the fence first, then the writes, then the page. -/
def tripHalt (readings : TickReadings κ) (mint : κ) (custody dbBalance : ℕ) (reason : String)
    (e : Evaluation κ) : Evaluation κ :=
  let frozen := freezePipelines .insolvency reason readings.quarantined e.haltWrites
  let counters :=
    if mint ∈ e.nextCounters.announcedMints ∨ readings.paged mint = false then e.nextCounters
    else { e.nextCounters with announcedMints := mint :: e.nextCounters.announcedMints }
  let paged :=
    if mint ∈ e.nextCounters.announcedMints then []
    else alert readings (.balanceMismatch mint custody dbBalance)
  { nextCounters :=
      if frozen.1.isSome then { counters with insolvencyHalted := true } else counters
    halted := if frozen.1.isSome then true else e.halted
    haltWrites := frozen.2.1
    masked := e.masked
    effects := e.effects ++ .trip :: (frozen.2.2 ++ paged) }

section Arms

variable [ToString κ] (toleranceBps : ℕ) (readings : TickReadings κ) (custody : EscrowCustody κ)
  (previous : BreachCounters κ)

/-- A streak is carried over when the tick has no verdict on the mint. -/
def holdSupply (e : Evaluation κ) (mint : κ) : Evaluation κ :=
  match previous.supply.lookup mint with
  | none => e
  | some held =>
    { e with nextCounters :=
        { e.nextCounters with supply := insertStreak mint held e.nextCounters.supply } }

def holdLiability (e : Evaluation κ) (mint : κ) : Evaluation κ :=
  match previous.liability.lookup mint with
  | none => e
  | some held =>
    { e with nextCounters :=
        { e.nextCounters with liability := insertStreak mint held e.nextCounters.liability } }

/-- The supply arm for one mint. A breach only the adjustment explains holds the
streak. -/
def supplyArm (supply : List (κ × ℕ)) (envelope : κ → Option (ℤ × ℤ)) (e : Evaluation κ)
    (mint : κ) : Evaluation κ :=
  match supply.lookup mint with
  | none => holdSupply previous e mint
  | some s =>
    let c := (custody.balances mint).getD 0
    let env := ((envelope mint).map fun row => envelopeToU64 row.1).getD 0
    let adj := ((envelope mint).map fun row => envelopeToU64 row.2).getD 0
    let tolerance := insolvencyToleranceRaw c toleranceBps
    match evaluateInsolvency c s (saturatingAdd env adj) tolerance with
    | none =>
      match evaluateInsolvency c s env tolerance with
      | none => e
      | some breach =>
        holdSupply previous { e with masked := e.masked ++ [.maskedBreach mint breach adj] } mint
    | some breach =>
      let count := (previous.supply.lookup mint).getD 0 + 1
      let counted := { e with nextCounters :=
        { e.nextCounters with supply := insertStreak mint count e.nextCounters.supply } }
      if count < haltConfirmTicks ∨ e.nextCounters.insolvencyHalted = true then counted
      else
        let gap := breach.supplyGap
        let within := breach.tolerance
        tripHalt readings mint c (saturatingAdd c gap)
          (s!"reconciliation halt: mint {mint} custody {c} short of supply by {gap}, "
            ++ s!"envelope {env} (adjustment {adj}) tolerance {within} over {count} consecutive "
            ++ "finalized ticks") counted

/-- The liability arm for one mint; without a pinned ledger it holds. -/
def liabilityArm (liabilities : Option (κ → Option ℕ)) (e : Evaluation κ) (mint : κ) :
    Evaluation κ :=
  match liabilities with
  | none => holdLiability previous e mint
  | some liabilities =>
    let c := (custody.balances mint).getD 0
    let owed := (liabilities mint).getD 0
    let tolerance := insolvencyToleranceRaw c toleranceBps
    match evaluateLiabilityShortfall c owed tolerance with
    | none => e
    | some breach =>
      let count := (previous.liability.lookup mint).getD 0 + 1
      let counted := { e with nextCounters :=
        { e.nextCounters with liability := insertStreak mint count e.nextCounters.liability } }
      if count < haltConfirmTicks ∨ e.nextCounters.insolvencyHalted = true then counted
      else
        let liable := breach.liabilities
        let gap := breach.gap
        let within := breach.tolerance
        let slot := (custody.slots mint).getD custody.slot
        tripHalt readings mint c liable
          (s!"reconciliation halt: mint {mint} custody {c} short of ledger liabilities {liable} "
            ++ s!"by {gap}, tolerance {within} at slot {slot} over {count} consecutive finalized "
            ++ "ticks") counted

/-- `evaluate_and_maybe_halt`: the counters are rebuilt from nothing. -/
def evaluateAndMaybeHalt (mints : List κ) (supply : List (κ × ℕ)) (envelope : κ → Option (ℤ × ℤ))
    (liabilities : Option (κ → Option ℕ)) (halted : Bool) : Evaluation κ :=
  let start : Evaluation κ :=
    { nextCounters := { previous with supply := [], liability := [] }
      halted := halted
      haltWrites := readings.haltWrites
      masked := []
      effects := [] }
  let supplied :=
    mints.foldl (supplyArm toleranceBps readings custody previous supply envelope) start
  mints.foldl (liabilityArm toleranceBps readings custody previous liabilities) supplied

end Arms

omit [DecidableEq κ] in
/-- `check_orphan_deposit_rows`: each orphan pages once, and counts as seen only
after its page went out. -/
def checkOrphanDepositRows (readings : TickReadings κ) (m : ReconciliationMemory κ) :
    ReconciliationMemory κ × List (TickEffect κ) :=
  match readings.orphanDepositIds with
  | .error _ => (m, [])
  | .ok orphans =>
    match m.previouslyAlertedOrphans with
    | none =>
      if orphans.isEmpty then ({ m with previouslyAlertedOrphans := some [] }, [])
      else
        (if readings.orphansPaged then { m with previouslyAlertedOrphans := some orphans } else m,
          alert readings (.orphanDeposits orphans))
    | some seen =>
      let newOrphans := orphans.filter (· ∉ seen)
      if newOrphans.isEmpty then (m, [])
      else
        (if readings.orphansPaged then
            { m with previouslyAlertedOrphans := some (seen ++ newOrphans) }
          else m,
          alert readings (.orphanDeposits newOrphans))

/-- The re-sync of the guard with the durable flag. A read error leaves it as it is. -/
def syncHalted (m : ReconciliationMemory κ) (flag : Except String (Option HaltInfo)) :
    ReconciliationMemory κ :=
  match flag with
  | .error _ => m
  | .ok flag =>
    let counters :=
      if m.halted && flag.isNone then m.breachCounters.clearAnnounced else m.breachCounters
    { m with
      breachCounters := { counters with insolvencyHalted := flag.any (·.insolvency) }
      halted := flag.isSome
      known := some flag }

/-- Supplies read so far, and why one is missing. -/
structure SupplyReads (κ : Type*) where
  supply : List (κ × ℕ)
  missing : Option String

/-- One mint of `load_halt_inputs`: an answer behind the anchor is not used. -/
def readSupply [ToString κ] (readings : TickReadings κ) (anchor : ℕ) (acc : SupplyReads κ)
    (mint : κ) : SupplyReads κ :=
  match readings.channelSupply mint with
  | .ok (s, slot) =>
    if slot ≥ anchor then { acc with supply := insertStreak mint s acc.supply }
    else { acc with missing := some (s!"channel supply for mint {mint}: answered at slot {slot}, "
      ++ s!"behind the channel's block {anchor}") }
  | .error reason => { acc with missing := some s!"channel supply for mint {mint}: {reason}" }

/-- The supplies, and what is missing. -/
def loadHaltInputs [ToString κ] (readings : TickReadings κ) (mints : List κ) : SupplyReads κ :=
  if mints.isEmpty then ⟨[], none⟩
  else
    match readings.channelAnchor with
    | .error reason => ⟨[], some reason⟩
    | .ok anchor => (readings.visit mints).foldl (readSupply readings anchor) ⟨[], none⟩

/-- How the wait for the ledger ended. -/
inductive LedgerWait
  | covered
  | unknown
  | unreadable
  | cancelled
  deriving DecidableEq, Repr

/-- `wait_for_ledger` over its polls; after the last of them the wait timed out or
was cancelled. -/
def waitForLedger (slot : ℕ) (cancelled : Bool) :
    List (Except String (Option ℕ)) → Bool → LedgerWait
  | [], readOnce => if cancelled then .cancelled else if readOnce then .unknown else .unreadable
  | .ok (some committed) :: rest, _ =>
    if committed ≥ slot then .covered else waitForLedger slot cancelled rest true
  | .ok none :: _, _ => .unknown
  | .error _ :: rest, readOnce => waitForLedger slot cancelled rest readOnce

/-- `report_liability_arm_state`: every third dark tick in a row pages. -/
def reportLiabilityArmState (readings : TickReadings κ) (darkTicks : ℕ) : List (TickEffect κ) :=
  if darkTicks = 0 ∨ darkTicks % liabilityDarkAlertTicks ≠ 0 then []
  else alert readings (.liabilityDark darkTicks)

/-- What `check_invariants` hands back. -/
structure Checked (κ : Type*) where
  result : Except String TickInputs
  memory : ReconciliationMemory κ
  haltWrites : List HaltWrite
  effects : List (TickEffect κ)

/-- The mints unresolved this tick keep their streaks. -/
def carryUnresolved (previous next : BreachCounters κ) (unresolved : List κ) : BreachCounters κ :=
  unresolved.foldl (fun c mint =>
    { c with
      supply := match previous.supply.lookup mint with
        | some n => insertStreak mint n c.supply
        | none => c.supply
      liability := match previous.liability.lookup mint with
        | some n => insertStreak mint n c.liability
        | none => c.liability }) next

/-- The reasons a tick reports something missing, in the source's order. -/
def missingInput [ToString κ] (supplyMissing : Option String) (wait : LedgerWait)
    (unresolved : List κ) : Option String :=
  supplyMissing <|>
    (if wait = .unreadable then some "escrow checkpoint unreadable" else none) <|>
    (if unresolved.isEmpty then none
      else some s!"no AllowedMint read for unlisted mint(s) {unresolved}")

/-- `check_invariants` from the ledger wait on. A probe hands no masked breach on. -/
def checkLedger [ToString κ] (toleranceBps : ℕ) (probe : Bool) (m : ReconciliationMemory κ)
    (readings : TickReadings κ) (resolved unresolved : List κ) (custody : EscrowCustody κ)
    (envelope : κ → Option (ℤ × ℤ)) : Checked κ :=
  let wait := waitForLedger custody.slot readings.waitCancelled readings.checkpointPolls false
  if wait = .cancelled then ⟨.ok (.complete false), m, readings.haltWrites, []⟩
  else
    let m := { m with
      liabilityDarkTicks := if wait = .covered then 0 else m.liabilityDarkTicks + 1 }
    let reported := reportLiabilityArmState readings m.liabilityDarkTicks
    match readings.ledger with
    | .error e => ⟨.error e, m, readings.haltWrites, reported⟩
    | .ok ledger =>
      let supplies := loadHaltInputs readings resolved
      let mints := readings.visit
        ((resolved ++ ledger.map (·.1)).dedup.filter fun mint => mint ∉ unresolved)
      let liabilities : κ → Option ℕ := fun mint =>
        (ledger.lookup mint).map fun row => ledgerLiability row.1 row.2
      let evaluated := evaluateAndMaybeHalt toleranceBps readings custody m.breachCounters mints
        supplies.supply envelope (if wait = .covered then some liabilities else none) m.halted
      { result := match missingInput supplies.missing wait unresolved with
          | some reason => .ok (.missing reason)
          | none => .ok (.complete (wait = .covered))
        memory := { m with
          breachCounters := carryUnresolved m.breachCounters evaluated.nextCounters unresolved
          halted := evaluated.halted }
        haltWrites := evaluated.haltWrites
        effects := reported ++ evaluated.effects ++
          if probe then [] else evaluated.masked.flatMap (alert readings) }

/-- `check_invariants` once the orphans are reported. A failed read holds the counters. -/
def checkInputs [ToString κ] (toleranceBps : ℕ) (probe : Bool) (m : ReconciliationMemory κ)
    (readings : TickReadings κ) : Checked κ :=
  let m := syncHalted m readings.haltFlag
  match readings.mintUniverse with
  | .error e => ⟨.error e, m, readings.haltWrites, []⟩
  | .ok (resolved, unresolved) =>
    match readings.onChainBalances with
    | .error e => ⟨.error e, m, readings.haltWrites, []⟩
    | .ok custody =>
      match readings.inFlightEnvelope with
      | .error e => ⟨.ok (.missing s!"halt inputs unavailable: {e}"), m, readings.haltWrites, []⟩
      | .ok envelope =>
        checkLedger toleranceBps probe m readings resolved unresolved custody envelope

/-- `check_invariants`. -/
def checkInvariants [ToString κ] (toleranceBps : ℕ) (probe : Bool) (m : ReconciliationMemory κ)
    (readings : TickReadings κ) : Checked κ :=
  let reported := checkOrphanDepositRows readings m
  let checked := checkInputs toleranceBps probe reported.1 readings
  { checked with effects := reported.2 ++ checked.effects }

/-- Why a result counts as a dark tick. -/
def darkReason : Except String TickInputs → Option String
  | .ok (.complete _) => none
  | .ok (.missing reason) => some reason
  | .error e => some e

/-- `track_input_state`: the third dark tick in a row writes the outage halt. -/
def trackInputState (readings : TickReadings κ) (missing : Option String)
    (haltWrites : List HaltWrite) (m : ReconciliationMemory κ) :
    ReconciliationMemory κ × List (TickEffect κ) :=
  match missing with
  | none => ({ m with inputDarkTicks := 0 }, [])
  | some reason =>
    let dark := m.inputDarkTicks + 1
    let m := { m with inputDarkTicks := dark }
    if dark ≥ inputDarkHaltTicks ∧ m.halted = false then
      let haltReason := s!"reconciliation halt: required inputs unavailable for {dark} "
        ++ s!"consecutive ticks (last: {reason})"
      let frozen := freezePipelines .outage haltReason readings.quarantined haltWrites
      let counters := m.breachCounters
      let paged :=
        if frozen.1 = some .insolvency ∨ counters.announcedOutage = true then []
        else alert readings (.inputsDark dark haltReason)
      ({ m with
        halted := frozen.1.isSome
        breachCounters :=
          if frozen.1 = some .insolvency then { counters with insolvencyHalted := true }
          else if counters.announcedOutage = false ∧ readings.outagePaged then
            { counters with announcedOutage := true }
          else counters }, frozen.2.2 ++ paged)
    else (m, [])

/-- An incident whose flag never landed ends once nothing would trip it. -/
def endIncident (m : ReconciliationMemory κ) : ReconciliationMemory κ :=
  if m.halted = false ∧ m.inputDarkTicks < inputDarkHaltTicks ∧
      m.breachCounters.anyConfirmed = false then
    { m with breachCounters := m.breachCounters.clearAnnounced }
  else m

/-- Every input read, both arms run, no halt known and no breach even suspected. -/
def TickRecord.clean (record : TickRecord κ) : Bool :=
  record.result.toOption == some (.complete true) && !record.memory.halted &&
    record.memory.breachCounters.supply.isEmpty && record.memory.breachCounters.liability.isEmpty

/-- The memory it leaves, and its effects. A probe leaves every counter as it found it. -/
def performReconciliationCheck [ToString κ] (toleranceBps : ℕ) (probe : Bool)
    (m : ReconciliationMemory κ) (readings : TickReadings κ) :
    ReconciliationMemory κ × List (TickEffect κ) :=
  let checked := checkInvariants toleranceBps probe m readings
  if readings.cancelled || readings.waitCancelled then (checked.memory, checked.effects)
  else
    let tracked :=
      trackInputState readings (darkReason checked.result) checked.haltWrites checked.memory
    let ended := endIncident tracked.1
    let record : TickRecord κ := ⟨readings, checked.result, ended⟩
    let effects := checked.effects ++ tracked.2 ++ if record.clean then [.openFence record] else []
    if probe then
      ({ ended with
        breachCounters := m.breachCounters
        liabilityDarkTicks := m.liabilityDarkTicks
        inputDarkTicks := m.inputDarkTicks }, effects)
    else (ended, effects)

end PrivateChannels.Operator
