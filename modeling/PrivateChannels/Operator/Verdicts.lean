import PrivateChannels.Operator.SolvencyFenceSafety

/-!
# What a reconciliation pass counts

What a pass says of a mint is a verdict read off its readings. Each turn of the walks
writes its own mint's streak, and a halt is tried exactly on a confirmed breach under no
insolvency halt.
-/

namespace PrivateChannels.Operator

variable {κ : Type*} [DecidableEq κ] {m : ReconciliationMemory κ}

/-- What a pass says of a mint under one invariant. -/
inductive Verdict
  | breach
  | clean
  /-- Unread, masked, unresolved, unpinned or failed: no evidence either way. -/
  | held
  /-- The mint has left the universe. -/
  | left
  deriving DecidableEq, Repr

/-- Breaches since the last clean verdict, or since the mint left; newest first. -/
def streak (verdicts : List Verdict) : ℕ :=
  (verdicts.takeWhile fun v => v ≠ .clean ∧ v ≠ .left).count .breach

/-- What a pass evaluates. -/
structure PassInputs (κ : Type*) where
  resolved : List κ
  unresolved : List κ
  custody : EscrowCustody κ
  envelope : κ → Option (ℤ × ℤ)
  ledger : List (κ × ℤ × ℤ)

omit [DecidableEq κ] in
/-- How the wait for the ledger ends. -/
def TickReadings.ledgerWait (readings : TickReadings κ) (custody : EscrowCustody κ) : LedgerWait :=
  waitForLedger custody.slot readings.waitCancelled readings.checkpointPolls false

omit [DecidableEq κ] in
/-- The inputs of a pass that came to its evaluation. -/
def TickReadings.inputs (readings : TickReadings κ) : Option (PassInputs κ) :=
  match readings.mintUniverse, readings.onChainBalances, readings.inFlightEnvelope,
    readings.ledger with
  | .ok (resolved, unresolved), .ok custody, .ok envelope, .ok ledger =>
    if readings.ledgerWait custody = .cancelled then none
    else some ⟨resolved, unresolved, custody, envelope, ledger⟩
  | _, _, _, _ => none

/-- The supply of a listed mint, answered at or past the channel's anchor. -/
def TickReadings.freshSupply (readings : TickReadings κ) (resolved : List κ) (mint : κ) :
    Option ℕ :=
  match readings.channelAnchor, readings.channelSupply mint with
  | .ok anchor, .ok (s, slot) => if mint ∈ resolved ∧ anchor ≤ slot then some s else none
  | _, _ => none

/-- A mint's verdict, where `evaluated` judges a mint of the universe. -/
def TickReadings.verdict (readings : TickReadings κ) (mint : κ)
    (evaluated : PassInputs κ → Verdict) : Verdict :=
  match readings.inputs with
  | none => .held
  | some inputs =>
    if mint ∈ inputs.unresolved then .held
    else if mint ∉ inputs.resolved ∧ mint ∉ inputs.ledger.map (·.1) then .left
    else evaluated inputs

omit [DecidableEq κ] in
/-- Supply against custody: a breach that only the adjustment explains is masked. -/
def judgeSupply (toleranceBps : ℕ) (custody : EscrowCustody κ) (envelope : κ → Option (ℤ × ℤ))
    (mint : κ) : Option ℕ → Verdict
  | none => .held
  | some s =>
    let c := (custody.balances mint).getD 0
    let env := ((envelope mint).map fun row => envelopeToU64 row.1).getD 0
    let adj := ((envelope mint).map fun row => envelopeToU64 row.2).getD 0
    let tolerance := insolvencyToleranceRaw c toleranceBps
    if (evaluateInsolvency c s (saturatingAdd env adj) tolerance).isSome then .breach
    else if (evaluateInsolvency c s env tolerance).isSome then .held
    else .clean

omit [DecidableEq κ] in
/-- Ledger liabilities, where they could be pinned, against custody. -/
def judgeLiability (toleranceBps : ℕ) (custody : EscrowCustody κ) (mint : κ) :
    Option (κ → Option ℕ) → Verdict
  | none => .held
  | some liabilities =>
    let c := (custody.balances mint).getD 0
    let tolerance := insolvencyToleranceRaw c toleranceBps
    if (evaluateLiabilityShortfall c ((liabilities mint).getD 0) tolerance).isSome then .breach
    else .clean

/-- The liabilities of the ledger, once the checkpoint has reached the custody slot. -/
def TickReadings.pinned (readings : TickReadings κ) (inputs : PassInputs κ) :
    Option (κ → Option ℕ) :=
  if readings.ledgerWait inputs.custody = .covered then
    some fun mint => (inputs.ledger.lookup mint).map fun row => ledgerLiability row.1 row.2
  else none

/-- What a pass says of the supply. -/
def supplyVerdict (toleranceBps : ℕ) (readings : TickReadings κ) (mint : κ) : Verdict :=
  readings.verdict mint fun inputs =>
    judgeSupply toleranceBps inputs.custody inputs.envelope mint
      (readings.freshSupply inputs.resolved mint)

/-- What a pass says of the ledger. -/
def liabilityVerdict (toleranceBps : ℕ) (readings : TickReadings κ) (mint : κ) : Verdict :=
  readings.verdict mint fun inputs =>
    judgeLiability toleranceBps inputs.custody mint (readings.pinned inputs)

/-- The streak after one more verdict. -/
def Verdict.next (v : Verdict) (n : ℕ) : ℕ :=
  match v with
  | .breach => n + 1
  | .held => n
  | .clean | .left => 0

theorem streak_cons (v : Verdict) (verdicts : List Verdict) :
    streak (v :: verdicts) = v.next (streak verdicts) := by
  cases v <;> simp [streak, Verdict.next]

/-- The entry a verdict leaves in a map of streaks. -/
def Verdict.entry (v : Verdict) (previous : Option ℕ) : Option ℕ :=
  match v with
  | .breach => some (previous.getD 0 + 1)
  | .held => previous
  | .clean | .left => none

@[simp] theorem Verdict.getD_entry (v : Verdict) (previous : Option ℕ) :
    (v.entry previous).getD 0 = v.next (previous.getD 0) := by
  cases v <;> rfl

variable {mint : κ}

theorem lookup_filter_ne {key : κ} (hne : key ≠ mint) (streaks : List (κ × ℕ)) :
    (streaks.filter (·.1 ≠ mint)).lookup key = streaks.lookup key := by
  induction streaks with
  | nil => rfl
  | cons entry rest ih =>
    obtain ⟨other, n⟩ := entry
    by_cases hother : other = mint
    · subst hother
      rw [List.filter_cons_of_neg (by simp), ih, List.lookup_cons, beq_false_of_ne hne]
    · rw [List.filter_cons_of_pos (by simpa using hother), List.lookup_cons, List.lookup_cons, ih]

theorem lookup_insertStreak (mint key : κ) (n : ℕ) (streaks : List (κ × ℕ)) :
    (insertStreak mint n streaks).lookup key =
      if key = mint then some n else streaks.lookup key := by
  unfold insertStreak
  by_cases hkey : key = mint
  · simp [hkey]
  · rw [List.lookup_cons, beq_false_of_ne hkey, lookup_filter_ne hkey, if_neg hkey]

/-- What a turn leaves in a map: the entry of its own mint. -/
def WritesEntry (mint : κ) (entry : Option ℕ) (streaks streaks' : List (κ × ℕ)) : Prop :=
  ∀ key, streaks'.lookup key =
    if key = mint then entry.or (streaks.lookup mint) else streaks.lookup key

theorem writesEntry_none (mint : κ) (streaks : List (κ × ℕ)) :
    WritesEntry mint none streaks streaks := by
  intro key
  by_cases hkey : key = mint <;> simp [hkey]

theorem writesEntry_insertStreak (mint : κ) (n : ℕ) (streaks : List (κ × ℕ)) :
    WritesEntry mint (some n) streaks (insertStreak mint n streaks) := by
  intro key
  rw [lookup_insertStreak]
  by_cases hkey : key = mint <;> simp [hkey]

/-- A walk whose turn at a mint writes that mint's entry. -/
theorem foldl_entries {ε : Type*} (view : ε → List (κ × ℕ)) {turn : ε → κ → ε}
    (entry : κ → Option ℕ)
    (hturn : ∀ e mint, WritesEntry mint (entry mint) (view e) (view (turn e mint)))
    (mints : List κ) (e : ε) (mint : κ) :
    (view (mints.foldl turn e)).lookup mint =
      if mint ∈ mints then (entry mint).or ((view e).lookup mint) else (view e).lookup mint := by
  induction mints generalizing e with
  | nil => simp
  | cons first rest ih =>
    rw [List.foldl_cons, ih, hturn e first mint]
    by_cases hfirst : mint = first
    · subst hfirst
      cases entry mint <;> simp
    · simp [hfirst]

omit [DecidableEq κ] in
/-- A walk whose turns keep a part keeps it. -/
theorem foldl_keeps {ε α : Type*} (view : ε → α) {turn : ε → κ → ε}
    (hturn : ∀ e mint, view (turn e mint) = view e) (mints : List κ) (e : ε) :
    view (mints.foldl turn e) = view e := by
  induction mints generalizing e with
  | nil => rfl
  | cons first rest ih => rw [List.foldl_cons, ih, hturn]

section Arms

variable {toleranceBps : ℕ} {readings : TickReadings κ} {custody : EscrowCustody κ}
  {previous : BreachCounters κ}

@[simp] theorem tripHalt_supply (mint : κ) (c d : ℕ) (reason : String) (e : Evaluation κ) :
    (tripHalt readings mint c d reason e).nextCounters.supply = e.nextCounters.supply := by
  unfold tripHalt
  dsimp only
  split <;> split <;> rfl

@[simp] theorem tripHalt_liability (mint : κ) (c d : ℕ) (reason : String) (e : Evaluation κ) :
    (tripHalt readings mint c d reason e).nextCounters.liability = e.nextCounters.liability := by
  unfold tripHalt
  dsimp only
  split <;> split <;> rfl

theorem holdSupply_entry (e : Evaluation κ) (mint : κ) :
    WritesEntry mint (previous.supply.lookup mint) e.nextCounters.supply
      (holdSupply previous e mint).nextCounters.supply := by
  unfold holdSupply
  split
  · next hnone => exact hnone ▸ writesEntry_none mint _
  · next held hheld => exact hheld ▸ writesEntry_insertStreak mint held _

theorem holdLiability_entry (e : Evaluation κ) (mint : κ) :
    WritesEntry mint (previous.liability.lookup mint) e.nextCounters.liability
      (holdLiability previous e mint).nextCounters.liability := by
  unfold holdLiability
  split
  · next hnone => exact hnone ▸ writesEntry_none mint _
  · next held hheld => exact hheld ▸ writesEntry_insertStreak mint held _

/-- The mint's supply streak, one longer. -/
def countSupply (previous : BreachCounters κ) (e : Evaluation κ) (mint : κ) : Evaluation κ :=
  { e with nextCounters := { e.nextCounters with
      supply :=
        insertStreak mint ((previous.supply.lookup mint).getD 0 + 1) e.nextCounters.supply } }

def countLiability (previous : BreachCounters κ) (e : Evaluation κ) (mint : κ) : Evaluation κ :=
  { e with nextCounters := { e.nextCounters with
      liability :=
        insertStreak mint ((previous.liability.lookup mint).getD 0 + 1) e.nextCounters.liability } }

/-- The turns of an arm at a mint with streak `n`; a trip comes on top of a confirmed breach
under no insolvency halt. -/
inductive ArmTurn (readings : TickReadings κ) (mint : κ) (n : ℕ)
    (hold count : Evaluation κ → Evaluation κ) (e : Evaluation κ) : Verdict → Evaluation κ → Prop
  | clean : ArmTurn readings mint n hold count e .clean e
  | held (masked : List (Page κ)) :
      ArmTurn readings mint n hold count e .held (hold { e with masked := masked })
  | counted (hkeep : n + 1 < haltConfirmTicks ∨ e.nextCounters.insolvencyHalted = true) :
      ArmTurn readings mint n hold count e .breach (count e)
  | tripped (custody dbBalance : ℕ) (reason : String)
      (htrip : ¬(n + 1 < haltConfirmTicks ∨ e.nextCounters.insolvencyHalted = true)) :
      ArmTurn readings mint n hold count e .breach
        (tripHalt readings mint custody dbBalance reason (count e))

variable {e e' : Evaluation κ}

variable {count hold : Evaluation κ → Evaluation κ}

/-- A turn writes the entry its verdict asks for. -/
theorem ArmTurn.entry (view : Evaluation κ → List (κ × ℕ)) {held : Option ℕ} {v : Verdict}
    (hturn : ArmTurn readings mint (held.getD 0) hold count e v e')
    (hhold : ∀ masked, WritesEntry mint held (view e) (view (hold { e with masked := masked })))
    (hcount : WritesEntry mint (some (held.getD 0 + 1)) (view e) (view (count e)))
    (htrip : ∀ c d reason e, view (tripHalt readings mint c d reason e) = view e) :
    WritesEntry mint (v.entry held) (view e) (view e') := by
  cases hturn with
  | clean => exact writesEntry_none mint _
  | held masked => exact hhold masked
  | counted => exact hcount
  | tripped c d reason =>
    rw [htrip]
    exact hcount

/-- A turn keeps what neither its streak nor a trip touches. -/
theorem ArmTurn.keeps {α : Type*} (view : Evaluation κ → α) {n : ℕ} {v : Verdict}
    (hturn : ArmTurn readings mint n hold count e v e')
    (hhold : ∀ masked, view (hold { e with masked := masked }) = view e)
    (hcount : view (count e) = view e)
    (htrip : ∀ c d reason e, view (tripHalt readings mint c d reason e) = view e) :
    view e' = view e := by
  cases hturn with
  | clean => rfl
  | held masked => exact hhold masked
  | counted => exact hcount
  | tripped c d reason => rw [htrip, hcount]

section Turns

variable [ToString κ] (supply : List (κ × ℕ)) (envelope : κ → Option (ℤ × ℤ))
  (liabilities : Option (κ → Option ℕ)) (e : Evaluation κ) (mint : κ)

/-- One mint's turn of the supply arm. -/
theorem supplyArm_turn :
    ArmTurn readings mint ((previous.supply.lookup mint).getD 0)
      (fun e => holdSupply previous e mint) (fun e => countSupply previous e mint) e
      (judgeSupply toleranceBps custody envelope mint (supply.lookup mint))
      (supplyArm toleranceBps readings custody previous supply envelope e mint) := by
  unfold supplyArm judgeSupply
  cases supply.lookup mint with
  | none => exact .held e.masked
  | some s =>
    dsimp only
    generalize evaluateInsolvency _ s (saturatingAdd _ _) _ = wide
    generalize evaluateInsolvency _ s (Option.getD _ 0) _ = narrow
    cases wide with
    | none =>
      cases narrow with
      | none => exact .clean
      | some breach => exact .held _
    | some breach =>
      rw [Option.isSome_some, if_pos rfl]
      dsimp only
      split
      · next hkeep => exact .counted hkeep
      · next htrip => exact .tripped _ _ _ htrip

/-- One mint's turn of the liability arm. -/
theorem liabilityArm_turn :
    ArmTurn readings mint ((previous.liability.lookup mint).getD 0)
      (fun e => holdLiability previous e mint) (fun e => countLiability previous e mint) e
      (judgeLiability toleranceBps custody mint liabilities)
      (liabilityArm toleranceBps readings custody previous liabilities e mint) := by
  unfold liabilityArm judgeLiability
  cases liabilities with
  | none => exact .held e.masked
  | some liabilities =>
    dsimp only
    generalize evaluateLiabilityShortfall _ _ _ = shortfall
    cases shortfall with
    | none => exact .clean
    | some breach =>
      rw [Option.isSome_some, if_pos rfl]
      dsimp only
      split
      · next hkeep => exact .counted hkeep
      · next htrip => exact .tripped _ _ _ htrip

theorem supplyArm_entry :
    WritesEntry mint ((judgeSupply toleranceBps custody envelope mint (supply.lookup mint)).entry
        (previous.supply.lookup mint)) e.nextCounters.supply
      (supplyArm toleranceBps readings custody previous supply envelope e
        mint).nextCounters.supply :=
  (supplyArm_turn supply envelope e mint).entry (·.nextCounters.supply)
    (fun _ => holdSupply_entry _ mint) (writesEntry_insertStreak mint _ _)
    fun c d reason e => tripHalt_supply mint c d reason e

theorem liabilityArm_entry :
    WritesEntry mint ((judgeLiability toleranceBps custody mint liabilities).entry
        (previous.liability.lookup mint)) e.nextCounters.liability
      (liabilityArm toleranceBps readings custody previous liabilities e
        mint).nextCounters.liability :=
  (liabilityArm_turn liabilities e mint).entry (·.nextCounters.liability)
    (fun _ => holdLiability_entry _ mint) (writesEntry_insertStreak mint _ _)
    fun c d reason e => tripHalt_liability mint c d reason e

/-- The supply arm leaves the other invariant's streaks alone. -/
theorem supplyArm_liability :
    (supplyArm toleranceBps readings custody previous supply envelope e
      mint).nextCounters.liability = e.nextCounters.liability := by
  refine (supplyArm_turn supply envelope e mint).keeps (·.nextCounters.liability) (fun _ => ?_) rfl
    fun c d reason e => tripHalt_liability mint c d reason e
  unfold holdSupply
  split <;> rfl

theorem liabilityArm_supply :
    (liabilityArm toleranceBps readings custody previous liabilities e mint).nextCounters.supply =
      e.nextCounters.supply := by
  refine (liabilityArm_turn liabilities e mint).keeps (·.nextCounters.supply) (fun _ => ?_) rfl
    fun c d reason e => tripHalt_supply mint c d reason e
  unfold holdLiability
  split <;> rfl

end Turns

omit [DecidableEq κ] in
/-- Between two points of an evaluation a halt was tried exactly if `reach` held
under no insolvency halt. -/
structure Tried (reach : Prop) (e e' : Evaluation κ) : Prop where
  kept : .trip ∈ e.effects → .trip ∈ e'.effects
  tried : reach → e.nextCounters.insolvencyHalted = false → .trip ∈ e'.effects
  cause : .trip ∈ e'.effects →
    .trip ∈ e.effects ∨ reach ∧ e.nextCounters.insolvencyHalted = false
  silent : .trip ∉ e'.effects → e'.effects = e.effects ∧
    e'.nextCounters.insolvencyHalted = e.nextCounters.insolvencyHalted

omit [DecidableEq κ] in
/-- One evaluation after another. -/
theorem Tried.trans {reach reach' : Prop} {e'' : Evaluation κ} (h : Tried reach e e')
    (h' : Tried reach' e' e'') : Tried (reach ∨ reach') e e'' where
  kept hmem := h'.kept (h.kept hmem)
  tried hreach hguard := by
    by_cases hmid : .trip ∈ e'.effects
    · exact h'.kept hmid
    · rcases hreach with hreach | hreach
      · exact absurd (h.tried hreach hguard) hmid
      · exact h'.tried hreach (by rw [(h.silent hmid).2, hguard])
  cause hmem := by
    by_cases hmid : .trip ∈ e'.effects
    · exact (h.cause hmid).imp_right fun hc => ⟨.inl hc.1, hc.2⟩
    · rcases h'.cause hmem with hc | ⟨hreach, hguard⟩
      · exact absurd hc hmid
      · rw [(h.silent hmid).2] at hguard
        exact .inr ⟨.inr hreach, hguard⟩
  silent hnone := by
    obtain ⟨heffects', hguard'⟩ := h'.silent hnone
    obtain ⟨heffects, hguard⟩ := h.silent fun hmid => hnone (h'.kept hmid)
    exact ⟨heffects'.trans heffects, hguard'.trans hguard⟩

omit [DecidableEq κ] in
theorem foldl_tried {reach : κ → Prop} {turn : Evaluation κ → κ → Evaluation κ}
    (hturn : ∀ e mint, Tried (reach mint) e (turn e mint)) (mints : List κ) (e : Evaluation κ) :
    Tried (∃ mint ∈ mints, reach mint) e (mints.foldl turn e) := by
  induction mints generalizing e with
  | nil => exact ⟨id, by simp, .inl, fun _ => ⟨rfl, rfl⟩⟩
  | cons mint rest ih =>
    have h := (hturn e mint).trans (ih (turn e mint))
    simpa using h

/-- A turn tries a halt exactly on a breach that confirms the streak. -/
theorem ArmTurn.tried {n : ℕ} {v : Verdict} (hturn : ArmTurn readings mint n hold count e v e')
    (hhold : ∀ masked, (hold { e with masked := masked }).effects = e.effects ∧
      (hold { e with masked := masked }).nextCounters.insolvencyHalted =
        e.nextCounters.insolvencyHalted)
    (hcount : (count e).effects = e.effects ∧
      (count e).nextCounters.insolvencyHalted = e.nextCounters.insolvencyHalted) :
    Tried (v = .breach ∧ haltConfirmTicks ≤ n + 1) e e' := by
  have hquiet : ∀ e'' : Evaluation κ, e''.effects = e.effects →
      e''.nextCounters.insolvencyHalted = e.nextCounters.insolvencyHalted →
      ∀ reach : Prop, (reach → e.nextCounters.insolvencyHalted = true) → Tried reach e e'' := by
    intro e'' heffects hguard reach hreach
    refine ⟨fun h => heffects ▸ h, fun hr hd => ?_, fun h => .inl (heffects ▸ h),
      fun _ => ⟨heffects, hguard⟩⟩
    rw [hreach hr] at hd
    cases hd
  cases hturn with
  | clean => exact hquiet e rfl rfl _ nofun
  | held masked => exact hquiet _ (hhold masked).1 (hhold masked).2 _ nofun
  | counted hkeep =>
    exact hquiet _ hcount.1 hcount.2 _ fun hr => hkeep.resolve_left (Nat.not_lt.mpr hr.2)
  | tripped c d reason htrip =>
    have hmem : .trip ∈ (tripHalt readings mint c d reason (count e)).effects :=
      List.mem_append_right _ List.mem_cons_self
    refine ⟨fun _ => hmem, fun _ _ => hmem, fun _ => .inr ⟨⟨rfl, ?_⟩, ?_⟩, fun hnone =>
      absurd hmem hnone⟩
    · exact Nat.not_lt.mp fun hlt => htrip (.inl hlt)
    · exact Bool.eq_false_iff.mpr fun hd => htrip (.inr hd)

section

variable [ToString κ] {mints : List κ} {supply : List (κ × ℕ)} {envelope : κ → Option (ℤ × ℤ)}
  {liabilities : Option (κ → Option ℕ)} {halted : Bool}
  (h : evaluateAndMaybeHalt toleranceBps readings custody previous mints supply envelope
    liabilities halted = e)
include h

/-- The streaks an evaluation leaves, mint by mint. -/
theorem evaluateAndMaybeHalt_entries (mint : κ) :
    e.nextCounters.supply.lookup mint =
        (if mint ∈ mints then
          (judgeSupply toleranceBps custody envelope mint (supply.lookup mint)).entry
            (previous.supply.lookup mint)
        else none) ∧
      e.nextCounters.liability.lookup mint =
        if mint ∈ mints then
          (judgeLiability toleranceBps custody mint liabilities).entry
            (previous.liability.lookup mint)
        else none := by
  subst h
  constructor
  · refine (congrArg (List.lookup mint) (foldl_keeps (fun e : Evaluation κ =>
      e.nextCounters.supply) (liabilityArm_supply liabilities) mints _)).trans ?_
    refine (foldl_entries (fun e : Evaluation κ => e.nextCounters.supply) _
      (supplyArm_entry supply envelope) mints _ mint).trans ?_
    simp
  · refine (foldl_entries (fun e : Evaluation κ => e.nextCounters.liability) _
      (liabilityArm_entry liabilities) mints _ mint).trans ?_
    rw [foldl_keeps (fun e : Evaluation κ => e.nextCounters.liability)
      (supplyArm_liability supply envelope) mints]
    simp

/-- A halt is tried exactly when some streak is confirmed under no insolvency halt. -/
theorem evaluateAndMaybeHalt_tried :
    (.trip ∈ e.effects ↔ previous.insolvencyHalted = false ∧ ∃ mint ∈ mints,
      (judgeSupply toleranceBps custody envelope mint (supply.lookup mint) = .breach ∧
          haltConfirmTicks ≤ (previous.supply.lookup mint).getD 0 + 1) ∨
        judgeLiability toleranceBps custody mint liabilities = .breach ∧
          haltConfirmTicks ≤ (previous.liability.lookup mint).getD 0 + 1) ∧
      (.trip ∉ e.effects → e.effects = []) := by
  subst h
  have hsupply : ∀ e mint, Tried
      (judgeSupply toleranceBps custody envelope mint (supply.lookup mint) = .breach ∧
        haltConfirmTicks ≤ (previous.supply.lookup mint).getD 0 + 1) e
      (supplyArm toleranceBps readings custody previous supply envelope e mint) := by
    refine fun e mint => (supplyArm_turn supply envelope e mint).tried (fun masked => ?_) ⟨rfl, rfl⟩
    unfold holdSupply
    split <;> exact ⟨rfl, rfl⟩
  have hliability : ∀ e mint, Tried
      (judgeLiability toleranceBps custody mint liabilities = .breach ∧
        haltConfirmTicks ≤ (previous.liability.lookup mint).getD 0 + 1) e
      (liabilityArm toleranceBps readings custody previous liabilities e mint) := by
    refine fun e mint => (liabilityArm_turn liabilities e mint).tried (fun masked => ?_) ⟨rfl, rfl⟩
    unfold holdLiability
    split <;> exact ⟨rfl, rfl⟩
  have hall := (foldl_tried hsupply mints ⟨{ previous with supply := [], liability := [] }, halted,
    readings.haltWrites, [], []⟩).trans (foldl_tried hliability mints _)
  refine ⟨⟨fun hmem => ?_, fun ⟨hguard, mint, hmint, hreach⟩ => ?_⟩, fun hnone =>
    (hall.silent hnone).1⟩
  · rcases hall.cause hmem with hstart | ⟨⟨mint, hmint, hreach⟩ | ⟨mint, hmint, hreach⟩, hguard⟩
    · exact absurd hstart List.not_mem_nil
    · exact ⟨hguard, mint, hmint, .inl hreach⟩
    · exact ⟨hguard, mint, hmint, .inr hreach⟩
  · refine hall.tried ?_ hguard
    exact hreach.imp (fun h => ⟨mint, hmint, h⟩) fun h => ⟨mint, hmint, h⟩

end

/-- The supplies that are fresh enough. -/
theorem loadHaltInputs_lookup [ToString κ] (resolved : List κ) (mint : κ) :
    (loadHaltInputs readings resolved).supply.lookup mint = readings.freshSupply resolved mint := by
  unfold loadHaltInputs TickReadings.freshSupply
  split
  · next hempty =>
    rw [List.isEmpty_iff.mp hempty]
    cases readings.channelAnchor with
    | error e => rfl
    | ok anchor =>
      cases readings.channelSupply mint with
      | error e => rfl
      | ok answer => simp
  · cases readings.channelAnchor with
    | error e => rfl
    | ok anchor =>
      have hturn : ∀ acc mint, WritesEntry mint
          ((readings.channelSupply mint).toOption.bind fun r =>
            if anchor ≤ r.2 then some r.1 else none)
          acc.supply (readSupply readings anchor acc mint).supply := by
        intro acc mint
        unfold readSupply
        cases readings.channelSupply mint with
        | error e => exact writesEntry_none mint _
        | ok answer =>
          dsimp only [Except.toOption, Option.bind_some]
          split
          · exact writesEntry_insertStreak mint _ _
          · exact writesEntry_none mint _
      refine (foldl_entries (fun acc : SupplyReads κ => acc.supply) _ hturn
        (readings.visit resolved) _ mint).trans ?_
      have hvisit : mint ∈ readings.visit resolved ↔ mint ∈ resolved :=
        (readings.visit_perm resolved).mem_iff
      by_cases hmem : mint ∈ resolved
      · cases readings.channelSupply mint <;> simp [hvisit, hmem, Except.toOption]
      · cases readings.channelSupply mint <;> simp [hvisit, hmem]

/-- An unresolved mint keeps its streaks. -/
theorem carryUnresolved_entries (next : BreachCounters κ) (unresolved : List κ) (mint : κ) :
    (carryUnresolved previous next unresolved).supply.lookup mint =
        (if mint ∈ unresolved then (previous.supply.lookup mint).or (next.supply.lookup mint)
        else next.supply.lookup mint) ∧
      (carryUnresolved previous next unresolved).liability.lookup mint =
        if mint ∈ unresolved then
          (previous.liability.lookup mint).or (next.liability.lookup mint)
        else next.liability.lookup mint := by
  constructor
  · refine foldl_entries (fun c : BreachCounters κ => c.supply)
      (fun mint => previous.supply.lookup mint) ?_ unresolved next mint
    intro c mint
    cases previous.supply.lookup mint with
    | none => exact writesEntry_none mint _
    | some n => exact writesEntry_insertStreak mint n _
  · refine foldl_entries (fun c : BreachCounters κ => c.liability)
      (fun mint => previous.liability.lookup mint) ?_ unresolved next mint
    intro c mint
    cases previous.liability.lookup mint with
    | none => exact writesEntry_none mint _
    | some n => exact writesEntry_insertStreak mint n _

/-- The mints an evaluation visits, in its order. -/
def TickReadings.walk (readings : TickReadings κ) (inputs : PassInputs κ) : List κ :=
  readings.visit ((inputs.resolved ++ inputs.ledger.map (·.1)).dedup.filter
    fun mint => mint ∉ inputs.unresolved)

theorem mem_walk (inputs : PassInputs κ) (mint : κ) :
    mint ∈ readings.walk inputs ↔
      (mint ∈ inputs.resolved ∨ mint ∈ inputs.ledger.map (·.1)) ∧ mint ∉ inputs.unresolved := by
  unfold TickReadings.walk
  rw [(readings.visit_perm _).mem_iff, List.mem_filter, List.mem_dedup, List.mem_append]
  simp

variable {inputs : PassInputs κ}

/-- The verdict on a mint, by the walk it is or is not part of. -/
theorem verdict_eq (hinputs : readings.inputs = some inputs) (mint : κ)
    (evaluated : PassInputs κ → Verdict) :
    readings.verdict mint evaluated =
      if mint ∈ inputs.unresolved then .held
      else if mint ∈ readings.walk inputs then evaluated inputs
      else .left := by
  unfold TickReadings.verdict
  rw [hinputs]
  simp only [mem_walk]
  by_cases hun : mint ∈ inputs.unresolved
  · rw [if_pos hun, if_pos hun]
  · by_cases hin : mint ∈ inputs.resolved ∨ mint ∈ inputs.ledger.map (·.1)
    · rw [if_neg hun, if_neg hun, if_neg (by tauto), if_pos ⟨hin, hun⟩]
    · rw [if_neg hun, if_neg hun, if_pos (by tauto), if_neg (by tauto)]

theorem verdict_of_inputs_none (hinputs : readings.inputs = none) (mint : κ)
    (evaluated : PassInputs κ → Verdict) : readings.verdict mint evaluated = .held := by
  unfold TickReadings.verdict
  rw [hinputs]

/-- Some mint's counter reaches the confirmation count by a breach of this pass. -/
def ConfirmedFrom (toleranceBps : ℕ) (readings : TickReadings κ) (counters : BreachCounters κ) :
    Prop :=
  ∃ mint, (supplyVerdict toleranceBps readings mint = .breach ∧
      haltConfirmTicks ≤ (counters.supply.lookup mint).getD 0 + 1) ∨
    liabilityVerdict toleranceBps readings mint = .breach ∧
      haltConfirmTicks ≤ (counters.liability.lookup mint).getD 0 + 1

/-- What a pass does to the streaks, and when it tries a halt. -/
structure Counts (toleranceBps : ℕ) (readings : TickReadings κ)
    (counters counters' : BreachCounters κ)
    (effects : List (TickEffect κ)) : Prop where
  supply : ∀ mint, (counters'.supply.lookup mint).getD 0 =
    (supplyVerdict toleranceBps readings mint).next ((counters.supply.lookup mint).getD 0)
  liability : ∀ mint, (counters'.liability.lookup mint).getD 0 =
    (liabilityVerdict toleranceBps readings mint).next ((counters.liability.lookup mint).getD 0)
  tried : .trip ∈ effects ↔
    counters.insolvencyHalted = false ∧ ConfirmedFrom toleranceBps readings counters

variable {effects : List (TickEffect κ)}

/-- A pass that evaluated nothing holds every streak. -/
theorem Counts.of_unread (hinputs : readings.inputs = none) (counters : BreachCounters κ)
    (hnone : .trip ∉ effects) : Counts toleranceBps readings counters counters effects := by
  have hsupply (mint : κ) : supplyVerdict toleranceBps readings mint = .held :=
    verdict_of_inputs_none hinputs mint _
  have hliability (mint : κ) : liabilityVerdict toleranceBps readings mint = .held :=
    verdict_of_inputs_none hinputs mint _
  refine ⟨fun mint => ?_, fun mint => ?_, fun hmem => absurd hmem hnone, fun ⟨_, mint, hc⟩ => ?_⟩
  · rw [hsupply]
    rfl
  · rw [hliability]
    rfl
  · rw [hsupply, hliability] at hc
    simp at hc

/-- A streak after a walk and the carrying over is the one its verdict leaves. -/
theorem getD_carried (hinputs : readings.inputs = some inputs) (mint : κ)
    (evaluated : PassInputs κ → Verdict) {previous walked carried : Option ℕ}
    (hwalked : walked =
      if mint ∈ readings.walk inputs then (evaluated inputs).entry previous else none)
    (hcarried : carried = if mint ∈ inputs.unresolved then previous.or walked else walked) :
    carried.getD 0 = (readings.verdict mint evaluated).next (previous.getD 0) := by
  rw [verdict_eq hinputs, hcarried, hwalked]
  by_cases hun : mint ∈ inputs.unresolved
  · rw [if_pos hun, if_pos hun, if_neg (by rw [mem_walk]; tauto), Option.or_none]
    rfl
  · rw [if_neg hun, if_neg hun]
    split
    · exact Verdict.getD_entry _ _
    · rfl

/-- The evaluation of a pass that read its inputs. -/
theorem Counts.of_read [ToString κ] (previous : BreachCounters κ)
    (hinputs : readings.inputs = some inputs) (halted : Bool)
    (h : evaluateAndMaybeHalt toleranceBps readings inputs.custody previous (readings.walk inputs)
      (loadHaltInputs readings inputs.resolved).supply inputs.envelope (readings.pinned inputs)
      halted = e) :
    Counts toleranceBps readings previous
        (carryUnresolved previous e.nextCounters inputs.unresolved) e.effects ∧
      (.trip ∉ e.effects → e.effects = []) := by
  have hentries := evaluateAndMaybeHalt_entries h
  obtain ⟨htried, hsilent⟩ := evaluateAndMaybeHalt_tried h
  simp only [loadHaltInputs_lookup] at hentries htried
  have hbreach (mint : κ) (evaluated : PassInputs κ → Verdict) :
      readings.verdict mint evaluated = .breach ↔
        mint ∈ readings.walk inputs ∧ evaluated inputs = .breach := by
    rw [verdict_eq hinputs]
    by_cases hun : mint ∈ inputs.unresolved
    · simp [mem_walk, hun]
    · rw [if_neg hun]
      split <;> simp_all
  refine ⟨⟨fun mint => ?_, fun mint => ?_, htried.trans (and_congr_right' ?_)⟩, hsilent⟩
  · exact getD_carried hinputs mint _ (hentries mint).1
      (carryUnresolved_entries e.nextCounters inputs.unresolved mint).1
  · exact getD_carried hinputs mint _ (hentries mint).2
      (carryUnresolved_entries e.nextCounters inputs.unresolved mint).2
  · unfold ConfirmedFrom supplyVerdict liabilityVerdict
    simp only [hbreach, and_assoc, ← and_or_left]

omit [DecidableEq κ] in
/-- Short of the third dark tick nothing is reported. -/
theorem reportLiabilityArmState_eq_nil {darkTicks : ℕ} (h : darkTicks < liabilityDarkAlertTicks) :
    reportLiabilityArmState readings darkTicks = [] := by
  unfold reportLiabilityArmState
  rw [if_pos]
  rw [Nat.mod_eq_of_lt h]
  exact em (darkTicks = 0)

/-- The part of a pass that evaluates: its streaks and its attempts, and how quiet
a probe is. -/
structure Evaluates (toleranceBps : ℕ) (readings : TickReadings κ) (probe : Bool)
    (m : ReconciliationMemory κ) (checked : Checked κ) : Prop where
  counts : Counts toleranceBps readings m.breachCounters checked.memory.breachCounters
    checked.effects
  quiet : probe = true → m.liabilityDarkTicks + 1 < liabilityDarkAlertTicks →
    .trip ∉ checked.effects → checked.effects = []
  inputDarkTicks : checked.memory.inputDarkTicks = m.inputDarkTicks

variable {checked : Checked κ}

/-- A ledger that was read is evaluated. -/
theorem checkLedger_evaluates [ToString κ] {probe : Bool} {resolved unresolved : List κ}
    {envelope : κ → Option (ℤ × ℤ)} (huniverse : readings.mintUniverse = .ok (resolved, unresolved))
    (hcustody : readings.onChainBalances = .ok custody)
    (henvelope : readings.inFlightEnvelope = .ok envelope)
    (h : checkLedger toleranceBps probe m readings resolved unresolved custody envelope = checked) :
    Evaluates toleranceBps readings probe m checked := by
  have hdark (covered : Prop) [Decidable covered] (hle : m.liabilityDarkTicks + 1 <
      liabilityDarkAlertTicks) :
      reportLiabilityArmState readings (if covered then 0 else m.liabilityDarkTicks + 1) = [] := by
    apply reportLiabilityArmState_eq_nil
    split
    · decide
    · exact hle
  unfold checkLedger at h
  dsimp only at h
  split at h
  · next hwait =>
    subst h
    refine ⟨.of_unread ?_ _ List.not_mem_nil, fun _ _ _ => rfl, rfl⟩
    unfold TickReadings.inputs
    rw [huniverse, hcustody, henvelope]
    cases readings.ledger with
    | error e => rfl
    | ok ledger => exact if_pos hwait
  · next hwait =>
    split at h
    · next e hledger =>
      subst h
      refine ⟨.of_unread ?_ _ (onlyPages_report _ _).no_trip, fun _ hle _ => hdark _ hle, rfl⟩
      unfold TickReadings.inputs
      rw [huniverse, hcustody, henvelope, hledger]
    · next ledger hledger =>
      have hinputs : readings.inputs = some ⟨resolved, unresolved, custody, envelope, ledger⟩ := by
        unfold TickReadings.inputs
        rw [huniverse, hcustody, henvelope, hledger]
        exact if_neg hwait
      subst h
      obtain ⟨hcounts, hsilent⟩ := Counts.of_read m.breachCounters hinputs m.halted rfl
      refine ⟨⟨hcounts.supply, hcounts.liability, Iff.trans ?_ hcounts.tried⟩, ?_, rfl⟩
      · refine ⟨fun hmem => ?_, fun hmem => List.mem_append_left _ (List.mem_append_right _ hmem)⟩
        rcases List.mem_append.mp hmem with hmem | hmem
        · exact (List.mem_append.mp hmem).resolve_left (onlyPages_report _ _).no_trip
        · exact absurd hmem (onlyPages_alerts _ _).unless.no_trip
      · intro hprobe hle hnone
        have heval := hsilent fun hmem =>
          hnone (List.mem_append_left _ (List.mem_append_right _ hmem))
        rw [if_pos hprobe, hdark _ hle]
        rw [List.nil_append, List.append_nil]
        exact heval

/-- A pass evaluates what it read. -/
theorem checkInputs_evaluates [ToString κ] {probe : Bool}
    (h : checkInputs toleranceBps probe m readings = checked) :
    Evaluates toleranceBps readings probe (syncHalted m readings.haltFlag) checked := by
  have hunread (result : Except String TickInputs) (hinputs : readings.inputs = none) :
      Evaluates toleranceBps readings probe (syncHalted m readings.haltFlag)
        ⟨result, syncHalted m readings.haltFlag, readings.haltWrites, []⟩ :=
    ⟨.of_unread hinputs _ List.not_mem_nil, fun _ _ _ => rfl, rfl⟩
  unfold checkInputs at h
  split at h
  · next e huniverse =>
    subst h
    refine hunread _ ?_
    unfold TickReadings.inputs
    rw [huniverse]
  next resolved unresolved huniverse =>
  split at h
  · next e hcustody =>
    subst h
    refine hunread _ ?_
    unfold TickReadings.inputs
    rw [huniverse, hcustody]
  next custody hcustody =>
  split at h
  · next e henvelope =>
    subst h
    refine hunread _ ?_
    unfold TickReadings.inputs
    rw [huniverse, hcustody, henvelope]
  next envelope henvelope => exact checkLedger_evaluates huniverse hcustody henvelope h

omit [DecidableEq κ] in
/-- Counting dark ticks tries no insolvency halt and leaves the streaks alone. -/
theorem trackInputState_streaks (readings : TickReadings κ) (missing : Option String)
    (haltWrites : List HaltWrite)
    (m : ReconciliationMemory κ) :
    .trip ∉ (trackInputState readings missing haltWrites m).2 ∧
      (trackInputState readings missing haltWrites m).1.breachCounters.supply =
        m.breachCounters.supply ∧
      (trackInputState readings missing haltWrites m).1.breachCounters.liability =
        m.breachCounters.liability := by
  unfold trackInputState
  split
  · exact ⟨List.not_mem_nil, rfl, rfl⟩
  · dsimp only
    split
    · refine ⟨fun hmem => ?_, ?_, ?_⟩
      · rcases List.mem_append.mp hmem with hwrites | hpage
        · rcases List.mem_append.mp hwrites with hwrites | hquarantine
          · obtain ⟨write, he⟩ := mem_writeHalts hwrites
            cases he
          · simp at hquarantine
        · exact (onlyPages_alert _ _).unless.no_trip hpage
      · split
        · rfl
        · split <;> rfl
      · split
        · rfl
        · split <;> rfl
    · exact ⟨List.not_mem_nil, rfl, rfl⟩

omit [DecidableEq κ] in
theorem endIncident_streaks (m : ReconciliationMemory κ) :
    (endIncident m).breachCounters.supply = m.breachCounters.supply ∧
      (endIncident m).breachCounters.liability = m.breachCounters.liability := by
  unfold endIncident
  split <;> exact ⟨rfl, rfl⟩

theorem Counts.congr {counters counters' counters'' : BreachCounters κ}
    {effects' : List (TickEffect κ)} (h : Counts toleranceBps readings counters counters' effects)
    (hsupply : counters''.supply = counters'.supply)
    (hliability : counters''.liability = counters'.liability)
    (heffects : .trip ∈ effects' ↔ .trip ∈ effects) :
    Counts toleranceBps readings counters counters'' effects' :=
  ⟨fun mint => by rw [hsupply, h.supply], fun mint => by rw [hliability, h.liability],
    heffects.trans h.tried⟩

/-- `check_invariants` as a whole. -/
theorem checkInvariants_counts [ToString κ] {probe : Bool}
    (h : checkInvariants toleranceBps probe m readings = checked) :
    Counts toleranceBps readings (syncHalted m readings.haltFlag).breachCounters
      checked.memory.breachCounters checked.effects := by
  subst h
  have heval : Evaluates toleranceBps readings probe _ _ := checkInputs_evaluates
    (rfl : checkInputs toleranceBps probe (checkOrphanDepositRows readings m).1 readings = _)
  obtain ⟨hpages, seen, hseen⟩ := checkOrphanDepositRows_spec readings m
  have hsync : (syncHalted (checkOrphanDepositRows readings m).1 readings.haltFlag).breachCounters =
      (syncHalted m readings.haltFlag).breachCounters := by
    rw [hseen]
    cases readings.haltFlag <;> rfl
  rw [← hsync]
  refine heval.counts.congr rfl rfl ⟨fun hmem => ?_, List.mem_append_right _⟩
  exact (List.mem_append.mp hmem).resolve_left hpages.no_trip

/-- A counted pass moves every streak by its verdict. -/
theorem counted_pass [ToString κ] {m m' : ReconciliationMemory κ}
    (h : performReconciliationCheck toleranceBps false m readings = (m', effects)) :
    Counts toleranceBps readings (syncHalted m readings.haltFlag).breachCounters m'.breachCounters
      effects := by
  have hcounts := checkInvariants_counts
    (rfl : checkInvariants toleranceBps false m readings = _)
  unfold performReconciliationCheck at h
  generalize checkInvariants toleranceBps false m readings = checked at h hcounts
  dsimp only at h
  split at h
  · cases h
    exact hcounts
  · obtain ⟨htrip, hsupply, hliability⟩ := trackInputState_streaks readings
      (darkReason checked.result) checked.haltWrites checked.memory
    generalize trackInputState readings (darkReason checked.result) checked.haltWrites
      checked.memory = tracked at h htrip hsupply hliability
    obtain ⟨hsupply', hliability'⟩ := endIncident_streaks tracked.1
    cases h
    refine hcounts.congr (hsupply'.trans hsupply) (hliability'.trans hliability)
      ⟨fun hmem => ?_, fun hmem => List.mem_append_left _ (List.mem_append_left _ hmem)⟩
    rcases List.mem_append.mp hmem with hmem | hopen
    · exact (List.mem_append.mp hmem).resolve_right htrip
    · split at hopen <;> simp at hopen

theorem lookup_le_max {streaks all : List (κ × ℕ)} (hsub : streaks ⊆ all) (mint : κ) :
    (streaks.lookup mint).getD 0 ≤ (all.map (·.2)).max?.getD 0 := by
  cases hlookup : streaks.lookup mint with
  | none => exact Nat.zero_le _
  | some n =>
    obtain ⟨l₁, l₂, rfl, -⟩ := List.lookup_eq_some_iff.mp hlookup
    have hmem : n ∈ all.map (·.2) :=
      List.mem_map_of_mem (f := (·.2)) (hsub (List.mem_append_right _ List.mem_cons_self))
    cases hmax : (all.map (·.2)).max? with
    | none =>
      rw [List.max?_eq_none_iff.mp hmax] at hmem
      exact absurd hmem List.not_mem_nil
    | some top => exact (List.max?_eq_some_iff.mp hmax).2 n hmem

/-- Every streak and every count of dark ticks is two short of its threshold. -/
theorem oneMoreTickIsSafe_spec (h : oneMoreTickIsSafe m = true) :
    (∀ mint, (m.breachCounters.supply.lookup mint).getD 0 + 1 < haltConfirmTicks) ∧
      (∀ mint, (m.breachCounters.liability.lookup mint).getD 0 + 1 < haltConfirmTicks) ∧
      m.inputDarkTicks + 1 < inputDarkHaltTicks ∧
      m.liabilityDarkTicks + 1 < liabilityDarkAlertTicks := by
  simp only [oneMoreTickIsSafe, Bool.and_eq_true, decide_eq_true_eq] at h
  obtain ⟨⟨hstreak, hinput⟩, hliability⟩ := h
  refine ⟨fun mint => ?_, fun mint => ?_, hinput, hliability⟩
  · exact (Nat.succ_le_succ (lookup_le_max (List.subset_append_left _ _) mint)).trans_lt hstreak
  · exact (Nat.succ_le_succ (lookup_le_max (List.subset_append_right _ _) mint)).trans_lt hstreak

omit [DecidableEq κ] in
theorem trackInputState_quiet {missing : Option String} {haltWrites : List HaltWrite}
    (h : m.inputDarkTicks + 1 < inputDarkHaltTicks) :
    (trackInputState readings missing haltWrites m).2 = [] := by
  unfold trackInputState
  split
  · rfl
  · dsimp only
    rw [if_neg fun hfreeze => absurd hfreeze.1 (Nat.not_le.mpr h)]

omit [DecidableEq κ] in
/-- The re-sync touches no counter. -/
theorem syncHalted_counters (m : ReconciliationMemory κ) (flag : Except String (Option HaltInfo)) :
    (syncHalted m flag).breachCounters.supply = m.breachCounters.supply ∧
      (syncHalted m flag).breachCounters.liability = m.breachCounters.liability ∧
      (syncHalted m flag).inputDarkTicks = m.inputDarkTicks ∧
      (syncHalted m flag).liabilityDarkTicks = m.liabilityDarkTicks := by
  cases flag with
  | error e => exact ⟨rfl, rfl, rfl, rfl⟩
  | ok halt =>
    unfold syncHalted
    dsimp only
    split <;> exact ⟨rfl, rfl, rfl, rfl⟩

/-- Past the orphans a probe that is safe has no effect. -/
theorem checkInputs_quiet [ToString κ] (hsafe : oneMoreTickIsSafe m = true)
    (h : checkInputs toleranceBps true m readings = checked) :
    checked.effects = [] ∧ checked.memory.inputDarkTicks = m.inputDarkTicks := by
  obtain ⟨hsupply, hliability, -, hdark⟩ := oneMoreTickIsSafe_spec hsafe
  obtain ⟨hsupply', hliability', hinput', hdark'⟩ := syncHalted_counters m readings.haltFlag
  have heval : Evaluates toleranceBps readings true _ _ := checkInputs_evaluates h
  refine ⟨heval.quiet rfl (hdark'.symm ▸ hdark) fun htrip => ?_,
    heval.inputDarkTicks.trans hinput'⟩
  obtain ⟨-, mint, ⟨-, hle⟩ | ⟨-, hle⟩⟩ := heval.counts.tried.mp htrip
  · rw [hsupply'] at hle
    exact absurd hle (Nat.not_le.mpr (hsupply mint))
  · rw [hliability'] at hle
    exact absurd hle (Nat.not_le.mpr (hliability mint))

/-- A probe reports orphans, may open the fence, and does nothing else. -/
theorem probe_pass [ToString κ] {m m' : ReconciliationMemory κ} (hsafe : oneMoreTickIsSafe m = true)
    (h : performReconciliationCheck toleranceBps true m readings = (m', effects)) :
    (∃ opening, effects = (checkOrphanDepositRows readings m).2 ++ opening ∧
        ∀ effect ∈ opening, ∃ record, effect = .openFence record) ∧
      ((readings.cancelled || readings.waitCancelled) = false →
        m'.breachCounters = m.breachCounters ∧ m'.liabilityDarkTicks = m.liabilityDarkTicks ∧
          m'.inputDarkTicks = m.inputDarkTicks) := by
  obtain ⟨-, -, hinput, -⟩ := oneMoreTickIsSafe_spec hsafe
  obtain ⟨-, seen, hseen⟩ := checkOrphanDepositRows_spec readings m
  have hsafe' : oneMoreTickIsSafe (checkOrphanDepositRows readings m).1 = true := by
    rw [hseen]
    exact hsafe
  obtain ⟨heffects, hdark⟩ := checkInputs_quiet hsafe'
    (rfl : checkInputs toleranceBps true (checkOrphanDepositRows readings m).1 readings = _)
  have hsame : (checkOrphanDepositRows readings m).1.inputDarkTicks = m.inputDarkTicks := by
    rw [hseen]
  rw [hsame] at hdark
  unfold performReconciliationCheck checkInvariants at h
  dsimp only at h
  generalize checkInputs toleranceBps true _ readings = checked at h heffects hdark
  rw [heffects, List.append_nil] at h
  split at h
  · next hcancelled =>
    cases h
    refine ⟨⟨[], (List.append_nil _).symm, fun _ hmem => absurd hmem List.not_mem_nil⟩,
      fun hlive => ?_⟩
    rw [hlive] at hcancelled
    cases hcancelled
  · rw [trackInputState_quiet (by rw [hdark]; exact hinput), if_pos rfl, List.append_nil] at h
    cases h
    refine ⟨⟨_, rfl, fun effect hmem => ?_⟩, fun _ => ⟨rfl, rfl, rfl⟩⟩
    split at hmem
    · exact ⟨_, List.mem_singleton.mp hmem⟩
    · exact absurd hmem List.not_mem_nil

/-- There is no webhook, or every orphan that was read has been paged before. -/
def OrphansQuiet (readings : TickReadings κ) (m : ReconciliationMemory κ) : Prop :=
  readings.webhookConfigured = false ∨ ∀ ids, readings.orphanDepositIds = .ok ids →
    ∀ id ∈ ids, id ∈ m.previouslyAlertedOrphans.getD []

omit [DecidableEq κ] in
/-- When the orphan check is silent. -/
theorem checkOrphanDepositRows_eq_nil :
    (checkOrphanDepositRows readings m).2 = [] ↔ OrphansQuiet readings m := by
  have halert (page : Page κ) : alert readings page = [] ↔ readings.webhookConfigured = false := by
    unfold alert
    cases readings.webhookConfigured <;> simp
  unfold checkOrphanDepositRows OrphansQuiet
  cases readings.orphanDepositIds with
  | error e => simp
  | ok orphans =>
    simp only [Except.ok.injEq, forall_eq']
    cases m.previouslyAlertedOrphans with
    | none =>
      by_cases hnew : orphans.isEmpty
      · simp [List.isEmpty_iff.mp hnew]
      · have hsome : ¬∀ id ∈ orphans, id ∈ ([] : List ℕ) := by
          simpa [List.eq_nil_iff_forall_not_mem] using hnew
        rw [if_neg hnew, halert, Option.getD_none, or_iff_left hsome]
    | some seen =>
      by_cases hnew : (orphans.filter (· ∉ seen)).isEmpty
      · have hall : ∀ id ∈ orphans, id ∈ seen := by simpa using hnew
        dsimp only
        rw [if_pos hnew]
        exact ⟨fun _ => .inr hall, fun _ => rfl⟩
      · have hsome : ¬∀ id ∈ orphans, id ∈ seen := by simpa using hnew
        dsimp only
        rw [if_neg hnew, halert, Option.getD_some, or_iff_left hsome]

end Arms

end PrivateChannels.Operator
