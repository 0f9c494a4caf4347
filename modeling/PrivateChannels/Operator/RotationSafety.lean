import PrivateChannels.Operator.RotationSystem

/-!
# A rotation closes only a generation that owes nothing

Arming sees every unreleased row of the generation gone and a later nonce assigned. Both
last, and the binding carries them to every send.
-/

namespace PrivateChannels.Operator

open Escrow Escrow.WithdrawalBitmap
open Storage (Signature TransactionStatus)

variable {w : RotationWorld} {s t : RotationSystem} {rows rows' : List WithdrawalRow} {g : ℕ}

/-- No row of the generation owes a release, and its nonces are all assigned. -/
structure Drained (w : RotationWorld) (rows : List WithdrawalRow) (g : ℕ) : Prop where
  settled : ∀ r ∈ rows, r.nonce / w.window.noncesPerGeneration = g → unreleased r.status = false
  passed : ∃ r ∈ rows, g < r.nonce / w.window.noncesPerGeneration

/-- A new nonce is past one that is already past the generation. -/
theorem Drained.write (h : Drained w rows g) (hwrite : RowWrite rows rows') :
    Drained w rows' g := by
  obtain ⟨hsettled, later, hlater, hpassed⟩ := h
  cases hwrite with
  | insert _ row hnonce =>
    refine ⟨fun r hr hgen => ?_, later, List.mem_append_left _ hlater, hpassed⟩
    rcases List.mem_append.mp hr with hr | hr
    · exact hsettled r hr hgen
    · obtain rfl := List.mem_singleton.mp hr
      have hle : later.nonce / w.window.noncesPerGeneration ≤
        r.nonce / w.window.noncesPerGeneration :=
        Nat.div_le_div_right (hnonce later hlater).le
      omega
  | update before after row status hopen =>
    have hrow : ∀ r, r ∈ before ++ { row with status := status } :: after →
        r ∈ before ++ row :: after ∨ r = { row with status := status } := by
      intro r hr
      simp only [List.mem_append, List.mem_cons] at hr ⊢
      tauto
    refine ⟨fun r hr hgen => ?_, ?_⟩
    · rcases hrow r hr with hr | rfl
      · exact hsettled r hr hgen
      · have := hsettled row (by simp) hgen
        rw [unreleased_eq_not_terminal, hopen] at this
        cases this
    · simp only [List.mem_append, List.mem_cons] at hlater
      rcases hlater with hb | rfl | ha
      · exact ⟨later, by simp [hb], hpassed⟩
      · exact ⟨{ later with status := status }, by simp, hpassed⟩
      · exact ⟨later, by simp [ha], hpassed⟩

/-- The lower bound is a row's nonce and bounds every unreleased one from below. -/
theorem unreleasedWithdrawalNonceBounds_spec {minNonce lowest highest : ℕ}
    (h : unreleasedWithdrawalNonceBounds rows minNonce = some (lowest, highest)) :
    (∃ r ∈ rows, r.nonce = lowest) ∧
      ∀ r ∈ rows, minNonce ≤ r.nonce → unreleased r.status = true → lowest ≤ r.nonce := by
  simp only [unreleasedWithdrawalNonceBounds] at h
  split at h
  · next lo hi hmin _ =>
    cases Option.some.inj h
    obtain ⟨hmem, hle⟩ := List.min?_eq_some_iff.mp hmin
    obtain ⟨r, hr, hnonce⟩ := List.mem_map.mp hmem
    refine ⟨⟨r, (List.mem_filter.mp hr).1, hnonce⟩, fun r' hr' hfloor hstatus => ?_⟩
    exact hle _ (List.mem_map.mpr
      ⟨r', List.mem_filter.mpr ⟨hr', by simp [hfloor, hstatus]⟩, rfl⟩)
  · cases h

/-- What a decision to arm has seen. -/
theorem drained_of_chainIsBehind {answer : Except String (Option (ℕ × ℕ))}
    (hread : BoundsRead rows (windowFloor w.window g) answer)
    (h : chainIsBehind w.window g (readUnreleasedBounds (windowFloor w.window g) answer) = true) :
    Drained w rows g := by
  unfold readUnreleasedBounds at h
  split at h
  · next hfits =>
    have hfloor : windowFloor w.window g = g * w.window.noncesPerGeneration := by
      simp only [windowFloor, saturatingMul] at hfits ⊢
      omega
    cases answer with
    | error e => cases h
    | ok bounds =>
      cases bounds with
      | none => cases h
      | some bounds =>
        obtain ⟨lowest, highest⟩ := bounds
        have hlowest : g < lowest / w.window.noncesPerGeneration := by
          simpa [chainIsBehind, Except.mapError] using h
        obtain ⟨⟨r, hr, hnonce⟩, hleast⟩ :=
          unreleasedWithdrawalNonceBounds_spec (hread _ rfl).symm
        refine ⟨fun r' hr' hgen => ?_, r, hr, hnonce ▸ hlowest⟩
        by_contra howed
        rw [Bool.not_eq_false] at howed
        have hge : windowFloor w.window g ≤ r'.nonce := by
          rw [hfloor, ← hgen]
          exact Nat.div_mul_le_self _ _
        have hle : lowest / w.window.noncesPerGeneration ≤
            r'.nonce / w.window.noncesPerGeneration :=
          Nat.div_le_div_right (hleast r' hr' hge howed)
        omega
  · cases h

/-- `may` holds of the generations a rotation may be bound to, `known` of those in the cache. -/
def RotationMemory.Within (may known : ℕ → Prop) (mem : RotationMemory) : Prop :=
  (∀ g, mem.rotationBoundGeneration = some g → may g) ∧
    ∀ g, mem.cachedGeneration = some g → known g

/-- A rotation is signed for a generation it may close. -/
def RotationTask.Sound (may : ℕ → Prop) (signed : ℕ → Signature → Prop) : RotationTask → Prop
  | .sign g => may g
  | .send g sig | .confirm g sig => signed g sig
  | _ => True

/-- The generations the sender may hold. -/
structure Within (may known : ℕ → Prop) (signed : ℕ → Signature → Prop)
    (next : RotationMemory × RotationTask) : Prop where
  memory : next.1.Within may known
  task : next.2.Sound may signed

/-- The generations the reads can answer are known. -/
def GenerationReads.Known (known : ℕ → Prop) (reads : GenerationReads) : Prop :=
  ∀ minSlot g slot, reads.bitmap minSlot = .ok (g, slot) → known g

variable {next : RotationMemory × RotationTask}

theorem Within.mono {may may' known : ℕ → Prop} {signed signed' : ℕ → Signature → Prop}
    (h : Within may known signed next)
    (hmay : ∀ g, may g → may' g) (hsigned : ∀ g sig, signed g sig → signed' g sig) :
    Within may' known signed' next := by
  obtain ⟨mem, task⟩ := next
  refine ⟨⟨fun g hg => hmay g (h.memory.1 g hg), h.memory.2⟩, ?_⟩
  have htask := h.task
  cases task with
  | sign g => exact hmay g htask
  | send g sig | confirm g sig => exact hsigned g sig htask
  | _ => trivial

section Moves

variable {may known : ℕ → Prop} {signed : ℕ → Signature → Prop} {mem : RotationMemory}
  {reads : GenerationReads}

variable (h : mem.Within may known)
include h

theorem rearmFailedRotation_within : (rearmFailedRotation mem).Within may known := by
  simp only [rearmFailedRotation]
  split
  · exact ⟨nofun, h.2⟩
  · split
    · exact ⟨nofun, h.2⟩
    · exact h

theorem fetchCurrentGeneration_within (reads : GenerationReads) :
    (fetchCurrentGeneration mem reads).2.Within may known := by
  unfold fetchCurrentGeneration
  split
  · exact h
  · dsimp only
    split <;> exact h

/-- A fresh read replaces the cached generation by one that was read. -/
theorem refreshGeneration_within (hreads : reads.Known known) :
    (refreshGeneration mem reads).2.Within may known := by
  have hfetch := fetchCurrentGeneration_within h reads
  unfold refreshGeneration
  split
  · next g mem' heq =>
    rw [heq] at hfetch
    refine ⟨hfetch.1, fun g' hg' => ?_⟩
    obtain rfl : g = g' := Option.some.inj hg'
    unfold fetchCurrentGeneration at heq
    split at heq
    · cases heq
    · dsimp only at heq
      split at heq
      · cases heq
      · next hread =>
        obtain ⟨hg, _⟩ := Prod.mk.inj heq
        cases hg
        exact hreads _ _ _ hread
  · next heq =>
    rw [heq] at hfetch
    exact hfetch

theorem rearm_within : Within may known signed (rearmFailedRotation mem, .idle) :=
  ⟨rearmFailedRotation_within h, trivial⟩

variable {g : ℕ}

theorem sendRotation_within (cap : ℕ) (hg : may g) :
    Within may known signed (sendRotation cap mem g) := by
  unfold sendRotation
  split
  · exact rearm_within h
  · exact ⟨h, hg⟩

/-- Only a bound rotation is submitted, with its binding. -/
theorem takePendingRotation_within (cap : ℕ) :
    Within may known signed (takePendingRotation cap mem) := by
  unfold takePendingRotation
  split
  · exact ⟨h, trivial⟩
  · unfold submitRotation
    split
    · split
      · exact ⟨h, trivial⟩
      · next g hg => exact sendRotation_within (by exact h) cap (h.1 g hg)
    · exact ⟨h, trivial⟩

theorem onArmRefresh_within (hreads : reads.Known known) :
    Within may known signed (onArmRefresh mem reads) := by
  have hmem := refreshGeneration_within h hreads
  unfold onArmRefresh
  split <;> next heq =>
    rw [heq] at hmem
    exact ⟨hmem, trivial⟩

theorem onGateRemints_within (window : Window) (reads : GenerationReads) :
    Within may known signed (onGateRemints window mem reads) := by
  have hmem := fetchCurrentGeneration_within h reads
  unfold onGateRemints
  split
  · next heq =>
    rw [heq] at hmem
    exact ⟨hmem, trivial⟩
  · next heq =>
    rw [heq] at hmem
    refine ⟨hmem, ?_⟩
    split <;> trivial

theorem onGateCached_within (cap : ℕ) (bounds : Except BoundsUnavailable (Option (ℕ × ℕ))) :
    Within may known signed (onGateCached cap mem bounds) := by
  unfold onGateCached
  split
  · exact ⟨h, trivial⟩
  · exact takePendingRotation_within h cap
  · exact ⟨h, trivial⟩

theorem onGateRefresh_within (cap : ℕ) (hreads : reads.Known known) :
    Within may known signed (onGateRefresh cap mem reads) := by
  have hmem := refreshGeneration_within h hreads
  unfold onGateRefresh
  split
  · next heq =>
    rw [heq] at hmem
    exact ⟨hmem, trivial⟩
  · next heq =>
    rw [heq] at hmem
    split
    · exact ⟨hmem, trivial⟩
    · split
      · split
        · exact takePendingRotation_within hmem cap
        · exact ⟨⟨nofun, hmem.2⟩, trivial⟩
      · split <;> exact ⟨hmem, trivial⟩

theorem onGateWindow_within (window : Window) (cap chainGeneration : ℕ)
    (bounds : Except BoundsUnavailable (Option (ℕ × ℕ))) :
    Within may known signed (onGateWindow window cap mem chainGeneration bounds) := by
  unfold onGateWindow
  split
  · exact takePendingRotation_within h cap
  · exact ⟨h, trivial⟩
  · split
    · exact takePendingRotation_within h cap
    · split
      · exact ⟨h, trivial⟩
      · exact ⟨⟨nofun, h.2⟩, trivial⟩

variable {sig : Signature}

theorem onRotationSent_within (hsigned : signed g sig)
    (answer : Except String Unit) : Within may known signed (onRotationSent mem g sig answer) := by
  unfold onRotationSent
  split
  · exact ⟨h, hsigned⟩
  · exact rearm_within h

/-- A confirmed rotation moves the cache one generation on. -/
theorem onRotationConfirmation_within (cap : ℕ) (hg : may g)
    {answer : Except String ConfirmationResult}
    (hnext : answer = .ok .confirmed → ∀ g, mem.cachedGeneration = some g → known (g + 1)) :
    Within may known signed (onRotationConfirmation cap mem g answer) := by
  unfold onRotationConfirmation
  split
  · refine ⟨⟨nofun, fun g' hg' => ?_⟩, trivial⟩
    obtain ⟨before, hbefore, rfl⟩ := Option.map_eq_some_iff.mp hg'
    exact hnext rfl before hbefore
  · exact ⟨h, trivial⟩
  · exact sendRotation_within h cap hg
  · exact ⟨⟨nofun, h.2⟩, trivial⟩
  all_goals exact rearm_within h

theorem onReleaseRefused_within (refusedAt : ℕ) (hreads : reads.Known known) :
    (onReleaseRefused mem refusedAt reads).Within may known := by
  have hmem := refreshGeneration_within
    (show { mem with refusalFloor := max mem.refusalFloor refusedAt }.Within may known from h)
    hreads
  unfold onReleaseRefused
  dsimp only
  split <;> next heq =>
    rw [heq] at hmem
    first
      | exact hmem
      | exact ⟨hmem.1, nofun⟩

end Moves

/-- Points reached without signing anything. -/
theorem originateRotationIfNeeded_sound (may : ℕ → Prop) (signed : ℕ → Signature → Prop)
    (mem : RotationMemory) : (originateRotationIfNeeded mem).Sound may signed := by
  unfold originateRotationIfNeeded
  split <;> trivial

theorem onArmCached_sound (may : ℕ → Prop) (signed : ℕ → Signature → Prop) (window : Window)
    (mem : RotationMemory) (bounds : Except BoundsUnavailable (Option (ℕ × ℕ))) :
    (onArmCached window mem bounds).Sound may signed := by
  unfold onArmCached
  repeat' split
  all_goals trivial

theorem takePendingRotationIfReady_sound (may : ℕ → Prop) (signed : ℕ → Signature → Prop)
    (mem : RotationMemory) : (takePendingRotationIfReady mem).Sound may signed := by
  unfold takePendingRotationIfReady
  repeat' split
  all_goals trivial

/-- What the sender holds stays within what it reads and what a confirmed rotation leads to. -/
theorem RotationStep.within {may known : ℕ → Prop} {signed : ℕ → Signature → Prop}
    {e : RotationEvent} (hstep : RotationStep w s e t)
    (hquiet : e = .crash ∨ e = .sender ∨ e = .release) (hm : s.memory.Within may known)
    (hknown : ∀ reads : GenerationReads, reads.Answered w s.solana → reads.Known known)
    (hconfirm : ∀ g sig, s.task = .confirm g sig → may g ∧ (s.solana.Landed sig →
      ∀ cached, s.memory.cachedGeneration = some cached → known (cached + 1))) :
    t.rows = s.rows ∧ t.solana = s.solana ∧ Within may known signed (t.memory, t.task) := by
  cases hstep with
  | crash => exact ⟨rfl, rfl, ⟨nofun, nofun⟩, trivial⟩
  | originate _ => exact ⟨rfl, rfl, hm, originateRotationIfNeeded_sound _ _ _⟩
  | armCached answer _ _ => exact ⟨rfl, rfl, hm, onArmCached_sound _ _ _ _ _⟩
  | armRefresh reads _ hread => exact ⟨rfl, rfl, onArmRefresh_within hm (hknown _ hread)⟩
  | armWithheld answer _ _ hbehind =>
    refine ⟨rfl, rfl, ?_, trivial⟩
    simpa [RotationSystem.moveTo, onArmWindow, hbehind] using hm
  | take _ => exact ⟨rfl, rfl, hm, takePendingRotationIfReady_sound _ _ _⟩
  | gateRemints reads _ _ => exact ⟨rfl, rfl, onGateRemints_within hm _ reads⟩
  | gateCached answer _ _ => exact ⟨rfl, rfl, onGateCached_within hm _ _⟩
  | gateRefresh reads _ hread => exact ⟨rfl, rfl, onGateRefresh_within hm _ (hknown _ hread)⟩
  | gateWindow answer _ _ => exact ⟨rfl, rfl, onGateWindow_within hm _ _ _ _⟩
  | signFailed _ _ => exact ⟨rfl, rfl, rearm_within hm⟩
  | @confirm g sig polls hat hseen =>
    obtain ⟨hmay, hnext⟩ := hconfirm g sig hat
    refine ⟨rfl, rfl, onRotationConfirmation_within hm _ hmay fun hconfirmed => hnext ?_⟩
    obtain ⟨k, status, hpoll, hsat, herr⟩ := pollStatus_confirmed hconfirmed
    simpa [Ledger.Chain.Landed, herr] using hseen k status hpoll hsat
  | work inFlight remints hat => exact ⟨rfl, rfl, hm, by rw [hat]; trivial⟩
  | refresh reads hat hread =>
    exact ⟨rfl, rfl, refreshGeneration_within hm (hknown _ hread), by rw [hat]; trivial⟩
  | refused refusedAt reads hat hread =>
    exact ⟨rfl, rfl, onReleaseRefused_within hm refusedAt (hknown _ hread), by rw [hat]; trivial⟩
  | _ => simp at hquiet

variable {events : List RotationEvent} {e : RotationEvent}

theorem lastArmed_arm (events : List RotationEvent) (g : ℕ) :
    lastArmed (events ++ [.arm g]) = some g := by
  simp [lastArmed]

theorem lastArmed_snoc (h : ∀ g, e ≠ .arm g) : lastArmed (events ++ [e]) = lastArmed events := by
  cases e with
  | arm g => exact absurd rfl (h g)
  | _ => simp [lastArmed]

/-- The generation was armed last, and it owes nothing. -/
def Armed (w : RotationWorld) (events : List RotationEvent) (rows : List WithdrawalRow) (g : ℕ) :
    Prop := lastArmed events = some g ∧ Drained w rows g

/-- The transaction rotates from the generation, for which it was armed. -/
def ArmedFor (w : RotationWorld) (events : List RotationEvent) (rows : List WithdrawalRow) (g : ℕ)
    (sig : Signature) : Prop :=
  Armed w events rows g ∧ ∃ expected : UInt64, w.call sig = some (.rotate expected) ∧
    expected.toNat = g

/-- The history invariant. -/
structure RotationInv (w : RotationWorld) (events : List RotationEvent) (s : RotationSystem) :
    Prop where
  within : Within (Armed w events s.rows) (fun _ => True) (ArmedFor w events s.rows)
    (s.memory, s.task)
  drained : ∀ x, .send x ∈ events →
    ∃ g : UInt64, w.call x = some (.rotate g) ∧ Drained w s.rows g.toNat
  armed : ∀ before x after, events = before ++ .send x :: after →
    ∃ g : UInt64, w.call x = some (.rotate g) ∧ lastArmed before = some g.toNat

theorem RotationSystem.Fresh.inv (h : s.Fresh w) : RotationInv w [] s where
  within := ⟨⟨by simp [h.memory, RotationMemory.empty], fun _ _ => trivial⟩,
    by rw [h.task]; trivial⟩
  drained := nofun
  armed := fun before x after heq => by simp at heq

/-- What was armed stays armed until the next arming. -/
theorem Armed.later (harm : ∀ g, e ≠ .arm g) (hrows : ∀ g, Drained w rows g → Drained w rows' g)
    (h : Armed w events rows g) : Armed w (events ++ [e]) rows' g :=
  ⟨by rw [lastArmed_snoc harm, h.1], hrows g h.2⟩

section

variable (h : RotationInv w events s)

include h

/-- A step that neither arms nor sends keeps the history facts. -/
theorem RotationInv.quiet (harm : ∀ g, e ≠ .arm g)
    (hsend : ∀ x, e ≠ .send x) (hrows : ∀ g, Drained w s.rows g → Drained w t.rows g)
    (hnext : Within (Armed w events s.rows) (fun _ => True) (ArmedFor w events s.rows)
      (t.memory, t.task)) :
    RotationInv w (events ++ [e]) t where
  within := hnext.mono (fun _ => .later harm hrows)
    (fun _ _ ⟨harmed, hcall⟩ => ⟨harmed.later harm hrows, hcall⟩)
  drained := by
    intro x hx
    obtain ⟨g, hcall, hdrained⟩ := h.drained x (mem_of_mem_snoc hx (hsend x).symm)
    exact ⟨g, hcall, hrows _ hdrained⟩
  armed := by
    intro before x after heq
    rcases snoc_eq_append_cons heq with ⟨_, he⟩ | ⟨after', heq⟩
    · exact absurd he (hsend x)
    · exact h.armed before x after' heq

/-- Arming binds a generation that owes nothing. -/
theorem RotationInv.arm {mem : RotationMemory}
    (hmem : mem.rotationBoundGeneration = some g) (hdrained : Drained w s.rows g) :
    RotationInv w (events ++ [.arm g]) (s.moveTo (mem, .idle)) where
  within := by
    refine ⟨⟨fun g' hg' => ?_, fun _ _ => trivial⟩, trivial⟩
    cases hmem.symm.trans hg'
    exact ⟨lastArmed_arm events g, hdrained⟩
  drained := fun x hx => h.drained x (by simpa using hx)
  armed := by
    intro before x after heq
    rcases snoc_eq_append_cons heq with ⟨_, he⟩ | ⟨after', heq⟩
    · cases he
    · exact h.armed before x after' heq

/-- A rotation goes out with the generation it was armed for. -/
theorem RotationInv.send {x : Signature}
    (hat : s.task = .send g x) (answer : Except String Unit) :
    RotationInv w (events ++ [.send x]) (s.moveTo (onRotationSent s.memory g x answer)) := by
  have htask := h.within.task
  rw [hat] at htask
  have harmed : ArmedFor w events s.rows g x := htask
  obtain ⟨⟨hlast, hdrained⟩, expected, hcall, rfl⟩ := id harmed
  refine ⟨?_, fun y hy => ?_, fun before y after heq => ?_⟩
  · exact (onRotationSent_within h.within.memory harmed answer).mono
      (fun _ => .later nofun fun _ => id)
      (fun _ _ ⟨harmed, hcall⟩ => ⟨harmed.later nofun fun _ => id, hcall⟩)
  · rcases List.mem_append.mp hy with hy | hy
    · exact h.drained y hy
    · obtain rfl : y = x := by simpa using hy
      exact ⟨expected, hcall, hdrained⟩
  · rcases snoc_eq_append_cons heq with ⟨rfl, he⟩ | ⟨after', heq⟩
    · obtain rfl : x = y := by simpa using he
      exact ⟨expected, hcall, hlast⟩
    · exact h.armed before y after' heq

/-- Every step keeps the history invariant. -/
theorem RotationInv.step (hstep : RotationStep w s e t) :
    RotationInv w (events ++ [e]) t := by
  have hm := h.within.memory
  have htask := h.within.task
  cases e with
  | crash | sender | release =>
    obtain ⟨hrows, -, hnext⟩ := hstep.within (by simp) hm (fun _ _ _ _ _ _ => trivial)
      fun g sig hat => ⟨by rw [hat] at htask; exact htask.1, fun _ _ _ => trivial⟩
    exact h.quiet nofun nofun (hrows ▸ fun _ => id) hnext
  | arm g =>
    cases hstep with
    | arm answer _ hread hbehind =>
      refine h.arm ?_ (drained_of_chainIsBehind hread hbehind)
      simp [onArmWindow, hbehind]
  | sign sig =>
    cases hstep with
    | @sign g _ hat hcall =>
      rw [hat] at htask
      exact h.quiet nofun nofun (fun _ => id) ⟨hm, htask, g, hcall, rfl⟩
  | send sig =>
    cases hstep with
    | send answer hat => exact h.send hat answer
  | rows =>
    cases hstep with
    | rows hwrite => exact h.quiet nofun nofun (fun _ hd => hd.write hwrite) h.within
  | solana =>
    cases hstep
    exact h.quiet nofun nofun (fun _ => id) h.within

end

/-- The chain has reached the generation. -/
def Reached (w : RotationWorld) (c : Ledger.Chain Signature) (g : ℕ) : Prop :=
  ∀ data, w.BitmapAt c data → g ≤ (generation data).toNat

/-- The rotation was signed before it landed, with the cache no further than the
chain was. -/
def SignedBefore (w : RotationWorld) (now : Ledger.Chain Signature) (mem : RotationMemory)
    (sig : Signature) : Prop :=
  ∃ c data, ∃ g : UInt64, now.Extends c ∧ w.BitmapAt c data ∧ w.call sig = some (.rotate g) ∧
    ¬ c.Landed sig ∧ ∀ cached, mem.cachedGeneration = some cached → cached ≤ (generation data).toNat

/-- The cache does not lead the chain. -/
structure CacheInv (w : RotationWorld) (s : RotationSystem) : Prop where
  bitmap : ∃ data, w.BitmapAt s.solana data
  within : Within (fun _ => True) (Reached w s.solana)
    (fun _ sig => SignedBefore w s.solana s.memory sig) (s.memory, s.task)

theorem RotationSystem.Fresh.cacheInv (h : s.Fresh w) : CacheInv w s where
  bitmap := h.bitmap
  within := ⟨by simp [h.memory, RotationMemory.empty, RotationMemory.Within],
    by rw [h.task]; trivial⟩

variable {c : Ledger.Chain Signature}

/-- What a read answers, the chain has reached. -/
theorem GenerationReads.Answered.known {reads : GenerationReads}
    (h : reads.Answered w c) : reads.Known (Reached w c) := by
  intro minSlot g slot hread data hdata
  obtain ⟨_, c₀, data₀, hext, _, hdata₀, rfl⟩ := h minSlot g slot hread
  exact hdata₀.generation_le hdata hext

theorem Reached.mono {c' : Ledger.Chain Signature} (h : Reached w c g) (hext : c'.Extends c)
    (hbitmap : ∃ data, w.BitmapAt c data) : Reached w c' g := by
  obtain ⟨data, hdata⟩ := hbitmap
  intro data' hdata'
  exact (h data hdata).trans (hdata.generation_le hdata' hext)

/-- A rotation that landed since it was signed has moved the chain past the cache. -/
theorem SignedBefore.reached {now : Ledger.Chain Signature} {mem : RotationMemory}
    (h : SignedBefore w now mem sig) (hlanded : now.Landed sig)
    {cached : ℕ} (hcached : mem.cachedGeneration = some cached) : Reached w now (cached + 1) := by
  obtain ⟨c, data, g, hext, hdata, hcall, hnew, hle⟩ := h
  intro data' hdata'
  exact (Nat.succ_le_succ (hle cached hcached)).trans
    (hdata.generation_lt hdata' hext hcall hnew hlanded)

/-- A rotation that was just signed had not landed. -/
theorem CacheInv.signedBefore (h : CacheInv w s) {g : UInt64}
    (hcall : w.call sig = some (.rotate g)) (hnew : ¬ s.solana.Landed sig) :
    SignedBefore w s.solana s.memory sig := by
  obtain ⟨data, hdata⟩ := h.bitmap
  exact ⟨s.solana, data, g, .refl _, hdata, hcall, hnew,
    fun cached hcached => h.within.memory.2 cached hcached data hdata⟩

/-- Every step that signs freshly keeps the cache no further than the chain. -/
theorem CacheInv.step (h : CacheInv w s) (hstep : RotationStep w s e t)
    (hfresh : SignedFreshly s e) : CacheInv w t := by
  have hm := h.within.memory
  have htask := h.within.task
  cases e with
  | crash | sender | release =>
    obtain ⟨-, hsolana, hnext⟩ := hstep.within (by simp) hm (fun _ hread => hread.known)
      fun g sig hat => ⟨trivial, fun hlanded cached hcached => by
        rw [hat] at htask
        exact SignedBefore.reached htask hlanded hcached⟩
    rw [← hsolana] at hnext
    exact ⟨hsolana ▸ h.bitmap, hnext⟩
  | arm g =>
    cases hstep with
    | arm answer _ _ hbehind =>
      refine ⟨h.bitmap, ⟨fun _ _ => trivial, ?_⟩, trivial⟩
      simpa [RotationSystem.moveTo, onArmWindow, hbehind] using hm.2
  | sign sig =>
    cases hstep with
    | sign hat hcall => exact ⟨h.bitmap, hm, h.signedBefore hcall (hfresh sig rfl)⟩
  | send sig =>
    cases hstep with
    | send answer hat =>
      rw [hat] at htask
      cases answer with
      | ok _ => exact ⟨h.bitmap, hm, htask⟩
      | error _ => exact ⟨h.bitmap, rearm_within hm⟩
  | rows =>
    cases hstep
    exact ⟨h.bitmap, h.within⟩
  | solana =>
    cases hstep with
    | solana c hext hbitmap =>
      refine ⟨hbitmap, ⟨hm.1, fun g hg => (hm.2 g hg).mono hext h.bitmap⟩, ?_⟩
      refine (h.within.mono (fun _ => id) fun _ sig hsigned => ?_).task
      obtain ⟨c₀, data, g, hext₀, hrest⟩ := hsigned
      exact ⟨c₀, data, g, hext.trans hext₀, hrest⟩

/-- Every rotation submitted is for the generation it was armed against, and once it has landed
no row of that generation owes a release; while none is signed again after it landed, the cached
generation does not exceed the chain's. -/
theorem rotation_closes_drained_generations (w : RotationWorld) (s₀ : RotationSystem)
    (hfresh : s₀.Fresh w) :
    (∀ events t, Run (RotationStep w) s₀ events t →
      (∀ before x after, events = before ++ .send x :: after →
        ∃ g : UInt64, w.call x = some (.rotate g) ∧ lastArmed before = some g.toNat) ∧
      ∀ x g, .send x ∈ events → w.call x = some (.rotate g) → t.solana.Landed x →
        ∀ row ∈ t.rows, row.nonce / w.window.noncesPerGeneration = g.toNat →
          unreleased row.status = false) ∧
    ∀ events t, Run (fun s e t => RotationStep w s e t ∧ SignedFreshly s e) s₀ events t →
      ∀ cached data, t.memory.cachedGeneration = some cached → w.BitmapAt t.solana data →
        cached ≤ (generation data).toNat := by
  constructor
  · intro events t hrun
    have hinv : RotationInv w events t :=
      hrun.invariant hfresh.inv fun _ _ _ _ h hstep => h.step hstep
    refine ⟨hinv.armed, fun x g hx hcall _ row hrow hgen => ?_⟩
    obtain ⟨g', hcall', hdrained⟩ := hinv.drained x hx
    obtain rfl : g = g' := by simpa [hcall] using hcall'
    exact hdrained.settled row hrow hgen
  · intro events t hrun cached data hcached hdata
    have hinv : CacheInv w t :=
      hrun.stateInvariant hfresh.cacheInv fun _ _ _ h hstep => h.step hstep.1 hstep.2
    exact hinv.within.memory.2 cached hcached data hdata

/-- The bitmap is created by signature 1; signatures 2 and 3 rotate it from
generation 0. -/
def rotationWorld : RotationWorld where
  window := .testTree
  call x := match x.id with
    | 1 => some (.init 255)
    | 2 | 3 => some (.rotate 0)
    | _ => none
  account := List.replicate 11 0
  retryMaxAttempts := 3

def bitmapCreated : Ledger.Chain Signature :=
  ⟨[⟨10, 10, [(⟨1⟩, true)]⟩], by simp, by simp, by simp, by simp⟩

/-- Signature `x`, which is not the creation, rotates the bitmap at slot 20. -/
def bitmapRotated (x : ℕ) (hx : x ≠ 1) : Ledger.Chain Signature :=
  ⟨[⟨10, 10, [(⟨1⟩, true)]⟩, ⟨20, 20, [(⟨x⟩, true)]⟩], by simp, by simp, by simp, by
    simp only [List.mem_cons, List.not_mem_nil, or_false]
    rintro b (rfl | rfl) b' (rfl | rfl) s y z hs hs' <;> simp_all⟩

theorem bitmapCreated_bitmapAt :
    rotationWorld.BitmapAt bitmapCreated [3, 255, 0, 0, 0, 0, 0, 0, 0, 0, 0] :=
  ⟨by decide, fun _ => List.eq_of_mem_replicate, .single (by decide)⟩

theorem bitmapRotated_bitmapAt {x : ℕ} (hx : x = 2 ∨ x = 3) :
    rotationWorld.BitmapAt (bitmapRotated x (by omega)) [3, 255, 1, 0, 0, 0, 0, 0, 0, 0, 0] := by
  refine ⟨by decide, fun _ => List.eq_of_mem_replicate, ?_⟩
  rcases hx with rfl | rfl <;>
  exact .cons (t := [3, 255, 0, 0, 0, 0, 0, 0, 0, 0, 0]) (by decide) (.single (by decide))

/-- A read of the generation at one slot. -/
def readsAt (generation slot : ℕ) : GenerationReads :=
  ⟨.ok slot, fun minSlot => if minSlot ≤ slot then .ok (generation, slot) else .error "too old"⟩

theorem readsAt_answered {data : Data} (hdata : rotationWorld.BitmapAt c data) :
    (readsAt (generation data).toNat c.tipSlot).Answered rotationWorld c := by
  intro minSlot g slot h
  simp only [readsAt] at h
  split at h
  · cases Except.ok.inj h
    exact ⟨‹_›, c, data, .refl c, rfl, hdata, rfl⟩
  · cases h

/-- Generation 0 owes nothing, and nonce 8 waits for generation 1. -/
def rotationStart : RotationSystem :=
  ⟨[⟨3, .completed⟩, ⟨8, .pending⟩], bitmapCreated, .empty, .idle⟩

theorem rotationStart_fresh : rotationStart.Fresh rotationWorld :=
  ⟨⟨_, bitmapCreated_bitmapAt⟩, rfl, rfl⟩

/-- The rotation has been armed for generation 0 and signed. -/
def rotationSigned : RotationSystem :=
  { rotationStart with
    memory := { RotationMemory.empty with
      cachedGeneration := some 0
      anchorHighWater := 10
      rotationInFlight := some ⟨some 0⟩
      rotationBoundGeneration := some 0
      rotationRetryAttempts := 1 }
    task := .send 0 ⟨3⟩ }

/-- Steps that sign nothing sign freshly. -/
theorem RotationStep.unsigned (h : RotationStep w s e t) (he : ∀ x, e ≠ .sign x) :
    RotationStep w s e t ∧ SignedFreshly s e :=
  ⟨h, fun x hx => absurd hx (he x)⟩

/-- The run up to the signature. -/
theorem rotationSigned_run :
    Run (fun s e t => RotationStep rotationWorld s e t ∧ SignedFreshly s e) rotationStart
      [.sender, .sender, .sender, .arm 0, .sender, .sender, .sender, .sender, .sign ⟨3⟩]
      rotationSigned := by
  have hbounds : ∀ minNonce, minNonce ≤ 8 →
      BoundsRead rotationStart.rows minNonce (.ok (some (8, 8))) := by
    rintro minNonce hmin bounds hb
    cases hb
    simp [rotationStart, unreleasedWithdrawalNonceBounds, unreleased, hmin]
  have hreads : (readsAt 0 10).Answered rotationWorld bitmapCreated :=
    readsAt_answered bitmapCreated_bitmapAt
  refine .cons (RotationStep.unsigned (.originate rfl) nofun) <|
    .cons (RotationStep.unsigned (.armCached _ rfl (hbounds 0 (by decide))) nofun) <|
    .cons (RotationStep.unsigned (.armRefresh (readsAt 0 10) rfl hreads) nofun) <|
    .cons (RotationStep.unsigned (.arm _ rfl (hbounds 0 (by decide)) (by decide)) nofun) <|
    .cons (RotationStep.unsigned (.take rfl) nofun) <|
    .cons (RotationStep.unsigned (.gateCached _ rfl (hbounds 0 (by decide))) nofun) <|
    .cons (RotationStep.unsigned (.gateRefresh (readsAt 0 10) rfl hreads) nofun) <|
    .cons (RotationStep.unsigned (.gateWindow _ rfl (hbounds 0 (by decide))) nofun) <|
    .single ⟨.sign (g := 0) rfl rfl, ?_⟩
  rintro x hx ⟨b, hb, hs⟩
  obtain rfl := RotationEvent.sign.inj hx
  obtain rfl := List.mem_singleton.mp hb
  simp at hs

/-- A rotation that is sent, lands and is confirmed: generation 0 owes nothing and
the cache agrees with the chain. -/
theorem rotation_closes_drained_generations_once :
    ∃ events t, Run (RotationStep rotationWorld) rotationStart events t ∧
      .send ⟨3⟩ ∈ events ∧ t.solana.Landed ⟨3⟩ ∧ t.memory.cachedGeneration = some 1 ∧
      (∀ row ∈ t.rows, row.nonce / 8 = 0 → unreleased row.status = false) ∧
      ∀ data, rotationWorld.BitmapAt t.solana data → 1 ≤ (generation data).toNat := by
  have hrest : ∃ t, Run (fun s e t => RotationStep rotationWorld s e t ∧ SignedFreshly s e)
      rotationSigned [.send ⟨3⟩, .solana, .sender] t ∧ t.solana = bitmapRotated 3 (by omega) ∧
      t.memory.cachedGeneration = some 1 := by
    refine ⟨_, .cons (RotationStep.unsigned (.send (.ok ()) rfl) nofun) <|
      .cons (RotationStep.unsigned (.solana (bitmapRotated 3 (by omega)) ?_
        ⟨_, bitmapRotated_bitmapAt (.inr rfl)⟩) nofun) <|
      .single (RotationStep.unsigned
        (.confirm (fun _ => .ok (some ⟨true, none, 20⟩)) rfl ?_) nofun), rfl, rfl⟩
    · exact ⟨[_], rfl⟩
    · rintro k status h -
      cases Except.ok.inj h
      exact ⟨_, List.mem_cons_of_mem _ List.mem_cons_self, List.mem_singleton_self _⟩
  obtain ⟨t, hrest, hsolana, hcached⟩ := hrest
  have hrun := rotationSigned_run.append hrest
  have hlanded : t.solana.Landed ⟨3⟩ := by
    rw [hsolana]
    exact ⟨_, List.mem_cons_of_mem _ List.mem_cons_self, List.mem_singleton_self _⟩
  obtain ⟨hall, hcache⟩ :=
    rotation_closes_drained_generations rotationWorld rotationStart rotationStart_fresh
  have hall := hall _ t (hrun.mono fun _ _ _ h => h.1)
  exact ⟨_, t, hrun.mono fun _ _ _ h => h.1, by simp, hlanded, hcached,
    hall.2 ⟨3⟩ 0 (by simp) rfl hlanded, fun data hdata => hcache _ t hrun 1 data hcached hdata⟩

/-- Another party's rotation closes a generation with a pending withdrawal. And a rotation that
landed and was signed again is confirmed a second time: the cache says 2 where the chain says
1. -/
theorem rotation_overtakes_and_cache_leads :
    (∃ s₀ events t, RotationSystem.Fresh rotationWorld s₀ ∧
      Run (RotationStep rotationWorld) s₀ events t ∧ rotationWorld.call ⟨2⟩ = some (.rotate 0) ∧
      t.solana.Landed ⟨2⟩ ∧ ∃ row ∈ t.rows, row.nonce / 8 = 0 ∧ row.status = .pending) ∧
    ∃ s₀ events t data, RotationSystem.Fresh rotationWorld s₀ ∧
      Run (RotationStep rotationWorld) s₀ events t ∧ t.memory.cachedGeneration = some 2 ∧
      rotationWorld.BitmapAt t.solana data ∧ generation data = 1 := by
  constructor
  · refine ⟨⟨[⟨0, .pending⟩], bitmapCreated, .empty, .idle⟩, [.solana], _,
      ⟨⟨_, bitmapCreated_bitmapAt⟩, rfl, rfl⟩,
      .single (.solana (bitmapRotated 2 (by omega)) ⟨[_], rfl⟩
        ⟨_, bitmapRotated_bitmapAt (.inl rfl)⟩), rfl, ?_, _, List.mem_singleton_self _, rfl, rfl⟩
    exact ⟨_, List.mem_cons_of_mem _ List.mem_cons_self, List.mem_singleton_self _⟩
  · have hreads : (readsAt 1 20).Answered rotationWorld (bitmapRotated 3 (by omega)) :=
      readsAt_answered (bitmapRotated_bitmapAt (.inr rfl))
    refine ⟨rotationStart, _, _, _, rotationStart_fresh,
      (rotationSigned_run.mono fun _ _ _ h => h.1).append <|
      .cons (.send (.error "timed out") rfl) <|
      .cons (.solana (bitmapRotated 3 (by omega)) ⟨[_], rfl⟩
        ⟨_, bitmapRotated_bitmapAt (.inr rfl)⟩) <|
      .cons (.take rfl) <|
      .cons (.gateCached (.ok (some (8, 8))) rfl ?_) <|
      .cons (.gateRefresh (readsAt 1 20) rfl hreads) <|
      .cons (.sign rfl (show rotationWorld.call ⟨3⟩ = some (.rotate 0) from rfl)) <|
      .cons (.send (.ok ()) rfl) <|
      .single (.confirm (fun _ => .ok (some ⟨true, none, 20⟩)) rfl ?_), rfl,
      bitmapRotated_bitmapAt (.inr rfl), rfl⟩
    · rintro bounds hb
      cases hb
      rfl
    · rintro k status h -
      cases Except.ok.inj h
      exact ⟨_, List.mem_cons_of_mem _ List.mem_cons_self, List.mem_singleton_self _⟩

end PrivateChannels.Operator
