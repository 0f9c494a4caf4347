import PrivateChannels.Escrow.Processors
import PrivateChannels.Foundation.Transition

/-!
# The escrow's balance is what its events say

Deposits and releases of one instance and mint, in any order. An admin may replace the
allowed mint's account at will, and a transfer may leave the token account with any
balance.
-/

namespace PrivateChannels.Escrow.Processor

open Withdraw (Address repeated slice)

/-- The escrow of a mint on an instance. -/
structure EscrowKey where
  escrowInstance : Address
  mint : Address
  tokenProgram : Address
  deriving DecidableEq, Repr

namespace EscrowKey

variable (runtime : Runtime) (key : EscrowKey)

def ata : Address := ataAddress runtime key.escrowInstance key.tokenProgram key.mint

def allowedMint : Address :=
  (runtime.findProgramAddress [allowedMintSeed, key.escrowInstance.bytes, key.mint.bytes]
    runtime.escrowProgramId).1

end EscrowKey

/-- An event together with the minimum that was in force when it was emitted. -/
inductive EmittedEvent
  | deposit (event : DepositEvent) (minimum : UInt64)
  | release (event : ReleaseFundsEvent)
  deriving DecidableEq, Repr

/-- The accounts at stake and the events. -/
structure EscrowWorld where
  ata : Contents
  allowedMint : Contents
  emitted : List EmittedEvent

namespace EscrowWorld

/-- The mint's minimum deposit as it stands. -/
def minimum (w : EscrowWorld) : UInt64 :=
  match AllowedMint.tryFromBytes w.allowedMint.data with
  | .ok allowed => allowed.minDepositAmount
  | .error _ => 0

end EscrowWorld

/-- The accounts of an instruction are those of the chain. -/
def Loads (runtime : Runtime) (key : EscrowKey) (w : EscrowWorld) (accounts : List AccountView) :
    Prop :=
  ∀ info ∈ accounts, (info.address = key.ata runtime → info.contents = w.ata) ∧
    (info.address = key.allowedMint runtime → info.contents = w.allowedMint)

/-- A deposit names the instance, the mint and its program. -/
def DepositsInto (key : EscrowKey) (accounts : List AccountView) : Prop :=
  ∀ deposit, DepositAccounts.ofList accounts = .ok deposit →
    deposit.instanceInfo.address = key.escrowInstance ∧ deposit.mint.address = key.mint ∧
      deposit.tokenProgram.address = key.tokenProgram

/-- The release is of this escrow. -/
def ReleasesFrom (key : EscrowKey) (accounts : List AccountView) : Prop :=
  ∀ release, ReleaseFundsAccounts.ofList accounts = .ok release →
    release.instanceInfo.address = key.escrowInstance ∧ release.mint.address = key.mint ∧
      release.tokenProgram.address = key.tokenProgram

/-- The instructions of a run. -/
inductive EscrowEvent
  | deposit
  | releaseFunds
  | failed
  | setAllowedMint
  deriving DecidableEq, Repr

/-- One instruction. -/
inductive EscrowStep (runtime : Runtime) (window : Window) (key : EscrowKey) :
    EscrowWorld → EscrowEvent → EscrowWorld → Prop
  | deposit {w : EscrowWorld} {callees : Callees} {accounts : List AccountView}
      {data : List UInt8} {event : DepositEvent} {ata : AccountView}
      (escrow : DepositsInto key accounts) (loads : Loads runtime key w accounts)
      (succeeded : processDeposit runtime callees accounts data = .ok (event, ata)) :
      EscrowStep runtime window key w .deposit
        { w with
          ata := ata.contents
          emitted := w.emitted ++ [.deposit event w.minimum] }
  | releaseFunds {w : EscrowWorld} {callees : Callees} {accounts : List AccountView}
      {data : List UInt8} {released : Released}
      (escrow : ReleasesFrom key accounts) (loads : Loads runtime key w accounts)
      (succeeded : processReleaseFunds runtime window callees accounts data = .ok released) :
      EscrowStep runtime window key w .releaseFunds
        { w with
          ata := released.instanceAta.contents
          emitted := w.emitted ++ [.release released.event] }
  | failed {w : EscrowWorld} : EscrowStep runtime window key w .failed w
  | setAllowedMint {w : EscrowWorld} {contents : Contents} :
      EscrowStep runtime window key w .setAllowedMint { w with allowedMint := contents }

def EmittedEvent.deposited : EmittedEvent → ℕ
  | .deposit event _ => event.amount.toNat
  | .release _ => 0

def EmittedEvent.released : EmittedEvent → ℕ
  | .deposit _ _ => 0
  | .release event => event.amount.toNat

/-- The sum of the deposit events. -/
def deposits (emitted : List EmittedEvent) : ℕ := (emitted.map EmittedEvent.deposited).sum

/-- The sum of the release events. -/
def releases (emitted : List EmittedEvent) : ℕ := (emitted.map EmittedEvent.released).sum

@[simp] theorem deposits_snoc (emitted : List EmittedEvent) (event : EmittedEvent) :
    deposits (emitted ++ [event]) = deposits emitted + event.deposited := by
  simp [deposits]

@[simp] theorem releases_snoc (emitted : List EmittedEvent) (event : EmittedEvent) :
    releases (emitted ++ [event]) = releases emitted + event.released := by
  simp [releases]

section Steps

variable {runtime : Runtime} {window : Window} {key : EscrowKey} {w w' : EscrowWorld}
  {callees : Callees} {accounts : List AccountView} {data : List UInt8}

/-- The escrow's balance. -/
def balance (runtime : Runtime) (contents : Contents) : ℕ :=
  (runtime.tokenAmount contents.data).toNat

theorem DepositAccounts.ofList_ok {deposit : DepositAccounts}
    (h : DepositAccounts.ofList accounts = .ok deposit) :
    deposit.instanceAta ∈ accounts ∧ deposit.allowedMint ∈ accounts := by
  unfold DepositAccounts.ofList at h
  split at h
  · cases h
    simp
  · cases h

theorem ReleaseFundsAccounts.ofList_ok {release : ReleaseFundsAccounts}
    (h : ReleaseFundsAccounts.ofList accounts = .ok release) : release.instanceAta ∈ accounts := by
  unfold ReleaseFundsAccounts.ofList at h
  split at h
  · cases h
    simp
  · cases h

/-- A deposit raised the balance by its event's amount, positive and no less than the
minimum. -/
theorem deposit_effect (hescrow : DepositsInto key accounts)
    (hloads : Loads runtime key w accounts) {event : DepositEvent} {ata : AccountView}
    (h : processDeposit runtime callees accounts data = .ok (event, ata)) :
    (∃ transfer, callees.transfer transfer = .ok ata) ∧
      balance runtime ata.contents = balance runtime w.ata + event.amount.toNat ∧
      event.amount ≠ 0 ∧ w.minimum ≤ event.amount := by
  obtain ⟨args, deposit, checked, _, haccounts, hchecked, hsettled⟩ := processDeposit_ok h
  obtain ⟨hinstance, hmint, hprogram⟩ := hescrow deposit haccounts
  obtain ⟨hata, hallowed⟩ := DepositAccounts.ofList_ok haccounts
  obtain ⟨hread, haddress, _⟩ := checkDeposit_ok hchecked
  obtain ⟨hparse, hpda⟩ := readAllowedMint_ok hread
  obtain ⟨htransfer, hbalance, hpositive, hminimum, _⟩ := settleDeposit_ok hsettled
  rw [hinstance, hmint, hprogram] at haddress
  rw [hinstance, hmint] at hpda
  have hataContents := (hloads _ hata).1 haddress
  have hallowedContents := (hloads _ hallowed).2 hpda
  refine ⟨htransfer, ?_, hpositive, ?_⟩
  · rw [← hataContents]
    exact hbalance
  · rw [EscrowWorld.minimum, ← hallowedContents]
    simp only [AccountView.contents, hparse]
    exact hminimum

/-- What a successful release did: the balance fell by the amount of the event. -/
theorem release_effect (hescrow : ReleasesFrom key accounts)
    (hloads : Loads runtime key w accounts) {released : Released}
    (h : processReleaseFunds runtime window callees accounts data = .ok released) :
    (∃ transfer, callees.transfer transfer = .ok released.instanceAta) ∧
      balance runtime w.ata =
        balance runtime released.instanceAta.contents + released.event.amount.toNat := by
  obtain ⟨args, release, escrowInstance, _, haccounts, hchecked, hsettled⟩ :=
    processReleaseFunds_ok h
  obtain ⟨hinstance, hmint, hprogram⟩ := hescrow release haccounts
  have haddress := checkRelease_ok hchecked
  obtain ⟨htransfer, hbalance⟩ := settleRelease_ok hsettled
  rw [hinstance, hmint, hprogram] at haddress
  have hataContents := (hloads _ (ReleaseFundsAccounts.ofList_ok haccounts)).1 haddress
  refine ⟨htransfer, ?_⟩
  rw [← hataContents]
  exact hbalance

/-- The balance and the events account for each other. -/
structure Accounted (runtime : Runtime) (start : EscrowWorld) (w : EscrowWorld) : Prop where
  conserved : balance runtime w.ata + releases w.emitted =
    balance runtime start.ata + deposits w.emitted
  minimum : ∀ event minimum, .deposit event minimum ∈ w.emitted →
    event.amount ≠ 0 ∧ minimum ≤ event.amount

/-- Every instruction keeps the books. -/
theorem Accounted.step {start : EscrowWorld} {event : EscrowEvent}
    (h : Accounted runtime start w) (hstep : EscrowStep runtime window key w event w') :
    Accounted runtime start w' := by
  have hconserved := h.conserved
  cases hstep with
  | @deposit callees accounts data event ata hescrow hloads hsucceeded =>
    obtain ⟨-, hbalance, hpositive, hminimum⟩ := deposit_effect hescrow hloads hsucceeded
    refine ⟨?_, fun e m hmem => ?_⟩
    · simp only [deposits_snoc, releases_snoc, EmittedEvent.deposited, EmittedEvent.released]
      omega
    · rcases List.mem_append.mp hmem with hold | hnew
      · exact h.minimum e m hold
      · obtain ⟨rfl, rfl⟩ := EmittedEvent.deposit.inj (List.mem_singleton.mp hnew)
        exact ⟨hpositive, hminimum⟩
  | @releaseFunds callees accounts data released hescrow hloads hsucceeded =>
    obtain ⟨-, hbalance⟩ := release_effect hescrow hloads hsucceeded
    refine ⟨?_, fun e m hmem => ?_⟩
    · simp only [deposits_snoc, releases_snoc, EmittedEvent.deposited, EmittedEvent.released]
      omega
    · exact h.minimum e m (mem_of_mem_snoc hmem nofun)
  | failed => exact h
  | setAllowedMint => exact ⟨hconserved, h.minimum⟩

theorem accounted_of_run {start : EscrowWorld} {events : List EscrowEvent}
    (hstart : start.emitted = []) (hrun : Run (EscrowStep runtime window key) start events w) :
    Accounted runtime start w := by
  have hbase : Accounted runtime start start := by
    refine ⟨?_, ?_⟩
    · simp [hstart, releases, deposits]
    · rw [hstart]
      exact fun _ _ hmem => absurd hmem List.not_mem_nil
  exact hrun.stateInvariant hbase fun _ _ _ h hstep => h.step hstep

/-- The balance is the initial one plus the deposited amounts minus the released ones, every
deposit is positive and reaches the minimum in force, and neither a deposit that lowers the
balance nor a release that raises it goes through. -/
theorem escrow_balance_accounted (runtime : Runtime) (window : Window) (key : EscrowKey)
    {start w : EscrowWorld} {events : List EscrowEvent} (hstart : start.emitted = [])
    (hrun : Run (EscrowStep runtime window key) start events w) :
    (balance runtime w.ata : ℤ) =
        balance runtime start.ata + deposits w.emitted - releases w.emitted ∧
      (∀ event minimum, .deposit event minimum ∈ w.emitted →
        0 < event.amount ∧ minimum ≤ event.amount) ∧
      (∀ callees accounts data, DepositsInto key accounts → Loads runtime key w accounts →
        (∀ transfer ata, callees.transfer transfer = .ok ata →
          balance runtime ata.contents < balance runtime w.ata) →
        ∀ result, processDeposit runtime callees accounts data ≠ .ok result) ∧
      ∀ callees accounts data, ReleasesFrom key accounts → Loads runtime key w accounts →
        (∀ transfer ata, callees.transfer transfer = .ok ata →
          balance runtime w.ata < balance runtime ata.contents) →
        ∀ result, processReleaseFunds runtime window callees accounts data ≠ .ok result := by
  have haccounted := accounted_of_run hstart hrun
  refine ⟨?_, ?_, ?_, ?_⟩
  · have := haccounted.conserved
    omega
  · intro event minimum hmem
    obtain ⟨hpositive, hminimum⟩ := haccounted.minimum event minimum hmem
    exact ⟨UInt64.pos_iff_ne_zero.mpr hpositive, hminimum⟩
  · rintro callees accounts data hescrow hloads hlowers ⟨event, ata⟩ hok
    obtain ⟨⟨transfer, htransfer⟩, hbalance, -⟩ := deposit_effect hescrow hloads hok
    have := hlowers transfer ata htransfer
    omega
  · intro callees accounts data hescrow hloads hraises released hok
    obtain ⟨⟨transfer, htransfer⟩, hbalance⟩ := release_effect hescrow hloads hok
    have := hraises transfer released.instanceAta htransfer
    omega

end Steps

/-- Addresses are sums of the seeds' first bytes, and an account's amount is its first byte. -/
def byteRuntime : Runtime where
  escrowProgramId := repeated 200
  systemProgramId := repeated 201
  ataProgramId := repeated 202
  tokenProgramId := repeated 1
  token2022ProgramId := repeated 203
  memoProgramId := repeated 204
  eventAuthority := repeated 205
  findProgramAddress seeds _ := (repeated (seeds.map (·.headD 0)).sum, 0)
  tokenAmount data := UInt64.ofNat (data.headD 0).toNat
  memoRequired _ := none
  mintLen := 1
  mintDecimals _ := 6
  mintHasFreezeAuthority _ := false
  unpackMint2022 _ := none
  issuerAddableExtensions := 0

def byteEscrow : EscrowKey := ⟨repeated 105, repeated 2, repeated 1⟩

/-- An allowed mint of six decimals with a minimum of three. -/
def byteAllowedMint : List UInt8 :=
  [2, 0, 0, 0, 6] ++ List.replicate 32 1 ++ leBytes 8 0 ++ [0] ++ leBytes 8 3

def byteWorld : EscrowWorld where
  ata := ⟨repeated 1, [10]⟩
  allowedMint := ⟨repeated 200, byteAllowedMint⟩
  emitted := []

def byteAccount (address owner : UInt8) (data : List UInt8) : AccountView :=
  ⟨repeated address, repeated owner, true, true, data⟩

/-- The mint, its listing, the user's account and the escrow's, which holds the amount. -/
def byteEscrowAccounts (amount : UInt8) : List AccountView :=
  [byteAccount 2 1 [0], byteAccount 204 200 byteAllowedMint, byteAccount 6 1 [9],
    byteAccount 108 1 [amount]]

def byteInstance : AccountView := byteAccount 105 200 ([0, 0, 1] ++ List.replicate 64 0)

def bytePrograms : List AccountView :=
  [byteAccount 1 0 [], byteAccount 202 0 [], byteAccount 205 0 [], byteAccount 200 0 []]

def byteDeposit : List AccountView :=
  [byteAccount 4 0 [], byteAccount 3 0 [], byteInstance] ++ byteEscrowAccounts 10 ++
    [byteAccount 201 0 []] ++ bytePrograms ++ [byteAccount 0 0 [], byteAccount 0 0 []]

/-- The operator is account 4, its PDA 220 and the bitmap 224. -/
def byteRelease : List AccountView :=
  [byteAccount 4 0 [], byteAccount 4 0 [], byteInstance,
    byteAccount 224 200 (3 :: List.replicate 10 0), byteAccount 220 200 [1, 0]] ++
    byteEscrowAccounts 14 ++ bytePrograms ++
    [byteAccount 0 0 [], byteAccount 0 0 [], byteAccount 0 0 []]

/-- The transfer leaves the escrow with the given amount. -/
def byteCallees (amount : UInt8) : Callees where
  memo := .ok ()
  transfer _ := .ok (byteAccount 108 1 [amount])
  emitEvent _ := .ok ()

def byteDepositEvent : DepositEvent := ⟨repeated 0, repeated 3, 4, repeated 3, repeated 2⟩

def byteReleaseEvent : ReleaseFundsEvent := ⟨repeated 0, repeated 4, 6, repeated 3, repeated 2⟩

/-- A deposit of five that lands four and a release of six leave eight of ten. -/
theorem escrow_balance_deposit_release :
    ∃ w events, Run (EscrowStep byteRuntime .testTree byteEscrow) byteWorld events w ∧
      w.emitted = [.deposit byteDepositEvent 3, .release byteReleaseEvent] ∧
      (balance byteRuntime w.ata : ℤ) = 10 + 4 - 6 := by
  have hdeposit := Run.nil.snoc (@EscrowStep.deposit byteRuntime .testTree byteEscrow byteWorld
    (byteCallees 14) byteDeposit (leBytes 8 5 ++ [0]) byteDepositEvent (byteAccount 108 1 [14])
    (by rintro deposit ⟨⟩; exact ⟨rfl, rfl, rfl⟩) (by unfold Loads; decide +kernel)
    (by decide +kernel))
  have hrun := hdeposit.snoc (@EscrowStep.releaseFunds byteRuntime .testTree byteEscrow _
    (byteCallees 8) byteRelease
    (leBytes 8 6 ++ List.replicate 32 3 ++ leBytes 8 0 ++ List.replicate 32 3)
    ⟨byteReleaseEvent, byteAccount 108 1 [8], 3 :: List.replicate 9 0 ++ [1]⟩
    (by rintro release ⟨⟩; exact ⟨rfl, rfl, rfl⟩) (by unfold Loads; decide +kernel)
    (by decide +kernel))
  refine ⟨_, _, hrun, rfl, ?_⟩
  exact (escrow_balance_accounted byteRuntime .testTree byteEscrow rfl hrun).1

end PrivateChannels.Escrow.Processor
