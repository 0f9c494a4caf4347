import PrivateChannels.Operator.Confirmation
import PrivateChannels.Operator.ReleaseProof

/-!
# Rotating the bitmap

A rotation is armed when every withdrawal that owes a release lies past the chain's
generation, is bound to it, and is sent once the send gate agrees.
-/

namespace PrivateChannels.Operator

open Escrow (Window)
open Storage (Signature TransactionStatus)

/-- `RotateBitmapBuilder`: the submit path fills in the generation. -/
structure RotateBitmapBuilder where
  expectedGeneration : Option ℕ
  deriving DecidableEq, Repr

/-- The part of `SenderState` that rotations read or write. -/
structure RotationMemory where
  cachedGeneration : Option ℕ
  anchorHighWater : ℕ
  refusalFloor : ℕ
  pendingRotation : Option RotateBitmapBuilder
  rotationInFlight : Option RotateBitmapBuilder
  rotationBoundGeneration : Option ℕ
  rotationRetryAttempts : ℕ
  rotationRearmAttempts : ℕ
  inFlightWithdrawals : List ℕ
  /-- The nonces of `pending_remints`. -/
  pendingRemints : List ℕ
  deriving DecidableEq, Repr

/-- `SenderState::new`. -/
def RotationMemory.empty : RotationMemory := ⟨none, 0, 0, none, none, none, 0, 0, [], []⟩

/-- Where the sender stands. A rotation on its way carries its generation. -/
inductive RotationTask
  | idle
  /-- `originate_rotation_if_needed`. -/
  | armCached
  | armRefresh
  | armWindow (chainGeneration : ℕ)
  /-- `take_pending_rotation_if_ready`. -/
  | gateRemints
  | gateCached
  | gateRefresh
  | gateWindow (chainGeneration : ℕ)
  /-- `send_and_confirm`. -/
  | sign (generation : ℕ)
  | send (generation : ℕ) (sig : Signature)
  | confirm (generation : ℕ) (sig : Signature)
  deriving DecidableEq, Repr

/-- A withdrawal row, as far as the gates read it. -/
structure WithdrawalRow where
  nonce : ℕ
  status : TransactionStatus
  deriving DecidableEq, Repr

/-- The statuses of `unreleased_withdrawal_nonce_bounds`. -/
def unreleased : TransactionStatus → Bool
  | .pending | .processing | .parked | .pendingRemint | .manualReview => true
  | _ => false

/-- They are the statuses that are not terminal. -/
theorem unreleased_eq_not_terminal (status : TransactionStatus) :
    unreleased status = !status.terminal := by
  cases status <;> rfl

/-- `unreleased_withdrawal_nonce_bounds`: the least and the greatest nonce. -/
def unreleasedWithdrawalNonceBounds (rows : List WithdrawalRow) (minNonce : ℕ) : Option (ℕ × ℕ) :=
  let nonces := (rows.filter fun r => minNonce ≤ r.nonce && unreleased r.status).map (·.nonce)
  match nonces.min?, nonces.max? with
  | some lowest, some highest => some (lowest, highest)
  | _, _ => none

/-- `BoundsUnavailable`: the gate could not be read. -/
structure BoundsUnavailable where
  deriving DecidableEq, Repr

/-- `read_unreleased_bounds`; the column is a signed 64-bit integer. -/
def readUnreleasedBounds (minNonce : ℕ) (answer : Except String (Option (ℕ × ℕ))) :
    Except BoundsUnavailable (Option (ℕ × ℕ)) :=
  if minNonce < 2 ^ 63 then answer.mapError fun _ => ⟨⟩ else .error ⟨⟩

/-- The reads of a generation: the finalized tip, and the bitmap's generation
with its slot, at or past a slot. -/
structure GenerationReads where
  anchor : Except String ℕ
  bitmap : ℕ → Except String (ℕ × ℕ)

/-- `fetch_current_generation`, with `generation_floor` as its lower bound. -/
def fetchCurrentGeneration (mem : RotationMemory) (reads : GenerationReads) :
    Except String ℕ × RotationMemory :=
  match reads.anchor with
  | .error e => (.error e, mem)
  | .ok anchor =>
    let highWater := max mem.anchorHighWater anchor
    match reads.bitmap (max highWater mem.refusalFloor) with
    | .error e => (.error e, { mem with anchorHighWater := highWater })
    | .ok (generation, slot) =>
      (.ok generation, { mem with anchorHighWater := max highWater slot })

/-- `refresh_generation`: a failed read leaves the cache alone. -/
def refreshGeneration (mem : RotationMemory) (reads : GenerationReads) :
    Except String ℕ × RotationMemory :=
  match fetchCurrentGeneration mem reads with
  | (.ok generation, mem) => (.ok generation, { mem with cachedGeneration := some generation })
  | (.error e, mem) => (.error e, mem)

section

variable (w : Window) (retryMaxAttempts : ℕ) (mem : RotationMemory)

/-- The first nonce of a generation. -/
def windowFloor (generation : ℕ) : ℕ := saturatingMul generation w.noncesPerGeneration

/-- The floor of the search that starts at the cached generation. -/
def cachedFloor : ℕ := mem.cachedGeneration.elim 0 (windowFloor w)

/-- `originate_rotation_if_needed`: one rotation at a time. -/
def originateRotationIfNeeded : RotationTask :=
  if mem.pendingRotation.isSome || mem.rotationInFlight.isSome then .idle else .armCached

/-- After the first bounds: nothing past the cached window needs a rotation. -/
def onArmCached : Except BoundsUnavailable (Option (ℕ × ℕ)) → RotationTask
  | .ok (some (_, highest)) =>
    if mem.cachedGeneration.any (highest / w.noncesPerGeneration ≤ ·) then .idle else .armRefresh
  | .ok none | .error _ => .idle

/-- After the generation read. -/
def onArmRefresh (reads : GenerationReads) : RotationMemory × RotationTask :=
  match refreshGeneration mem reads with
  | (.ok chainGeneration, mem) => (mem, .armWindow chainGeneration)
  | (.error _, mem) => (mem, .idle)

/-- The chain is behind every withdrawal that still owes a release. -/
def chainIsBehind (chainGeneration : ℕ) : Except BoundsUnavailable (Option (ℕ × ℕ)) → Bool
  | .ok (some (lowest, _)) => lowest / w.noncesPerGeneration > chainGeneration
  | .ok none | .error _ => false

/-- The rotation is bound to the generation this decision was made against. -/
def onArmWindow (chainGeneration : ℕ) (bounds : Except BoundsUnavailable (Option (ℕ × ℕ))) :
    RotationMemory :=
  if chainIsBehind w chainGeneration bounds then
    { mem with pendingRotation := some ⟨none⟩, rotationBoundGeneration := some chainGeneration }
  else mem

/-- `MAX_ROTATION_REARMS`. -/
def maxRotationRearms : ℕ := 3

/-- `give_up` of `rearm_failed_rotation`. -/
def giveUpRotation : RotationMemory :=
  { mem with rotationInFlight := none, rotationBoundGeneration := none, rotationRearmAttempts := 0 }

/-- `rearm_failed_rotation`: the binding survives. -/
def rearmFailedRotation : RotationMemory :=
  let mem := { mem with rotationRetryAttempts := 0 }
  match mem.rotationInFlight with
  | none => giveUpRotation mem
  | some builder =>
    if mem.rotationRearmAttempts ≥ maxRotationRearms then giveUpRotation mem
    else { mem with
      rotationRearmAttempts := mem.rotationRearmAttempts + 1
      pendingRotation := some builder }

/-- `clear_rotation_retry_state`. -/
def clearRotationRetryState : RotationMemory :=
  { mem with
    rotationRetryAttempts := 0
    rotationRearmAttempts := 0
    rotationInFlight := none
    rotationBoundGeneration := none }

/-- `handle_success` of a rotation: the cache moves on with the chain. -/
def handleRotationSuccess : RotationMemory :=
  let mem := clearRotationRetryState mem
  { mem with cachedGeneration := mem.cachedGeneration.map (· + 1) }

/-- The retry bound at the top of `send_and_confirm`. -/
def sendRotation (generation : ℕ) : RotationMemory × RotationTask :=
  if mem.rotationRetryAttempts ≥ retryMaxAttempts then (rearmFailedRotation mem, .idle)
  else ({ mem with rotationRetryAttempts := mem.rotationRetryAttempts + 1 }, .sign generation)

/-- `handle_transaction_builder` of a rotation. One without a binding is dropped. -/
def submitRotation (builder : RotateBitmapBuilder) : RotationMemory × RotationTask :=
  if mem.inFlightWithdrawals.isEmpty then
    match mem.rotationBoundGeneration with
    | none => (mem, .idle)
    | some generation => sendRotation retryMaxAttempts
        { mem with rotationInFlight := some { builder with expectedGeneration := some generation } }
        generation
  else ({ mem with pendingRotation := some builder }, .idle)

/-- The gates agreed: the pending rotation is taken and submitted. -/
def takePendingRotation : RotationMemory × RotationTask :=
  match mem.pendingRotation with
  | none => (mem, .idle)
  | some builder => submitRotation retryMaxAttempts { mem with pendingRotation := none } builder

/-- A rotation that was never sent is disarmed; the arming pass decides again. -/
def disarmRotation : RotationMemory :=
  { mem with pendingRotation := none, rotationBoundGeneration := none }

/-- `take_pending_rotation_if_ready` up to its first read. -/
def takePendingRotationIfReady : RotationTask :=
  if mem.pendingRotation.isNone || !mem.inFlightWithdrawals.isEmpty then .idle
  else if mem.pendingRemints.isEmpty then .gateCached
  else .gateRemints

/-- `pending_remints_have_settled`; this read is not remembered in the cache. -/
def onGateRemints (reads : GenerationReads) : RotationMemory × RotationTask :=
  match fetchCurrentGeneration mem reads with
  | (.error _, mem) => (mem, .idle)
  | (.ok generation, mem) =>
    (mem, if mem.pendingRemints.any (· / w.noncesPerGeneration == generation) then .idle
      else .gateCached)

/-- `owed_nonce_gate_allows_send`: nothing owed, nothing to lose. -/
def onGateCached : Except BoundsUnavailable (Option (ℕ × ℕ)) → RotationMemory × RotationTask
  | .ok (some _) => (mem, .gateRefresh)
  | .ok none => takePendingRotation retryMaxAttempts mem
  | .error _ => (mem, .idle)

/-- The chain past the bound: a rotation sent before goes. A backend behind the bound proves
nothing. -/
def onGateRefresh (reads : GenerationReads) : RotationMemory × RotationTask :=
  match refreshGeneration mem reads with
  | (.error _, mem) => (mem, .idle)
  | (.ok chainGeneration, mem) =>
    match mem.rotationBoundGeneration with
    | none => (mem, .gateWindow chainGeneration)
    | some bound =>
      if chainGeneration > bound then
        if mem.rotationInFlight.isSome then takePendingRotation retryMaxAttempts mem
        else (disarmRotation mem, .idle)
      else if chainGeneration < bound then (mem, .idle)
      else (mem, .gateWindow chainGeneration)

/-- After the bounds of the window. -/
def onGateWindow (chainGeneration : ℕ) :
    Except BoundsUnavailable (Option (ℕ × ℕ)) → RotationMemory × RotationTask
  | .ok none => takePendingRotation retryMaxAttempts mem
  | .error _ => (mem, .idle)
  | .ok (some (lowest, _)) =>
    if lowest / w.noncesPerGeneration > chainGeneration then
      takePendingRotation retryMaxAttempts mem
    else if mem.rotationInFlight.isSome then (mem, .idle)
    else (disarmRotation mem, .idle)

/-- After `build_and_sign`. -/
def onRotationSigned (generation : ℕ) : Except String Signature → RotationMemory × RotationTask
  | .ok sig => (mem, .send generation sig)
  | .error _ => (rearmFailedRotation mem, .idle)

/-- After `send_signed`. -/
def onRotationSent (generation : ℕ) (sig : Signature) :
    Except String Unit → RotationMemory × RotationTask
  | .ok () => (mem, .confirm generation sig)
  | .error _ => (rearmFailedRotation mem, .idle)

/-- `handle_confirmation_result` of a rotation, which carries neither a nonce nor
a row. -/
def onRotationConfirmation (generation : ℕ) :
    Except String ConfirmationResult → RotationMemory × RotationTask
  | .ok .confirmed => (handleRotationSuccess mem, .idle)
  | .ok (.failed (some .nonceAlreadyUsed) _) => (mem, .idle)
  | .ok .retry => sendRotation retryMaxAttempts mem generation
  | .ok (.failed (some .unexpectedGeneration) _) => (clearRotationRetryState mem, .idle)
  | .ok (.failed _ _) | .ok .mintNotInitialized | .error _ => (rearmFailedRotation mem, .idle)

/-- A generation read at or past the refusal: a failed one forgets the cached generation. -/
def onReleaseRefused (refusedAt : ℕ) (reads : GenerationReads) : RotationMemory :=
  let mem := { mem with refusalFloor := max mem.refusalFloor refusedAt }
  match refreshGeneration mem reads with
  | (.ok _, mem) => mem
  | (.error _, mem) => { mem with cachedGeneration := none }

end

end PrivateChannels.Operator
