import PrivateChannels.Operator.Rotation

/-!
# Rotations under any interleaving

The sender, the rows' other writers and the chain move independently, and anyone may
rotate the bitmap. The sender's other work appears by what it does to the state rotations
read.
-/

namespace PrivateChannels.Operator

open Escrow Escrow.WithdrawalBitmap
open Storage (Signature TransactionStatus)

/-- The bitmap account, what each transaction asks of it, and the send budget. -/
structure RotationWorld where
  window : Window
  call : Signature → Option Call
  account : Data
  retryMaxAttempts : ℕ

/-- The account's bytes at a state of the chain. -/
def RotationWorld.BitmapAt (w : RotationWorld) (c : Ledger.Chain Signature) (data : Data) : Prop :=
  AccountAt w.window w.call w.account c data

/-- The rows, the chain and the sender. -/
structure RotationSystem where
  rows : List WithdrawalRow
  solana : Ledger.Chain Signature
  memory : RotationMemory
  task : RotationTask

namespace RotationSystem

/-- The sender moves to its next point. -/
def moveTo (s : RotationSystem) (next : RotationMemory × RotationTask) : RotationSystem :=
  { s with memory := next.1, task := next.2 }

/-- A sender that has just started. -/
structure Fresh (w : RotationWorld) (s : RotationSystem) : Prop where
  bitmap : ∃ data, w.BitmapAt s.solana data
  memory : s.memory = .empty
  task : s.task = .idle

end RotationSystem

/-- A write of the rows: nonces are assigned in increasing order, and a terminal
status is not left. -/
inductive RowWrite : List WithdrawalRow → List WithdrawalRow → Prop
  | insert (rows : List WithdrawalRow) (row : WithdrawalRow)
      (hnonce : ∀ r ∈ rows, r.nonce < row.nonce) : RowWrite rows (rows ++ [row])
  | update (before after : List WithdrawalRow) (row : WithdrawalRow) (status : TransactionStatus)
      (hopen : row.status.terminal = false) :
      RowWrite (before ++ row :: after) (before ++ { row with status := status } :: after)

/-- The bitmap read answers from a state the chain went through, at or past the
slot asked for. -/
def GenerationReads.Answered (w : RotationWorld) (now : Ledger.Chain Signature)
    (reads : GenerationReads) : Prop :=
  ∀ minSlot generation slot, reads.bitmap minSlot = .ok (generation, slot) →
    minSlot ≤ slot ∧ ∃ c data, now.Extends c ∧ c.tipSlot = slot ∧ w.BitmapAt c data ∧
      generation = (WithdrawalBitmap.generation data).toNat

/-- The bounds read answers from the rows as they are, or fails. -/
def BoundsRead (rows : List WithdrawalRow) (minNonce : ℕ)
    (answer : Except String (Option (ℕ × ℕ))) : Prop :=
  ∀ bounds, answer = .ok bounds → bounds = unreleasedWithdrawalNonceBounds rows minNonce

/-- Who moves. -/
inductive RotationEvent
  | crash
  | sender
  | arm (generation : ℕ)
  | sign (sig : Signature)
  | send (sig : Signature)
  | release
  | rows
  | solana
  deriving DecidableEq

open RotationSystem in
/-- One step. -/
inductive RotationStep (w : RotationWorld) : RotationSystem → RotationEvent → RotationSystem → Prop
  | crash {s : RotationSystem} :
      RotationStep w s .crash { s with memory := .empty, task := .idle }
  /-- The arming tick. -/
  | originate {s : RotationSystem} (hat : s.task = .idle) :
      RotationStep w s .sender (s.moveTo (s.memory, originateRotationIfNeeded s.memory))
  | armCached {s : RotationSystem} (answer : Except String (Option (ℕ × ℕ)))
      (hat : s.task = .armCached)
      (hread : BoundsRead s.rows (cachedFloor w.window s.memory) answer) :
      RotationStep w s .sender (s.moveTo (s.memory, onArmCached w.window s.memory
        (readUnreleasedBounds (cachedFloor w.window s.memory) answer)))
  | armRefresh {s : RotationSystem} (reads : GenerationReads) (hat : s.task = .armRefresh)
      (hread : reads.Answered w s.solana) :
      RotationStep w s .sender (s.moveTo (onArmRefresh s.memory reads))
  | arm {s : RotationSystem} {g : ℕ} (answer : Except String (Option (ℕ × ℕ)))
      (hat : s.task = .armWindow g)
      (hread : BoundsRead s.rows (windowFloor w.window g) answer)
      (hbehind : chainIsBehind w.window g
        (readUnreleasedBounds (windowFloor w.window g) answer) = true) :
      RotationStep w s (.arm g) (s.moveTo (onArmWindow w.window s.memory g
        (readUnreleasedBounds (windowFloor w.window g) answer), .idle))
  | armWithheld {s : RotationSystem} {g : ℕ} (answer : Except String (Option (ℕ × ℕ)))
      (hat : s.task = .armWindow g)
      (hread : BoundsRead s.rows (windowFloor w.window g) answer)
      (hbehind : chainIsBehind w.window g
        (readUnreleasedBounds (windowFloor w.window g) answer) = false) :
      RotationStep w s .sender (s.moveTo (onArmWindow w.window s.memory g
        (readUnreleasedBounds (windowFloor w.window g) answer), .idle))
  /-- The send tick. -/
  | take {s : RotationSystem} (hat : s.task = .idle) :
      RotationStep w s .sender (s.moveTo (s.memory, takePendingRotationIfReady s.memory))
  | gateRemints {s : RotationSystem} (reads : GenerationReads) (hat : s.task = .gateRemints)
      (hread : reads.Answered w s.solana) :
      RotationStep w s .sender (s.moveTo (onGateRemints w.window s.memory reads))
  | gateCached {s : RotationSystem} (answer : Except String (Option (ℕ × ℕ)))
      (hat : s.task = .gateCached)
      (hread : BoundsRead s.rows (cachedFloor w.window s.memory) answer) :
      RotationStep w s .sender (s.moveTo (onGateCached w.retryMaxAttempts s.memory
        (readUnreleasedBounds (cachedFloor w.window s.memory) answer)))
  | gateRefresh {s : RotationSystem} (reads : GenerationReads) (hat : s.task = .gateRefresh)
      (hread : reads.Answered w s.solana) :
      RotationStep w s .sender (s.moveTo (onGateRefresh w.retryMaxAttempts s.memory reads))
  | gateWindow {s : RotationSystem} {g : ℕ} (answer : Except String (Option (ℕ × ℕ)))
      (hat : s.task = .gateWindow g)
      (hread : BoundsRead s.rows (windowFloor w.window g) answer) :
      RotationStep w s .sender (s.moveTo (onGateWindow w.window w.retryMaxAttempts s.memory g
        (readUnreleasedBounds (windowFloor w.window g) answer)))
  /-- The signed transaction rotates from the generation it was built with. -/
  | sign {s : RotationSystem} {g : UInt64} {sig : Signature} (hat : s.task = .sign g.toNat)
      (hcall : w.call sig = some (.rotate g)) :
      RotationStep w s (.sign sig) (s.moveTo (onRotationSigned s.memory g.toNat (.ok sig)))
  | signFailed {s : RotationSystem} {g : ℕ} (e : String) (hat : s.task = .sign g) :
      RotationStep w s .sender (s.moveTo (onRotationSigned s.memory g (.error e)))
  /-- The network may have the transaction whatever the answer. -/
  | send {s : RotationSystem} {g : ℕ} {sig : Signature} (answer : Except String Unit)
      (hat : s.task = .send g sig) :
      RotationStep w s (.send sig) (s.moveTo (onRotationSent s.memory g sig answer))
  | confirm {s : RotationSystem} {g : ℕ} {sig : Signature}
      (polls : ℕ → Except String (Option PolledStatus)) (hat : s.task = .confirm g sig)
      (hseen : ∀ k status, polls k = .ok (some status) → status.satisfied = true →
        s.solana.Executed sig status.err.isNone) :
      RotationStep w s .sender (s.moveTo (onRotationConfirmation w.retryMaxAttempts s.memory g
        (checkTransactionStatus none .rotateBitmap [] polls)))
  /-- Releases are submitted, drained and parked, refunds queued and worked off. -/
  | work {s : RotationSystem} (inFlight remints : List ℕ) (hat : s.task = .idle) :
      RotationStep w s .release { s with
        memory := { s.memory with inFlightWithdrawals := inFlight, pendingRemints := remints } }
  /-- `release_window` and the drain of the retry queue read the generation. -/
  | refresh {s : RotationSystem} (reads : GenerationReads) (hat : s.task = .idle)
      (hread : reads.Answered w s.solana) :
      RotationStep w s .release { s with memory := (refreshGeneration s.memory reads).2 }
  /-- The program refused a release for its generation. -/
  | refused {s : RotationSystem} (refusedAt : ℕ) (reads : GenerationReads) (hat : s.task = .idle)
      (hread : reads.Answered w s.solana) :
      RotationStep w s .release { s with memory := onReleaseRefused s.memory refusedAt reads }
  | rows {s : RotationSystem} {rows : List WithdrawalRow} (hwrite : RowWrite s.rows rows) :
      RotationStep w s .rows { s with rows := rows }
  /-- The chain advances: releases and rotations land, the sender's and others'. -/
  | solana {s : RotationSystem} (c : Ledger.Chain Signature) (hext : c.Extends s.solana)
      (hbitmap : ∃ data, w.BitmapAt c data) :
      RotationStep w s .solana { s with solana := c }

/-- The generation the latest arming was for. -/
def lastArmed (events : List RotationEvent) : Option ℕ :=
  (events.filterMap fun | .arm g => some g | _ => none).getLast?

/-- A signing that does not repeat a signature that has already landed. -/
def SignedFreshly (s : RotationSystem) (e : RotationEvent) : Prop :=
  ∀ sig, e = .sign sig → ¬ s.solana.Landed sig

end PrivateChannels.Operator
