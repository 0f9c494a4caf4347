import PrivateChannels.Escrow.BitmapRuns
import PrivateChannels.Indexer.EscrowLedger

/-!
# Custody over the blocks of an instance

What an instance's token account of each mint held after each slot. Every payout consumed
a nonce of the instance's bitmap, so no nonce is paid twice.
-/

namespace PrivateChannels.Indexer

open Escrow (Window)
open Escrow.WithdrawalBitmap (Data Event Step len)
open Operator (Pubkey)

/-- The instructions of the slots up to a bound, in block order. -/
def EscrowLedger.through (ledger : EscrowLedger) (slot : ℕ) : List InstructionWithMetadata :=
  (List.range (slot + 1)).flatMap ledger.blocks

/-- What a `ReleaseFunds` paid, and the nonce it consumed. -/
structure Payout where
  mint : Pubkey
  nonce : ℕ
  amount : ℕ
  deriving DecidableEq, Repr

def payout (escrow : Pubkey) (i : InstructionWithMetadata) : Option Payout :=
  match i.instruction with
  | .escrow (.releaseFunds instance' mint nonce amount) =>
    if instance' = escrow then some ⟨mint, nonce, amount⟩ else none
  | _ => none

/-- What a `Deposit` brought in. -/
def deposited (escrow mint : Pubkey) (i : InstructionWithMetadata) : ℕ :=
  match i.instruction with
  | .escrow (.deposit instance' _ mint' _ amount) =>
    if instance' = escrow ∧ mint' = mint then amount else 0
  | _ => 0

/-- What an instruction paid out. -/
def paidOut (escrow mint : Pubkey) (i : InstructionWithMetadata) : ℕ :=
  match payout escrow i with
  | some p => if p.mint = mint then p.amount else 0
  | none => 0

def totalOver (l : List InstructionWithMetadata) (f : InstructionWithMetadata → ℕ) : ℕ :=
  (l.map f).sum

/-- A flow of a mint over the slots up to a bound. -/
def totalThrough (flow : Pubkey → ℕ → ℕ) (mint : Pubkey) (slot : ℕ) : ℕ :=
  ((List.range (slot + 1)).map (flow mint)).sum

/-- The nonce a successful release consumed. -/
def consumedNonce (e : Event) : Option ℕ :=
  match e.call, e.error with
  | .release nonce, none => some nonce.toNat
  | _, _ => none

/-- The bitmap took every payout's nonce, and the token accounts hold `u64` balances. -/
structure CustodyHistory extends EscrowLedger where
  escrow : Pubkey
  window : Window
  account : Data
  account_length : len window ≤ account.length
  account_zeroed : ∀ b ∈ account, b = 0
  consumed : ∀ slot, ∃ events data, Run (Step window) account events data ∧
    events.filterMap consumedNonce =
      (toEscrowLedger.through slot).filterMap fun i => (payout escrow i).map (·.nonce)
  /-- Transfers into the account by no deposit. -/
  donated : Pubkey → ℕ → ℕ
  /-- Transfers out of the account by no payout. -/
  drained : Pubkey → ℕ → ℕ
  custody : Pubkey → ℕ → ℕ
  custody_lt : ∀ mint slot, custody mint slot < 2 ^ 64
  custody_eq : ∀ mint slot,
    custody mint slot + totalOver (toEscrowLedger.through slot) (paidOut escrow mint) +
        totalThrough drained mint slot =
      totalOver (toEscrowLedger.through slot) (deposited escrow mint) +
        totalThrough donated mint slot

variable {i j : InstructionWithMetadata} {slot : ℕ}

theorem EscrowLedger.mem_through {ledger : EscrowLedger} :
    i ∈ ledger.through slot ↔ ∃ slot' ≤ slot, i ∈ ledger.blocks slot' := by
  simp [EscrowLedger.through]

theorem EscrowLedger.nodup_through (ledger : EscrowLedger) (slot : ℕ) :
    (ledger.through slot).Nodup := by
  refine List.nodup_flatMap.mpr ⟨fun slot' _ => ?_, ?_⟩
  · refine (ledger.ordered slot').imp fun hlt heq => ?_
    rw [heq] at hlt
    exact lt_irrefl _ hlt
  · refine List.nodup_range.imp fun hne i hi hj => hne ?_
    exact (ledger.slot_eq _ i hi).symm.trans (ledger.slot_eq _ i hj)

/-- Two rows that a filter keeps with one value are one row, if no value is kept twice. -/
theorem eq_of_nodup_filterMap {α β : Type*} {f : α → Option β} {l : List α}
    (h : (l.filterMap f).Nodup) {a a' : α} (ha : a ∈ l) (ha' : a' ∈ l) {b : β} (hb : f a = some b)
    (hb' : f a' = some b) : a = a' := by
  by_contra hne
  have hpairs := List.pairwise_filterMap.mp h
  have hsymm : Std.Symm fun a a' => ∀ b, f a = some b → ∀ b', f a' = some b' → b ≠ b' :=
    ⟨fun a a' h b hb b' hb' => (h b' hb' b hb).symm⟩
  exact hpairs.forall ha ha' hne b hb b hb' rfl

/-- No nonce is consumed twice. -/
theorem nodup_consumedNonce {window : Window} {account data : Data}
    {events : List Event} (hlength : len window ≤ account.length)
    (hzeroed : ∀ b ∈ account, b = 0) (hrun : Run (Step window) account events data) :
    (events.filterMap consumedNonce).Nodup := by
  obtain ⟨guard, hexplains, -⟩ := Escrow.WithdrawalBitmap.exists_guard_run hlength hzeroed hrun
  refine List.nodup_iff_count_le_one.mpr fun nonce => ?_
  have hcount : (events.filterMap consumedNonce).count nonce =
      (events.map Event.abstract).count (.release nonce, true) := by
    rw [List.count, List.countP_filterMap, List.count, List.countP_map]
    refine List.countP_congr fun e _ => ?_
    obtain ⟨call, error⟩ := e
    cases call <;> cases error <;>
      simp [consumedNonce, Event.abstract, Escrow.WithdrawalBitmap.Call.abstract]
  rw [hcount, hexplains.releases]
  exact List.nodup_iff_count_le_one.mp hexplains.nodup nonce

/-- A nonce is paid once. -/
theorem CustodyHistory.payout_injective (history : CustodyHistory) {slot' : ℕ} {p q : Payout}
    (hi : i ∈ history.blocks slot) (hj : j ∈ history.blocks slot')
    (hp : payout history.escrow i = some p) (hq : payout history.escrow j = some q)
    (hnonce : p.nonce = q.nonce) : i = j := by
  obtain ⟨events, data, hrun, hconsumed⟩ := history.consumed (max slot slot')
  have hnodup := nodup_consumedNonce history.account_length history.account_zeroed hrun
  rw [hconsumed] at hnodup
  refine eq_of_nodup_filterMap hnodup (b := q.nonce)
    (EscrowLedger.mem_through.mpr ⟨slot, le_max_left _ _, hi⟩)
    (EscrowLedger.mem_through.mpr ⟨slot', le_max_right _ _, hj⟩) ?_ ?_
  · rw [hp, Option.map_some, hnonce]
  · rw [hq, Option.map_some]

end PrivateChannels.Indexer
