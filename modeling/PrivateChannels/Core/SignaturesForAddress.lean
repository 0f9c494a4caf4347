import PrivateChannels.Foundation.Bytes
import PrivateChannels.Foundation.Fallible

/-!
# `getSignaturesForAddress`

One statement over the address index: the rows between the two cursors, inside the
caller's slot windows and at or above the oldest retained block, newest first.
-/

namespace PrivateChannels.Core

/-- A row of `address_signatures`. -/
structure AddressSignatureRow where
  address : List UInt8
  slot : ℤ
  signature : List UInt8
  deriving DecidableEq, Repr

/-- The parts of a stored transaction a history entry shows. -/
structure StoredEntry where
  err : Option String
  memo : Option String
  blockTime : ℤ
  deriving DecidableEq, Repr

/-- The tables the statement reads, and how a transaction row decodes. -/
structure LedgerTables where
  addressSignatures : List AddressSignatureRow
  transactions : List UInt8 → Option (List UInt8)
  firstAvailableBlock : Option (List UInt8)
  blocks : List ℤ
  storedTransaction : List UInt8 → Except String StoredEntry

/-- One entry of a page. -/
structure ConfirmedSignature where
  signature : List UInt8
  slot : ℕ
  err : Option String
  memo : Option String
  blockTime : Option ℤ
  deriving DecidableEq, Repr

/-- Why a page is refused. -/
inductive HistoryError
  | unknownCursor (label : String)
  | malformedSignature
  | missingTransaction (signature : List UInt8)
  | malformedTransaction (signature : List UInt8) (cause : String)
  deriving DecidableEq, Repr

/-- A cursor's position; one the index does not hold is an error. -/
def resolveCursor (tables : LedgerTables) (signature : Option (List UInt8)) (label : String) :
    Except HistoryError (Option (ℤ × List UInt8)) :=
  match signature with
  | none => .ok none
  | some signature =>
    match tables.addressSignatures.find? (·.signature = signature) with
    | some row => .ok (some (row.slot, row.signature))
    | none => .error (.unknownCursor label)

/-- `(slot, signature) < cursor` as SQL compares rows. -/
def olderThan (row : AddressSignatureRow) (cursor : ℤ × List UInt8) : Bool :=
  row.slot < cursor.1 ∨ row.slot = cursor.1 ∧ row.signature < cursor.2

/-- The oldest retained block; its eight little-endian bytes are read as an `int8`. -/
def retainedFloor (tables : LedgerTables) : ℤ :=
  match tables.firstAvailableBlock.filter (·.length = 8) with
  | some bytes => i64OfNat (leNat bytes)
  | none => tables.blocks.min?.getD 0

/-- The statement's `WHERE`. -/
def inScope (tables : LedgerTables) (address : List UInt8)
    (before untilPos : Option (ℤ × List UInt8)) (slotRanges : Option (List (ℤ × ℤ)))
    (row : AddressSignatureRow) : Bool :=
  row.address = address ∧ before.all (olderThan row) ∧ untilPos.all (!olderThan row ·) ∧
    slotRanges.all (·.any fun scope => scope.1 ≤ row.slot ∧ row.slot ≤ scope.2) ∧
    retainedFloor tables ≤ row.slot

/-- One entry of the page; `slot as u64` wraps. -/
def confirmedEntry (tables : LedgerTables) (row : AddressSignatureRow) :
    Except HistoryError ConfirmedSignature :=
  if row.signature.length ≠ 64 then .error .malformedSignature
  else
    match tables.transactions row.signature with
    | none => .error (.missingTransaction row.signature)
    | some data =>
      match tables.storedTransaction data with
      | .error cause => .error (.malformedTransaction row.signature cause)
      | .ok stored => .ok {
          signature := row.signature
          slot := (row.slot % 2 ^ 64).toNat
          err := stored.err
          memo := stored.memo
          blockTime := some stored.blockTime }

/-- `ORDER BY slot DESC, signature DESC`. -/
def newestEntryFirst (row other : AddressSignatureRow) : Bool :=
  other.slot < row.slot ∨ other.slot = row.slot ∧ ¬ row.signature < other.signature

/-- One page of the history. -/
def getSignaturesForAddress (tables : LedgerTables) (address : List UInt8) (limit : ℕ)
    (before untilSignature : Option (List UInt8)) (slotRanges : Option (List (ℤ × ℤ))) :
    Except HistoryError (List ConfirmedSignature) :=
  match resolveCursor tables before "before", resolveCursor tables untilSignature "until" with
  | .error error, _ => .error error
  | .ok _, .error error => .error error
  | .ok beforePos, .ok untilPos =>
    let rows := tables.addressSignatures.filter
      (inScope tables address beforePos untilPos slotRanges)
    ((rows.mergeSort newestEntryFirst).take limit).mapM (confirmedEntry tables)

theorem mem_of_mapM_ok {α β ε : Type} {f : α → Except ε β} {l : List α} {l' : List β}
    (h : l.mapM f = .ok l') {b : β} (hb : b ∈ l') : ∃ a ∈ l, f a = .ok b := by
  induction l generalizing l' with
  | nil =>
    cases h
    cases hb
  | cons a l ih =>
    rw [List.mapM_cons] at h
    obtain ⟨c, ha, h⟩ := bind_eq_ok.mp h
    obtain ⟨cs, hl, h⟩ := bind_eq_ok.mp h
    cases h
    rcases List.mem_cons.mp hb with rfl | hb
    · exact ⟨a, List.mem_cons_self, ha⟩
    · obtain ⟨a', ha', hf⟩ := ih hl hb
      exact ⟨a', List.mem_cons_of_mem _ ha', hf⟩

theorem confirmedEntry_slot {tables : LedgerTables} {row : AddressSignatureRow}
    {entry : ConfirmedSignature} (h : confirmedEntry tables row = .ok entry) :
    entry.signature = row.signature ∧ entry.slot = (row.slot % 2 ^ 64).toNat := by
  unfold confirmedEntry at h
  split at h
  · cases h
  · split at h
    · cases h
    · split at h
      · cases h
      · cases h
        exact ⟨rfl, rfl⟩

/-- A scoped page comes from rows of the address inside the scope. -/
theorem getSignaturesForAddress_scoped {tables : LedgerTables} {address : List UInt8} {limit : ℕ}
    {before untilSignature : Option (List UInt8)} {ranges : List (ℤ × ℤ)}
    {page : List ConfirmedSignature}
    (h : getSignaturesForAddress tables address limit before untilSignature (some ranges) =
      .ok page)
    {entry : ConfirmedSignature} (hentry : entry ∈ page) :
    ∃ row ∈ tables.addressSignatures, row.address = address ∧ row.signature = entry.signature ∧
      entry.slot = (row.slot % 2 ^ 64).toNat ∧
      ∃ scope ∈ ranges, scope.1 ≤ row.slot ∧ row.slot ≤ scope.2 := by
  unfold getSignaturesForAddress at h
  split at h
  · cases h
  · cases h
  · next beforePos untilPos _ _ =>
    obtain ⟨row, hrow, hconfirmed⟩ := mem_of_mapM_ok h hentry
    have hmem := (List.mergeSort_perm _ _).mem_iff.mp (List.mem_of_mem_take hrow)
    obtain ⟨hstored, hscope⟩ := List.mem_filter.mp hmem
    obtain ⟨haddress, -, -, hranges, -⟩ := of_decide_eq_true hscope
    obtain ⟨scope, hin, hwithin⟩ := List.any_eq_true.mp hranges
    obtain ⟨hsignature, hslot⟩ := confirmedEntry_slot hconfirmed
    exact ⟨row, hstored, haddress, hsignature.symm, hslot, scope, hin, of_decide_eq_true hwithin⟩

end PrivateChannels.Core
