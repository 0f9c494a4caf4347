import PrivateChannels.Foundation.Bytes
import PrivateChannels.Foundation.Timeline

/-!
# The gateway's reads of the ledger database

The gateway reads the newest handoffs of one address together with the slots they cover. A
wallet is its 32 bytes; the base58 text names the same bytes.
-/

namespace PrivateChannels.Gateway

/-- A public key as the tables hold it. -/
abbrev Wallet := List UInt8

/-- `i64::MAX`. -/
def i64Max : ℤ := 2 ^ 63 - 1

/-- `i64::saturating_add(1)`. -/
def saturatingSucc (n : ℤ) : ℤ := min (n + 1) i64Max

/-- `i64::saturating_sub(1)`. -/
def saturatingPred (n : ℤ) : ℤ := max (n - 1) (-2 ^ 63)

/-- A transaction's place in the ledger. -/
structure Position where
  slot : ℤ
  txIndex : ℤ
  deriving DecidableEq, Repr

instance : LinearOrder Position :=
  LinearOrder.lift' (fun p => toLex (p.slot, p.txIndex)) fun p q h => by
    obtain ⟨hslot, hindex⟩ := Prod.mk.inj (toLex.injective h)
    cases p
    cases q
    cases hslot
    cases hindex
    rfl

theorem Position.lt_iff {p q : Position} :
    p < q ↔ p.slot < q.slot ∨ p.slot = q.slot ∧ p.txIndex < q.txIndex :=
  Prod.Lex.toLex_lt_toLex

theorem Position.slot_mono {p q : Position} (h : p ≤ q) : p.slot ≤ q.slot := by
  rcases h.lt_or_eq with hlt | rfl
  · rcases Position.lt_iff.mp hlt with hslot | ⟨hslot, -⟩
    · exact hslot.le
    · exact hslot.le
  · exact le_rfl

/-- A row of `token_account_owner_change`. -/
structure OwnerChangeRow where
  address : Wallet
  slot : ℤ
  txIndex : ℤ
  signature : List UInt8
  prevOwner : Wallet
  newOwner : Wallet
  deriving DecidableEq, Repr

def OwnerChangeRow.position (row : OwnerChangeRow) : Position := ⟨row.slot, row.txIndex⟩

/-- A recorded handoff. -/
structure OwnerChange where
  slot : ℤ
  prevOwner : Wallet
  newOwner : Wallet
  deriving DecidableEq, Repr

def OwnerChangeRow.change (row : OwnerChangeRow) : OwnerChange :=
  ⟨row.slot, row.prevOwner, row.newOwner⟩

/-- The slots the handoffs cover. -/
structure OwnerChangeCoverage where
  indexedFrom : ℤ
  tip : ℤ
  deriving DecidableEq, Repr

/-- The newest handoffs of an address. -/
structure OwnerChain where
  coverage : Option OwnerChangeCoverage
  changes : List OwnerChange

/-- What the gateway reads: the two metadata values, the handoffs, and the caller's
verified wallets. -/
structure GatewayDb where
  ownerChangeIndexedFromSlot : Option (List UInt8)
  latestSlot : Option (List UInt8)
  ownerChanges : List OwnerChangeRow
  verifiedWallets : List Wallet

/-- The watermark is big-endian and signed, the tip a little-endian counter that has to fit an
`i64`. -/
def decodeCoverage (indexedFrom tip : Option (List UInt8)) : Option OwnerChangeCoverage :=
  match indexedFrom, tip with
  | some indexedFrom, some tip =>
    if indexedFrom.length = 8 ∧ tip.length = 8 ∧ (leNat tip : ℤ) ≤ i64Max then
      some ⟨i64OfNat (leNat indexedFrom.reverse), leNat tip⟩
    else none
  | _, _ => none

/-- `ORDER BY slot DESC, tx_index DESC`. -/
def newestFirst (row other : OwnerChangeRow) : Bool := other.position ≤ row.position

/-- The address's rows the statement's `chain` holds, newest first. -/
def chainRows (db : GatewayDb) (address : Wallet) (limit : ℕ) : List OwnerChangeRow :=
  ((db.ownerChanges.filter (·.address = address)).mergeSort newestFirst).take limit

/-- The rows of the statement: the coverage with each handoff, or alone. -/
def ownerChainRows (db : GatewayDb) (address : Wallet) (limit : ℕ) :
    List (Option (List UInt8) × Option (List UInt8) × Option OwnerChangeRow) :=
  match chainRows db address limit with
  | [] => [(db.ownerChangeIndexedFromSlot, db.latestSlot, none)]
  | rows => rows.map fun row => (db.ownerChangeIndexedFromSlot, db.latestSlot, some row)

/-- What one statement reads. -/
def ownerChain (db : GatewayDb) (address : Wallet) (limit : ℕ) : OwnerChain :=
  let rows := ownerChainRows db address limit
  { coverage := rows.head?.bind fun row => decodeCoverage row.1 row.2.1
    changes := rows.reverse.filterMap fun row => row.2.2.map (·.change) }

theorem i64OfNat_le {n : ℕ} (h : n < 2 ^ 64) : i64OfNat n ≤ i64Max := by
  unfold i64OfNat i64Max
  split <;> omega

theorem decodeCoverage_bounds {indexedFrom tip : Option (List UInt8)}
    {coverage : OwnerChangeCoverage} (h : decodeCoverage indexedFrom tip = some coverage) :
    coverage.indexedFrom ≤ i64Max ∧ coverage.tip ≤ i64Max := by
  unfold decodeCoverage at h
  split at h
  · next indexedFrom tip =>
    split at h
    · next hbytes =>
      cases h
      have hlt := leNat_lt indexedFrom.reverse
      rw [List.length_reverse, hbytes.1] at hlt
      exact ⟨i64OfNat_le hlt, hbytes.2.2⟩
    · cases h
  · cases h

theorem ownerChain_coverage (db : GatewayDb) (address : Wallet) (limit : ℕ) :
    (ownerChain db address limit).coverage =
      decodeCoverage db.ownerChangeIndexedFromSlot db.latestSlot := by
  unfold ownerChain ownerChainRows
  cases chainRows db address limit with
  | nil => rfl
  | cons row rows => rfl

theorem ownerChain_changes (db : GatewayDb) (address : Wallet) (limit : ℕ) :
    (ownerChain db address limit).changes =
      (chainRows db address limit).reverse.map (·.change) := by
  unfold ownerChain ownerChainRows
  cases chainRows db address limit with
  | nil => rfl
  | cons row rows =>
    simp only [← List.map_reverse, List.filterMap_map]
    exact congrFun List.filterMap_eq_map _

/-- Rows in order at distinct positions are read back as their newest ones, oldest first. -/
theorem chainRows_reverse {db : GatewayDb} {address : Wallet} {rows : List OwnerChangeRow}
    (limit : ℕ) (hrows : (db.ownerChanges.filter (·.address = address)).Perm rows)
    (hordered : rows.Pairwise (·.position < ·.position)) :
    (chainRows db address limit).reverse = rows.drop (rows.length - limit) := by
  have hdistinct : (rows.map (·.position)).Nodup :=
    List.pairwise_map.mpr (hordered.imp fun hlt => hlt.ne)
  have hperm := (List.mergeSort_perm (db.ownerChanges.filter (·.address = address))
    newestFirst).trans hrows
  have hsorted : (db.ownerChanges.filter (·.address = address)).mergeSort newestFirst =
      rows.reverse := by
    refine @List.Perm.eq_of_pairwise _ (fun a b => newestFirst a b = true) _ _ ?_ ?_ ?_
      (hperm.trans (List.reverse_perm rows).symm)
    · intro a b ha hb hab hba
      have heq : a.position = b.position :=
        le_antisymm (of_decide_eq_true hba) (of_decide_eq_true hab)
      exact List.inj_on_of_nodup_map hdistinct (hperm.mem_iff.mp ha) (List.mem_reverse.mp hb) heq
    · refine List.pairwise_mergeSort (fun a b c hab hbc => ?_) (fun a b => ?_) _
      · exact decide_eq_true ((of_decide_eq_true hbc).trans (of_decide_eq_true hab))
      · simpa [newestFirst] using le_total b.position a.position
    · exact List.pairwise_reverse.mpr (hordered.imp fun hlt => decide_eq_true hlt.le)
  unfold chainRows
  rw [hsorted, List.take_reverse, List.reverse_reverse]

end PrivateChannels.Gateway
