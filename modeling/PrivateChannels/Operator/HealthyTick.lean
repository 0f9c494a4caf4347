import PrivateChannels.Operator.InFlightEnvelope

/-!
# A healthy system is never called insolvent

Transfers go on while a tick reads. Every transfer one reading shows and another misses
has a row the envelope or its adjustment counts.
-/

namespace PrivateChannels.Operator

open Storage (TransactionStatus TransactionType)

/-- A deposit, its row once the indexer wrote it, and the channel slot of its mint. -/
structure DepositRecord where
  mint : Pubkey
  amount : ℕ
  slot : ℕ
  status : Option TransactionStatus
  minted : Option ℕ

/-- A burn at a channel slot, its row, and the slot of its release or refund. -/
structure WithdrawalRecord where
  mint : Pubkey
  amount : ℕ
  burned : ℕ
  status : Option TransactionStatus
  released : Option ℕ
  reminted : Option ℕ

/-- Tokens sent to the escrow unasked. -/
structure Donation where
  mint : Pubkey
  amount : ℕ
  slot : ℕ

/-- Both chains and the rows. The slots are those being filled: a reading is answered at an
earlier one. -/
structure TransferWorld where
  deposits : List DepositRecord
  withdrawals : List WithdrawalRecord
  donations : List Donation
  solanaSlot : ℕ
  channelSlot : ℕ

def DepositRecord.row (d : DepositRecord) : Option InFlightRow :=
  d.status.map fun status => ⟨d.mint, d.amount, d.slot, .deposit, status⟩

def WithdrawalRecord.row (x : WithdrawalRecord) : Option InFlightRow :=
  x.status.map fun status => ⟨x.mint, x.amount, x.burned, .withdrawal, status⟩

def TransferWorld.rows (w : TransferWorld) : List InFlightRow :=
  w.deposits.filterMap (·.row) ++ w.withdrawals.filterMap (·.row)

/-- A mint follows its deposit's row, a release its burn's row; a burn is released or refunded,
not both. -/
inductive TransferStep : TransferWorld → TransferWorld → Prop
  | deposit {w : TransferWorld} {mint : Pubkey} {amount : ℕ} :
      TransferStep w { w with deposits := w.deposits ++ [⟨mint, amount, w.solanaSlot, none, none⟩] }
  | donate {w : TransferWorld} {mint : Pubkey} {amount : ℕ} :
      TransferStep w { w with donations := w.donations ++ [⟨mint, amount, w.solanaSlot⟩] }
  | writeDeposit {w : TransferWorld} {before after : List DepositRecord} {d : DepositRecord}
      {status : TransactionStatus} (hdeposits : w.deposits = before ++ d :: after) :
      TransferStep w { w with deposits := before ++ { d with status := some status } :: after }
  | mint {w : TransferWorld} {before after : List DepositRecord} {d : DepositRecord}
      (hdeposits : w.deposits = before ++ d :: after) (hrow : d.status ≠ none)
      (hnew : d.minted = none) :
      TransferStep w
        { w with deposits := before ++ { d with minted := some w.channelSlot } :: after }
  | burn {w : TransferWorld} {mint : Pubkey} {amount : ℕ} :
      TransferStep w
        { w with withdrawals := w.withdrawals ++ [⟨mint, amount, w.channelSlot, none, none, none⟩] }
  | writeWithdrawal {w : TransferWorld} {before after : List WithdrawalRecord}
      {x : WithdrawalRecord} {status : TransactionStatus}
      (hwithdrawals : w.withdrawals = before ++ x :: after) :
      TransferStep w { w with withdrawals := before ++ { x with status := some status } :: after }
  | release {w : TransferWorld} {before after : List WithdrawalRecord} {x : WithdrawalRecord}
      (hwithdrawals : w.withdrawals = before ++ x :: after) (hrow : x.status ≠ none)
      (hnew : x.released = none) (hexcluded : x.reminted = none) :
      TransferStep w
        { w with withdrawals := before ++ { x with released := some w.solanaSlot } :: after }
  | remint {w : TransferWorld} {before after : List WithdrawalRecord} {x : WithdrawalRecord}
      (hwithdrawals : w.withdrawals = before ++ x :: after) (hnew : x.reminted = none)
      (hexcluded : x.released = none) :
      TransferStep w
        { w with withdrawals := before ++ { x with reminted := some w.channelSlot } :: after }
  | closeSolana {w : TransferWorld} {slot : ℕ} (hslot : w.solanaSlot < slot) :
      TransferStep w { w with solanaSlot := slot }
  | closeChannel {w : TransferWorld} {slot : ℕ} (hslot : w.channelSlot < slot) :
      TransferStep w { w with channelSlot := slot }

/-- An amount of the mint, if the event had happened by the slot. -/
def countBy (mint : Pubkey) (slot : ℕ) (owner : Pubkey) (amount : ℕ) (at' : Option ℕ) : ℕ :=
  if owner = mint ∧ at'.any (· ≤ slot) then amount else 0

/-- Deposits up to a slot. -/
def TransferWorld.deposited (w : TransferWorld) (mint : Pubkey) (slot : ℕ) : ℕ :=
  (w.deposits.map fun d => countBy mint slot d.mint d.amount (some d.slot)).sum

def TransferWorld.donated (w : TransferWorld) (mint : Pubkey) (slot : ℕ) : ℕ :=
  (w.donations.map fun d => countBy mint slot d.mint d.amount (some d.slot)).sum

/-- Releases up to a slot. -/
def TransferWorld.released (w : TransferWorld) (mint : Pubkey) (slot : ℕ) : ℕ :=
  (w.withdrawals.map fun x => countBy mint slot x.mint x.amount x.released).sum

/-- Channel mints up to a slot. -/
def TransferWorld.minted (w : TransferWorld) (mint : Pubkey) (slot : ℕ) : ℕ :=
  (w.deposits.map fun d => countBy mint slot d.mint d.amount d.minted).sum

/-- Burns up to a slot. -/
def TransferWorld.burned (w : TransferWorld) (mint : Pubkey) (slot : ℕ) : ℕ :=
  (w.withdrawals.map fun x => countBy mint slot x.mint x.amount (some x.burned)).sum

def TransferWorld.reminted (w : TransferWorld) (mint : Pubkey) (slot : ℕ) : ℕ :=
  (w.withdrawals.map fun x => countBy mint slot x.mint x.amount x.reminted).sum

/-- The escrow's balance of the mint after a Solana slot. -/
def TransferWorld.custodyAt (w : TransferWorld) (mint : Pubkey) (slot : ℕ) : ℤ :=
  w.deposited mint slot + w.donated mint slot - w.released mint slot

/-- The mint's supply after a channel slot. -/
def TransferWorld.supplyAt (w : TransferWorld) (mint : Pubkey) (slot : ℕ) : ℤ :=
  w.minted mint slot + w.reminted mint slot - w.burned mint slot

/-- A custody balance and its slot. -/
structure CustodyReading where
  mint : Pubkey
  slot : ℕ
  balance : ℕ

/-- A channel supply and its slot. -/
structure SupplyReading where
  mint : Pubkey
  slot : ℕ
  supply : ℕ

/-- What the tick has read so far. -/
structure HaltReadings where
  custody : List CustodyReading
  anchor : Option ℕ
  supply : List SupplyReading
  envelope : Option (Pubkey → Option (ℤ × ℤ))

def HaltReadings.fresh : HaltReadings := ⟨[], none, [], none⟩

/-- The reads of a tick. -/
inductive TickRead
  | history
  | custody (mint : Pubkey)
  | anchor
  | supply (mint : Pubkey)
  | envelope

/-- The history goes on between the reads. A supply answered behind the anchor is not taken. -/
inductive TickStep :
    TransferWorld × HaltReadings → TickRead → TransferWorld × HaltReadings → Prop
  | history {w w' : TransferWorld} {t : HaltReadings} (h : TransferStep w w') :
      TickStep (w, t) .history (w', t)
  | custody {w : TransferWorld} {t : HaltReadings} {mint : Pubkey} {slot balance : ℕ}
      (hphase : t.anchor = none ∧ t.envelope = none) (hnew : ∀ c ∈ t.custody, c.mint ≠ mint)
      (hslot : slot < w.solanaSlot) (hbalance : (balance : ℤ) = w.custodyAt mint slot)
      (hfits : balance < 2 ^ 64) :
      TickStep (w, t) (.custody mint)
        (w, { t with custody := t.custody ++ [⟨mint, slot, balance⟩] })
  | anchor {w : TransferWorld} {t : HaltReadings} {slot : ℕ}
      (hphase : t.anchor = none ∧ t.envelope = none) (hslot : slot < w.channelSlot) :
      TickStep (w, t) .anchor (w, { t with anchor := some slot })
  | supply {w : TransferWorld} {t : HaltReadings} {mint : Pubkey} {anchor slot supply : ℕ}
      (hphase : t.anchor = some anchor ∧ t.envelope = none) (hfresh : anchor ≤ slot)
      (hslot : slot < w.channelSlot) (hmint : ∃ c ∈ t.custody, c.mint = mint)
      (hnew : ∀ s ∈ t.supply, s.mint ≠ mint) (hsupply : (supply : ℤ) = w.supplyAt mint slot)
      (hfits : supply < 2 ^ 64) :
      TickStep (w, t) (.supply mint) (w, { t with supply := t.supply ++ [⟨mint, slot, supply⟩] })
  | envelope {w : TransferWorld} {t : HaltReadings} (hphase : t.envelope = none) :
      TickStep (w, t) .envelope (w, { t with
        envelope := some (fetchInFlightEnvelope w.rows
          (envelopeBounds (t.custody.map (·.slot)) t.anchor).1
          (envelopeBounds (t.custody.map (·.slot)) t.anchor).2) })

/-- The supply arm's verdict on a mint. -/
def HaltReadings.verdict (t : HaltReadings) (envelope : Pubkey → Option (ℤ × ℤ)) (tolerance : ℕ)
    (mint : Pubkey) : Option InsolvencyBreach :=
  match t.supply.find? (·.mint = mint) with
  | none => none
  | some s =>
    let c := ((t.custody.find? (·.mint = mint)).map (·.balance)).getD 0
    let env := ((envelope mint).map fun row => envelopeToU64 row.1).getD 0
    let adj := ((envelope mint).map fun row => envelopeToU64 row.2).getD 0
    evaluateInsolvency c s.supply (saturatingAdd env adj) tolerance

section History

variable {w w' : TransferWorld} {mint : Pubkey} {slot : ℕ}

/-- A mint follows its deposit's row. -/
def DepositRecord.Ordered (d : DepositRecord) : Prop := d.minted ≠ none → d.status ≠ none

/-- A release follows the row and excludes a refund, which follows the burn. -/
structure WithdrawalRecord.Ordered (channelSlot : ℕ) (x : WithdrawalRecord) : Prop where
  released : x.released ≠ none → x.status ≠ none ∧ x.reminted = none
  burned : x.burned ≤ channelSlot
  reminted : ∀ slot, x.reminted = some slot → x.burned ≤ slot

/-- Every transfer's steps are in order. -/
structure TransferWorld.Ordered (w : TransferWorld) : Prop where
  deposits : ∀ d ∈ w.deposits, d.Ordered
  withdrawals : ∀ x ∈ w.withdrawals, x.Ordered w.channelSlot

variable {α : Type*}

variable {l before after : List α}

theorem mem_of_split {a : α} (hl : l = before ++ a :: after) :
    a ∈ l := hl ▸ List.mem_append_right _ List.mem_cons_self

/-- Every transfer stays in order. -/
theorem TransferStep.ordered (h : TransferStep w w') (hw : w.Ordered) : w'.Ordered := by
  cases h with
  | deposit => exact ⟨forall_mem_snoc hw.deposits fun h => absurd rfl h, hw.withdrawals⟩
  | writeDeposit hdeposits =>
    exact ⟨forall_mem_replace hdeposits hw.deposits fun _ => nofun, hw.withdrawals⟩
  | mint hdeposits hrow hnew =>
    exact ⟨forall_mem_replace hdeposits hw.deposits fun _ => hrow, hw.withdrawals⟩
  | burn =>
    exact ⟨hw.deposits, forall_mem_snoc hw.withdrawals ⟨fun h => absurd rfl h, le_rfl, nofun⟩⟩
  | writeWithdrawal hwithdrawals =>
    have hx := hw.withdrawals _ (mem_of_split hwithdrawals)
    exact ⟨hw.deposits, forall_mem_replace hwithdrawals hw.withdrawals
      ⟨fun h => ⟨nofun, (hx.released h).2⟩, hx.burned, hx.reminted⟩⟩
  | release hwithdrawals hrow hnew hexcluded =>
    have hx := hw.withdrawals _ (mem_of_split hwithdrawals)
    exact ⟨hw.deposits, forall_mem_replace hwithdrawals hw.withdrawals
      ⟨fun _ => ⟨hrow, hexcluded⟩, hx.burned, hx.reminted⟩⟩
  | remint hwithdrawals hnew hexcluded =>
    have hx := hw.withdrawals _ (mem_of_split hwithdrawals)
    exact ⟨hw.deposits, forall_mem_replace hwithdrawals hw.withdrawals
      ⟨fun h => absurd hexcluded h, hx.burned, fun slot h => Option.some.inj h ▸ hx.burned⟩⟩
  | closeChannel hslot =>
    refine ⟨hw.deposits, fun x hx => ?_⟩
    obtain ⟨hreleased, hburned, hreminted⟩ := hw.withdrawals x hx
    exact ⟨hreleased, hburned.trans hslot.le, hreminted⟩
  | _ => exact ⟨hw.deposits, hw.withdrawals⟩

/-- An event at the slot being filled is in no closed slot's balance. -/
theorem countBy_open {owner : Pubkey} {amount open' : ℕ} (h : slot < open') :
    countBy mint slot owner amount (some open') = 0 := by
  unfold countBy
  rw [if_neg]
  rintro ⟨-, hle⟩
  exact absurd (of_decide_eq_true hle) (not_le.mpr h)

theorem countBy_none {owner : Pubkey} {amount : ℕ} : countBy mint slot owner amount none = 0 := by
  simp [countBy]

theorem countBy_new {owner : Pubkey} {amount open' : ℕ} {at' : Option ℕ} (h : slot < open')
    (hnew : at' = none) :
    countBy mint slot owner amount (some open') = countBy mint slot owner amount at' := by
  rw [hnew, countBy_open h, countBy_none]

theorem sum_snoc {f : α → ℕ} {a : α} (h : f a = 0) :
    ((l ++ [a]).map f).sum = (l.map f).sum := by
  simp [h]

theorem sum_replace {f : α → ℕ} {a b : α} (hl : l = before ++ a :: after) (h : f b = f a) :
    ((before ++ b :: after).map f).sum = (l.map f).sum := by
  simp [hl, h]

/-- The history never changes a closed slot. -/
structure Settled (w w' : TransferWorld) : Prop where
  solana : w.solanaSlot ≤ w'.solanaSlot
  channel : w.channelSlot ≤ w'.channelSlot
  deposited : ∀ mint, ∀ slot < w.solanaSlot, w'.deposited mint slot = w.deposited mint slot
  donated : ∀ mint, ∀ slot < w.solanaSlot, w'.donated mint slot = w.donated mint slot
  released : ∀ mint, ∀ slot < w.solanaSlot, w'.released mint slot = w.released mint slot
  minted : ∀ mint, ∀ slot < w.channelSlot, w'.minted mint slot = w.minted mint slot
  burned : ∀ mint, ∀ slot < w.channelSlot, w'.burned mint slot = w.burned mint slot
  reminted : ∀ mint, ∀ slot < w.channelSlot, w'.reminted mint slot = w.reminted mint slot

theorem Settled.refl (w : TransferWorld) : Settled w w :=
  ⟨le_rfl, le_rfl, fun _ _ _ => rfl, fun _ _ _ => rfl, fun _ _ _ => rfl, fun _ _ _ => rfl,
    fun _ _ _ => rfl, fun _ _ _ => rfl⟩

/-- What is settled stays so. -/
theorem TransferStep.settled (h : TransferStep w w') : Settled w w' := by
  have hsame := Settled.refl w
  cases h with
  | deposit =>
    exact { hsame with
      deposited := fun _ _ hslot => sum_snoc (countBy_open hslot)
      minted := fun _ _ _ => sum_snoc countBy_none }
  | donate => exact { hsame with donated := fun _ _ hslot => sum_snoc (countBy_open hslot) }
  | writeDeposit hdeposits =>
    exact { hsame with
      deposited := fun _ _ _ => sum_replace hdeposits rfl
      minted := fun _ _ _ => sum_replace hdeposits rfl }
  | mint hdeposits hrow hnew =>
    exact { hsame with
      deposited := fun _ _ _ => sum_replace hdeposits rfl
      minted := fun _ _ hslot => sum_replace hdeposits (countBy_new hslot hnew) }
  | burn =>
    exact { hsame with
      released := fun _ _ _ => sum_snoc countBy_none
      burned := fun _ _ hslot => sum_snoc (countBy_open hslot)
      reminted := fun _ _ _ => sum_snoc countBy_none }
  | writeWithdrawal hwithdrawals =>
    exact { hsame with
      released := fun _ _ _ => sum_replace hwithdrawals rfl
      burned := fun _ _ _ => sum_replace hwithdrawals rfl
      reminted := fun _ _ _ => sum_replace hwithdrawals rfl }
  | release hwithdrawals hrow hnew hexcluded =>
    exact { hsame with
      released := fun _ _ hslot => sum_replace hwithdrawals (countBy_new hslot hnew)
      burned := fun _ _ _ => sum_replace hwithdrawals rfl
      reminted := fun _ _ _ => sum_replace hwithdrawals rfl }
  | remint hwithdrawals hnew hexcluded =>
    exact { hsame with
      released := fun _ _ _ => sum_replace hwithdrawals rfl
      burned := fun _ _ _ => sum_replace hwithdrawals rfl
      reminted := fun _ _ hslot => sum_replace hwithdrawals (countBy_new hslot hnew) }
  | closeSolana hslot => exact { hsame with solana := hslot.le }
  | closeChannel hslot => exact { hsame with channel := hslot.le }

theorem Settled.custodyAt (h : Settled w w') (hslot : slot < w.solanaSlot) :
    w'.custodyAt mint slot = w.custodyAt mint slot := by
  unfold TransferWorld.custodyAt
  rw [h.deposited mint slot hslot, h.donated mint slot hslot, h.released mint slot hslot]

theorem Settled.supplyAt (h : Settled w w') (hslot : slot < w.channelSlot) :
    w'.supplyAt mint slot = w.supplyAt mint slot := by
  unfold TransferWorld.supplyAt
  rw [h.minted mint slot hslot, h.burned mint slot hslot, h.reminted mint slot hslot]

end History

section Cover

variable {w : TransferWorld} {mint : Pubkey} {depositsAfter withdrawalsAfter : Option ℕ}
  {custodySlot supplySlot : ℕ}

/-- What a record's row adds to the mint's envelope and adjustment. -/
def countedRow (depositsAfter withdrawalsAfter : Option ℕ) (mint : Pubkey)
    (row : Option InFlightRow) : ℕ :=
  row.elim 0 fun row =>
    if inFlightRow depositsAfter withdrawalsAfter row ∧ row.mint = mint then row.amount else 0

/-- The envelope counts row by row. -/
theorem sum_inFlightRowsOf (w : TransferWorld) (depositsAfter withdrawalsAfter : Option ℕ)
    (mint : Pubkey) :
    ((inFlightRowsOf w.rows depositsAfter withdrawalsAfter mint).map (·.amount)).sum =
      (w.deposits.map fun d => countedRow depositsAfter withdrawalsAfter mint d.row).sum +
        (w.withdrawals.map fun x => countedRow depositsAfter withdrawalsAfter mint x.row).sum := by
  have hrows : ∀ rows : List InFlightRow,
      ((inFlightRowsOf rows depositsAfter withdrawalsAfter mint).map (·.amount)).sum =
        (rows.map fun row => countedRow depositsAfter withdrawalsAfter mint (some row)).sum := by
    intro rows
    rw [inFlightRowsOf, List.filter_filter, sum_map_filter]
    refine congrArg List.sum (List.map_congr_left fun row _ => ?_)
    simp only [countedRow, Option.elim_some, Bool.and_eq_true, decide_eq_true_eq]
    exact if_congr and_comm rfl rfl
  rw [hrows, TransferWorld.rows, List.map_append, List.sum_append, sum_map_filterMap,
    sum_map_filterMap]
  rfl

/-- A deposit the supply shows and custody misses has a row above the custody slot. -/
theorem DepositRecord.covered {d : DepositRecord} (hd : d.Ordered) {bound : ℕ}
    (hbound : bound ≤ custodySlot) :
    countBy mint supplySlot d.mint d.amount d.minted ≤
      countBy mint custodySlot d.mint d.amount (some d.slot) +
        countedRow (some bound) withdrawalsAfter mint d.row := by
  by_cases hminted : d.mint = mint ∧ d.minted.any (· ≤ supplySlot) = true
  · by_cases hslot : d.slot ≤ custodySlot
    · have hcustody : countBy mint custodySlot d.mint d.amount (some d.slot) = d.amount :=
        if_pos ⟨hminted.1, decide_eq_true hslot⟩
      have hsupply : countBy mint supplySlot d.mint d.amount d.minted = d.amount := if_pos hminted
      omega
    · have hsome : d.minted ≠ none := by
        intro hnone
        rw [hnone] at hminted
        exact absurd hminted.2 Bool.false_ne_true
      obtain ⟨status, hstatus⟩ := Option.ne_none_iff_exists'.mp (hd hsome)
      have habove : aboveBound .deposit (some bound)
          ⟨d.mint, d.amount, d.slot, .deposit, status⟩ = true := by
        simp only [aboveBound, Option.any_some, Bool.and_eq_true, decide_eq_true_eq, true_and]
        omega
      have hrow : countedRow (some bound) withdrawalsAfter mint d.row = d.amount := by
        rw [DepositRecord.row, hstatus]
        refine if_pos ⟨?_, hminted.1⟩
        rw [inFlightRow, habove, Bool.or_true, Bool.true_or]
      have hsupply : countBy mint supplySlot d.mint d.amount d.minted = d.amount := if_pos hminted
      omega
  · have hsupply : countBy mint supplySlot d.mint d.amount d.minted = 0 := if_neg hminted
    omega

/-- A release custody shows and whose burn the supply misses has a row above the anchor. -/
theorem WithdrawalRecord.covered {x : WithdrawalRecord} {channelSlot : ℕ}
    (hx : x.Ordered channelSlot) {anchor : ℕ} (hanchor : anchor ≤ supplySlot) :
    countBy mint custodySlot x.mint x.amount x.released +
        countBy mint supplySlot x.mint x.amount x.reminted ≤
      countBy mint supplySlot x.mint x.amount (some x.burned) +
        countedRow depositsAfter (some anchor) mint x.row := by
  by_cases hmint : x.mint = mint
  · by_cases hreleased : x.released = none
    · rw [hreleased, countBy_none]
      cases hreminted : x.reminted with
      | none =>
        rw [countBy_none]
        omega
      | some slot =>
        have hburned := hx.reminted slot hreminted
        by_cases hslot : slot ≤ supplySlot
        · have hburn : countBy mint supplySlot x.mint x.amount (some x.burned) = x.amount :=
            if_pos ⟨hmint, decide_eq_true (hburned.trans hslot)⟩
          have hremint : countBy mint supplySlot x.mint x.amount (some slot) = x.amount :=
            if_pos ⟨hmint, decide_eq_true hslot⟩
          omega
        · rw [countBy_open (not_le.mp hslot)]
          omega
    · obtain ⟨hrow, hreminted⟩ := hx.released hreleased
      have hle : countBy mint custodySlot x.mint x.amount x.released ≤ x.amount := by
        unfold countBy
        split <;> omega
      rw [hreminted, countBy_none]
      by_cases hburned : x.burned ≤ supplySlot
      · have hburn : countBy mint supplySlot x.mint x.amount (some x.burned) = x.amount :=
          if_pos ⟨hmint, decide_eq_true hburned⟩
        omega
      · obtain ⟨status, hstatus⟩ := Option.ne_none_iff_exists'.mp hrow
        have habove : aboveBound .withdrawal (some anchor)
            ⟨x.mint, x.amount, x.burned, .withdrawal, status⟩ = true := by
          simp only [aboveBound, Option.any_some, Bool.and_eq_true, decide_eq_true_eq, true_and]
          omega
        have hcounted : countedRow depositsAfter (some anchor) mint x.row = x.amount := by
          rw [WithdrawalRecord.row, hstatus]
          refine if_pos ⟨?_, hmint⟩
          rw [inFlightRow, habove, Bool.or_true]
        omega
  · have hnone : ∀ slot at', countBy mint slot x.mint x.amount at' = 0 := fun slot at' =>
      if_neg fun h => hmint h.1
    rw [hnone, hnone]
    omega

theorem sum_le_sum_add {l : List α} {f g h : α → ℕ} (hle : ∀ a ∈ l, f a ≤ g a + h a) :
    (l.map f).sum ≤ (l.map g).sum + (l.map h).sum := by
  rw [← List.sum_map_add]
  exact List.sum_le_sum hle

/-- Supply is at most custody and what the rows explain. -/
theorem TransferWorld.Ordered.supply_le (hw : w.Ordered) {bound anchor : ℕ}
    (hbound : bound ≤ custodySlot) (hanchor : anchor ≤ supplySlot) :
    w.supplyAt mint supplySlot ≤ w.custodyAt mint custodySlot +
      ((inFlightRowsOf w.rows (some bound) (some anchor) mint).map (·.amount)).sum := by
  have hdeposits : (w.deposits.map fun d => countBy mint supplySlot d.mint d.amount d.minted).sum ≤
      (w.deposits.map fun d => countBy mint custodySlot d.mint d.amount (some d.slot)).sum +
        (w.deposits.map fun d => countedRow (some bound) (some anchor) mint d.row).sum :=
    sum_le_sum_add fun d hd => DepositRecord.covered (hw.deposits d hd) hbound
  have hwithdrawals : (w.withdrawals.map fun x =>
        countBy mint custodySlot x.mint x.amount x.released +
          countBy mint supplySlot x.mint x.amount x.reminted).sum ≤
      (w.withdrawals.map fun x => countBy mint supplySlot x.mint x.amount (some x.burned)).sum +
        (w.withdrawals.map fun x => countedRow (some bound) (some anchor) mint x.row).sum :=
    sum_le_sum_add fun x hx => WithdrawalRecord.covered (hw.withdrawals x hx) hanchor
  rw [List.sum_map_add] at hwithdrawals
  rw [sum_inFlightRowsOf]
  unfold TransferWorld.supplyAt TransferWorld.custodyAt TransferWorld.minted TransferWorld.deposited
    TransferWorld.released TransferWorld.reminted TransferWorld.burned
  omega

end Cover

/-- Before anything happened. -/
def emptyTransfers : TransferWorld := ⟨[], [], [], 0, 0⟩

/-- The readings are of closed slots, and once the rows are read no mint is in breach. -/
structure TickInv (s : TransferWorld × HaltReadings) : Prop where
  ordered : s.1.Ordered
  custody : ∀ c ∈ s.2.custody,
    c.slot < s.1.solanaSlot ∧ (c.balance : ℤ) = s.1.custodyAt c.mint c.slot
  supply : ∀ r ∈ s.2.supply, r.slot < s.1.channelSlot ∧
    (r.supply : ℤ) = s.1.supplyAt r.mint r.slot ∧ r.supply < 2 ^ 64 ∧
    (∃ anchor, s.2.anchor = some anchor ∧ anchor ≤ r.slot) ∧ ∃ c ∈ s.2.custody, c.mint = r.mint
  verdict : ∀ envelope, s.2.envelope = some envelope →
    ∀ mint tolerance, s.2.verdict envelope tolerance mint = none

theorem TickInv.initial : TickInv (emptyTransfers, HaltReadings.fresh) where
  ordered := ⟨nofun, nofun⟩
  custody := nofun
  supply := nofun
  verdict := nofun

/-- Saturated sums only widen the allowance, and no gap is above `u64::MAX`. -/
theorem evaluateInsolvency_eq_none {custody supply env adj tolerance : ℕ}
    (h : supply ≤ custody + (env + adj)) (hfits : supply < 2 ^ 64) :
    evaluateInsolvency custody supply
      (saturatingAdd (min env (2 ^ 64 - 1)) (min adj (2 ^ 64 - 1))) tolerance = none := by
  unfold evaluateInsolvency saturatingAdd
  refine if_neg ?_
  omega

/-- The verdict at the moment the rows are read. -/
theorem TickInv.verdict_read {w : TransferWorld} {t : HaltReadings} (h : TickInv (w, t))
    (mint : Pubkey) (tolerance : ℕ) :
    t.verdict (fetchInFlightEnvelope w.rows (envelopeBounds (t.custody.map (·.slot)) t.anchor).1
      (envelopeBounds (t.custody.map (·.slot)) t.anchor).2) tolerance mint = none := by
  unfold HaltReadings.verdict
  cases hsupply : t.supply.find? (·.mint = mint) with
  | none => rfl
  | some r =>
    have hfound := List.find?_some hsupply
    have hmint : r.mint = mint := of_decide_eq_true hfound
    obtain ⟨hslot, hvalue, hfits, ⟨anchor, hanchor, hfresh⟩, c', hc', hcmint'⟩ :=
      h.supply r (List.mem_of_find?_eq_some hsupply)
    have hread : (t.custody.find? (·.mint = mint)).isSome :=
      List.find?_isSome.mpr ⟨c', hc', decide_eq_true (hcmint'.trans hmint)⟩
    obtain ⟨c, hcustody⟩ := Option.isSome_iff_exists.mp hread
    have hc := List.mem_of_find?_eq_some hcustody
    have hcfound := List.find?_some hcustody
    have hcmint : c.mint = mint := of_decide_eq_true hcfound
    obtain ⟨-, hbalance⟩ := h.custody c hc
    have hslots : c.slot ∈ t.custody.map (·.slot) := List.mem_map.mpr ⟨c, hc, rfl⟩
    obtain ⟨bound, hmin⟩ := Option.isSome_iff_exists.mp
      (List.isSome_min?_of_mem hslots)
    have hbound : bound ≤ c.slot := (List.min?_eq_some_iff.mp hmin).2 c.slot hslots
    have hle : w.supplyAt mint r.slot ≤ w.custodyAt mint c.slot +
        ((inFlightRowsOf w.rows (some bound) (some anchor) mint).map (·.amount)).sum :=
      h.ordered.supply_le hbound hfresh
    rw [← envelopeSum_add_adjustmentSum] at hle
    rw [hmint] at hvalue
    rw [hcmint] at hbalance
    dsimp only at hvalue hbalance
    have hbounds : envelopeBounds (t.custody.map (·.slot)) t.anchor = (some bound, some anchor) :=
      Prod.ext hmin hanchor
    obtain ⟨henv, hadj⟩ := envelope_getD w.rows (some bound) (some anchor) mint
    simp only [hbounds, henv, hadj, hcustody, Option.map_some, Option.getD_some]
    refine evaluateInsolvency_eq_none ?_ hfits
    omega

/-- Every read keeps the invariant. -/
theorem TickStep.inv {s s' : TransferWorld × HaltReadings} {read : TickRead} (h : TickInv s)
    (hstep : TickStep s read s') : TickInv s' := by
  cases hstep with
  | @history w w' t hstep =>
    have hsettled := hstep.settled
    refine ⟨hstep.ordered h.ordered, fun c hc => ?_, fun r hr => ?_, h.verdict⟩
    · obtain ⟨hslot, hbalance⟩ := h.custody c hc
      exact ⟨hslot.trans_le hsettled.solana, hbalance.trans (hsettled.custodyAt hslot).symm⟩
    · obtain ⟨hslot, hvalue, hrest⟩ := h.supply r hr
      exact ⟨hslot.trans_le hsettled.channel, hvalue.trans (hsettled.supplyAt hslot).symm, hrest⟩
  | @custody w t mint slot balance hphase hnew hslot hbalance hfits =>
    refine ⟨h.ordered, forall_mem_snoc h.custody ⟨hslot, hbalance⟩, fun r hr => ?_, ?_⟩
    · obtain ⟨hrslot, hvalue, hfits, hanchor, c, hc, hmint⟩ := h.supply r hr
      exact ⟨hrslot, hvalue, hfits, hanchor, c, List.mem_append_left _ hc, hmint⟩
    · intro envelope henvelope
      cases hphase.2.symm.trans henvelope
  | @anchor w t slot hphase hslot =>
    refine ⟨h.ordered, h.custody, fun r hr => ?_, ?_⟩
    · obtain ⟨-, -, -, ⟨anchor, hanchor, -⟩, -⟩ := h.supply r hr
      cases hphase.1.symm.trans hanchor
    · intro envelope henvelope
      cases hphase.2.symm.trans henvelope
  | @supply w t mint anchor slot supply hphase hfresh hslot hmint hnew hsupply hfits =>
    refine ⟨h.ordered, h.custody, ?_, ?_⟩
    · exact forall_mem_snoc h.supply ⟨hslot, hsupply, hfits, ⟨anchor, hphase.1, hfresh⟩, hmint⟩
    · intro envelope henvelope
      cases hphase.2.symm.trans henvelope
  | @envelope w t hphase =>
    refine ⟨h.ordered, h.custody, h.supply, ?_⟩
    rintro envelope henvelope mint tolerance
    cases henvelope
    exact h.verdict_read mint tolerance

/-- Whatever a healthy system does between the reads of a tick, no mint is in breach. -/
theorem healthy_tick_no_breach (reads : List TickRead) (w : TransferWorld) (t : HaltReadings)
    (envelope : Pubkey → Option (ℤ × ℤ))
    (hrun : Run TickStep (emptyTransfers, HaltReadings.fresh) reads (w, t))
    (henvelope : t.envelope = some envelope) (mint : Pubkey) (tolerance : ℕ) :
    t.verdict envelope tolerance mint = none :=
  (hrun.stateInvariant (P := TickInv) TickInv.initial fun _ _ _ h hstep => hstep.inv h).verdict
    envelope henvelope mint tolerance

/-- Custody shows a release whose burn the supply, read at a lagging anchor, does not. -/
theorem healthy_tick_no_breach_lagging :
    ∃ (reads : List TickRead) (w : TransferWorld) (t : HaltReadings)
      (envelope : Pubkey → Option (ℤ × ℤ)),
      Run TickStep (emptyTransfers, HaltReadings.fresh) reads (w, t) ∧ t.envelope = some envelope ∧
        t.supply.map (·.supply) = [100] ∧ t.custody.map (·.balance) = [60] ∧
          t.verdict envelope 0 ⟨1⟩ = none := by
  have h1 := Run.nil.snoc (TickStep.history (t := .fresh)
    (@TransferStep.deposit emptyTransfers ⟨1⟩ 100))
  have h2 := h1.snoc (TickStep.history (@TransferStep.writeDeposit _ [] [] _ .pending rfl))
  have h3 := h2.snoc (TickStep.history (@TransferStep.mint _ [] [] _ rfl nofun rfl))
  have h4 := h3.snoc (TickStep.history (@TransferStep.closeChannel _ 1 Nat.zero_lt_one))
  have h5 := h4.snoc (TickStep.history (@TransferStep.burn _ ⟨1⟩ 40))
  have h6 := h5.snoc (TickStep.history (@TransferStep.writeWithdrawal _ [] [] _ .pending rfl))
  have h7 := h6.snoc (TickStep.history (@TransferStep.release _ [] [] _ rfl nofun rfl rfl))
  have h8 := h7.snoc (TickStep.history (@TransferStep.closeSolana _ 1 Nat.zero_lt_one))
  have h9 := h8.snoc (@TickStep.custody _ _ ⟨1⟩ 0 60 ⟨rfl, rfl⟩ nofun Nat.zero_lt_one rfl
    (by norm_num))
  have h10 := h9.snoc (@TickStep.anchor _ _ 0 ⟨rfl, rfl⟩ Nat.zero_lt_one)
  have h11 := h10.snoc (@TickStep.supply _ _ ⟨1⟩ 0 0 100 ⟨rfl, rfl⟩ (Nat.le_refl 0) Nat.zero_lt_one
    ⟨_, List.mem_singleton_self _, rfl⟩ nofun rfl (by norm_num))
  have h12 := h11.snoc (@TickStep.envelope _ _ rfl)
  exact ⟨_, _, _, _, h12, rfl, rfl, rfl, healthy_tick_no_breach _ _ _ _ h12 rfl ⟨1⟩ 0⟩

end PrivateChannels.Operator
