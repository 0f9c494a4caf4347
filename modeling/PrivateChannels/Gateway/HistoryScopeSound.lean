import PrivateChannels.Core.SignaturesForAddress
import PrivateChannels.Gateway.OwnershipHistory

/-!
# The scope of a history page

The ranges are the slots of the caller's own tenures, with two exceptions: a handoff at
the largest `i64` leaves no slot after it, and where no handoff is recorded, bytes older
than the slot they were fetched at can hide one.
-/

namespace PrivateChannels.Gateway

/-- The slot lies in one of the windows. -/
def Covers (ranges : SlotRanges) (slot : ℤ) : Prop :=
  ∃ range ∈ ranges, range.1 ≤ slot ∧ slot ≤ range.2

variable {slot : ℤ} {ranges : SlotRanges}

/-- Clipping keeps the covered slots. -/
theorem covers_clipToCoverage {coverage : OwnerChangeCoverage} :
    Covers (clipToCoverage ranges coverage) slot ↔
      Covers ranges slot ∧ coverage.indexedFrom ≤ slot ∧ slot ≤ coverage.tip := by
  constructor
  · rintro ⟨range, hmem, hfirst, hlast⟩
    obtain ⟨⟨first, last⟩, hin, hclip⟩ := List.mem_filterMap.mp hmem
    simp only [Option.ite_none_right_eq_some, Option.some.injEq] at hclip
    obtain ⟨-, rfl⟩ := hclip
    simp only [sup_le_iff, le_inf_iff] at hfirst hlast
    exact ⟨⟨(first, last), hin, hfirst.1, hlast.1⟩, hfirst.2, hlast.2⟩
  · rintro ⟨⟨⟨first, last⟩, hin, hfirst, hlast⟩, hfrom, htip⟩
    have hfirst' := sup_le hfirst hfrom
    have hlast' := le_inf hlast htip
    refine ⟨_, List.mem_filterMap.mpr ⟨_, hin, if_pos (hfirst'.trans hlast')⟩, hfirst', hlast'⟩

theorem covers_append {ranges' : SlotRanges} :
    Covers (ranges ++ ranges') slot ↔ Covers ranges slot ∨ Covers ranges' slot := by
  simp only [Covers, List.mem_append, or_and_right, exists_or]

theorem covers_nil : ¬ Covers [] slot :=
  fun ⟨_, hmem, _⟩ => absurd hmem List.not_mem_nil

theorem covers_singleton {first last : ℤ} :
    Covers [(first, last)] slot ↔ first ≤ slot ∧ slot ≤ last := by
  simp [Covers]

variable {changes : List OwnerChange} {owned : List Wallet}

/-- A slot lies in the window of one of the handoffs. -/
theorem covers_windowsAfter :
    Covers (windowsAfter owned changes) slot ↔
      ∃ before change later, changes = before ++ change :: later ∧
        saturatingSucc change.slot ≤ slot ∧ slot ≤ windowEnd later ∧ change.newOwner ∈ owned := by
  induction changes with
  | nil => simp [windowsAfter, covers_nil]
  | cons head rest ih =>
    have hcons : Covers (windowsAfter owned (head :: rest)) slot ↔
        (saturatingSucc head.slot ≤ slot ∧ slot ≤ windowEnd rest ∧ head.newOwner ∈ owned) ∨
          Covers (windowsAfter owned rest) slot := by
      rw [windowsAfter]
      split
      · next hopen =>
        rw [← List.singleton_append, covers_append, covers_singleton]
        simp [hopen.2]
      · next hclosed =>
        refine ⟨.inr, ?_⟩
        rintro (⟨hfirst, hlast, howned⟩ | hrest)
        · exact absurd ⟨hfirst.trans hlast, howned⟩ hclosed
        · exact hrest
    rw [hcons, ih]
    constructor
    · rintro (hhead | ⟨before, change, later, rfl, hwindow⟩)
      · exact ⟨[], head, rest, rfl, hhead⟩
      · exact ⟨head :: before, change, later, rfl, hwindow⟩
    · rintro ⟨before, change, later, heq, hwindow⟩
      rcases List.cons_eq_append_iff.mp heq with ⟨rfl, heq⟩ | ⟨before', rfl, rfl⟩
      · obtain ⟨rfl, rfl⟩ := List.cons.inj heq
        exact .inl hwindow
      · exact .inr ⟨before', change, later, rfl, hwindow⟩

theorem covers_headWindow {chainIsComplete : Bool} {first : OwnerChange}
    : Covers (headWindow owned chainIsComplete first) slot ↔
      chainIsComplete = true ∧ first.prevOwner ∈ owned ∧ 0 ≤ slot ∧
        slot ≤ saturatingPred first.slot := by
  unfold headWindow
  simp only
  split
  · next hopen => simp [covers_singleton, hopen.1, hopen.2.1]
  · next hclosed =>
    refine iff_of_false covers_nil ?_
    rintro ⟨hcomplete, howned, hfirst, hlast⟩
    exact hclosed ⟨hcomplete, howned, hfirst.trans hlast⟩

theorem covers_slotRangesForOwner {currentOwner : Wallet} {chainIsComplete : Bool} :
    Covers (slotRangesForOwner changes currentOwner owned chainIsComplete) slot ↔
      chainLinks changes currentOwner = true ∧
        ((∃ first, changes.head? = some first ∧
            Covers (headWindow owned chainIsComplete first) slot) ∨
          Covers (windowsAfter owned changes) slot) := by
  unfold slotRangesForOwner
  cases changes with
  | nil => simp [covers_nil, windowsAfter]
  | cons first rest =>
    simp only [List.head?_cons, Option.some.injEq, exists_eq_left']
    split
    · next hlinks => simp [covers_append, hlinks]
    · next hbroken => simp [covers_nil, hbroken]

/-- Below the largest slot a window starts after its handoff. -/
theorem saturatingSucc_le_iff {x : ℤ} (hx : x ≤ i64Max) :
    saturatingSucc slot ≤ x ↔ slot < x ∨ x = i64Max := by
  unfold saturatingSucc
  omega

theorem le_saturatingPred_iff {x : ℤ} (hslot : 0 ≤ slot) : x ≤ saturatingPred slot ↔ x < slot := by
  unfold saturatingPred
  omega

/-- The newest rows, which the gateway reads. -/
def rowsInHand (rows : List OwnerChangeRow) : List OwnerChangeRow :=
  rows.drop (rows.length - (maxOwnerChanges + 1))

/-- The handoffs the gateway reads. -/
def changesInHand (rows : List OwnerChangeRow) : List OwnerChange :=
  (rowsInHand rows).map (·.change)

/-- The slots the database and the fetched account vouch for. -/
def Covered (coverage : OwnerChangeCoverage) (fetchedSlot : ℕ) (slot : ℤ) : Prop :=
  (fetchedSlot : ℤ) ≤ i64Max ∧ coverage.indexedFrom ≤ slot ∧ slot ≤ min coverage.tip fetchedSlot

/-- The rows chain up to the current owner, or there are none and the address derives from
it. -/
def AccountsFor (programs : Programs) (data : List UInt8) (programOwner : ProgramOwner)
    (address : Wallet) (changes : List OwnerChange) : Prop :=
  if changes = [] then derivesAsOwnAta programs data programOwner (some address) = true
  else chainLinks changes (ownerField data) = true

section Scope

variable {programs : Programs} {reachable : Statement → Bool} {db : GatewayDb} {data : List UInt8}
  {programOwner : ProgramOwner} {address : Wallet} {fetchedSlot : ℕ} {history : OwnershipHistory}
  {rows : List OwnerChangeRow} {coverage : OwnerChangeCoverage} {ranges : SlotRanges} {x : ℤ}

/-- A candidate is one of the caller's wallets exactly when it is verified. -/
theorem mem_owned_iff {wallet : Wallet}
    (h : ∃ change ∈ changes, wallet = change.prevOwner ∨ wallet = change.newOwner) :
    wallet ∈ ownedWallets db
        (changes.flatMap fun change => [change.prevOwner, change.newOwner]).dedup ↔
      wallet ∈ db.verifiedWallets := by
  rw [mem_ownedWallets, List.mem_dedup, List.mem_flatMap]
  refine and_iff_left ?_
  simpa only [List.mem_cons, List.not_mem_nil, or_false] using h

theorem ask_cases {α : Type} (reachable : Statement → Bool) (statement : Statement) (answer : α) :
    ask reachable statement answer = .ok answer ∨
      ask reachable statement answer = .error .unavailable := by
  unfold ask
  cases reachable statement with
  | true => exact .inl rfl
  | false => exact .inr rfl

/-- The windows before they are clipped to the coverage. -/
def vouchedRanges (programs : Programs) (db : GatewayDb) (data : List UInt8)
    (programOwner : ProgramOwner) (address : Wallet) (changes : List OwnerChange) : SlotRanges :=
  if changes = [] then
    if derivesAsOwnAta programs data programOwner (some address) then [(0, i64Max)] else []
  else slotRangesForOwner changes (ownerField data)
    (ownedWallets db (changes.flatMap fun change => [change.prevOwner, change.newOwner]).dedup)
    (decide (changes.length ≤ maxOwnerChanges))

/-- Windows are handed out only where the rows account for the owner. -/
theorem accountsFor_of_covers
    (h : Covers (vouchedRanges programs db data programOwner address changes) slot) :
    AccountsFor programs data programOwner address changes := by
  unfold vouchedRanges at h
  unfold AccountsFor
  split at h
  · next hempty =>
    rw [if_pos hempty]
    split at h
    · next hderives => exact hderives
    · exact absurd h covers_nil
  · next hchanges =>
    rw [if_neg hchanges]
    exact (covers_slotRangesForOwner.mp h).1

/-- The ranges are the vouched ones, clipped. -/
theorem rangesOfChain_ok
    (h : rangesOfChain programs reachable db data programOwner (some address) changes coverage =
      .ok ranges) :
    ranges = clipToCoverage (vouchedRanges programs db data programOwner address changes)
      coverage := by
  unfold rangesOfChain at h
  unfold vouchedRanges
  split at h
  · next hempty =>
    rw [if_pos hempty]
    split at h
    · next hderives => cases h; rw [if_pos hderives]
    · next hmoved => cases h; rw [if_neg hmoved]; rfl
  · next hchanges =>
    rw [if_neg hchanges]
    simp only at h
    rcases ask_cases reachable .ownedWallets (ownedWallets db (changes.flatMap fun change =>
      [change.prevOwner, change.newOwner]).dedup) with hask | hask
    · rw [hask] at h
      cases h
      rfl
    · rw [hask] at h
      cases h

/-- A split of the handoffs in hand is a split of the rows. -/
theorem rows_of_changesInHand {before later : List OwnerChange} {change : OwnerChange}
    (h : changesInHand rows = before ++ change :: later) :
    ∃ rowsBefore row rowsLater, rows = rowsBefore ++ row :: rowsLater ∧ row.change = change ∧
      rowsLater.map (·.change) = later := by
  obtain ⟨inBefore, rest, hhand, -, hrest⟩ := List.map_eq_append_iff.mp h
  obtain ⟨row, rowsLater, rfl, hrow, hlater⟩ := List.map_eq_cons_iff.mp hrest
  refine ⟨rows.take (rows.length - (maxOwnerChanges + 1)) ++ inBefore, row, rowsLater, ?_,
    hrow, hlater⟩
  rw [List.append_assoc, ← hhand]
  exact (List.take_append_drop _ rows).symm

/-- The links around one handoff of a chain. -/
theorem chainLinks_around {before later : List OwnerChange} {change : OwnerChange}
    {current : Wallet} (h : chainLinks (before ++ change :: later) current = true) :
    (∀ next ∈ later.head?, change.newOwner = next.prevOwner) ∧
      (later = [] → change.newOwner = current) := by
  obtain ⟨hchain, hlast⟩ := of_decide_eq_true h
  refine ⟨fun next hnext => ?_, ?_⟩
  · obtain ⟨later', rfl⟩ := List.head?_eq_some_iff.mp hnext
    exact (List.isChain_cons_cons.mp (List.isChain_split.mp hchain).2).1
  · rintro rfl
    simpa using hlast

theorem lt_of_le_windowEnd {later : List OwnerChangeRow} (hslots : ∀ row ∈ later, 0 ≤ row.slot)
    (h : x ≤ windowEnd (later.map (·.change))) : ∀ next ∈ later.head?, x < next.slot := by
  intro next hnext
  obtain ⟨later', rfl⟩ := List.head?_eq_some_iff.mp hnext
  exact (le_saturatingPred_iff (hslots next List.mem_cons_self)).mp h

/-- The newest handoffs link up to the current owner, and one at the largest `i64` is by a
wallet that is not the caller's. -/
structure TopSlotHandoff (history : OwnershipHistory) (db : GatewayDb) (data : List UInt8)
    (rows : List OwnerChangeRow) (coverage : OwnerChangeCoverage) (fetchedSlot : ℕ) : Prop where
  tip : coverage.tip = i64Max
  fetched : (fetchedSlot : ℤ) = i64Max
  links : chainLinks (changesInHand rows) (ownerField data) = true
  handoff : ∃ move ∈ history.moves, move.position.slot = i64Max ∧ move.prev ∉ db.verifiedWallets

/-- No handoff is recorded from the watermark on and the older rows account for the owner in the
bytes, but a covered transaction ran under a wallet that is not the caller's: the bytes do not
show an unrecorded handoff. -/
structure StaleOwner (programs : Programs) (history : OwnershipHistory) (db : GatewayDb)
    (data : List UInt8) (programOwner : ProgramOwner) (address : Wallet)
    (rows : List OwnerChangeRow) (coverage : OwnerChangeCoverage) (fetchedSlot : ℕ) : Prop where
  uncovered : ∀ row ∈ rows, row.slot < coverage.indexedFrom
  accounted : AccountsFor programs data programOwner address (changesInHand rows)
  foreign : ∃ p ∈ history.ran, 0 ≤ p.slot ∧ Covered coverage fetchedSlot p.slot ∧
    history.valueBefore p ∉ db.verifiedWallets

/-- No transaction of another wallet's tenure is in the scope, it stays inside the coverage, it
holds every covered slot of the caller's tenures when the chain is complete and accounts for the
owner, and pages stay inside it. -/
structure ScopeLawful (programs : Programs) (history : OwnershipHistory) (db : GatewayDb)
    (data : List UInt8) (programOwner : ProgramOwner) (address : Wallet)
    (rows : List OwnerChangeRow) (coverage : OwnerChangeCoverage) (fetchedSlot : ℕ)
    (ranges : SlotRanges) : Prop where
  sound : ∀ p ∈ history.ran, Covers ranges p.slot → history.valueBefore p ∈ db.verifiedWallets
  covered : ∀ slot, Covers ranges slot →
    coverage.indexedFrom ≤ slot ∧ slot ≤ min coverage.tip fetchedSlot
  complete : rows.length ≤ maxOwnerChanges →
    AccountsFor programs data programOwner address (rows.map (·.change)) →
    ∀ slot, 0 ≤ slot → Covered coverage fetchedSlot slot → history.Undisturbed slot →
      history.ownerInto slot ∈ db.verifiedWallets → Covers ranges slot
  served : ∀ tables limit before untilSignature page,
    Core.getSignaturesForAddress tables address limit before untilSignature (some ranges) =
      .ok page →
    ∀ entry ∈ page, Covers ranges entry.slot ∧
      ∃ row ∈ tables.addressSignatures, row.address = address ∧ row.signature = entry.signature ∧
        row.slot = entry.slot

theorem verifiedOr_proceed {statement : Statement} {isOwned : Bool} {otherwise : AuthDecision}
    (h : verifiedOr reachable statement isOwned otherwise = .proceed) :
    isOwned = true ∨ otherwise = .proceed := by
  unfold verifiedOr at h
  rcases ask_cases reachable statement isOwned with hask | hask
  · rw [hask] at h
    cases isOwned with
    | true => exact .inl rfl
    | false => exact .inr h
  · rw [hask] at h
    cases h

/-- A history request is scoped only after its current owner was found to be the caller's. -/
theorem enforceAuth_scoped
    (h : enforceAuth programs reachable db .getSignaturesForAddress (some address)
      (.found data programOwner fetchedSlot) = .ok (some ranges)) :
    ownerField data ∈ db.verifiedWallets ∧
      resolveOwnedSlotRanges programs reachable db data programOwner (some address) fetchedSlot =
        .ok (some ranges) := by
  have hresolved : checkAccountDataOwnership programs reachable db data programOwner (some address)
        .getSignaturesForAddress = .proceed ∧
      resolveOwnedSlotRanges programs reachable db data programOwner (some address) fetchedSlot =
        .ok (some ranges) := by
    unfold enforceAuth at h
    simp only at h
    split at h
    · cases h
    · next hproceed =>
      simp only [Method.isOwnerOnly, if_true] at h
      split at h
      · next hranges =>
        cases h
        exact ⟨hproceed, hranges⟩
      · cases h
  obtain ⟨hproceed, hranges⟩ := hresolved
  refine ⟨?_, hranges⟩
  have htoken : programOwner.isTokenProgram = true := by
    unfold resolveOwnedSlotRanges at hranges
    split at hranges
    · cases hranges
    · next htoken =>
      have hboth : programOwner.isTokenProgram = true ∧ isTokenAccount data = true := by
        simpa using htoken
      exact hboth.1
  have hcheck :
      checkTokenAccountOwnership reachable db data .getSignaturesForAddress = .proceed := by
    cases programOwner with
    | dvpSwap => cases htoken
    | other => cases htoken
    | _ => exact hproceed
  unfold checkTokenAccountOwnership at hcheck
  split at hcheck
  · cases hcheck
  · rcases verifiedOr_proceed hcheck with howned | hnever
    · exact of_decide_eq_true howned
    · cases hnever

theorem changesInHand_eq_nil : changesInHand rows = [] ↔ rows = [] := by
  unfold changesInHand rowsInHand maxOwnerChanges
  rw [List.map_eq_nil_iff, List.drop_eq_nil_iff]
  refine ⟨fun hle => List.length_eq_zero_iff.mp (by omega), ?_⟩
  rintro rfl
  exact Nat.zero_le _

/-- A short chain is in hand as a whole. -/
theorem changesInHand_of_length_le (h : rows.length ≤ maxOwnerChanges) :
    changesInHand rows = rows.map (·.change) := by
  unfold changesInHand rowsInHand
  rw [Nat.sub_eq_zero_of_le (by omega), List.drop_zero]

/-- Conversely, only a short chain is in hand as a whole. -/
theorem rows_length_le (h : (changesInHand rows).length ≤ maxOwnerChanges) :
    rows.length ≤ maxOwnerChanges := by
  unfold changesInHand rowsInHand at h
  rw [List.length_map, List.length_drop] at h
  omega

/-- A slot no row is at falls between two of them. -/
theorem exists_split_at (rows : List OwnerChangeRow) (hoff : ∀ row ∈ rows, row.slot ≠ x) :
    ∃ before later, rows = before ++ later ∧ (∀ row ∈ before, row.slot < x) ∧
      ∀ next ∈ later.head?, x < next.slot := by
  refine ⟨rows.takeWhile (·.slot < x), rows.dropWhile (·.slot < x),
    List.takeWhile_append_dropWhile.symm, fun row hrow => ?_, fun next hnext => ?_⟩
  · have hall := List.all_eq_true.mp (List.all_takeWhile (p := (·.slot < x)) (l := rows)) row hrow
    exact of_decide_eq_true hall
  · have hmem := List.dropWhile_sublist _ |>.subset (List.mem_of_mem_head? hnext)
    obtain ⟨later, hlater⟩ := List.head?_eq_some_iff.mp hnext
    have hnot := List.head_dropWhile_not (l := rows)
      (fun row : OwnerChangeRow => decide (row.slot < x)) (by simp [hlater])
    simp only [hlater, List.head_cons, decide_eq_false_iff_not, not_lt] at hnot
    exact lt_of_le_of_ne hnot (hoff next hmem).symm

variable (h : Recorded history db address rows coverage)
include h

/-- The gateway reads the newest rows. -/
theorem Recorded.chain :
    ownerChain db address (maxOwnerChanges + 1) = ⟨some coverage, changesInHand rows⟩ := by
  have hcoverage := ownerChain_coverage db address (maxOwnerChanges + 1)
  have hchanges := ownerChain_changes db address (maxOwnerChanges + 1)
  rw [h.decoded] at hcoverage
  rw [chainRows_reverse _ h.stored h.ordered] at hchanges
  cases hchain : ownerChain db address (maxOwnerChanges + 1) with
  | mk coverage' changes' =>
    rw [hchain] at hcoverage hchanges
    cases hcoverage
    cases hchanges
    rfl

/-- The slots of the resolved ranges. -/
theorem covers_resolved
    (hranges : resolveOwnedSlotRanges programs reachable db data programOwner (some address)
      fetchedSlot = .ok (some ranges)) :
    Covers ranges x ↔ Covered coverage fetchedSlot x ∧
      Covers (vouchedRanges programs db data programOwner address (changesInHand rows)) x := by
  unfold resolveOwnedSlotRanges at hranges
  split at hranges
  · cases hranges
  · simp only [h.chain] at hranges
    split at hranges
    · next hpast =>
      cases hranges
      exact iff_of_false covers_nil fun hcovered => not_le.mpr hpast hcovered.1.1
    · next hledger =>
      rcases ask_cases reachable .ownerChain (⟨some coverage, changesInHand rows⟩ : OwnerChain)
        with hask | hask
      · rw [hask] at hranges
        simp only at hranges
        generalize hresult : rangesOfChain programs reachable db data programOwner (some address)
          (changesInHand rows) _ = result at hranges
        cases result with
        | error error => cases hranges
        | ok clipped =>
          cases hranges
          rw [rangesOfChain_ok hresult, covers_clipToCoverage, and_comm]
          simp [Covered, not_lt.mp hledger]
      · rw [hask] at hranges
        cases hranges

/-- A transaction of the newest slot ran under a wallet that handed on there or the current
owner. -/
theorem Recorded.valueBefore_top {before : List OwnerChangeRow} {row : OwnerChangeRow}
    (hrows : rows = before ++ [row]) (hslot : row.slot = i64Max)
    (howner : row.newOwner ∈ db.verifiedWallets)
    (hhandoffs : ∀ move ∈ history.moves, move.position.slot = i64Max →
      move.prev ∈ db.verifiedWallets) {p : Position} (hp : p.slot = i64Max) :
    history.valueBefore p ∈ db.verifiedWallets := by
  have hbounds := decodeCoverage_bounds h.decoded
  have hmem : row ∈ rows := by simp [hrows]
  have htip : coverage.tip = i64Max := le_antisymm hbounds.2
    (hslot.ge.trans (h.committed row hmem).2)
  have hmove := h.move_mem hmem (hbounds.1.trans hslot.ge)
  by_cases hafter : ∃ move ∈ history.moves, p ≤ move.position ∧ move.position.slot = i64Max
  · obtain ⟨move, hin, ⟨hle, htop⟩, hfirst⟩ := history.exists_first hafter
    have hvalue : history.valueBefore p = move.prev := by
      refine history.valueBefore_eq_prev hin hle fun other hother hge => ?_
      rcases eq_or_lt_of_le (Position.slot_mono hge) with heq | hlt
      · exact hfirst other hother ⟨hge, heq.symm.trans hp⟩
      · exact (Position.lt_iff.mpr (.inl (by omega))).le
    rw [hvalue]
    exact hhandoffs move hin htop
  · push Not at hafter
    have hrow : row.position < p := by
      by_contra hnot
      exact hafter row.move hmove (not_lt.mp hnot) hslot
    have hvalue : history.valueBefore p = row.newOwner := by
      refine history.valueWithin_eq_next hmove (decide_eq_true hrow) fun other hother hin => ?_
      refine h.move_le_last hrows (hbounds.1.trans hslot.ge) hother ?_
      have hle := Position.slot_mono (of_decide_eq_true hin).le
      omega
    rw [hvalue]
    exact howner

/-- Ranges hold no negative slot. -/
theorem Recorded.nonneg
    (hcovers :
      Covers (vouchedRanges programs db data programOwner address (changesInHand rows)) x) :
    0 ≤ x := by
  unfold vouchedRanges at hcovers
  split at hcovers
  · split at hcovers
    · exact (covers_singleton.mp hcovers).1
    · exact absurd hcovers covers_nil
  · rcases (covers_slotRangesForOwner.mp hcovers).2 with ⟨first, -, hhead⟩ | hafter
    · exact (covers_headWindow.mp hhead).2.2.1
    · obtain ⟨before, change, later, hsplit, hstart, -, -⟩ := covers_windowsAfter.mp hafter
      obtain ⟨rowsBefore, row, rowsLater, hrows, rfl, -⟩ := rows_of_changesInHand hsplit
      have hslot : 0 ≤ row.change.slot := (h.committed row (by simp [hrows])).1
      have hsucc : 0 ≤ saturatingSucc row.change.slot := by
        unfold saturatingSucc i64Max
        omega
      exact hsucc.trans hstart

/-- A covered slot lies between the watermark and the tip, which fits an `i64`. -/
theorem Recorded.covered_bounds (hcovered : Covered coverage fetchedSlot x) :
    coverage.indexedFrom ≤ x ∧ x ≤ coverage.tip ∧ x ≤ i64Max := by
  obtain ⟨-, hfrom, hcap⟩ := hcovered
  have htip := hcap.trans (min_le_left _ _)
  exact ⟨hfrom, htip, htip.trans (decodeCoverage_bounds h.decoded).2⟩

/-- With one row from the watermark on, the last one is. -/
theorem Recorded.last_covered {before later : List OwnerChangeRow} {newest row : OwnerChangeRow}
    (hnewest : newest ∈ rows) (hfrom : coverage.indexedFrom ≤ newest.slot)
    (hrows : rows = before ++ row :: later) : later = [] → coverage.indexedFrom ≤ row.slot := by
  rintro rfl
  exact hfrom.trans (Position.slot_mono (h.le_last hrows hnewest))

/-- With none, whoever the older rows account for is given every covered slot. -/
theorem Recorded.covers_uncovered (howner : ownerField data ∈ db.verifiedWallets)
    (huncovered : ∀ row ∈ rows, row.slot < coverage.indexedFrom)
    (haccounts : AccountsFor programs data programOwner address (changesInHand rows)) (hx : 0 ≤ x)
    (hcovered : Covered coverage fetchedSlot x) :
    Covers (vouchedRanges programs db data programOwner address (changesInHand rows)) x := by
  obtain ⟨hfrom, -, hmax⟩ := h.covered_bounds hcovered
  unfold AccountsFor at haccounts
  unfold vouchedRanges
  split at haccounts
  · next hempty =>
    rw [if_pos hempty, if_pos haccounts]
    exact covers_singleton.mpr ⟨hx, hmax⟩
  · next hchanges =>
    rw [if_neg hchanges]
    rcases List.eq_nil_or_concat (changesInHand rows) with hnil | ⟨before, change, hconcat⟩
    · exact absurd hnil hchanges
    · rw [List.concat_eq_append] at hconcat
      obtain ⟨rowsBefore, row, rowsLater, hrows, rfl, -⟩ := rows_of_changesInHand hconcat
      have hcurrent := (chainLinks_around (hconcat ▸ haccounts)).2 rfl
      have hrow := huncovered row (by simp [hrows])
      refine covers_slotRangesForOwner.mpr ⟨haccounts, .inr ?_⟩
      refine covers_windowsAfter.mpr ⟨_, _, _, hconcat, ?_, hmax, ?_⟩
      · exact (saturatingSucc_le_iff hmax).mpr (.inl (hrow.trans_le hfrom))
      · refine (mem_owned_iff ⟨row.change, by simp [hconcat], .inr rfl⟩).mpr ?_
        exact (congrArg (· ∈ db.verifiedWallets) hcurrent).mpr howner

/-- Bytes as new as the slot they were fetched at show the owner of every covered slot. -/
theorem Recorded.not_stale (hfetched : FetchedAt history coverage data fetchedSlot)
    (howner : ownerField data ∈ db.verifiedWallets) :
    ¬ StaleOwner programs history db data programOwner address rows coverage fetchedSlot := by
  rintro ⟨huncovered, -, p, -, -, ⟨-, hfrom, hcap⟩, hforeign⟩
  have hundisturbed := h.undisturbed hfrom (hcap.trans (min_le_left _ _)) fun row hrow =>
    ((huncovered row hrow).trans_le hfrom).ne
  rw [hundisturbed.valueBefore, h.ownerInto_fetched hfetched hfrom hcap huncovered] at hforeign
  exact hforeign howner

/-- No slot of another wallet's tenure is in the ranges. -/
theorem Recorded.sound (htop : ¬ TopSlotHandoff history db data rows coverage fetchedSlot)
    (hstale : ¬ StaleOwner programs history db data programOwner address rows coverage fetchedSlot)
    {p : Position} (hran : p ∈ history.ran) (hcovered : Covered coverage fetchedSlot p.slot)
    (hcovers : Covers (vouchedRanges programs db data programOwner address (changesInHand rows))
      p.slot) : history.valueBefore p ∈ db.verifiedWallets := by
  by_cases huncovered : ∀ row ∈ rows, row.slot < coverage.indexedFrom
  · by_contra hforeign
    exact hstale ⟨huncovered, accountsFor_of_covers hcovers, p, hran, h.nonneg hcovers, hcovered,
      hforeign⟩
  push Not at huncovered
  obtain ⟨newest, hnewest, hrecorded⟩ := huncovered
  obtain ⟨hfrom, htip, hpmax⟩ := h.covered_bounds hcovered
  have hbounds := decodeCoverage_bounds h.decoded
  unfold vouchedRanges at hcovers
  split at hcovers
  · next hempty =>
    obtain rfl := changesInHand_eq_nil.mp hempty
    exact absurd hnewest List.not_mem_nil
  · obtain ⟨hlinks, hwindow⟩ := covers_slotRangesForOwner.mp hcovers
    rcases hwindow with ⟨first, hfirst, hhead⟩ | hafter
    · obtain ⟨hcomplete, hprev, -, hend⟩ := covers_headWindow.mp hhead
      have hshort := rows_length_le (of_decide_eq_true hcomplete)
      have hmem := List.mem_of_mem_head? hfirst
      rw [mem_owned_iff ⟨first, hmem, .inl rfl⟩] at hprev
      rw [changesInHand_of_length_le hshort, List.head?_map, Option.map_eq_some_iff] at hfirst
      obtain ⟨row, hrow, rfl⟩ := hfirst
      obtain ⟨later, hrows⟩ := List.head?_eq_some_iff.mp hrow
      have hslot := (h.committed row (by simp [hrows])).1
      obtain ⟨hinto, hundisturbed⟩ :=
        h.ownerInto_head hfrom htip hrows ((le_saturatingPred_iff hslot).mp hend)
      rw [hundisturbed.valueBefore, hinto]
      exact hprev
    · obtain ⟨before, change, later, hsplit, hstart, hend, hnew⟩ := covers_windowsAfter.mp hafter
      rw [mem_owned_iff ⟨change, by simp [hsplit], .inr rfl⟩] at hnew
      obtain ⟨rowsBefore, row, rowsLater, hrows, rfl, rfl⟩ := rows_of_changesInHand hsplit
      have hend' := lt_of_le_windowEnd (fun later hlater => (h.committed later (by
        simp [hrows, hlater])).1) hend
      rw [hsplit] at hlinks
      have hjoin := (chainLinks_around hlinks).1
      rcases lt_or_ge row.slot p.slot with hlt | hge
      · obtain ⟨hinto, hundisturbed⟩ := h.ownerInto_window hfrom htip hrows hlt hend'
          (fun next hnext => hjoin next.change (by simp [Option.mem_def.mp hnext]))
          (h.last_covered hnewest hrecorded hrows)
        rw [hundisturbed.valueBefore, hinto]
        exact hnew
      · have hmax := ((saturatingSucc_le_iff hpmax).mp hstart).resolve_left
          (not_lt.mpr hge)
        have hrow := (h.committed row (by simp [hrows])).2
        have hslot : row.slot = i64Max :=
          le_antisymm (hrow.trans hbounds.2) (hmax.ge.trans hge)
        have hlast : rowsLater = [] := by
          refine List.head?_eq_none_iff.mp
            (Option.eq_none_iff_forall_not_mem.mpr fun next hnext => ?_)
          have hnext' := (h.committed next (by
            simp [hrows, List.mem_of_mem_head? hnext])).2
          have hbeyond := hend' next hnext
          omega
        subst hlast
        refine h.valueBefore_top hrows hslot hnew (fun move hmove hat => ?_) hmax
        by_contra hforeign
        have hfetchedTop : (fetchedSlot : ℤ) = i64Max :=
          le_antisymm hcovered.1 (hmax.ge.trans (hcovered.2.2.trans (min_le_right _ _)))
        rw [← hsplit] at hlinks
        exact htop ⟨le_antisymm hbounds.2 (hslot.ge.trans hrow), hfetchedTop,
          hlinks, move, hmove, hat, hforeign⟩

/-- Every covered slot inside a tenure of the caller's is in the ranges. -/
theorem Recorded.complete (howner : ownerField data ∈ db.verifiedWallets)
    (hshort : rows.length ≤ maxOwnerChanges)
    (haccounts : AccountsFor programs data programOwner address (rows.map (·.change))) (hx : 0 ≤ x)
    (hcovered : Covered coverage fetchedSlot x) (hundisturbed : history.Undisturbed x)
    (howned : history.ownerInto x ∈ db.verifiedWallets) :
    Covers (vouchedRanges programs db data programOwner address (changesInHand rows)) x := by
  by_cases huncovered : ∀ row ∈ rows, row.slot < coverage.indexedFrom
  · rw [← changesInHand_of_length_le hshort] at haccounts
    exact h.covers_uncovered howner huncovered haccounts hx hcovered
  push Not at huncovered
  obtain ⟨newest, hnewest, hrecorded⟩ := huncovered
  obtain ⟨hfrom, htip, hmax⟩ := h.covered_bounds hcovered
  rw [changesInHand_of_length_le hshort]
  unfold AccountsFor at haccounts
  unfold vouchedRanges
  split at haccounts
  · next hempty =>
    obtain rfl := List.map_eq_nil_iff.mp hempty
    exact absurd hnewest List.not_mem_nil
  · next hrows =>
    rw [if_neg hrows]
    refine covers_slotRangesForOwner.mpr ⟨haccounts, ?_⟩
    have hoff : ∀ row ∈ rows, row.slot ≠ x := fun row hrow heq =>
      hundisturbed row.move (h.move_mem hrow (hfrom.trans heq.ge)) heq
    obtain ⟨before, later, hsplit, hbefore, hend⟩ := exists_split_at rows hoff
    rcases List.eq_nil_or_concat before with rfl | ⟨earlier, row, rfl⟩
    · cases later with
      | nil => exact absurd (by simp [hsplit]) hrows
      | cons first later =>
        have hlt := hend first rfl
        obtain ⟨hinto, -⟩ := h.ownerInto_head hfrom htip hsplit hlt
        refine .inl ⟨first.change, by simp [hsplit], covers_headWindow.mpr ⟨?_, ?_, hx, ?_⟩⟩
        · exact decide_eq_true (by simpa using hshort)
        · rw [hinto] at howned
          exact (mem_owned_iff ⟨first.change, by simp [hsplit], .inl rfl⟩).mpr howned
        · exact (le_saturatingPred_iff (h.committed first (by simp [hsplit])).1).mpr hlt
    · rw [List.concat_eq_append, List.append_assoc, List.singleton_append] at hsplit
      have hlt := hbefore row (by simp)
      have hchanges : rows.map (·.change) = earlier.map (·.change) ++ row.change ::
        later.map (·.change) := by simp [hsplit]
      rw [hchanges] at haccounts
      have hjoin := (chainLinks_around haccounts).1
      obtain ⟨hinto, -⟩ := h.ownerInto_window hfrom htip hsplit hlt hend
        (fun next hnext => hjoin next.change (by simp [Option.mem_def.mp hnext]))
        (h.last_covered hnewest hrecorded hsplit)
      refine .inr (covers_windowsAfter.mpr ⟨_, _, _, hchanges, ?_, ?_, ?_⟩)
      · exact (saturatingSucc_le_iff hmax).mpr (.inl hlt)
      · cases later with
        | nil => exact hmax
        | cons next later =>
          exact (le_saturatingPred_iff (h.committed next (by simp [hsplit])).1).mpr (hend next rfl)
      · rw [hinto] at howned
        exact (mem_owned_iff ⟨row.change, by simp [hsplit], .inr rfl⟩).mpr howned

/-- A handoff at the largest slot leaves its own slot to the new owner. -/
theorem TopSlotHandoff.covers (htop : TopSlotHandoff history db data rows coverage fetchedSlot)
    (howner : ownerField data ∈ db.verifiedWallets) :
    Covered coverage fetchedSlot i64Max ∧
      Covers (vouchedRanges programs db data programOwner address (changesInHand rows)) i64Max := by
  obtain ⟨htip, hslot, hlinks, move, hmove, hat, -⟩ := htop
  have hbounds := decodeCoverage_bounds h.decoded
  have hcap : min coverage.tip fetchedSlot = i64Max := by rw [htip, hslot, min_self]
  obtain ⟨top, htopMem, rfl⟩ := h.row_of_move hmove (hbounds.1.trans hat.ge) (hat.le.trans htip.ge)
  obtain ⟨before, last, hrows⟩ : ∃ before last, rows = before ++ [last] := by
    rcases List.eq_nil_or_concat rows with rfl | ⟨before, last, rfl⟩
    · cases htopMem
    · exact ⟨before, last, List.concat_eq_append⟩
  have hmem : last ∈ rows := by simp [hrows]
  have hlastSlot : last.slot = i64Max :=
    le_antisymm ((h.committed last hmem).2.trans htip.le)
      (hat.ge.trans (Position.slot_mono (h.le_last hrows htopMem)))
  have hchanges : changesInHand rows =
      (before.drop (rows.length - (maxOwnerChanges + 1))).map (·.change) ++ last.change :: [] := by
    have hlength : rows.length = before.length + 1 := by simp [hrows]
    unfold changesInHand rowsInHand
    rw [hlength, hrows, List.drop_append_of_le_length (by omega), List.map_append]
    rfl
  have hcurrent := (chainLinks_around (hchanges ▸ hlinks)).2 rfl
  have hne : changesInHand rows ≠ [] := by simp [hchanges]
  refine ⟨⟨hslot.le, hbounds.1, hcap.ge⟩, ?_⟩
  unfold vouchedRanges
  rw [if_neg hne]
  refine covers_slotRangesForOwner.mpr ⟨hlinks, .inr ?_⟩
  refine covers_windowsAfter.mpr ⟨_, _, _, hchanges, ?_, le_rfl, ?_⟩
  · exact (saturatingSucc_le_iff le_rfl).mpr (.inr rfl)
  · refine (mem_owned_iff ⟨last.change, by simp [hchanges], .inr rfl⟩).mpr ?_
    exact (congrArg (· ∈ db.verifiedWallets) hcurrent).mpr howner

end Scope

/-- The scope of a history page is lawful exactly when no other wallet handed the account on at
the largest slot and the bytes do not hide an unrecorded handoff. Bytes as new as the slot they
were fetched at hide none. -/
theorem history_scope_lawful_iff {programs : Programs} {reachable : Statement → Bool}
    {db : GatewayDb} {data : List UInt8} {programOwner : ProgramOwner} {address : Wallet}
    {fetchedSlot : ℕ} {history : OwnershipHistory} {rows : List OwnerChangeRow}
    {coverage : OwnerChangeCoverage} {ranges : SlotRanges}
    (hrecorded : Recorded history db address rows coverage)
    (hscoped : enforceAuth programs reachable db .getSignaturesForAddress (some address)
      (.found data programOwner fetchedSlot) = .ok (some ranges)) :
    (ScopeLawful programs history db data programOwner address rows coverage fetchedSlot ranges ↔
      ¬ TopSlotHandoff history db data rows coverage fetchedSlot ∧
        ¬ StaleOwner programs history db data programOwner address rows coverage fetchedSlot) ∧
    (FetchedAt history coverage data fetchedSlot →
      ¬ StaleOwner programs history db data programOwner address rows coverage fetchedSlot) := by
  obtain ⟨howner, hranges⟩ := enforceAuth_scoped hscoped
  have hcovers := fun x => covers_resolved (x := x) hrecorded hranges
  refine ⟨⟨fun hlawful => ⟨fun htop => ?_, fun hstale => ?_⟩, fun ⟨htop, hstale⟩ => ?_⟩,
    fun hfetched => hrecorded.not_stale hfetched howner⟩
  · obtain ⟨move, hmove, hat, hforeign⟩ := htop.handoff
    have htopCovers := (hcovers i64Max).mpr (htop.covers hrecorded howner)
    have hvalue := history.valueBefore_eq_prev hmove le_rfl fun _ _ hle => hle
    refine hforeign (hvalue ▸ hlawful.sound move.position (history.handoff_ran move hmove) ?_)
    rw [hat]
    exact htopCovers
  · obtain ⟨p, hran, hnonneg, hcovered, hforeign⟩ := hstale.foreign
    exact hforeign (hlawful.sound p hran ((hcovers p.slot).mpr ⟨hcovered,
      hrecorded.covers_uncovered howner hstale.uncovered hstale.accounted hnonneg hcovered⟩))
  · refine ⟨fun p hran hp => ?_, fun slot hslot => ?_,
      fun hshort haccounts slot hslot hcovered hundisturbed howned => ?_,
      fun tables limit before untilSignature page hpage entry hentry => ?_⟩
    · obtain ⟨hcovered, hvouched⟩ := (hcovers p.slot).mp hp
      exact hrecorded.sound htop hstale hran hcovered hvouched
    · exact ((hcovers slot).mp hslot).1.2
    · exact (hcovers slot).mpr ⟨hcovered, hrecorded.complete howner hshort haccounts hslot hcovered
        hundisturbed howned⟩
    · obtain ⟨row, hrow, haddress, hsignature, hslot, hwithin⟩ :=
        Core.getSignaturesForAddress_scoped hpage hentry
      have hvouched := (hcovers row.slot).mp hwithin
      have hnonneg := hrecorded.nonneg hvouched.2
      obtain ⟨-, -, hmax⟩ := hrecorded.covered_bounds hvouched.1
      have heq : (entry.slot : ℤ) = row.slot := by
        unfold i64Max at hmax
        omega
      exact ⟨heq ▸ hwithin, row, hrow, haddress, hsignature, heq.symm⟩

def aliceKey : Wallet := List.replicate 32 1
def bobKey : Wallet := List.replicate 32 2
def handedOnAddress : Wallet := List.replicate 32 3

def handoffRow (slot : ℕ) : OwnerChangeRow := ⟨handedOnAddress, slot, 0, [], aliceKey, bobKey⟩

/-- An account handed on once, on a ledger that always recorded handoffs. -/
def handedOn (slot : ℕ) : OwnershipHistory where
  first := aliceKey
  moves := [(handoffRow slot).move]
  ordered := List.pairwise_singleton _ _
  chained := ⟨rfl, trivial⟩
  ran := Set.univ
  handoff_ran := fun _ _ => Set.mem_univ _

/-- That one handoff is recorded, and the caller is the new owner. -/
def handedOnDb (indexedFrom slot tip : ℕ) : GatewayDb where
  ownerChangeIndexedFromSlot := some (leBytes 8 indexedFrom).reverse
  latestSlot := some (leBytes 8 tip)
  ownerChanges := [handoffRow slot]
  verifiedWallets := [bobKey]

/-- The new owner's token account. -/
def handedOnData : List UInt8 := List.replicate 32 9 ++ bobKey ++ List.replicate 101 0

def noPrograms : Programs := ⟨fun _ _ _ => [], fun _ => none⟩

/-- The database records the handoff. -/
theorem handedOn_recorded {slot tip : ℕ} (hslot : slot ≤ tip)
    (hdecoded : decodeCoverage (some (leBytes 8 0).reverse) (some (leBytes 8 tip)) =
      some ⟨0, tip⟩) :
    Recorded (handedOn slot) (handedOnDb 0 slot tip) handedOnAddress
      [handoffRow slot] ⟨0, tip⟩ where
  decoded := hdecoded
  stored := by simp [handedOnDb, handoffRow]
  ordered := List.pairwise_singleton _ _
  committed := fun row hrow => by
    obtain rfl := List.mem_singleton.mp hrow
    exact ⟨Int.natCast_nonneg slot, Int.ofNat_le.mpr hslot⟩
  handoffs := fun move _ _ => by simp [handedOn, eq_comm]

theorem handedOn_fetchedAt {slot tip : ℕ} (hslot : slot ≤ tip) :
    FetchedAt (handedOn slot) ⟨0, tip⟩ handedOnData tip := by
  refine ⟨tip, min_le_left _ _, le_rfl, ?_⟩
  have hin : decide (((handoffRow slot).move.position.slot : ℤ) ≤ tip) = true :=
    decide_eq_true (Int.ofNat_le.mpr hslot)
  unfold Timeline.valueWithin handedOn
  rw [List.filter_cons, if_pos hin]
  rfl

/-- The request of the new owner, once its chain is read. -/
theorem handedOn_scoped {history : OwnershipHistory} {indexedFrom slot tip : ℕ}
    (hrecorded : Recorded history (handedOnDb indexedFrom slot tip) handedOnAddress
      [handoffRow slot] ⟨indexedFrom, tip⟩)
    (hledger : ¬ i64Max < (tip : ℤ))
    (hranges : clipToCoverage (slotRangesForOwner [(handoffRow slot).change] bobKey [bobKey] true)
      ⟨indexedFrom, tip⟩ = ranges) :
    enforceAuth noPrograms (fun _ => true) (handedOnDb indexedFrom slot tip)
      .getSignaturesForAddress (some handedOnAddress) (.found handedOnData .splToken tip) =
        .ok (some ranges) := by
  have hlength : handedOnData.length = tokenAccountSize := by
    simp only [handedOnData, bobKey, List.length_append, List.length_replicate, tokenAccountSize]
  have htoken : isTokenAccount handedOnData = true := decide_eq_true (.inl hlength)
  have howner : ownerField handedOnData = bobKey := by decide
  have hverified : isWalletOwnedByUser (handedOnDb indexedFrom slot tip)
      (ownerField handedOnData) = true := by
    exact decide_eq_true (List.mem_singleton_self bobKey)
  have howned : ownedWallets (handedOnDb indexedFrom slot tip)
      ([aliceKey, bobKey].dedup) = [bobKey] := by
    have hdedup : [aliceKey, bobKey].dedup = [aliceKey, bobKey] := by decide
    simp [ownedWallets, handedOnDb]
  have hproceed : checkAccountDataOwnership noPrograms (fun _ => true)
      (handedOnDb indexedFrom slot tip) handedOnData .splToken (some handedOnAddress)
      .getSignaturesForAddress = .proceed := by
    simp only [checkAccountDataOwnership, checkTokenAccountOwnership, hverified, htoken]
    rfl
  have hresolved : resolveOwnedSlotRanges noPrograms (fun _ => true)
      (handedOnDb indexedFrom slot tip) handedOnData .splToken (some handedOnAddress) tip =
        .ok (some ranges) := by
    have hchanges : changesInHand [handoffRow slot] = [(handoffRow slot).change] := rfl
    simp only [resolveOwnedSlotRanges, ProgramOwner.isTokenProgram, htoken, hrecorded.chain,
      if_neg hledger, ask, if_true, rangesOfChain, hchanges, howner, min_self]
    rw [← hranges]
    exact congrArg (fun owned => Except.ok (some (clipToCoverage
      (slotRangesForOwner [(handoffRow slot).change] bobKey owned true) ⟨indexedFrom, tip⟩))) howned
  unfold enforceAuth
  simp [hproceed, hresolved, Method.isOwnerOnly]

/-- Handed back at slot 60, before the ledger recorded handoffs. -/
def handedBack : OwnershipHistory where
  first := aliceKey
  moves := [(handoffRow 5).move, ⟨⟨60, 0⟩, bobKey, aliceKey⟩]
  ordered := by decide
  chained := ⟨rfl, rfl, trivial⟩
  ran := Set.univ
  handoff_ran := fun _ _ => Set.mem_univ _

theorem handedBack_recorded :
    Recorded handedBack (handedOnDb 100 5 200) handedOnAddress [handoffRow 5] ⟨100, 200⟩ where
  decoded := by decide
  stored := by simp [handedOnDb, handoffRow]
  ordered := List.pairwise_singleton _ _
  committed := by decide
  handoffs := fun move hfrom _ => by
    simp only [handedBack, List.mem_cons, List.not_mem_nil, or_false, exists_eq_left]
    constructor
    · rintro (rfl | rfl)
      · rfl
      · exact absurd hfrom (by decide)
    · exact fun heq => .inl heq.symm

/-- The new owner reads what followed the handoff. Where the bytes do not show it was handed
back, the former owner reads on. -/
theorem history_scope_lawful_handed_on :
    ScopeLawful noPrograms (handedOn 10) (handedOnDb 0 10 20) handedOnData .splToken
        handedOnAddress [handoffRow 10] ⟨0, 20⟩ 20 [(11, 20)] ∧
      ¬ ScopeLawful noPrograms handedBack (handedOnDb 100 5 200) handedOnData .splToken
        handedOnAddress [handoffRow 5] ⟨100, 200⟩ 200 [(100, 200)] := by
  have hrecorded : Recorded (handedOn 10) (handedOnDb 0 10 20) handedOnAddress [handoffRow 10]
    ⟨0, 20⟩ := handedOn_recorded (by decide) (by decide)
  have hranges : clipToCoverage (slotRangesForOwner [(handoffRow 10).change] bobKey [bobKey] true)
    ⟨0, 20⟩ = [(11, 20)] := by decide
  obtain ⟨hlawful, hfresh⟩ := history_scope_lawful_iff hrecorded
    (handedOn_scoped hrecorded (by decide) hranges)
  refine ⟨hlawful.mpr ⟨fun htop => absurd htop.tip (by decide),
    hfresh (handedOn_fetchedAt (by decide))⟩, fun hstale => ?_⟩
  refine ((history_scope_lawful_iff handedBack_recorded
    (handedOn_scoped handedBack_recorded (by decide) (by decide))).1.mp hstale).2 ?_
  exact ⟨by decide, by unfold AccountsFor; decide, ⟨100, 0⟩, Set.mem_univ _, by decide,
    by unfold Covered; decide, by decide⟩

/-- The new owner also reads the slot of the handoff, in which the old owner's transaction
ran. -/
theorem top_slot_handoff_served :
    let top := 2 ^ 63 - 1
    Recorded (handedOn top) (handedOnDb 0 top top) handedOnAddress [handoffRow top] ⟨0, i64Max⟩ ∧
      FetchedAt (handedOn top) ⟨0, i64Max⟩ handedOnData top ∧
      enforceAuth noPrograms (fun _ => true) (handedOnDb 0 top top) .getSignaturesForAddress
        (some handedOnAddress) (.found handedOnData .splToken top) =
          .ok (some [(i64Max, i64Max)]) ∧
      ¬ ScopeLawful noPrograms (handedOn top) (handedOnDb 0 top top) handedOnData .splToken
        handedOnAddress [handoffRow top] ⟨0, i64Max⟩ top [(i64Max, i64Max)] := by
  have hrecorded : Recorded (handedOn (2 ^ 63 - 1)) (handedOnDb 0 (2 ^ 63 - 1) (2 ^ 63 - 1))
    handedOnAddress [handoffRow (2 ^ 63 - 1)] ⟨0, i64Max⟩ := handedOn_recorded le_rfl (by decide)
  refine ⟨hrecorded, handedOn_fetchedAt le_rfl,
    handedOn_scoped hrecorded (by decide) (by decide), fun hlawful => ?_⟩
  have hforeign := hlawful.sound ⟨i64Max, 0⟩ (Set.mem_univ _)
    (covers_singleton.mpr ⟨le_rfl, le_rfl⟩)
  revert hforeign
  decide

end PrivateChannels.Gateway
