import PrivateChannels.Gateway.HistoryScope

/-!
# Who owned an account, and what the rows say of it

A token account's owners form a timeline of handoffs, and the rows hold those between the
watermark and the tip.
-/

namespace PrivateChannels.Gateway

/-- The owners of a token account and the transactions that ran on it. -/
structure OwnershipHistory extends Timeline Position Wallet where
  ran : Set Position
  handoff_ran : ∀ move ∈ moves, move.position ∈ ran

/-- The handoff a row records. -/
def OwnerChangeRow.move (row : OwnerChangeRow) : Move Position Wallet :=
  ⟨row.position, row.prevOwner, row.newOwner⟩

/-- Every handoff from the watermark to the tip is a row of its own, and no row is newer than
the tip. -/
structure Recorded (history : OwnershipHistory) (db : GatewayDb) (address : Wallet)
    (rows : List OwnerChangeRow) (coverage : OwnerChangeCoverage) : Prop where
  decoded : decodeCoverage db.ownerChangeIndexedFromSlot db.latestSlot = some coverage
  stored : (db.ownerChanges.filter (·.address = address)).Perm rows
  ordered : rows.Pairwise (·.position < ·.position)
  committed : ∀ row ∈ rows, 0 ≤ row.slot ∧ row.slot ≤ coverage.tip
  handoffs : ∀ move : Move Position Wallet, coverage.indexedFrom ≤ move.position.slot →
    move.position.slot ≤ coverage.tip → (move ∈ history.moves ↔ ∃ row ∈ rows, row.move = move)

/-- The account's bytes are of a block at or after the slot ownership was checked at. -/
def FetchedAt (history : OwnershipHistory) (coverage : OwnerChangeCoverage) (data : List UInt8)
    (fetchedSlot : ℕ) : Prop :=
  ∃ block, min coverage.tip fetchedSlot ≤ block ∧ block ≤ coverage.tip ∧
    ownerField data = history.valueWithin fun p => p.slot ≤ block

/-- The owner going into a slot. -/
def OwnershipHistory.ownerInto (history : OwnershipHistory) (slot : ℤ) : Wallet :=
  history.valueWithin fun p => p.slot < slot

/-- No handoff ran in the slot. -/
def OwnershipHistory.Undisturbed (history : OwnershipHistory) (slot : ℤ) : Prop :=
  ∀ move ∈ history.moves, move.position.slot ≠ slot

/-- Inside an undisturbed slot every transaction finds the same owner. -/
theorem OwnershipHistory.Undisturbed.valueBefore {history : OwnershipHistory} {p : Position}
    (h : history.Undisturbed p.slot) : history.valueBefore p = history.ownerInto p.slot := by
  refine history.valueWithin_congr fun move hmove => decide_eq_decide.mpr ?_
  have hne := h move hmove
  rw [Position.lt_iff]
  exact ⟨fun hlt => hlt.resolve_right fun heq => hne heq.1, .inl⟩

theorem slot_lt_cut (slot : ℤ) (p q : Position) (hle : p ≤ q)
    (hq : decide (q.slot < slot) = true) : decide (p.slot < slot) = true :=
  decide_eq_true ((Position.slot_mono hle).trans_lt (of_decide_eq_true hq))

section Chain

variable {history : OwnershipHistory} {db : GatewayDb} {address : Wallet}
  {rows : List OwnerChangeRow} {coverage : OwnerChangeCoverage} {x : ℤ}

section

variable (h : Recorded history db address rows coverage)

include h

variable {before later : List OwnerChangeRow} {last row : OwnerChangeRow}

theorem Recorded.move_mem (hrow : row ∈ rows) (hfrom : coverage.indexedFrom ≤ row.slot) :
    row.move ∈ history.moves :=
  (h.handoffs row.move hfrom (h.committed row hrow).2).mpr ⟨row, hrow, rfl⟩

theorem Recorded.row_of_move
    {move : Move Position Wallet} (hmove : move ∈ history.moves)
    (hfrom : coverage.indexedFrom ≤ move.position.slot) (htip : move.position.slot ≤ coverage.tip) :
    ∃ row ∈ rows, row.move = move :=
  (h.handoffs move hfrom htip).mp hmove

/-- A covered slot no row names is undisturbed. -/
theorem Recorded.undisturbed
    (hfrom : coverage.indexedFrom ≤ x) (htip : x ≤ coverage.tip)
    (hrows : ∀ row ∈ rows, row.slot ≠ x) : history.Undisturbed x := by
  intro move hmove hslot
  obtain ⟨row, hrow, rfl⟩ := h.row_of_move hmove (hfrom.trans hslot.ge) (hslot.le.trans htip)
  exact hrows row hrow hslot

/-- Where rows follow, the next one names the owner. -/
theorem Recorded.ownerInto_prev (hfrom : coverage.indexedFrom ≤ x) {next : OwnerChangeRow}
    (hrows : rows = before ++ next :: later) (hbefore : ∀ row ∈ before, row.slot < x)
    (hnext : x < next.slot) : history.ownerInto x = next.prevOwner := by
  have hmem : next ∈ rows := by simp [hrows]
  have hmove := h.move_mem hmem (hfrom.trans hnext.le)
  refine history.valueWithin_eq_prev (slot_lt_cut x) hmove ?_ fun move hmove hout => ?_
  · exact decide_eq_false (not_lt.mpr hnext.le)
  · have hge := not_lt.mp (of_decide_eq_false hout)
    rcases lt_or_ge coverage.tip move.position.slot with hbeyond | hwithin
    · exact (Position.lt_iff.mpr (.inl ((h.committed next hmem).2.trans_lt hbeyond))).le
    · obtain ⟨row, hrow, rfl⟩ := h.row_of_move hmove (hfrom.trans hge) hwithin
      have hordered := h.ordered
      rw [hrows] at hrow hordered
      rcases List.mem_append.mp hrow with hrow | hrow
      · exact absurd (hbefore row hrow) (not_lt.mpr hge)
      · rcases List.mem_cons.mp hrow with rfl | hrow
        · exact le_rfl
        · exact ((List.pairwise_cons.mp (List.pairwise_append.mp hordered).2.1).1 row hrow).le

theorem Recorded.le_last (hrows : rows = before ++ [last]) (hrow : row ∈ rows) :
    row.position ≤ last.position := by
  have hordered := h.ordered
  rw [hrows] at hrow hordered
  rcases List.mem_append.mp hrow with hrow | hrow
  · exact ((List.pairwise_append.mp hordered).2.2 row hrow last (by simp)).le
  · obtain rfl := List.mem_singleton.mp hrow
    exact le_rfl

/-- No handoff up to the tip is newer than a covered last row. -/
theorem Recorded.move_le_last (hrows : rows = before ++ [last])
    (hfrom : coverage.indexedFrom ≤ last.slot) {move : Move Position Wallet}
    (hmove : move ∈ history.moves) (htip : move.position.slot ≤ coverage.tip) :
    move.position ≤ last.position := by
  rcases lt_or_ge move.position.slot last.slot with hlt | hge
  · exact (Position.lt_iff.mpr (.inl hlt)).le
  · obtain ⟨row, hrow, rfl⟩ := h.row_of_move hmove (hfrom.trans hge) htip
    exact h.le_last hrows hrow

/-- After the last row the owner is the one it names, if it is covered. -/
theorem Recorded.ownerInto_next (htip : x ≤ coverage.tip) (hrows : rows = before ++ [last])
    (hlast : last.slot < x) (hfrom : coverage.indexedFrom ≤ last.slot) :
    history.ownerInto x = last.newOwner := by
  have hmem : last ∈ rows := by simp [hrows]
  refine history.valueWithin_eq_next (h.move_mem hmem hfrom) (decide_eq_true hlast)
    fun move hmove hin => ?_
  exact h.move_le_last hrows hfrom hmove ((of_decide_eq_true hin).le.trans htip)

/-- Without a covered handoff the owner is the one in the account's bytes. -/
theorem Recorded.ownerInto_fetched
    {data : List UInt8} {fetchedSlot : ℕ} (hfetched : FetchedAt history coverage data fetchedSlot)
    (hfrom : coverage.indexedFrom ≤ x) (hcap : x ≤ min coverage.tip fetchedSlot)
    (hnone : ∀ row ∈ rows, row.slot < coverage.indexedFrom) :
    history.ownerInto x = ownerField data := by
  obtain ⟨block, hblock, htip, hdata⟩ := hfetched
  rw [hdata]
  refine history.valueWithin_congr fun move hmove =>
    decide_eq_decide.mpr ⟨fun hlt => ?_, fun hle => ?_⟩
  · exact (hlt.le.trans hcap).trans hblock
  · by_contra hnot
    obtain ⟨row, hrow, rfl⟩ :=
      h.row_of_move hmove (hfrom.trans (not_lt.mp hnot)) (hle.trans htip)
    have hlt := hnone row hrow
    exact hnot (hlt.trans_le hfrom)

/-- Inside the window of a row the account belongs to the one it names. -/
theorem Recorded.ownerInto_window (hfrom : coverage.indexedFrom ≤ x) (htip : x ≤ coverage.tip)
    (hrows : rows = before ++ row :: later) (hrow : row.slot < x)
    (hend : ∀ next ∈ later.head?, x < next.slot)
    (hjoin : ∀ next ∈ later.head?, row.newOwner = next.prevOwner)
    (hlast : later = [] → coverage.indexedFrom ≤ row.slot) :
    history.ownerInto x = row.newOwner ∧ history.Undisturbed x := by
  have hordered := h.ordered
  rw [hrows] at hordered
  obtain ⟨-, hlater, hacross⟩ := List.pairwise_append.mp hordered
  have hbefore : ∀ other ∈ before, other.slot ≤ row.slot := fun other hother =>
    Position.slot_mono (hacross other hother row List.mem_cons_self).le
  cases later with
  | nil =>
    have hslots : ∀ other ∈ rows, other.slot ≤ row.slot := fun other hother =>
      Position.slot_mono (h.le_last hrows hother)
    exact ⟨h.ownerInto_next htip hrows hrow (hlast rfl),
      h.undisturbed hfrom htip fun other hother => ((hslots other hother).trans_lt hrow).ne⟩
  | cons next later =>
    have hnext := hend next rfl
    have hbefore' : ∀ other ∈ before ++ [row], other.slot < x := by
      intro other hother
      rcases List.mem_append.mp hother with hother | hother
      · exact (hbefore other hother).trans_lt hrow
      · obtain rfl := List.mem_singleton.mp hother
        exact hrow
    have hrows' : rows = (before ++ [row]) ++ next :: later := by simp [hrows]
    refine ⟨?_, h.undisturbed hfrom htip fun other hother => ?_⟩
    · rw [hjoin next rfl]
      exact h.ownerInto_prev hfrom hrows' hbefore' hnext
    · rw [hrows'] at hother
      rcases List.mem_append.mp hother with hother | hother
      · exact (hbefore' other hother).ne
      · rcases List.mem_cons.mp hother with rfl | hother
        · exact hnext.ne'
        · have hlt := (List.pairwise_cons.mp (List.pairwise_cons.mp hlater).2).1 other hother
          exact (hnext.trans_le (Position.slot_mono hlt.le)).ne'

/-- Before the first row the account belongs to the one it was handed on by. -/
theorem Recorded.ownerInto_head (hfrom : coverage.indexedFrom ≤ x) (htip : x ≤ coverage.tip)
    {first : OwnerChangeRow} (hrows : rows = first :: later) (hx : x < first.slot) :
    history.ownerInto x = first.prevOwner ∧ history.Undisturbed x := by
  have hrows' : rows = [] ++ first :: later := hrows
  refine ⟨h.ownerInto_prev hfrom hrows' nofun hx,
    h.undisturbed hfrom htip fun other hother => ?_⟩
  have hordered := h.ordered
  rw [hrows] at hother hordered
  rcases List.mem_cons.mp hother with rfl | hother
  · exact hx.ne'
  · have hlt := (List.pairwise_cons.mp hordered).1 other hother
    exact (hx.trans_le (Position.slot_mono hlt.le)).ne'

end

end Chain

end PrivateChannels.Gateway
