import Mathlib

/-!
# A value that changes hands

A value is moved on at positions of a linear order, each move naming what it replaces.
-/

namespace PrivateChannels

/-- One change: at a position the value goes from `prev` to `next`. -/
structure Move (ρ ω : Type*) where
  position : ρ
  prev : ω
  next : ω

variable {ρ ω : Type*}

/-- The value after the moves. -/
def Move.after (first : ω) : List (Move ρ ω) → ω
  | [] => first
  | move :: moves => after move.next moves

/-- Every move replaces what the one before it left. -/
def Move.Chained (first : ω) : List (Move ρ ω) → Prop
  | [] => True
  | move :: moves => move.prev = first ∧ Chained move.next moves

theorem Move.after_append (first : ω) (moves later : List (Move ρ ω)) :
    after first (moves ++ later) = after (after first moves) later := by
  induction moves generalizing first with
  | nil => rfl
  | cons move moves ih => exact ih move.next

theorem Move.chained_append {first : ω} {moves later : List (Move ρ ω)} :
    Chained first (moves ++ later) ↔ Chained first moves ∧ Chained (after first moves) later := by
  induction moves generalizing first with
  | nil => simp [Chained, after]
  | cons move moves ih => simp [Chained, after, ih, and_assoc]

/-- A value and all its moves, in order. -/
structure Timeline (ρ ω : Type*) [LinearOrder ρ] where
  first : ω
  moves : List (Move ρ ω)
  ordered : moves.Pairwise (·.position < ·.position)
  chained : Move.Chained first moves

variable [LinearOrder ρ]

/-- The value once the moves inside the cut are made. -/
def Timeline.valueWithin (timeline : Timeline ρ ω) (cut : ρ → Bool) : ω :=
  Move.after timeline.first (timeline.moves.filter fun move => cut move.position)

/-- The value a move at or after the position finds. -/
def Timeline.valueBefore (timeline : Timeline ρ ω) (position : ρ) : ω :=
  timeline.valueWithin (· < position)

variable {timeline : Timeline ρ ω} {cut : ρ → Bool}

theorem Timeline.valueWithin_congr {cut' : ρ → Bool}
    (h : ∀ move ∈ timeline.moves, cut move.position = cut' move.position) :
    timeline.valueWithin cut = timeline.valueWithin cut' := by
  unfold valueWithin
  rw [List.filter_congr h]

/-- The last move inside the cut left the value. -/
theorem Timeline.valueWithin_eq_next {move : Move ρ ω} (hmove : move ∈ timeline.moves)
    (hin : cut move.position = true)
    (hlast : ∀ other ∈ timeline.moves, cut other.position = true →
      other.position ≤ move.position) : timeline.valueWithin cut = move.next := by
  obtain ⟨before, later, hmoves⟩ := List.append_of_mem hmove
  have hordered := timeline.ordered
  rw [hmoves, List.pairwise_append] at hordered
  have hlater : later.filter (fun other => cut other.position) = [] := by
    refine List.filter_eq_nil_iff.mpr fun other hother hcut => ?_
    have hmem : other ∈ timeline.moves := by simp [hmoves, hother]
    have hlt := (List.pairwise_cons.mp hordered.2.1).1 other hother
    exact absurd (hlast other hmem hcut) (not_le.mpr hlt)
  have hkept : (move :: later).filter (fun other => cut other.position) = [move] := by
    rw [List.filter_cons, if_pos hin, hlater]
  unfold valueWithin
  rw [hmoves, List.filter_append, Move.after_append, hkept]
  rfl

/-- The first move outside the cut replaces the value. -/
theorem Timeline.valueWithin_eq_prev {move : Move ρ ω}
    (hcut : ∀ p q, p ≤ q → cut q = true → cut p = true) (hmove : move ∈ timeline.moves)
    (hout : cut move.position = false)
    (hfirst : ∀ other ∈ timeline.moves, cut other.position = false →
      move.position ≤ other.position) : timeline.valueWithin cut = move.prev := by
  obtain ⟨before, later, hmoves⟩ := List.append_of_mem hmove
  have hordered := timeline.ordered
  have hchained := timeline.chained
  rw [hmoves] at hordered hchained
  obtain ⟨-, hordered, hacross⟩ := List.pairwise_append.mp hordered
  have hbefore : before.filter (fun other => cut other.position) = before := by
    refine List.filter_eq_self.mpr fun other hother => ?_
    by_contra hnot
    have hmem : other ∈ timeline.moves := by simp [hmoves, hother]
    have hlt := hacross other hother move List.mem_cons_self
    exact absurd (hfirst other hmem (Bool.eq_false_iff.mpr hnot)) (not_le.mpr hlt)
  have hlater : (move :: later).filter (fun other => cut other.position) = [] := by
    refine List.filter_eq_nil_iff.mpr fun other hother hin => ?_
    have hle : move.position ≤ other.position := by
      rcases List.mem_cons.mp hother with rfl | hother
      · exact le_rfl
      · exact ((List.pairwise_cons.mp hordered).1 other hother).le
    rw [hcut _ _ hle hin] at hout
    cases hout
  unfold valueWithin
  rw [hmoves, List.filter_append, hbefore, hlater, List.append_nil]
  exact (Move.chained_append.mp hchained).2.1.symm

/-- The first move at or after a position replaces the value before it. -/
theorem Timeline.valueBefore_eq_prev {position : ρ} {move : Move ρ ω}
    (hmove : move ∈ timeline.moves) (hle : position ≤ move.position)
    (hfirst : ∀ other ∈ timeline.moves, position ≤ other.position →
      move.position ≤ other.position) : timeline.valueBefore position = move.prev := by
  refine timeline.valueWithin_eq_prev (fun p q hpq hq => ?_) hmove
    (decide_eq_false (not_lt.mpr hle)) fun other hother hout => ?_
  · exact decide_eq_true (hpq.trans_lt (of_decide_eq_true hq))
  · exact hfirst other hother (not_lt.mp (of_decide_eq_false hout))

/-- Among the moves with a property there is a first one. -/
theorem Timeline.exists_first {P : Move ρ ω → Prop} (h : ∃ move ∈ timeline.moves, P move) :
    ∃ move ∈ timeline.moves, P move ∧
      ∀ other ∈ timeline.moves, P other → move.position ≤ other.position := by
  classical
  obtain ⟨move, hmove, hP⟩ := h
  cases hfilter : timeline.moves.filter (fun move => decide (P move)) with
  | nil => exact absurd (decide_eq_true hP) (List.filter_eq_nil_iff.mp hfilter move hmove)
  | cons first rest =>
    have hfirst : first ∈ timeline.moves.filter fun move => decide (P move) := by simp [hfilter]
    have hordered := timeline.ordered.filter fun move => decide (P move)
    rw [hfilter] at hordered
    obtain ⟨hmem, hPfirst⟩ := List.mem_filter.mp hfirst
    refine ⟨first, hmem, of_decide_eq_true hPfirst, fun other hother hPother => ?_⟩
    have hin : other ∈ first :: rest :=
      hfilter ▸ List.mem_filter.mpr ⟨hother, decide_eq_true hPother⟩
    rcases List.mem_cons.mp hin with rfl | hin
    · exact le_rfl
    · exact ((List.pairwise_cons.mp hordered).1 other hin).le

end PrivateChannels
