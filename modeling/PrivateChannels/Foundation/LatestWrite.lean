import Mathlib

/-!
# A cell that keeps the newest write

A write replaces what is stored unless its rank is lower, so the cell holds the last of
those with the greatest rank.
-/

namespace PrivateChannels

open scoped List

variable {α ρ : Type*} [LinearOrder ρ] (rank : α → ρ)

/-- One write: a lower rank is passed over. -/
def keepLatest : Option α → α → Option α
  | none, a => some a
  | some stored, a => if rank a < rank stored then some stored else some a

/-- The last of the writes with the greatest rank. -/
def IsLatest (writes : List α) (a : α) : Prop :=
  ∃ before after, writes = before ++ a :: after ∧ (∀ b ∈ before, rank b ≤ rank a) ∧
    ∀ b ∈ after, rank b < rank a

variable {rank}

variable {writes : List α} {a : α}

theorem IsLatest.mem (h : IsLatest rank writes a) : a ∈ writes := by
  obtain ⟨before, after, rfl, -, -⟩ := h
  exact List.mem_append_right _ List.mem_cons_self

theorem IsLatest.le {b : α} (h : IsLatest rank writes a) (hb : b ∈ writes) : rank b ≤ rank a := by
  obtain ⟨before, after, rfl, hbefore, hafter⟩ := h
  rcases List.mem_append.mp hb with hb | hb
  · exact hbefore b hb
  · rcases List.mem_cons.mp hb with rfl | hb
    · exact le_rfl
    · exact (hafter b hb).le

/-- A write of no lower rank is the latest from then on. -/
theorem IsLatest.of_le (h : ∀ b ∈ writes, rank b ≤ rank a) : IsLatest rank (writes ++ [a]) a :=
  ⟨writes, [], rfl, h, nofun⟩

/-- A write of lower rank changes nothing. -/
theorem IsLatest.append {b : α} (h : IsLatest rank writes a) (hlt : rank b < rank a) :
    IsLatest rank (writes ++ [b]) a := by
  obtain ⟨before, after, rfl, hbefore, hafter⟩ := h
  refine ⟨before, after ++ [b], by simp, hbefore, fun c hc => ?_⟩
  rcases List.mem_append.mp hc with hc | hc
  · exact hafter c hc
  · obtain rfl := List.mem_singleton.mp hc
    exact hlt

/-- The cell after one more write. -/
theorem IsLatest.keepLatest {stored : Option α} (h : ∀ a, stored = some a → IsLatest rank writes a)
    (hnone : stored = none → writes = []) (b : α) :
    ∃ a, PrivateChannels.keepLatest rank stored b = some a ∧
      IsLatest rank (writes ++ [b]) a := by
  cases stored with
  | none =>
    rw [hnone rfl]
    exact ⟨b, rfl, .of_le nofun⟩
  | some a =>
    by_cases hlt : rank b < rank a
    · exact ⟨a, if_pos hlt, (h a rfl).append hlt⟩
    · exact ⟨b, if_neg hlt, .of_le fun c hc => ((h a rfl).le hc).trans (not_lt.mp hlt)⟩

/-- The cell after a list of writes. -/
theorem isLatest_foldl (writes : List α) :
    (writes = [] ∧ writes.foldl (keepLatest rank) none = none) ∨
      ∃ a, writes.foldl (keepLatest rank) none = some a ∧ IsLatest rank writes a := by
  induction writes using List.reverseRecOn with
  | nil => exact .inl ⟨rfl, rfl⟩
  | append_singleton writes b ih =>
    rw [List.foldl_append, List.foldl_cons, List.foldl_nil]
    refine .inr (IsLatest.keepLatest (fun a ha => ?_) (fun hnone => ?_) b)
    · rcases ih with ⟨-, hnone⟩ | ⟨a', ha', hlatest⟩
      · rw [hnone] at ha
        cases ha
      · rw [ha'] at ha
        cases ha
        exact hlatest
    · rcases ih with ⟨hempty, -⟩ | ⟨a', ha', -⟩
      · exact hempty
      · rw [ha'] at hnone
        cases hnone

/-- Where equal ranks carry equal writes, the latest does not depend on the order. -/
theorem IsLatest.eq_of_perm {writes' : List α} {a' : α} (h : IsLatest rank writes a)
    (h' : IsLatest rank writes' a') (hperm : writes' ~ writes)
    (hequal : ∀ b ∈ writes, ∀ c ∈ writes, rank b = rank c → b = c) : a' = a := by
  have ha' := hperm.mem_iff.mp h'.mem
  refine hequal a' ha' a h.mem (le_antisymm (h.le ha') ?_)
  exact h'.le (hperm.mem_iff.mpr h.mem)

end PrivateChannels
