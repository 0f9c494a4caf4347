import PrivateChannels.Core.DedupWindow

/-!
# Retiring blockhashes ahead of their block

The settler pops the hashes a block expires before it cuts the block, for every announced
block; dedup's ingest trims for the ingested ones only, so it may let expired hashes in.
-/

namespace PrivateChannels.Core

/-- What the settler and dedup share, with dedup's cache. -/
structure Window where
  live : List Hash
  cache : DedupCache
  progress : BlockhashProgress

/-- The two calls that trim the window. -/
inductive WindowCall
  | retire
  | ingest (hashes : List Hash)

namespace Window

/-- The settler's call. -/
def retire (maxBlockhashes : ℕ) (w : Window) : Window :=
  let retired := retireExpiringBlockhashes w.live maxBlockhashes w.progress
  { w with live := retired.1, progress := retired.2.1 }

/-- Dedup's call. -/
def ingest (maxBlockhashes : ℕ) (hashes : List Hash) (w : Window) : Window :=
  let ingested := ingestBlockhashes hashes w.live w.cache maxBlockhashes w.progress
  ⟨ingested.1, ingested.2.1, ingested.2.2⟩

/-- A sequence of calls. -/
def run (maxBlockhashes : ℕ) (w : Window) (calls : List WindowCall) : Window :=
  calls.foldl (fun w call => match call with
    | .retire => w.retire maxBlockhashes
    | .ingest hashes => w.ingest maxBlockhashes hashes) w

/-- Blocks announced and not yet ingested. -/
def lag (w : Window) : ℕ := w.progress.announced - w.progress.ingested

variable {maxBlockhashes : ℕ} {w : Window}

/-- No hash that expires has messages noted under it and is in the window again once the block
is in, unless the block's own hashes expire it too. -/
def Unrepeated (maxBlockhashes : ℕ) (w : Window) (hashes : List Hash) : Prop :=
  let expired := w.live.length + hashes.length - maxBlockhashes
  ∀ hash ∈ w.live.take expired, hash ∈ (w.live ++ hashes).drop expired →
    hash ∉ hashes.take (hashes.length - maxBlockhashes) → w.cache hash = ∅

theorem ingest_of_ne_nil {hashes : List Hash} (hne : hashes ≠ []) :
    w.ingest maxBlockhashes hashes =
      let all := w.live ++ hashes
      ⟨all.drop (all.length - maxBlockhashes),
        fun hash => if hash ∈ all.drop (all.length - maxBlockhashes) then
          if hash ∈ all.take (all.length - maxBlockhashes) then ∅ else w.cache hash else ∅,
        { w.progress with ingested := w.progress.ingested + hashes.length }⟩ := by
  cases hashes with
  | nil => exact absurd rfl hne
  | cons first hashes => rfl

/-- Ingesting every announced block up to the one the settler retired for. -/
theorem ingest_retire {hashes : List Hash} (hne : hashes ≠ [])
    (hlag : w.progress.announced + 1 = w.progress.ingested + hashes.length) :
    ((w.retire maxBlockhashes).ingest maxBlockhashes hashes).live =
        (w.ingest maxBlockhashes hashes).live ∧
      (((w.retire maxBlockhashes).ingest maxBlockhashes hashes).cache =
          (w.ingest maxBlockhashes hashes).cache ↔ w.Unrepeated maxBlockhashes hashes) := by
  have hpending : w.progress.announced + 1 - w.progress.ingested = hashes.length := by omega
  rw [ingest_of_ne_nil hne, ingest_of_ne_nil hne]
  simp only [Unrepeated, retire, retireExpiringBlockhashes, hpending, ← List.length_append]
  generalize hn : (w.live ++ hashes).length - maxBlockhashes = n
  generalize hk : min w.live.length n = k
  have hle : k ≤ n := hk ▸ min_le_right _ _
  have hafter : w.live.drop k ++ hashes = (w.live ++ hashes).drop k :=
    (List.drop_append_of_le_length (hk ▸ min_le_left _ _)).symm
  have hearly : w.live.take n = (w.live ++ hashes).take k := by
    rw [List.take_eq_take_min, min_comm, hk]
    exact (List.take_append_of_le_length (hk ▸ min_le_left _ _)).symm
  have hrest : (w.live.drop k ++ hashes).length - maxBlockhashes = n - k := by
    rw [hafter, List.length_drop, Nat.sub_right_comm, hn]
  have hlate : hashes.take (hashes.length - maxBlockhashes) =
      ((w.live ++ hashes).drop k).take (n - k) := by
    rw [← hafter, ← hrest]
    rw [List.length_append] at hn
    rcases le_total w.live.length n with hlen | hlen
    · rw [min_eq_left hlen] at hk
      rw [← hk, List.drop_length, List.nil_append]
    · rw [min_eq_right hlen] at hk
      rw [hrest, ← hk, Nat.sub_self, Nat.sub_eq_zero_of_le (by omega), List.take_zero,
        List.take_zero]
  have hlive : ((w.live ++ hashes).drop k).drop (n - k) = (w.live ++ hashes).drop n := by
    rw [List.drop_drop, Nat.add_sub_cancel' hle]
  have hgone : (w.live ++ hashes).take n =
      (w.live ++ hashes).take k ++ ((w.live ++ hashes).drop k).take (n - k) := by
    rw [← List.take_add, Nat.add_sub_cancel' hle]
  rw [hrest, hafter, hlive, hlate, hgone, hearly]
  refine ⟨rfl, funext_iff.trans (forall_congr' fun hash => ?_)⟩
  by_cases hin : hash ∈ (w.live ++ hashes).drop n <;>
    by_cases hlate : hash ∈ ((w.live ++ hashes).drop k).take (n - k) <;>
    simp [hin, hlate, eq_comm]

/-- The live hashes and the blocks still to come fit the window. -/
def Bounded (maxBlockhashes : ℕ) (w : Window) : Prop :=
  w.live = [] ∨ w.live.length + w.lag ≤ maxBlockhashes

/-- An ingest that leaves announced blocks out, with more of them than the window holds. -/
def Overrun (maxBlockhashes : ℕ) (w : Window) : WindowCall → Prop
  | .retire => False
  | .ingest hashes => 0 < maxBlockhashes ∧ maxBlockhashes < w.lag ∧ hashes ≠ [] ∧
      hashes.length < w.lag

theorem run_snoc (calls : List WindowCall) (call : WindowCall) :
    w.run maxBlockhashes (calls ++ [call]) =
      (w.run maxBlockhashes calls).run maxBlockhashes [call] :=
  List.foldl_append

theorem retire_bounded (maxBlockhashes : ℕ) (w : Window) :
    (w.retire maxBlockhashes).Bounded maxBlockhashes := by
  unfold Bounded
  simp only [retire, retireExpiringBlockhashes, lag, List.drop_eq_nil_iff, List.length_drop]
  omega

/-- A call keeps the bound unless it overruns. -/
theorem bounded_call_iff (h : w.Bounded maxBlockhashes) (call : WindowCall) :
    (w.run maxBlockhashes [call]).Bounded maxBlockhashes ↔ ¬ w.Overrun maxBlockhashes call := by
  cases call with
  | retire => exact iff_of_true (w.retire_bounded maxBlockhashes) id
  | ingest hashes =>
    by_cases hne : hashes = []
    · subst hne
      exact iff_of_true h fun hover => hover.2.2.1 rfl
    · have hsome := List.length_pos_of_ne_nil hne
      change (w.ingest maxBlockhashes hashes).Bounded maxBlockhashes ↔ _
      rw [ingest_of_ne_nil hne]
      simp only [Bounded, Overrun, lag, ← List.length_eq_zero_iff, List.length_drop,
        List.length_append, ne_eq] at h ⊢
      omega

/-- An early retirement leaves the window where the ingest of its block does, and the cache too
unless a popped hash comes back. The window stays bounded exactly as long as no ingest overruns
it. -/
theorem window_retirement_iff (maxBlockhashes : ℕ) (w : Window) :
    (∀ hashes, hashes ≠ [] → w.progress.announced + 1 = w.progress.ingested + hashes.length →
      ((w.retire maxBlockhashes).ingest maxBlockhashes hashes).live =
          (w.ingest maxBlockhashes hashes).live ∧
        (((w.retire maxBlockhashes).ingest maxBlockhashes hashes).cache =
            (w.ingest maxBlockhashes hashes).cache ↔ w.Unrepeated maxBlockhashes hashes)) ∧
      (w.Bounded maxBlockhashes → ∀ calls,
        (∀ before, before <+: calls → (w.run maxBlockhashes before).Bounded maxBlockhashes) ↔
          ∀ before call after, calls = before ++ call :: after →
            ¬ (w.run maxBlockhashes before).Overrun maxBlockhashes call) := by
  refine ⟨fun hashes hne hlag => ingest_retire hne hlag, fun h calls =>
    ⟨fun hall => ?_, fun hall => ?_⟩⟩
  · intro before call after hcalls
    have hnext : before ++ [call] <+: calls := ⟨after, by simp [hcalls]⟩
    rw [← bounded_call_iff (hall before ((List.prefix_append _ _).trans hnext)), ← run_snoc]
    exact hall _ hnext
  · intro before
    induction before using List.reverseRecOn with
    | nil => exact fun _ => h
    | append_singleton before call ih =>
      rintro ⟨after, hcalls⟩
      rw [run_snoc, bounded_call_iff (ih ⟨call :: after, by simpa using hcalls⟩)]
      exact hall before call after (by simpa using hcalls.symm)

/-- A full window over one block, and over two that are announced before both are ingested. -/
theorem window_retirement_iff_two_blocks :
    ∃ w : Window, w.live = [1, 2] ∧ w.cache 1 = {9} ∧
      ((w.retire 2).ingest 2 [3]).live = (w.ingest 2 [3]).live ∧
      ((w.retire 2).ingest 2 [3]).cache = (w.ingest 2 [3]).cache ∧
      ∀ before, before <+: [.retire, .retire, .ingest [3, 4]] → (w.run 2 before).Bounded 2 := by
  let w : Window := ⟨[1, 2], fun hash => if hash = 1 then {9} else ∅, ⟨0, 0, 0⟩⟩
  obtain ⟨hone, hcalls⟩ := window_retirement_iff 2 w
  obtain ⟨hlive, hcache⟩ := hone [3] nofun rfl
  refine ⟨w, rfl, rfl, hlive, hcache.mpr (by unfold Unrepeated; decide),
    (hcalls (.inr le_rfl) _).mpr fun before call after hsplit => ?_⟩
  rcases before with _ | ⟨_, _ | ⟨_, _ | ⟨_, before⟩⟩⟩
  · cases hsplit
    exact id
  · cases hsplit
    exact id
  · cases hsplit
    exact fun hover => absurd hover.2.1 (by decide)
  · cases before <;> cases hsplit

/-- The settler announces two blocks before dedup reads the first. -/
theorem partial_ingest_overruns : ∃ w : Window, w.live.length + w.lag ≤ 1 ∧
    ¬ (w.run 1 [.retire, .retire, .ingest [1]]).Bounded 1 :=
  ⟨⟨[], fun _ => ∅, ⟨0, 0, 0⟩⟩, Nat.zero_le 1, by unfold Bounded; decide⟩

end Window

end PrivateChannels.Core
