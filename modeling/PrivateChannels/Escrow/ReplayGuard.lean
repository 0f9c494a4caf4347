import PrivateChannels.Foundation.Transition

/-!
# A windowed replay guard

What the withdrawal bitmap is for, without bytes: a set of released nonces that only
grows, and a generation that names the window of nonces still accepted.
-/

namespace PrivateChannels.Escrow

/-- The abstract state: whether the guard is live, its generation and every
nonce released so far. -/
structure Guard where
  live : Bool
  generation : ℕ
  released : List ℕ

/-- The guard of an account that was never initialised. -/
def Guard.empty : Guard := ⟨false, 0, []⟩

/-- The abstract calls. -/
inductive GuardCall
  | init
  | release (nonce : ℕ)
  | rotate (expected : ℕ)
  deriving DecidableEq

/-- The call asks for a rotation. -/
def GuardCall.isRotate : GuardCall → Bool
  | .rotate _ => true
  | _ => false

@[simp] theorem GuardCall.isRotate_init : GuardCall.init.isRotate = false := rfl
@[simp] theorem GuardCall.isRotate_release (n : ℕ) : (GuardCall.release n).isRotate = false := rfl
@[simp] theorem GuardCall.isRotate_rotate (g : ℕ) : (GuardCall.rotate g).isRotate = true := rfl

/-- When a call is accepted. The generation stays below `cap`, which its storage cannot hold. -/
def Guard.Accepts (size cap : ℕ) (s : Guard) : GuardCall → Prop
  | .init => s.live = false
  | .release n => s.live = true ∧ n / size = s.generation ∧ n ∉ s.released
  | .rotate g => s.live = true ∧ s.generation = g ∧ g + 1 < cap

/-- The effect of an accepted call. -/
def Guard.apply (s : Guard) : GuardCall → Guard
  | .init => ⟨true, 0, []⟩
  | .release n => { s with released := n :: s.released }
  | .rotate _ => { s with generation := s.generation + 1 }

/-- A call either is accepted and takes effect, or is refused and changes nothing. -/
def Guard.Step (size cap : ℕ) (s : Guard) (e : GuardCall × Bool) (t : Guard) : Prop :=
  (e.2 = true ∧ s.Accepts size cap e.1 ∧ t = s.apply e.1) ∨
    (e.2 = false ∧ ¬ s.Accepts size cap e.1 ∧ t = s)

/-- What a history says about the state it led to. -/
structure Guard.Explains (h : List (GuardCall × Bool)) (s : Guard) : Prop where
  dormant : s.live = false → s = Guard.empty
  inits : h.count (.init, true) = s.live.toNat
  releases : ∀ n, h.count (.release n, true) = s.released.count n
  nodup : s.released.Nodup
  rotations : h.countP (fun e => e.2 && e.1.isRotate) = s.generation
  rotated : ∀ g, h.count (.rotate g, true) = if g < s.generation then 1 else 0

theorem Guard.explains_empty : Guard.Explains [] Guard.empty where
  dormant _ := rfl
  inits := rfl
  releases _ := rfl
  nodup := List.nodup_nil
  rotations := rfl
  rotated _ := by simp [Guard.empty]

/-- A first `init` finds the empty guard, so every count starts at zero. -/
theorem Guard.Explains.step {size cap : ℕ} {h : List (GuardCall × Bool)} {s t : Guard}
    {e : GuardCall × Bool} (hs : Guard.Explains h s) (hstep : s.Step size cap e t) :
    Guard.Explains (h ++ [e]) t := by
  obtain ⟨call, ok⟩ := e
  rcases hstep with ⟨hok, hacc, rfl⟩ | ⟨hok, _, rfl⟩ <;> obtain rfl : ok = _ := hok
  · cases call with
    | init =>
      obtain rfl := hs.dormant hacc
      have hi := hs.inits
      have hr := hs.releases
      have hn := hs.rotations
      have hg := hs.rotated
      refine ⟨?_, ?_, ?_, ?_, ?_, ?_⟩
      · simp [Guard.apply]
      · simpa [Guard.apply, Guard.empty] using hi
      · simpa [Guard.apply, Guard.empty, List.count_append] using hr
      · exact List.nodup_nil
      · simpa [Guard.apply, Guard.empty] using hn
      · simpa [Guard.apply, Guard.empty, List.count_append] using hg
    | release n =>
      obtain ⟨hlive, _, hnew⟩ := hacc
      refine ⟨?_, ?_, ?_, ?_, ?_, ?_⟩
      · simp [Guard.apply, hlive]
      · simpa [Guard.apply, List.count_append] using hs.inits
      · intro m
        simp only [List.count_append, hs.releases, Guard.apply, List.count_cons, List.count_nil]
        by_cases hm : n = m <;> simp [hm]
      · exact List.nodup_cons.mpr ⟨hnew, hs.nodup⟩
      · simpa [Guard.apply, List.countP_append] using hs.rotations
      · intro g
        rw [List.count_append, hs.rotated g]
        rfl
    | rotate g =>
      obtain ⟨hlive, hgen, _⟩ := hacc
      refine ⟨?_, ?_, ?_, hs.nodup, ?_, ?_⟩
      · simp [Guard.apply, hlive]
      · simpa [Guard.apply, List.count_append] using hs.inits
      · simpa [Guard.apply, List.count_append] using hs.releases
      · simp [Guard.apply, List.countP_append, hs.rotations]
      · intro k
        simp only [List.count_append, hs.rotated, Guard.apply, List.count_cons, List.count_nil]
        by_cases hk : g = k
        · simp [hk, ← hgen ▸ hk]
        · have : k < s.generation + 1 ↔ k < s.generation := by omega
          simp [hk, this]
  · refine ⟨hs.dormant, ?_, ?_, hs.nodup, ?_, ?_⟩
    · simpa [List.count_append] using hs.inits
    · simpa [List.count_append] using hs.releases
    · simpa [List.countP_append] using hs.rotations
    · simpa [List.count_append] using hs.rotated

/-- Every run of the guard from the empty state is explained by its history. -/
theorem Guard.explains_of_run {size cap : ℕ} {h : List (GuardCall × Bool)} {s : Guard}
    (hr : Run (Guard.Step size cap) Guard.empty h s) : Guard.Explains h s :=
  hr.invariant Guard.explains_empty fun _ _ _ _ hs hstep => hs.step hstep

end PrivateChannels.Escrow
