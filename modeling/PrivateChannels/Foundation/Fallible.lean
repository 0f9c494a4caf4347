import Mathlib

/-!
# Computations that stop at the first error

A sequence of checks and reads in `Except`; `bind_eq_ok` turns a call that succeeded into
the facts that each step did.
-/

namespace PrivateChannels

variable {ε ε' α β : Type*}

/-- A check that stops with `error`. -/
def ensure (p : Prop) [Decidable p] (error : ε) : Except ε Unit :=
  if p then .ok () else .error error

theorem of_ensure_eq_ok {p : Prop} [Decidable p] {error : ε} {u : Unit}
    (h : ensure p error = .ok u) : p := by
  by_contra hp
  rw [ensure, if_neg hp] at h
  cases h

theorem ensure_of {p : Prop} [Decidable p] (error : ε) (hp : p) : ensure p error = .ok () :=
  if_pos hp

theorem bind_eq_ok {ε α β : Type} {x : Except ε α} {f : α → Except ε β} {b : β} :
    x >>= f = .ok b ↔ ∃ a, x = .ok a ∧ f a = .ok b := by
  cases x with
  | error e => exact ⟨nofun, nofun⟩
  | ok a =>
    refine ⟨fun h => ⟨a, rfl, h⟩, ?_⟩
    rintro ⟨_, ⟨⟩, h⟩
    exact h

theorem of_mapError_eq_ok {x : Except ε α} {f : ε → ε'} {a : α} (h : x.mapError f = .ok a) :
    x = .ok a := by
  cases x with
  | error e => cases h
  | ok a' => exact congrArg Except.ok (Except.ok.inj h)

end PrivateChannels
