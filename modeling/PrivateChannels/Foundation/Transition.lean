import Mathlib

/-!
# Runs of a labelled transition relation

A run records its labels oldest first, so an invariant may speak about the whole history.
Every system here proves one step lemma and applies `Run.invariant`.
-/

namespace PrivateChannels

variable {σ α : Type*}

/-- `Run step s l t`: the labels `l`, in order, lead from `s` to `t`. -/
inductive Run (step : σ → α → σ → Prop) (s : σ) : List α → σ → Prop
  | nil : Run step s [] s
  | snoc {l : List α} {t u : σ} {a : α} :
      Run step s l t → step t a u → Run step s (l ++ [a]) u

namespace Run

variable {step : σ → α → σ → Prop} {s t : σ} {l : List α}

/-- What holds at the start and survives every step holds at the end of every run. -/
theorem invariant {P : List α → σ → Prop} (h0 : P [] s)
    (hstep : ∀ l t a u, P l t → step t a u → P (l ++ [a]) u) (h : Run step s l t) : P l t := by
  induction h with
  | nil => exact h0
  | snoc _ hs ih => exact hstep _ _ _ _ ih hs

/-- The state-only form of the invariant rule. -/
theorem stateInvariant {P : σ → Prop} (h0 : P s)
    (hstep : ∀ t a u, P t → step t a u → P u) (h : Run step s l t) : P t := by
  induction h with
  | nil => exact h0
  | snoc _ hs ih => exact hstep _ _ _ ih hs

/-- A run of a narrower relation is a run of a wider one. -/
theorem mono {step' : σ → α → σ → Prop} (himp : ∀ t a u, step t a u → step' t a u)
    (h : Run step s l t) : Run step' s l t := by
  induction h with
  | nil => exact nil
  | snoc _ hs ih => exact ih.snoc (himp _ _ _ hs)

/-- The run that starts where another has ended. -/
theorem here (_ : Run step s l t) : Run step t [] t := nil

/-- Runs compose, and their histories concatenate. -/
theorem append {u : σ} {m : List α} (h : Run step s l t) (h' : Run step t m u) :
    Run step s (l ++ m) u := by
  induction h' with
  | nil => simpa using h
  | snoc _ hs ih => simpa using ih.snoc hs

/-- A single step is a run. -/
theorem single {a : α} {u : σ} (h : step s a u) : Run step s [a] u := by
  simpa using nil.snoc h

/-- A run over one label is that step. -/
theorem of_single {a : α} {u : σ} (h : Run step s [a] u) : step s a u := by
  generalize hl : [a] = l at h
  cases h with
  | nil => cases hl
  | @snoc l t u b hr hs =>
    cases hr with
    | nil =>
      obtain rfl : a = b := by simpa using hl
      exact hs
    | snoc _ _ =>
      have := congrArg List.length hl
      simp at this

/-- The empty run goes nowhere. -/
theorem of_nil {u : σ} (h : Run step s [] u) : u = s := by
  generalize hl : [] = l at h
  cases h with
  | nil => rfl
  | snoc _ _ => simp at hl

/-- A run may be extended at its start. -/
theorem cons {a : α} {u : σ} {m : List α} (h : step s a t) (h' : Run step t m u) :
    Run step s (a :: m) u :=
  (single h).append h'

/-- Every split of the history passes through an intermediate state. -/
theorem split {u : σ} {m : List α} (h : Run step s (l ++ m) u) :
    ∃ t, Run step s l t ∧ Run step t m u := by
  generalize hk : l ++ m = k at h
  induction h generalizing m with
  | nil =>
    obtain ⟨rfl, rfl⟩ := List.append_eq_nil_iff.mp hk
    exact ⟨s, nil, nil⟩
  | @snoc k t u a hr hs ih =>
    rcases List.eq_nil_or_concat m with rfl | ⟨m', b, rfl⟩
    · rw [List.append_nil] at hk
      subst hk
      exact ⟨u, hr.snoc hs, nil⟩
    · rw [List.concat_eq_append, ← List.append_assoc] at hk
      obtain ⟨hk', hb⟩ := List.append_inj' hk rfl
      obtain ⟨v, hv, hv'⟩ := ih hk'
      obtain rfl : b = a := by simpa using hb
      exact ⟨v, hv, by simpa using hv'.snoc hs⟩

/-- Forward simulation: where every step is matched by an abstract one, so is every run. -/
theorem simulate {τ β : Type*} {step' : τ → β → τ → Prop} {f : α → β} {R : σ → τ → Prop} {s' : τ}
    (h0 : R s s') (hstep : ∀ t a u t', R t t' → step t a u → ∃ u', step' t' (f a) u' ∧ R u u')
    (h : Run step s l t) : ∃ t', Run step' s' (l.map f) t' ∧ R t t' := by
  induction h with
  | nil => exact ⟨s', nil, h0⟩
  | snoc _ hs ih =>
    obtain ⟨t', hr, hR⟩ := ih
    obtain ⟨u', hs', hR'⟩ := hstep _ _ _ _ hR hs
    exact ⟨u', by simpa using hr.snoc hs', hR'⟩

end Run

theorem forall_mem_snoc {P : α → Prop} {l : List α} {b : α} (h : ∀ x ∈ l, P x)
    (hb : P b) : ∀ x ∈ l ++ [b], P x := by
  intro x hx
  rcases List.mem_append.mp hx with hx | hx
  · exact h x hx
  · exact List.mem_singleton.mp hx ▸ hb

theorem forall_mem_replace {P : α → Prop} {l before after : List α} {a b : α}
    (hl : l = before ++ a :: after) (h : ∀ x ∈ l, P x) (hb : P b) :
    ∀ x ∈ before ++ b :: after, P x := by
  intro x hx
  rcases List.mem_append.mp hx with hx | hx
  · exact h x (hl ▸ List.mem_append_left _ hx)
  · rcases List.mem_cons.mp hx with rfl | hx
    · exact hb
    · exact h x (hl ▸ List.mem_append_right _ (List.mem_cons_of_mem a hx))

/-- The element that ends a list, or one that was there before. -/
theorem snoc_eq_append_cons {l before after : List α} {a b : α}
    (h : l ++ [a] = before ++ b :: after) :
    (before = l ∧ a = b) ∨ ∃ after', l = before ++ b :: after' := by
  rcases List.eq_nil_or_concat after with rfl | ⟨after', last, rfl⟩
  · obtain ⟨hl, hlast⟩ := List.append_inj' h rfl
    exact .inl ⟨hl.symm, (List.cons.inj hlast).1⟩
  · rw [List.concat_eq_append, ← List.cons_append, ← List.append_assoc] at h
    exact .inr ⟨after', (List.append_inj' h rfl).1⟩

theorem mem_of_mem_snoc {l : List α} {a b : α} (h : a ∈ l ++ [b]) (hne : a ≠ b) : a ∈ l :=
  (List.mem_append.mp h).resolve_right fun h => hne (List.mem_singleton.mp h)

/-- What a partial map holds after an update is the new value, or was held before. -/
theorem of_update_eq_some {ι β : Type*} [DecidableEq ι] {f : ι → Option β} {i j : ι}
    {new : Option β} {b : β} (h : Function.update f i new j = some b) :
    (j = i ∧ new = some b) ∨ f j = some b := by
  rw [Function.update_apply] at h
  split at h
  · next hji => exact .inl ⟨hji, h⟩
  · exact .inr h

end PrivateChannels
