import Mathlib

/-!
# Logs of keyed writes

What a key holds after a log of writes is decided by the newest write of that key, which
rising stamps identify.
-/

namespace PrivateChannels.WriteLog

variable {κ V W : Type*} [DecidableEq κ]

/-- The newest value written to a key. -/
def lastWrite : List (κ × V) → κ → Option V
  | [], _ => none
  | w :: log, k => (lastWrite log k).or (if w.1 = k then some w.2 else none)

@[simp] theorem lastWrite_nil (k : κ) : lastWrite ([] : List (κ × V)) k = none := rfl

theorem lastWrite_append (log later : List (κ × V)) (k : κ) :
    lastWrite (log ++ later) k = (lastWrite later k).or (lastWrite log k) := by
  induction log with
  | nil => simp
  | cons w log ih => simp only [List.cons_append, lastWrite, ih, Option.or_assoc]

variable {log : List (κ × V)}

theorem lastWrite_eq_none {k : κ} : lastWrite log k = none ↔ k ∉ log.map Prod.fst := by
  induction log with
  | nil => simp
  | cons w log ih =>
    simp only [lastWrite, Option.or_eq_none_iff, ih, List.map_cons, List.mem_cons, not_or]
    by_cases h : w.1 = k
    · simp [h]
    · simp [h, Ne.symm h]

theorem lastWrite_mem {k : κ} {v : V} (h : lastWrite log k = some v) : (k, v) ∈ log := by
  induction log with
  | nil => cases h
  | cons w log ih =>
    rcases Option.or_eq_some_iff.mp h with hlog | ⟨_, hhead⟩
    · exact List.mem_cons_of_mem _ (ih hlog)
    · by_cases hk : w.1 = k
      · rw [if_pos hk, Option.some.injEq] at hhead
        exact List.mem_cons.mpr (Or.inl (Prod.ext hk.symm hhead.symm))
      · rw [if_neg hk] at hhead
        cases hhead

/-- A key the later writes do not touch keeps its newest write. -/
theorem lastWrite_append_of_notMem {later : List (κ × V)} {k : κ} (h : k ∉ later.map Prod.fst) :
    lastWrite (log ++ later) k = lastWrite log k := by
  rw [lastWrite_append, lastWrite_eq_none.mpr h, Option.none_or]

/-- The store after a log. -/
def applyWrites (effect : V → W) (store : κ → W) (log : List (κ × V)) : κ → W :=
  log.foldl (fun store w => Function.update store w.1 (effect w.2)) store

theorem applyWrites_apply (effect : V → W) (store : κ → W) (log : List (κ × V)) (k : κ) :
    applyWrites effect store log k = ((lastWrite log k).map effect).getD (store k) := by
  induction log generalizing store with
  | nil => rfl
  | cons w log ih =>
    rw [applyWrites, List.foldl_cons, ← applyWrites, ih, lastWrite]
    cases lastWrite log k with
    | some v => simp
    | none =>
      by_cases h : w.1 = k
      · subst h
        simp
      · simp [h, Function.update_of_ne (Ne.symm h)]

/-- What a log that writes each key once adds to a total over the keys. -/
theorem sum_applyWrites {effect : V → ℕ} {store : κ → ℕ} {keys : Finset κ}
    (hnodup : (log.map Prod.fst).Nodup) (hsub : ∀ w ∈ log, w.1 ∈ keys) :
    (∑ k ∈ keys, applyWrites effect store log k) + (log.map fun w => store w.1).sum =
      (∑ k ∈ keys, store k) + (log.map fun w => effect w.2).sum := by
  induction log generalizing store with
  | nil => rfl
  | cons w log ih =>
    obtain ⟨hfresh, hnodup⟩ := List.nodup_cons.mp hnodup
    have hrest := @ih (Function.update store w.1 (effect w.2)) hnodup
      fun w' hw' => hsub w' (List.mem_cons_of_mem _ hw')
    have hsame : (log.map fun w' => Function.update store w.1 (effect w.2) w'.1) =
        log.map fun w' => store w'.1 := by
      refine List.map_congr_left fun w' hw' => Function.update_of_ne ?_ _ _
      rintro heq
      exact hfresh (heq ▸ List.mem_map.mpr ⟨w', hw', rfl⟩)
    have hhead : (∑ k ∈ keys, Function.update store w.1 (effect w.2) k) + store w.1 =
        (∑ k ∈ keys, store k) + effect w.2 := by
      have hmem := hsub w List.mem_cons_self
      rw [Finset.sum_update_of_mem hmem, ← Finset.sum_sdiff (Finset.singleton_subset_iff.mpr hmem)]
      simp only [Finset.sum_singleton]
      omega
    rw [hsame] at hrest
    simp only [List.map_cons, List.sum_cons]
    rw [applyWrites, List.foldl_cons, ← applyWrites]
    omega

/-- The writes of one key carry rising stamps. -/
def Rising (log : List (κ × ℕ × V)) : Prop :=
  log.Pairwise fun a b => a.1 = b.1 → a.2.1 < b.2.1

/-- No write of a key is stamped later than the newest, and only that one as late. -/
theorem Rising.eq_last {log : List (κ × ℕ × V)} (h : Rising log) {k : κ} {stamp other : ℕ}
    {v v' : V} (hlast : lastWrite log k = some (stamp, v)) (hmem : (k, other, v') ∈ log)
    (hle : stamp ≤ other) : other = stamp ∧ v' = v := by
  induction log with
  | nil => cases hmem
  | cons w log ih =>
    obtain ⟨hhead, htail⟩ := List.pairwise_cons.mp h
    rcases Option.or_eq_some_iff.mp hlast with hlog | ⟨hnone, hw⟩
    · rcases List.mem_cons.mp hmem with rfl | hmem
      · have hlt : other < stamp := hhead _ (lastWrite_mem hlog) rfl
        omega
      · exact ih htail hlog hmem
    · rcases List.mem_cons.mp hmem with rfl | hmem
      · obtain ⟨rfl, rfl⟩ : other = stamp ∧ v' = v := by simpa using hw
        exact ⟨rfl, rfl⟩
      · exact absurd (List.mem_map.mpr ⟨_, hmem, rfl⟩) (lastWrite_eq_none.mp hnone)

omit [DecidableEq κ] in
/-- A later batch of writes at one new stamp, each key written once. -/
theorem Rising.append_batch {log batch : List (κ × ℕ × V)} (h : Rising log) {stamp : ℕ}
    (hold : ∀ w ∈ log, w.2.1 < stamp) (hnew : ∀ w ∈ batch, w.2.1 = stamp)
    (hnodup : (batch.map Prod.fst).Nodup) : Rising (log ++ batch) := by
  refine List.pairwise_append.mpr ⟨h, ?_, fun a ha b hb _ => ?_⟩
  · have hpair := List.pairwise_map.mp hnodup
    exact hpair.imp fun hne heq => absurd heq hne
  · rw [hnew b hb]
    exact hold a ha

section KeyedLoop

theorem lookup_insert_eq (k k' : κ) (v : V) (m : AList fun _ : κ => V) :
    (m.insert k' v).lookup k = if k = k' then some v else m.lookup k := by
  by_cases h : k = k'
  · subst h
    rw [if_pos rfl, AList.lookup_insert]
  · rw [if_neg h, AList.lookup_insert_ne h]

variable {σ A B : Type*} (look : κ → σ → Option B)

/-- When each round sets the key it names, a loop leaves each key its newest write. -/
theorem look_foldl_writes {f : σ → κ × V → σ} {g : V → B}
    (hset : ∀ s w k, look k (f s w) = if k = w.1 then some (g w.2) else look k s)
    (log : List (κ × V)) (s : σ) (k : κ) :
    look k (log.foldl f s) = ((lastWrite log k).map g).or (look k s) := by
  induction log generalizing s with
  | nil => simp
  | cons w log ih =>
    rw [List.foldl_cons, ih, hset, lastWrite]
    by_cases h : w.1 = k
    · cases lastWrite log k <;> simp [h]
    · cases lastWrite log k <;> simp [h, Ne.symm h]

/-- When each round changes its own key only, a loop over distinct keys gives each
listed key its own round. -/
theorem look_foldl {f : σ → (_ : κ) × A → σ} {g : A → Option B → Option B}
    (hself : ∀ s k a, look k (f s ⟨k, a⟩) = g a (look k s))
    (hother : ∀ s k k' a, k' ≠ k → look k' (f s ⟨k, a⟩) = look k' s)
    {l : List ((_ : κ) × A)} (hl : l.NodupKeys) (s : σ) (k : κ) :
    look k (l.foldl f s) = (l.dlookup k).elim (look k s) fun a => g a (look k s) := by
  induction l generalizing s with
  | nil => rfl
  | cons e l ih =>
    obtain ⟨k', a⟩ := e
    obtain ⟨hfresh, hrest⟩ := List.nodupKeys_cons.mp hl
    rw [List.foldl_cons, ih hrest]
    by_cases h : k = k'
    · subst h
      rw [List.dlookup_eq_none.mpr hfresh, List.dlookup_cons_eq]
      exact hself s k a
    · rw [List.dlookup_cons_ne _ _ h]
      simp [hother s k' k a h]

end KeyedLoop

end PrivateChannels.WriteLog
