import Mathlib

/-!
# Left joins and groups

Tables are lists. A left join keeps a row without a match once; a key that no two rows of
the joined table share never repeats the row it is joined to.
-/

namespace PrivateChannels

variable {α β κ ρ : Type*}

/-- The matches of one row: a row without any is kept with none. -/
def leftJoin (matched : List β) : List (Option β) :=
  if matched.isEmpty then [none] else matched.map some

theorem leftJoin_ne_nil (matched : List β) : leftJoin matched ≠ [] := by
  cases matched <;> simp [leftJoin]

/-- At most one match: the row is kept once. -/
theorem leftJoin_eq_singleton {matched : List β} (h : matched.length ≤ 1) :
    leftJoin matched = [matched.head?] := by
  match matched, h with
  | [], _ => rfl
  | [_], _ => rfl

/-- A value that nothing adds to is summed over the matches alone. -/
theorem sum_map_leftJoin (matched : List β) {f : Option β → ℕ} (hnone : f none = 0) :
    ((leftJoin matched).map f).sum = (matched.map fun b => f (some b)).sum := by
  cases matched with
  | nil => simp [leftJoin, hnone]
  | cons b matched => simp [leftJoin, Function.comp_def]

/-- Rows that a unique key tells apart. -/
theorem length_filter_le_one {key : β → κ} {p : β → Bool} {l : List β} (hkey : (l.map key).Nodup)
    (h : ∀ a ∈ l, ∀ b ∈ l, p a = true → p b = true → key a = key b) : (l.filter p).length ≤ 1 := by
  have hnodup : ((l.filter p).map key).Nodup := hkey.sublist (List.filter_sublist.map key)
  match hfilter : l.filter p with
  | [] => exact Nat.zero_le _
  | [_] => exact Nat.le_refl 1
  | a :: b :: rest =>
    have ha : a ∈ l.filter p := hfilter ▸ List.mem_cons_self
    have hb : b ∈ l.filter p := hfilter ▸ List.mem_cons_of_mem _ List.mem_cons_self
    rw [List.mem_filter] at ha hb
    rw [hfilter, List.map_cons, List.nodup_cons] at hnodup
    exact absurd (List.mem_map.mpr ⟨b, List.mem_cons_self, h b hb.1 a ha.1 hb.2 ha.2⟩) hnodup.1

section Groups

variable [DecidableEq κ]

/-- The rows of each key. -/
def group (key : ρ → κ) (rows : List ρ) : List (κ × List ρ) :=
  (rows.map key).dedup.map fun k => (k, rows.filter (key · = k))

theorem mem_group {key : ρ → κ} {rows : List ρ} {k : κ} {members : List ρ} :
    (k, members) ∈ group key rows ↔
      (∃ row ∈ rows, key row = k) ∧ members = rows.filter (key · = k) := by
  simp only [group, List.mem_map, List.mem_dedup, Prod.mk.injEq]
  constructor
  · rintro ⟨_, hrow, rfl, rfl⟩
    exact ⟨hrow, rfl⟩
  · rintro ⟨hrow, rfl⟩
    exact ⟨k, hrow, rfl, rfl⟩

theorem nodup_group (key : ρ → κ) (rows : List ρ) : ((group key rows).map Prod.fst).Nodup := by
  have hkeys : (group key rows).map Prod.fst = (rows.map key).dedup := by
    simp [group, Function.comp_def]
  rw [hkeys]
  exact List.nodup_dedup _

/-- The group of a key whose rows were all put together in one place. -/
theorem filter_flatMap_eq {key : ρ → κ} {source : α → κ} {rows : α → List ρ} {l : List α} {a : α}
    (hsource : (l.map source).Nodup) (hkey : ∀ b ∈ l, ∀ row ∈ rows b, key row = source b)
    (ha : a ∈ l) : (l.flatMap rows).filter (key · = source a) = rows a := by
  induction l with
  | nil => exact absurd ha List.not_mem_nil
  | cons b l ih =>
    rw [List.map_cons, List.nodup_cons] at hsource
    have hrest := ih hsource.2 fun c hc => hkey c (List.mem_cons_of_mem b hc)
    rw [List.flatMap_cons, List.filter_append]
    rcases List.mem_cons.mp ha with rfl | ha
    · have hown : (rows a).filter (key · = source a) = rows a :=
        List.filter_eq_self.mpr fun row hrow =>
          decide_eq_true (hkey a List.mem_cons_self row hrow)
      have hothers : (l.flatMap rows).filter (key · = source a) = [] := by
        refine List.filter_eq_nil_iff.mpr fun row hrow hsame => hsource.1 ?_
        obtain ⟨c, hc, hrow⟩ := List.mem_flatMap.mp hrow
        refine List.mem_map.mpr ⟨c, hc, ?_⟩
        exact (hkey c (List.mem_cons_of_mem a hc) row hrow).symm.trans (of_decide_eq_true hsame)
      rw [hown, hothers, List.append_nil]
    · have hfirst : (rows b).filter (key · = source a) = [] := by
        refine List.filter_eq_nil_iff.mpr fun row hrow hsame => hsource.1 ?_
        refine List.mem_map.mpr ⟨a, ha, ?_⟩
        exact (of_decide_eq_true hsame).symm.trans (hkey b List.mem_cons_self row hrow)
      rw [hfirst, hrest ha, List.nil_append]

/-- Rows inserted into a map one after the other. -/
def collect {ν : Type*} (key : ρ → κ) (value : ρ → ν) (rows : List ρ) : κ → Option ν :=
  rows.foldl (fun (m : κ → Option ν) row => Function.update m (key row) (some (value row)))
    fun _ => none

/-- Where the rows of a key agree on the value, their order does not matter. -/
theorem collect_eq {ν : Type*} {key : ρ → κ} {value : ρ → ν} {rows : List ρ} {k : κ} (v : ν)
    (h : ∀ row ∈ rows, key row = k → value row = v) :
    collect key value rows k = if ∃ row ∈ rows, key row = k then some v else none := by
  have hfold : ∀ (rows : List ρ) (m : κ → Option ν), (∀ row ∈ rows, key row = k → value row = v) →
      rows.foldl (fun (m : κ → Option ν) row => Function.update m (key row) (some (value row)))
          m k =
        if ∃ row ∈ rows, key row = k then some v else m k := by
    intro rows
    induction rows with
    | nil => simp
    | cons row rows ih =>
      intro m h
      rw [List.foldl_cons, ih _ fun row' hrow' => h row' (List.mem_cons_of_mem row hrow')]
      by_cases hrest : ∃ row' ∈ rows, key row' = k
      · obtain ⟨row', hrow', hkey⟩ := hrest
        rw [if_pos ⟨row', hrow', hkey⟩, if_pos ⟨row', List.mem_cons_of_mem row hrow', hkey⟩]
      · rw [if_neg hrest]
        by_cases hkey : key row = k
        · rw [if_pos ⟨row, List.mem_cons_self, hkey⟩, ← hkey, Function.update_self,
            h row List.mem_cons_self hkey]
        · rw [Function.update_of_ne (Ne.symm hkey), if_neg]
          rintro ⟨row', hrow', hkey'⟩
          rcases List.mem_cons.mp hrow' with rfl | hrow'
          · exact hkey hkey'
          · exact hrest ⟨row', hrow', hkey'⟩
  exact hfold rows _ h

end Groups

section Inserts

variable {σ : Type*} {item : ρ → α} {key : α → κ} {rows rows' rows'' : List ρ}
    {batch batch' : List α}

/-- The rows after a batch whose items are inserted unless their key is there. -/
structure Fills (item : ρ → α) (key : α → κ) (rows : List ρ) (batch : List α) (rows' : List ρ) :
    Prop where
  kept : ∀ row ∈ rows, row ∈ rows'
  rows : ∀ row ∈ rows', row ∈ rows ∨ item row ∈ batch
  keys : ∀ a ∈ batch, ∃ row ∈ rows', key (item row) = key a

theorem Fills.trans (h : Fills item key rows batch rows')
    (h' : Fills item key rows' batch' rows'') :
    Fills item key rows (batch ++ batch') rows'' := by
  refine ⟨fun row hrow => h'.kept row (h.kept row hrow), fun row hrow => ?_, fun a ha => ?_⟩
  · rcases h'.rows row hrow with hrow | hitem
    · exact (h.rows row hrow).imp_right (List.mem_append_left _)
    · exact .inr (List.mem_append_right _ hitem)
  · rcases List.mem_append.mp ha with ha | ha
    · obtain ⟨row, hrow, hkey⟩ := h.keys a ha
      exact ⟨row, h'.kept row hrow, hkey⟩
    · exact h'.keys a ha

theorem Fills.foldl (table : σ → List ρ) {insert : σ → α → σ}
    (hinsert : ∀ s a, Fills item key (table s) [a] (table (insert s a))) (batch : List α) (s : σ) :
    Fills item key (table s) batch (table (batch.foldl insert s)) := by
  induction batch generalizing s with
  | nil => exact ⟨fun _ h => h, fun _ h => .inl h, nofun⟩
  | cons a batch ih => exact (hinsert s a).trans (ih (insert s a))

/-- The key is there, and nothing is inserted. -/
theorem Fills.skip {a : α} (h : key a ∈ rows.map fun row => key (item row)) :
    Fills item key rows [a] rows := by
  refine ⟨fun _ h => h, fun _ h => .inl h, fun b hb => ?_⟩
  obtain rfl := List.mem_singleton.mp hb
  exact List.mem_map.mp h

theorem Fills.append (row : ρ) : Fills item key rows [item row] (rows ++ [row]) := by
  refine ⟨fun _ => List.mem_append_left _, fun row' h => ?_, fun b hb => ?_⟩
  · rcases List.mem_append.mp h with h | h
    · exact .inl h
    · obtain rfl := List.mem_singleton.mp h
      exact .inr (List.mem_singleton_self _)
  · obtain rfl := List.mem_singleton.mp hb
    exact ⟨row, List.mem_append_right _ (List.mem_singleton_self _), rfl⟩

end Inserts

theorem sum_map_filter (l : List α) (p : α → Bool) (f : α → ℕ) :
    ((l.filter p).map f).sum = (l.map fun a => if p a then f a else 0).sum := by
  induction l with
  | nil => rfl
  | cons a l ih => cases h : p a <;> simp [h, ih]

theorem sum_map_filterMap (l : List α) (f : α → Option β) (g : β → ℕ) :
    ((l.filterMap f).map g).sum = (l.map fun a => (f a).elim 0 g).sum := by
  induction l with
  | nil => rfl
  | cons a l ih => cases h : f a <;> simp [h, ih]

/-- Values that tell the rows apart are not repeated. -/
theorem nodup_filterMap {f : α → Option β} {l : List α} (hl : l.Nodup)
    (hinj : ∀ a ∈ l, ∀ a' ∈ l, ∀ b, f a = some b → f a' = some b → a = a') :
    (l.filterMap f).Nodup := by
  refine List.pairwise_filterMap.mpr (hl.imp_of_mem fun ha ha' hne b hb b' hb' heq => ?_)
  subst heq
  exact hne (hinj _ ha _ ha' b hb hb')

/-- The matching pairs, counted from either table. -/
theorem sum_matches_comm (l : List α) (m : List β) (p : α → β → Bool) (f : α → β → ℕ) :
    (l.map fun a => ((m.filter (p a)).map (f a)).sum).sum =
      (m.map fun b => ((l.filter (p · b)).map (f · b)).sum).sum := by
  induction l with
  | nil => simp
  | cons a l ih =>
    rw [List.map_cons, List.sum_cons, ih, sum_map_filter, ← List.sum_map_add]
    congr 1
    refine List.map_congr_left fun b _ => ?_
    cases h : p a b <;> simp [h]

end PrivateChannels
