import PrivateChannels.Foundation.Listing

/-!
# Reordering steps that commute

Two orders of the same steps lead to the same state when every pair that was swapped
commutes.
-/

namespace PrivateChannels.Reordering

open Listing
open scoped List

variable {σ ι : Type*} {act : σ → ι → σ}

/-- The two steps may be swapped. -/
def Commute (act : σ → ι → σ) (a b : ι) : Prop := ∀ s, act (act s a) b = act (act s b) a

/-- A step moves to the front of steps it commutes with. -/
theorem foldl_commute {a : ι} {l : List ι} (h : ∀ b ∈ l, Commute act a b) (s : σ) :
    act (l.foldl act s) a = l.foldl act (act s a) := by
  induction l generalizing s with
  | nil => rfl
  | cons b l ih =>
    rw [List.foldl_cons, List.foldl_cons, ih (fun c hc => h c (List.mem_cons_of_mem b hc)),
      h b List.mem_cons_self s]

theorem Precedes.of_mem_left {front back : List ι} {a b : ι} (ha : a ∈ front) :
    Precedes (front ++ b :: back) a b :=
  (List.singleton_sublist.mpr ha).append (List.singleton_sublist.mpr List.mem_cons_self)

/-- Without a third element the order of two others is unchanged. -/
theorem Precedes.remove {front back : List ι} {a b c : ι}
    (hnodup : (front ++ c :: back).Nodup) (ha : a ≠ c) (hb : b ≠ c)
    (h : Precedes (front ++ c :: back) a b) : Precedes (front ++ back) a b := by
  classical
  have hout : c ∉ front ∧ c ∉ back := by
    rw [List.nodup_append, List.nodup_cons] at hnodup
    exact ⟨fun hc => hnodup.2.2 c hc c List.mem_cons_self rfl, hnodup.2.1.1⟩
  have hkeep : (front ++ c :: back).filter (· ≠ c) = front ++ back := by
    rw [List.filter_append, List.filter_cons_of_neg (by simp), List.filter_eq_self.mpr,
      List.filter_eq_self.mpr]
    · intro x hx
      simpa using fun heq : x = c => hout.2 (heq ▸ hx)
    · intro x hx
      simpa using fun heq : x = c => hout.1 (heq ▸ hx)
  have hsub := h.filter fun x => x ≠ c
  rw [hkeep] at hsub
  simpa [ha, hb, Precedes] using hsub

/-- The reordering rule: pairs that change places commute. -/
theorem foldl_reorder {l l' : List ι} (hnodup : l.Nodup) (hperm : l' ~ l)
    (hswap : ∀ a b, Precedes l a b → Precedes l' a b ∨ Commute act a b) (s : σ) :
    l'.foldl act s = l.foldl act s := by
  induction l generalizing l' s with
  | nil => rw [hperm.eq_nil]
  | cons a l ih =>
    obtain ⟨front, back, rfl⟩ := List.append_of_mem (hperm.mem_iff.mpr List.mem_cons_self)
    have hnodup' := hperm.nodup_iff.mpr hnodup
    have hrest : front ++ back ~ l :=
      (List.perm_cons a).mp (List.perm_middle.symm.trans hperm)
    have hne : ∀ b ∈ front ++ back, b ≠ a := by
      intro b hb heq
      exact (List.nodup_cons.mp hnodup).1 (hrest.mem_iff.mp (heq ▸ hb))
    have hfront : ∀ b ∈ front, Commute act a b := by
      intro b hb
      have hbehind : Precedes (a :: l) a b := by
        have hmem := hrest.mem_iff.mp (List.mem_append_left back hb)
        exact (List.singleton_sublist.mpr hmem).cons_cons a
      refine (hswap a b hbehind).resolve_left fun hbefore => ?_
      exact hbefore.asymm hnodup' (Precedes.of_mem_left hb)
    rw [List.foldl_append, List.foldl_cons, foldl_commute hfront, ← List.foldl_append,
      List.foldl_cons]
    refine ih (List.nodup_cons.mp hnodup).2 hrest (fun b c hbc => ?_) (act s a)
    refine (hswap b c (hbc.trans (List.sublist_cons_self a l))).imp_left fun hbefore => ?_
    have hb : b ∈ l := hbc.subset (by simp)
    exact Precedes.remove hnodup' (hne b (hrest.mem_iff.mpr hb))
      (hne c (hrest.mem_iff.mpr hbc.mem)) hbefore

end PrivateChannels.Reordering
