import Mathlib

/-!
# Listings read through a cursor

A listing of a log's entries, newest first, read in pages after a cursor. A walk that
stops at a known key has seen every listed entry that is newer.
-/

namespace PrivateChannels.Listing

open scoped List

variable {α κ : Type*}

/-- In the log, oldest first, `a` comes before `b`. -/
def Precedes (log : List κ) (a b : κ) : Prop := [a, b] <+ log

variable {log : List κ} {a b : κ}

theorem Precedes.append (h : Precedes log a b) (later : List κ) : Precedes (log ++ later) a b :=
  h.trans (List.sublist_append_left log later)

theorem precedes_of_append {later : List κ} (ha : a ∈ log) (hb : b ∈ later) :
    Precedes (log ++ later) a b :=
  (List.singleton_sublist.mpr ha).append (List.singleton_sublist.mpr hb)

theorem Precedes.mem (h : Precedes log a b) : b ∈ log :=
  h.subset (by simp)

/-- In a log without repetitions the order is strict. -/
theorem Precedes.asymm (hnodup : log.Nodup) (h : Precedes log a b) : ¬ Precedes log b a := by
  induction log with
  | nil => cases h
  | cons c log ih =>
    intro h'
    obtain ⟨hc, hnodup⟩ := List.nodup_cons.mp hnodup
    cases h with
    | cons _ h =>
      cases h' with
      | cons _ h' => exact ih hnodup h h'
      | cons_cons _ _ => exact hc (h.subset (by simp))
    | cons_cons _ _ =>
      cases h' with
      | cons _ h' => exact hc (h'.subset (by simp))
      | cons_cons _ h' => exact hc (List.singleton_sublist.mp h')

theorem Precedes.ne (hnodup : log.Nodup) (h : Precedes log a b) : a ≠ b :=
  fun he => h.asymm hnodup (by rw [he] at h ⊢; exact h)

variable [DecidableEq κ] (key : α → κ)

/-- The entries after the cursor. -/
def afterCursor (listing : List α) : Option κ → List α
  | none => listing
  | some cursor => (listing.dropWhile fun a => key a != cursor).drop 1

variable {key}

/-- The cursor of the last entry read continues right after it. -/
theorem afterCursor_last {before rest : List α} {last : α}
    (hnodup : ((before ++ last :: rest).map key).Nodup) :
    afterCursor key (before ++ last :: rest) (some (key last)) = rest := by
  have hskip : ∀ a ∈ before, (key a != key last) = true := by
    intro a ha
    rw [List.map_append, List.map_cons] at hnodup
    have hne := (List.nodup_append.mp hnodup).2.2 (key a) (List.mem_map_of_mem ha) (key last)
      List.mem_cons_self
    simpa using hne
  rw [afterCursor, List.dropWhile_append_of_pos hskip]
  simp

/-- Cutting at the first stop keeps the entries before it. -/
theorem take_findIdx?_getD (stop : α → Bool) (page : List α) :
    page.take ((page.findIdx? stop).getD page.length) = page.takeWhile fun a => !stop a := by
  induction page with
  | nil => rfl
  | cons a page ih =>
    cases ha : stop a with
    | true => simp [List.findIdx?_cons, ha]
    | false =>
      rw [List.takeWhile_cons_of_pos (by simp [ha]), ← ih]
      cases hidx : page.findIdx? stop <;> simp [List.findIdx?_cons, ha, hidx]

/-- An entry newer than every stop is met before them. -/
theorem mem_takeWhile_of_precedes {listing : List α} {stops : List κ} {a : α} (hnodup : log.Nodup)
    (hlisted : listing.map key <+ log.reverse) (ha : a ∈ listing)
    (hnewer : ∀ stop ∈ stops, Precedes log stop (key a)) :
    a ∈ listing.takeWhile fun b => !stops.contains (key b) := by
  by_contra hmiss
  have hrest : a ∈ listing.dropWhile fun b => !stops.contains (key b) := by
    rw [← List.takeWhile_append_dropWhile (p := fun b => !stops.contains (key b)) (l := listing)]
      at ha
    exact (List.mem_append.mp ha).resolve_left hmiss
  cases hdrop : listing.dropWhile fun b => !stops.contains (key b) with
  | nil =>
    rw [hdrop] at hrest
    cases hrest
  | cons b rest =>
    have hb : key b ∈ stops := by
      have hhead := List.head?_dropWhile_not (fun b => !stops.contains (key b)) listing
      rw [hdrop] at hhead
      simpa using hhead
    have hnewer := hnewer _ hb
    rw [hdrop] at hrest
    have hrest : a ∈ rest := by
      refine (List.mem_cons.mp hrest).resolve_left fun he => ?_
      exact hnewer.ne hnodup (by rw [he])
    have hpair : [key b, key a] <+ log.reverse := by
      refine List.Sublist.trans ?_ hlisted
      refine List.Sublist.trans ?_
        ((List.dropWhile_sublist fun b => !stops.contains (key b)).map key)
      rw [hdrop, List.map_cons]
      exact (List.singleton_sublist.mpr (List.mem_map_of_mem hrest)).cons_cons (key b)
    exact hnewer.asymm hnodup (by simpa [Precedes] using hpair.reverse)

end PrivateChannels.Listing
