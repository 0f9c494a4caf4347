import PrivateChannels.Core.DedupWindow
import PrivateChannels.Foundation.Fallible

/-!
# What a rebuild of the window holds

Rows may be missing from the store, but a rebuild returns only blocks that follow one
another up to the tip the counter names: a suffix of the chain.
-/

namespace PrivateChannels.Core

open scoped List

/-- After the last gap the heights follow one another. -/
theorem lastGapFrom_spec (heights : List ℕ) (index : ℕ) (gap : Option ℕ) :
    (lastGapFrom index gap heights = gap ∧
      ∃ first, heights = List.range' first heights.length) ∨
    ∃ k, k + 1 < heights.length ∧ lastGapFrom index gap heights = some (index + k) ∧
      ∃ first, heights.drop (k + 1) = List.range' first (heights.length - (k + 1)) := by
  induction heights generalizing index gap with
  | nil => exact .inl ⟨rfl, 0, rfl⟩
  | cons previous heights ih =>
    cases heights with
    | nil => exact .inl ⟨rfl, previous, rfl⟩
    | cons height heights =>
      rw [lastGapFrom]
      rcases ih (index + 1) (if height ≠ previous + 1 then some index else gap) with
        ⟨hgap, first, hfirst⟩ | ⟨k, hk, hgap, first, hfirst⟩
      · by_cases hnext : height = previous + 1
        · refine .inl ⟨by rw [hgap, if_neg (by simpa using hnext)], previous, ?_⟩
          obtain rfl : first = height := by
            simp only [List.length_cons, List.range'_succ, List.cons.injEq] at hfirst
            exact hfirst.1.symm
          rw [List.length_cons, List.range'_succ, ← hnext, ← hfirst]
        · refine .inr ⟨0, by simp, by rw [hgap, if_pos hnext]; rfl, first, ?_⟩
          simpa using hfirst
      · refine .inr ⟨k + 1, by simpa using hk, by rw [hgap]; congr 1; omega, first, ?_⟩
        simpa using hfirst

theorem heightOf_mapM {blocks : List BlockInfo} {heights : List ℕ}
    (h : blocks.mapM heightOf = .ok heights) : blocks.map (·.blockHeight) = heights.map some := by
  induction blocks generalizing heights with
  | nil =>
    cases h
    rfl
  | cons block blocks ih =>
    rw [List.mapM_cons] at h
    obtain ⟨height, hblock, h⟩ := bind_eq_ok.mp h
    obtain ⟨rest, hrest, ⟨⟩⟩ := bind_eq_ok.mp h
    rw [List.map_cons, List.map_cons, ih hrest]
    unfold heightOf at hblock
    split at hblock
    · next hheight => rw [hheight, Except.ok.inj hblock]
    · cases hblock

/-- The blocks follow one another and end at the height of the counter. -/
structure Contiguous (blocks : List BlockInfo) (durableHeight : Option ℕ) (first : ℕ) : Prop where
  heights : blocks.map (·.blockHeight) = (List.range' first blocks.length).map some
  tip : durableHeight = if blocks = [] then none else some (first + blocks.length - 1)

theorem checkTip_ok {slot height : ℕ} {durableHeight : Option ℕ}
    (h : checkTip slot height durableHeight = .ok ()) : durableHeight = some height := by
  cases durableHeight with
  | none => cases h
  | some durable =>
    by_cases heq : height = durable
    · rw [heq]
    · simp [checkTip, heq] at h

/-- What is kept is what follows some block, with or without a gap. -/
theorem verifiedDedupTail_ok {blocks tail : List BlockInfo} {durableHeight : Option ℕ}
    (h : verifiedDedupTail blocks durableHeight = .ok tail) :
    tail <:+ blocks ∧ ∃ first, Contiguous tail durableHeight first := by
  unfold verifiedDedupTail at h
  cases hnewest : blocks.getLast? with
  | none =>
    rw [hnewest] at h
    cases durableHeight with
    | some durable => cases h
    | none =>
      obtain rfl : [] = tail := Except.ok.inj h
      exact ⟨List.nil_suffix, 0, rfl, rfl⟩
  | some newest =>
    rw [hnewest] at h
    obtain ⟨heights, hheights, h⟩ := bind_eq_ok.mp h
    obtain ⟨_, htip, h⟩ := bind_eq_ok.mp h
    have hmap := heightOf_mapM hheights
    have hlen : blocks.length = heights.length := by simpa using congrArg List.length hmap
    have hpos : 0 < blocks.length := List.length_pos_iff.mpr (by rintro rfl; cases hnewest)
    obtain ⟨k, first, hk, rfl, hfirst⟩ : ∃ k first, k < heights.length ∧ blocks.drop k = tail ∧
        heights.drop k = List.range' first (heights.length - k) := by
      rcases lastGapFrom_spec heights 1 none with
        ⟨hgap, first, hfirst⟩ | ⟨k, hk, hgap, first, hfirst⟩
      · rw [hgap] at h
        exact ⟨0, first, hlen ▸ hpos, Except.ok.inj h, hfirst⟩
      · rw [hgap] at h
        exact ⟨k + 1, first, hk, Nat.add_comm 1 k ▸ Except.ok.inj h, hfirst⟩
    have hdrop : (blocks.drop k).length = heights.length - k := by rw [List.length_drop, hlen]
    refine ⟨List.drop_suffix _ _, first, ?_, ?_⟩
    · rw [List.map_drop, hmap, ← List.map_drop, hdrop, hfirst]
    · have hlast := congrArg List.getLast? hfirst
      rw [List.getLast?_drop, if_neg (Nat.not_le.mpr hk), List.getLast?_range',
        if_neg (Nat.sub_ne_zero_of_lt hk)] at hlast
      have hne : blocks.drop k ≠ [] := List.length_pos_iff.mp (hdrop ▸ Nat.sub_pos_of_lt hk)
      rw [if_neg hne, hdrop, checkTip_ok htip, List.getLastD_eq_getLast?, hlast, Option.getD_some]

/-- The blocks ever committed, and what the store holds of them. -/
structure LedgerOk (chain stored : List BlockInfo) (durableHeight : Option ℕ) : Prop where
  heights : chain.map (·.blockHeight) = (List.range chain.length).map some
  durable : durableHeight = if chain = [] then none else some (chain.length - 1)
  stored : stored <+ chain

variable {chain stored : List BlockInfo} {durableHeight : Option ℕ}

theorem LedgerOk.blockHeight (h : LedgerOk chain stored durableHeight) {i : ℕ}
    (hi : i < chain.length) : chain[i].blockHeight = some i := by
  have hget := congrArg (fun l => l[i]?) h.heights
  simpa [hi] using hget

/-- A loaded window is a suffix of the chain. -/
theorem LedgerOk.getLastBlocks_suffix (h : LedgerOk chain stored durableHeight) {limit : ℕ}
    {tail : List BlockInfo} (hload : getLastBlocks stored durableHeight limit = .ok tail) :
    tail <:+ chain ∧ tail.length ≤ limit := by
  obtain ⟨hsuffix, first, hcontiguous⟩ := verifiedDedupTail_ok hload
  have hsub : tail <+ chain :=
    (hsuffix.sublist.trans (List.drop_sublist _ _)).trans h.stored
  refine ⟨?_, ?_⟩
  · have hend : tail ≠ [] → first + tail.length = chain.length := by
      intro hne
      have hchain : chain ≠ [] := by
        rintro rfl
        exact hne (List.sublist_nil.mp hsub)
      have htip := hcontiguous.tip
      rw [if_neg hne, h.durable, if_neg hchain] at htip
      have := List.length_pos_iff.mpr hne
      have := List.length_pos_iff.mpr hchain
      have := Option.some.inj htip
      omega
    by_cases hne : tail = []
    · exact hne ▸ List.nil_suffix
    have hdrop : tail = chain.drop first := by
      refine List.ext_getElem (by rw [List.length_drop]; have := hend hne; omega) fun i hi hi' => ?_
      have hheight : tail[i].blockHeight = some (first + i) := by
        have hget := congrArg (fun l => l[i]?) hcontiguous.heights
        simpa [hi] using hget
      obtain ⟨k, hk, hget⟩ := List.getElem_of_mem (hsub.subset (List.getElem_mem hi))
      have hkh := h.blockHeight hk
      rw [hget, hheight] at hkh
      rw [List.getElem_drop, ← hget]
      congr 1
      exact (Option.some.inj hkh).symm
    rw [hdrop]
    exact List.drop_suffix _ _
  · have hle := hsuffix.length_le
    rw [List.length_drop] at hle
    omega

variable {loaded : List Hash}

theorem noteMessage_mono {cache : DedupCache} {entry : Hash × Hash}
    {message recent : Hash} (h : message ∈ cache recent) :
    message ∈ noteMessage loaded cache entry recent := by
  unfold noteMessage
  split
  · by_cases heq : recent = entry.2
    · subst heq
      simp [h]
    · simp [heq, h]
  · exact h

theorem foldl_noteMessage (entries : List (Hash × Hash)) (cache : DedupCache)
    {message recent : Hash} (hloaded : recent ∈ loaded)
    (h : message ∈ cache recent ∨ (message, recent) ∈ entries) :
    message ∈ entries.foldl (noteMessage loaded) cache recent := by
  induction entries generalizing cache with
  | nil => simpa using h
  | cons entry entries ih =>
    refine ih _ ?_
    rcases h with h | h
    · exact .inl (noteMessage_mono h)
    · rcases List.mem_cons.mp h with rfl | h
      · exact .inl (by simp [noteMessage, hloaded])
      · exact .inr h

/-- The messages of a block with the blockhashes they name. -/
def BlockInfo.messages (block : BlockInfo) : List (Hash × Hash) :=
  block.transactionMessageHashes.zip block.transactionRecentBlockhashes

/-- The window and the notes of a rebuild. -/
theorem foldlM_loadBlock (blocks : List BlockInfo) (state : DedupState)
    {final : DedupState} (h : blocks.foldlM (loadBlock loaded) state = .ok final) :
    final.1 = state.1 ++ blocks.map (·.blockhash) ∧
      ∀ message recent, recent ∈ loaded →
        (message ∈ state.2 recent ∨ ∃ block ∈ blocks, (message, recent) ∈ block.messages) →
        message ∈ final.2 recent := by
  induction blocks generalizing state with
  | nil =>
    cases h
    exact ⟨by simp, fun message recent _ hm => by simpa using hm⟩
  | cons block blocks ih =>
    rw [List.foldlM_cons] at h
    obtain ⟨next, hblock, h⟩ := bind_eq_ok.mp h
    obtain ⟨hlive, hcache⟩ := ih next h
    have hnext : next = (state.1 ++ [block.blockhash],
        block.messages.foldl (noteMessage loaded) state.2) := by
      unfold loadBlock at hblock
      dsimp only at hblock
      split at hblock
      · cases hblock
      · split at hblock
        · cases hblock
        · exact (Except.ok.inj hblock).symm
    refine ⟨by rw [hlive, hnext]; simp, fun message recent hloaded hm => ?_⟩
    refine hcache message recent hloaded ?_
    rcases hm with hm | ⟨other, hother, hm⟩
    · exact .inl (hnext ▸ foldl_noteMessage _ _ hloaded (.inl hm))
    · rcases List.mem_cons.mp hother with rfl | hother
      · exact .inl (hnext ▸ foldl_noteMessage _ _ hloaded (.inr hm))
      · exact .inr ⟨other, hother, hm⟩

/-- A rebuilt window: the newest blocks of the chain, with every message they carry
on one of them. -/
theorem LedgerOk.loadDedupState_ok (h : LedgerOk chain stored durableHeight) {limit : ℕ}
    {live : List Hash} {cache : DedupCache}
    (hload : loadDedupState stored durableHeight limit = .ok (live, cache)) :
    ∃ front tail, chain = front ++ tail ∧ live = tail.map (·.blockhash) ∧ live.length ≤ limit ∧
      ∀ block ∈ tail, ∀ message recent, (message, recent) ∈ block.messages → recent ∈ live →
        message ∈ cache recent := by
  obtain ⟨tail, htail, hload⟩ := bind_eq_ok.mp hload
  obtain ⟨⟨front, rfl⟩, hlen⟩ := h.getLastBlocks_suffix htail
  refine ⟨front, tail, rfl, ?_⟩
  cases tail with
  | nil =>
    cases Except.ok.inj hload
    simp
  | cons block blocks =>
    obtain ⟨hlive, hcache⟩ := foldlM_loadBlock _ _ hload
    simp only [List.nil_append] at hlive
    refine ⟨hlive, by rw [hlive]; simpa using hlen, ?_⟩
    intro other hother message recent hm hrecent
    exact hcache message recent (hlive ▸ hrecent) (.inr ⟨other, hother, hm⟩)

/-- `dedup_window_is_short`, which takes the last block for the oldest. -/
def dedupWindowIsShort (blocks : List BlockInfo) (maxBlockhashes : ℕ) : Bool :=
  blocks.length < maxBlockhashes && blocks.getLast?.any (·.slot ≠ 0)

/-- The warning tells a cut window from a young chain exactly if the window is full, or holds no
genesis block, or only that one. -/
theorem dedup_window_short_iff {stored blocks : List BlockInfo} {durableHeight : Option ℕ}
    {maxBlockhashes : ℕ} (hslots : stored.Pairwise (·.slot < ·.slot))
    (hload : getLastBlocks stored durableHeight maxBlockhashes = .ok blocks) :
    (dedupWindowIsShort blocks maxBlockhashes = true ↔
        blocks.length < maxBlockhashes ∧ ∀ block ∈ blocks, block.slot ≠ 0) ↔
      maxBlockhashes ≤ blocks.length ∨
        blocks ≠ [] ∧ ((∀ block ∈ blocks, block.slot ≠ 0) ∨ blocks.length = 1) := by
  have hsorted : blocks.Pairwise (·.slot < ·.slot) :=
    hslots.sublist ((verifiedDedupTail_ok hload).1.sublist.trans (List.drop_sublist _ _))
  unfold dedupWindowIsShort
  rcases List.eq_nil_or_concat' blocks with rfl | ⟨older, newest, rfl⟩
  · simp
  · have hnewest : newest.slot = 0 → older = [] := by
      intro hzero
      by_contra hne
      obtain ⟨oldest, hmem⟩ := List.exists_mem_of_ne_nil older hne
      have hlt := (List.pairwise_append.mp hsorted).2.2 oldest hmem newest List.mem_cons_self
      omega
    have hone : (older ++ [newest]).length = 1 ↔ older = [] := by simp
    have hall : (∀ block ∈ older ++ [newest], block.slot ≠ 0) ↔
        (∀ block ∈ older, block.slot ≠ 0) ∧ newest.slot ≠ 0 := by simp [or_imp, forall_and]
    rw [Bool.and_eq_true, decide_eq_true_eq, List.getLast?_concat, Option.any_some,
      decide_eq_true_eq, hone, hall]
    by_cases hempty : older = []
    · simp [hempty]
    · have hslot : newest.slot ≠ 0 := fun hzero => hempty (hnewest hzero)
      simp [hslot, hempty, imp_iff_not_or]

/-- A stored block at a slot and height, with no transactions. -/
def emptyBlock (slot height : ℕ) : BlockInfo := ⟨slot, slot, 0, 0, some height, none, [], [], []⟩

/-- Of a chain whose oldest blocks are gone, the three that are left: the window is cut. -/
theorem dedup_window_short_iff_cut :
    let blocks := [emptyBlock 3 3, emptyBlock 5 4, emptyBlock 8 5]
    getLastBlocks blocks (some 5) 4 = .ok blocks ∧ dedupWindowIsShort blocks 4 = true ∧
      (dedupWindowIsShort blocks 4 = true ↔
        blocks.length < 4 ∧ ∀ block ∈ blocks, block.slot ≠ 0) :=
  ⟨rfl, rfl, (@dedup_window_short_iff [emptyBlock 3 3, emptyBlock 5 4, emptyBlock 8 5] _ (some 5) 4
    (by decide) rfl).mpr (.inr ⟨nofun, .inl (by decide)⟩)⟩

/-- The genesis block is in the window, and the window is called cut. -/
theorem young_chain_called_cut :
    getLastBlocks [emptyBlock 0 0, emptyBlock 4 1] (some 1) 3 =
        .ok [emptyBlock 0 0, emptyBlock 4 1] ∧
      dedupWindowIsShort [emptyBlock 0 0, emptyBlock 4 1] 3 = true ∧
      ¬ ∀ block ∈ [emptyBlock 0 0, emptyBlock 4 1], block.slot ≠ 0 :=
  ⟨rfl, rfl, by decide⟩

end PrivateChannels.Core
