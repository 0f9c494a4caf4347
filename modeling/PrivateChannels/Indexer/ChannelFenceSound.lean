import PrivateChannels.Indexer.ChannelFence

/-!
# What a fence verdict says about the channel

A mismatch is proof against the channel whatever its nodes answer. An `Ok` over an empty
range rests on one listing, of a node that may not hold all of it.
-/

namespace PrivateChannels.Indexer

namespace ChannelChain

variable {chain : ChannelChain} {slot : ℕ}

theorem hashAt_eq_some {hash : String} (h : chain.hashAt slot = some hash) :
    ∃ b ∈ chain.blocks, b.slot = slot ∧ b.blockhash = hash := by
  obtain ⟨b, hb, rfl⟩ := Option.map_eq_some_iff.mp h
  exact ⟨b, List.mem_of_find?_eq_some hb, of_decide_eq_true (List.find?_some hb :), rfl⟩

variable {b : ChannelBlock}

theorem hashAt_eq_none (h : chain.hashAt slot = none) (hb : b ∈ chain.blocks) : b.slot ≠ slot := by
  intro heq
  have := List.find?_eq_none.mp (Option.map_eq_none_iff.mp h) b hb
  exact this (decide_eq_true heq)

/-- Around a block: what lies before it is below it, what follows is above it. -/
theorem through_split {before after : List ChannelBlock}
    (h : chain.blocks = before ++ b :: after) : chain.through b.slot = before ++ [b] := by
  have hsorted := chain.linked.ascending
  rw [h] at hsorted
  obtain ⟨-, htail, hcross⟩ := List.pairwise_append.mp hsorted
  have hbefore : before.filter (·.slot ≤ b.slot) = before := by
    apply List.filter_eq_self.mpr
    intro c hc
    exact decide_eq_true (hcross c hc b List.mem_cons_self).le
  have hafter : after.filter (·.slot ≤ b.slot) = [] := by
    apply List.filter_eq_nil_iff.mpr
    intro c hc hle
    have hlt : b.slot < c.slot := List.rel_of_pairwise_cons htail hc
    exact absurd (of_decide_eq_true hle) (Nat.not_le.mpr hlt)
  rw [through, h, List.filter_append, hbefore, List.filter_cons_of_pos (by simp), hafter]

/-- With nothing in between, two bounds keep the same blocks. -/
theorem through_eq_of_empty {lo hi : ℕ} (hle : lo ≤ hi)
    (hempty : ∀ b ∈ chain.blocks, lo < b.slot → ¬ b.slot ≤ hi) :
    chain.through hi = chain.through lo := by
  apply List.filter_congr
  intro b hb
  rw [decide_eq_decide]
  constructor
  · intro hhi
    by_contra hlo
    exact hempty b hb (Nat.not_le.mp hlo) hhi
  · exact fun hlo => hlo.trans hle

theorem mem_through : b ∈ chain.through slot ↔ b ∈ chain.blocks ∧ b.slot ≤ slot := by
  simp [through]

end ChannelChain

variable {chain : ChannelChain} {node : ChannelNode}

theorem mem_of_mem_held (h : b ∈ node.held chain) : b ∈ chain.blocks :=
  List.mem_of_mem_take (List.mem_filter.mp h).1

theorem getBlockSummary_some {parent : ℕ}
    {hash : String} (h : getBlockSummary (node.held chain) slot = some (hash, parent)) :
    ∃ b ∈ chain.blocks, b.slot = slot ∧ b.blockhash = hash ∧ b.parentSlot = parent := by
  obtain ⟨b, hfound, hb⟩ := Option.map_eq_some_iff.mp h
  cases hb
  exact ⟨b, mem_of_mem_held (List.mem_of_find?_eq_some hfound),
    of_decide_eq_true (List.find?_some hfound :), rfl, rfl⟩

/-- A block below the first one served precedes it, so the node's prefix has it. -/
theorem getBlocksWithLimit_one {start next : ℕ}
    {rest : List ℕ} (h : next :: rest = getBlocksWithLimit (node.held chain) start 1) :
    ∃ b ∈ chain.blocks, b.slot = next ∧ start ≤ next ∧
      ∀ c ∈ chain.blocks, start ≤ c.slot → node.floor ≤ c.slot → next ≤ c.slot := by
  unfold getBlocksWithLimit at h
  cases hserved : (node.held chain).filter (start ≤ ·.slot) with
  | nil => simp [hserved] at h
  | cons b served =>
    rw [hserved] at h
    obtain ⟨rfl, -⟩ := List.cons.inj h
    have hb : b ∈ (node.held chain).filter (start ≤ ·.slot) := hserved ▸ List.mem_cons_self
    obtain ⟨hheld, hstart⟩ := List.mem_filter.mp hb
    refine ⟨b, mem_of_mem_held hheld, rfl, of_decide_eq_true hstart, fun c hc hlo hfloor => ?_⟩
    by_contra hlt
    have hbelow : c.slot < b.slot := Nat.not_le.mp hlt
    have hsorted := chain.linked.ascending
    rw [← List.take_append_drop node.height chain.blocks] at hsorted hc
    have hhead : c ∈ chain.blocks.take node.height := by
      rcases List.mem_append.mp hc with htake | hdrop
      · exact htake
      · have := (List.pairwise_append.mp hsorted).2.2 b (List.mem_filter.mp hheld).1 c hdrop
        omega
    have hcheld : c ∈ (node.held chain).filter (start ≤ ·.slot) :=
      List.mem_filter.mpr
        ⟨List.mem_filter.mpr ⟨hhead, decide_eq_true hfloor⟩, decide_eq_true hlo⟩
    have hservedSorted : (b :: served).Pairwise (·.slot < ·.slot) := by
      rw [← hserved]
      exact ((chain.linked.ascending.sublist (List.take_sublist _ _)).filter _).filter _
    rw [hserved] at hcheld
    rcases List.mem_cons.mp hcheld with rfl | hlater
    · omega
    · have := (List.pairwise_cons.mp hservedSorted).1 c hlater
      omega

/-- What an `Ok` was read from. -/
theorem probe_ok {reads : ProbeReads} {fence : ChannelFence} {checkpoint : ℕ}
    (h : probe reads fence checkpoint = .final .ok) :
    (∃ parent, reads.summary fence.slot = .ok (some (fence.blockhash, parent))) ∧
      (checkpoint ≤ fence.slot ∨ ∃ next rest,
        reads.blocksWithLimit (fence.slot + 1) 1 = .ok (next :: rest) ∧ checkpoint < next) := by
  unfold probe at h
  split at h
  · cases h
  split at h
  · cases h
  split at h
  · rename_i hash parent hsummary
    split at h
    · rename_i heq
      refine ⟨⟨parent, heq ▸ hsummary⟩, ?_⟩
      unfold probeGap at h
      split at h
      · exact .inl ‹_›
      split at h
      · rename_i next rest hlist
        split at h
        · cases h
        · exact .inr ⟨next, rest, hlist, Nat.not_le.mp ‹_›⟩
      · cases h
      · cases h
    · cases h
  · unfold probeMissingBlock at h
    split at h
    · cases h
    split at h
    · cases h
    split at h
    · cases h
    · cases h
    split at h
    · split at h <;> cases h
    · cases h
    · cases h
  · cases h

/-- What a mismatch was read from. -/
theorem probe_mismatch {reads : ProbeReads} {fence : ChannelFence} {checkpoint : ℕ}
    {reason : String} (h : probe reads fence checkpoint = .final (.mismatch reason)) :
    (∃ hash parent, reads.summary fence.slot = .ok (some (hash, parent)) ∧
        hash ≠ fence.blockhash) ∨
      (∃ next rest, reads.blocksWithLimit (fence.slot + 1) 1 = .ok (next :: rest) ∧
        next ≤ checkpoint) ∨
      ∃ later rest hash parent, reads.blocksWithLimit (fence.slot + 1) 1 = .ok (later :: rest) ∧
        reads.laterSummary later = .ok (some (hash, parent)) ∧ parent < fence.slot := by
  unfold probe at h
  split at h
  · cases h
  split at h
  · cases h
  split at h
  · rename_i hash parent hsummary
    split at h
    · unfold probeGap at h
      split at h
      · cases h
      split at h
      · rename_i next rest hlist
        split at h
        · exact .inr (.inl ⟨next, rest, hlist, ‹_›⟩)
        · cases h
      · cases h
      · cases h
    · exact .inl ⟨hash, parent, hsummary, ‹_›⟩
  · unfold probeMissingBlock at h
    split at h
    · cases h
    split at h
    · cases h
    split at h
    · cases h
    · cases h
    rename_i later rest hlist
    split at h
    · rename_i hash parent hlater
      split at h
      · exact .inr (.inr ⟨later, rest, hash, parent, hlist, hlater, ‹_›⟩)
      · cases h
    · cases h
    · cases h
  · cases h

/-- A verdict other than `Unavailable` is the verdict of one probe. -/
theorem verifyLoop_eq {budget : String} {record : FenceRecord} {first : ProbeReads}
    {rest : List ProbeReads} {verdict : FenceVerdict}
    (h : verifyLoop budget record first rest = verdict)
    (hverdict : ∀ reason, verdict ≠ .unavailable reason) :
    ∃ reads ∈ first :: rest, probe reads record.fence record.checkpoint = .final verdict := by
  induction rest generalizing first with
  | nil =>
    unfold verifyLoop at h
    split at h
    · rename_i hprobe
      exact ⟨first, List.mem_cons_self, h ▸ hprobe⟩
    · exact absurd h.symm (hverdict _)
  | cons next rest ih =>
    unfold verifyLoop at h
    split at h
    · rename_i hprobe
      exact ⟨first, List.mem_cons_self, h ▸ hprobe⟩
    · obtain ⟨reads, hmem, hprobe⟩ := ih h
      exact ⟨reads, List.mem_cons_of_mem _ hmem, hprobe⟩

/-- The fence is the newest block at or below the checkpoint of the chain that was read. -/
structure NewestBlock (chain : ChannelChain) (fence : ChannelFence) (checkpoint : ℕ) : Prop where
  present : chain.hashAt fence.slot = some fence.blockhash
  slot_le : fence.slot ≤ checkpoint
  empty : ∀ s, fence.slot < s → s ≤ checkpoint → chain.hashAt s = none

variable {old chain : ChannelChain} {record : FenceRecord} {reads : ProbeReads} {cut : ℕ}

theorem NewestBlock.not_mem_gap (h : NewestBlock old record.fence record.checkpoint)
    (hb : b ∈ old.blocks) (hlo : record.fence.slot < b.slot) : ¬ b.slot ≤ record.checkpoint := by
  intro hhi
  exact ChannelChain.hashAt_eq_none (h.empty b.slot hlo hhi) hb rfl

/-- The fence block, one in the range the indexer saw empty, one above the checkpoint. -/
def restoredBlocks (old : ChannelChain) (record : FenceRecord) (inGap above : String) :
    List ChannelBlock :=
  old.through record.fence.slot ++
    [⟨record.fence.slot + 1, inGap, record.fence.slot⟩,
      ⟨record.checkpoint + 1, above, record.fence.slot + 1⟩]

/-- The two prefixes of the restored channel that end in a new block. -/
def EndsInNewBlock (old : ChannelChain) (record : FenceRecord) (inGap above : String)
    (before : List ChannelBlock) (b : ChannelBlock) : Prop :=
  (before = old.through record.fence.slot ∧ b.blockhash = inGap ∧
    b = ⟨record.fence.slot + 1, inGap, record.fence.slot⟩) ∨
  (before = old.through record.fence.slot ++
      [⟨record.fence.slot + 1, inGap, record.fence.slot⟩] ∧ b.blockhash = above ∧
    b = ⟨record.checkpoint + 1, above, record.fence.slot + 1⟩)

variable {inGap above : String}

/-- The other prefixes are those of the old chain. -/
theorem restoredBlocks_prefix {before : List ChannelBlock}
    (h : before ++ [b] <+: restoredBlocks old record inGap above) :
    before ++ [b] <+: old.through record.fence.slot ∨
      EndsInNewBlock old record inGap above before b := by
  have hsplit : restoredBlocks old record inGap above =
      (old.through record.fence.slot ++ [⟨record.fence.slot + 1, inGap, record.fence.slot⟩]) ++
        [⟨record.checkpoint + 1, above, record.fence.slot + 1⟩] :=
    List.append_cons _ _ _
  rw [hsplit] at h
  rcases List.prefix_concat_iff.mp h with heq | hshort
  · obtain ⟨rfl, rfl⟩ := List.append_inj' heq rfl |>.imp_right fun h => (List.cons.inj h).1
    exact .inr (.inr ⟨rfl, rfl, rfl⟩)
  · rcases List.prefix_concat_iff.mp hshort with heq | hold
    · obtain ⟨rfl, rfl⟩ := List.append_inj' heq rfl |>.imp_right fun h => (List.cons.inj h).1
      exact .inr (.inl ⟨rfl, rfl, rfl⟩)
    · exact .inl hold

/-- New blocks with new hashes: ancestry stays settled by the hash. -/
theorem restored_hashes (restored : ChannelChain) (hold : old.HashesDetermineAncestry old)
    (hinGap : inGap ∉ old.blocks.map (·.blockhash)) (habove : above ∉ old.blocks.map (·.blockhash))
    (hne : inGap ≠ above) (hrestored : restored.blocks = restoredBlocks old record inGap above)
    (hhead : old.through record.fence.slot <+: old.blocks) :
    old.HashesDetermineAncestry restored := by
  have hcases : ∀ c ∈ [old, restored], ∀ before b, before ++ [b] <+: c.blocks →
      (before ++ [b] <+: old.blocks ∧ b.blockhash ∈ old.blocks.map (·.blockhash)) ∨
      EndsInNewBlock old record inGap above before b := by
    intro c hc before b hpre
    have hknown (h : before ++ [b] <+: old.blocks) :
        b.blockhash ∈ old.blocks.map (·.blockhash) :=
      List.mem_map_of_mem (h.subset (by simp))
    rcases List.mem_cons.mp hc with rfl | hc
    · exact .inl ⟨hpre, hknown hpre⟩
    · obtain rfl : c = restored := by simpa using hc
      rw [hrestored] at hpre
      rcases restoredBlocks_prefix hpre with h | h
      · exact .inl ⟨h.trans hhead, hknown (h.trans hhead)⟩
      · exact .inr h
  intro c hc c' hc' before b before' b' hpre hpre' heq
  rcases hcases c hc before b hpre with ⟨h, hin⟩ | ⟨rfl, hb, rfl⟩ | ⟨rfl, hb, rfl⟩ <;>
    rcases hcases c' hc' before' b' hpre' with ⟨h', hin'⟩ | ⟨rfl, hb', rfl⟩ | ⟨rfl, hb', rfl⟩
  · exact hold old (by simp) old (by simp) _ _ _ _ h h' heq
  · rw [heq] at hin
    exact absurd hin hinGap
  · rw [heq] at hin
    exact absurd hin habove
  · rw [← heq] at hin'
    exact absurd hin' hinGap
  · exact ⟨rfl, rfl⟩
  · exact absurd heq hne
  · rw [← heq] at hin'
    exact absurd hin' habove
  · exact absurd heq.symm hne
  · exact ⟨rfl, rfl⟩

/-- The reads of a channel whose listing node was pruned past the new block. -/
def prunedReads (chain : ChannelChain) (fence : ChannelFence) : ProbeReads where
  slot := .ok fence.slot
  summary slot := .ok (getBlockSummary (ChannelNode.held ⟨chain.blocks.length, 0⟩ chain) slot)
  firstAvailableBlock := .ok 0
  blocksWithLimit start limit :=
    .ok (getBlocksWithLimit (ChannelNode.held ⟨chain.blocks.length, fence.slot + 2⟩ chain)
      start limit)
  laterSummary slot :=
    .ok (getBlockSummary (ChannelNode.held ⟨chain.blocks.length, 0⟩ chain) slot)

theorem prunedReads_answeredBy (chain : ChannelChain) (fence : ChannelFence)
    (hcut : fence.slot + 2 ≤ cut) : (prunedReads chain fence).AnsweredBy chain cut :=
  ⟨⟨_, fun _ _ h => (Except.ok.inj h).symm⟩, ⟨_, hcut, fun _ _ _ h => (Except.ok.inj h).symm⟩,
    ⟨_, fun _ _ h => (Except.ok.inj h).symm⟩⟩

section

variable (hnewest : NewestBlock old record.fence record.checkpoint)
include hnewest

/-- A probe finds a mismatch only on a chain that does not extend what was read. -/
theorem probe_mismatch_sound (hreads : reads.AnsweredBy chain cut) {reason : String}
    (h : probe reads record.fence record.checkpoint = .final (.mismatch reason)) :
    ¬ chain.Extends old record.checkpoint := by
  intro hext
  have hsame (b : ChannelBlock) (hle : b.slot ≤ record.checkpoint) :
      b ∈ chain.blocks ↔ b ∈ old.blocks := by
    have := (congrArg (b ∈ ·) hext).to_iff
    simpa only [ChannelChain.mem_through, hle, and_true] using this
  obtain ⟨fenceBlock, hfence, hslot, hhash⟩ := ChannelChain.hashAt_eq_some hnewest.present
  rcases probe_mismatch h with ⟨hash, parent, hsummary, hne⟩ | ⟨next, rest, hlist, hle⟩ |
      ⟨later, rest, hash, parent, hlist, hlater, hparent⟩
  · obtain ⟨node, hnode⟩ := hreads.summary
    obtain ⟨b, hb, hbslot, rfl, -⟩ := getBlockSummary_some (hnode _ _ hsummary).symm
    have hbold : b ∈ old.blocks := (hsame b (hbslot ▸ hnewest.slot_le)).mp hb
    have heq : b = fenceBlock := old.linked.eq_of_slot_eq hbold hfence (hbslot.trans hslot.symm)
    exact hne (heq ▸ hhash)
  · obtain ⟨node, -, hnode⟩ := hreads.blocks
    obtain ⟨b, hb, rfl, hstart, -⟩ := getBlocksWithLimit_one (hnode _ _ _ hlist)
    exact hnewest.not_mem_gap ((hsame b hle).mp hb) hstart hle
  · obtain ⟨node, -, hnode⟩ := hreads.blocks
    obtain ⟨-, -, -, hstart, -⟩ := getBlocksWithLimit_one (hnode _ _ _ hlist)
    obtain ⟨node', hnode'⟩ := hreads.later
    obtain ⟨b, hb, rfl, -, rfl⟩ := getBlockSummary_some (hnode' _ _ hlater).symm
    have hfenceNew : fenceBlock ∈ chain.blocks :=
      (hsame fenceBlock (hslot ▸ hnewest.slot_le)).mpr hfence
    have := chain.linked.le_parent hb hfenceNew (by omega)
    omega

/-- Where the listing node keeps the whole gap, an `Ok` means the same blocks. -/
theorem probe_ok_sound (hashes : old.HashesDetermineAncestry chain)
    (hreads : reads.AnsweredBy chain cut)
    (hcut : record.checkpoint ≤ record.fence.slot ∨ cut ≤ record.fence.slot + 1)
    (h : probe reads record.fence record.checkpoint = .final .ok) :
    chain.Extends old record.checkpoint := by
  obtain ⟨⟨parent, hsummary⟩, hgap⟩ := probe_ok h
  obtain ⟨node, hnode⟩ := hreads.summary
  obtain ⟨b, hb, hslot, hhash, -⟩ := getBlockSummary_some (hnode _ _ hsummary).symm
  obtain ⟨fenceBlock, hfence, hfenceSlot, hfenceHash⟩ :=
    ChannelChain.hashAt_eq_some hnewest.present
  have hempty : ∀ c ∈ chain.blocks, b.slot < c.slot → ¬ c.slot ≤ record.checkpoint := by
    intro c hc hlo hhi
    rcases hgap with hnone | ⟨next, rest, hlist, hnext⟩
    · omega
    · obtain ⟨lister, hfloor, hlister⟩ := hreads.blocks
      obtain ⟨-, -, -, -, hfirst⟩ := getBlocksWithLimit_one (hlister _ _ _ hlist)
      have := hfirst c hc (by omega) (by omega)
      omega
  have hemptyOld : ∀ c ∈ old.blocks, fenceBlock.slot < c.slot → ¬ c.slot ≤ record.checkpoint :=
    fun c hc hlo => hnewest.not_mem_gap hc (hfenceSlot ▸ hlo)
  obtain ⟨before, after, hsplit⟩ := List.append_of_mem hb
  obtain ⟨before', after', hsplit'⟩ := List.append_of_mem hfence
  have hhead : before ++ [b] <+: chain.blocks := ⟨after, by simp [hsplit]⟩
  have hhead' : before' ++ [fenceBlock] <+: old.blocks := ⟨after', by simp [hsplit']⟩
  obtain ⟨rfl, rfl⟩ := hashes old (by simp) chain (by simp) _ _ _ _ hhead' hhead
    (hfenceHash.trans hhash.symm)
  have hle : fenceBlock.slot ≤ record.checkpoint := hfenceSlot ▸ hnewest.slot_le
  rw [ChannelChain.Extends, ChannelChain.through_eq_of_empty hle hempty,
    ChannelChain.through_eq_of_empty hle hemptyOld, ChannelChain.through_split hsplit,
    ChannelChain.through_split hsplit']

/-- The restored blocks are a chain. -/
theorem restoredBlocks_linked (hgap : record.fence.slot < record.checkpoint)
    (inGap above : String) :
    Linked ChannelBlock.slot ChannelBlock.parentSlot
      (restoredBlocks old record inGap above) := by
  obtain ⟨fenceBlock, hfence, hslot, -⟩ := ChannelChain.hashAt_eq_some hnewest.present
  obtain ⟨before, after, hsplit⟩ := List.append_of_mem hfence
  have hthrough : old.through record.fence.slot = before ++ [fenceBlock] :=
    hslot ▸ ChannelChain.through_split hsplit
  have hkept : (before ++ [fenceBlock]).IsChain
      fun b c => b.slot < c.slot ∧ c.parentSlot = b.slot := by
    have := old.linked
    rw [hsplit, List.append_cons, Linked] at this
    exact (List.isChain_append.mp this).1
  rw [restoredBlocks, hthrough, Linked]
  refine List.isChain_append.mpr ⟨hkept, ?_, ?_⟩
  · refine List.isChain_cons_cons.mpr ⟨⟨?_, rfl⟩, .singleton _⟩
    dsimp only
    omega
  · intro b hb c hc
    obtain rfl : fenceBlock = b := by simpa using hb
    obtain rfl : _ = c := by simpa using hc
    exact ⟨by dsimp only; omega, hslot.symm⟩

/-- The listing starts above the checkpoint, so a channel with a block never read passes. -/
theorem probe_prunedReads (restored : ChannelChain) (hgap : record.fence.slot < record.checkpoint)
    (hrestored : restored.blocks = restoredBlocks old record inGap above) :
    probe (prunedReads restored record.fence) record.fence record.checkpoint = .final .ok ∧
      ¬ restored.Extends old record.checkpoint := by
  obtain ⟨fenceBlock, hfence, hslot, hhash⟩ := ChannelChain.hashAt_eq_some hnewest.present
  have hmem : fenceBlock ∈ restored.blocks := by
    rw [hrestored]
    exact List.mem_append_left _ (ChannelChain.mem_through.mpr ⟨hfence, hslot.le⟩)
  constructor
  · have hsummary : (prunedReads restored record.fence).summary record.fence.slot
        = .ok (some (record.fence.blockhash, fenceBlock.parentSlot)) := by
      have hheld : (⟨restored.blocks.length, 0⟩ : ChannelNode).held restored
          = restored.blocks := by
        simp [ChannelNode.held]
      have hfound : restored.blocks.find? (·.slot = record.fence.slot) = some fenceBlock := by
        cases hf : restored.blocks.find? (·.slot = record.fence.slot) with
        | none => exact absurd (decide_eq_true hslot) (List.find?_eq_none.mp hf fenceBlock hmem)
        | some b =>
          have hb : b.slot = record.fence.slot := of_decide_eq_true (List.find?_some hf :)
          rw [restored.linked.eq_of_slot_eq (List.mem_of_find?_eq_some hf) hmem
            (hb.trans hslot.symm)]
      simp [prunedReads, getBlockSummary, hheld, hfound, hhash]
    have hlist : (prunedReads restored record.fence).blocksWithLimit (record.fence.slot + 1) 1
        = .ok [record.checkpoint + 1] := by
      have hkept : (old.through record.fence.slot).filter (record.fence.slot + 2 ≤ ·.slot)
          = [] := by
        apply List.filter_eq_nil_iff.mpr
        intro b hb hle
        have := (ChannelChain.mem_through.mp hb).2
        have := of_decide_eq_true hle
        omega
      have hheld : (⟨restored.blocks.length, record.fence.slot + 2⟩ : ChannelNode).held restored
          = [⟨record.checkpoint + 1, above, record.fence.slot + 1⟩] := by
        have habove : record.fence.slot + 2 ≤ record.checkpoint + 1 := by omega
        rw [ChannelNode.held, List.take_length, hrestored, restoredBlocks, List.filter_append,
          hkept]
        simp [habove]
      simp [prunedReads, getBlocksWithLimit, hheld, hgap.le]
    have hnot : ¬ record.checkpoint ≤ record.fence.slot := Nat.not_le.mpr hgap
    have habove : ¬ record.checkpoint + 1 ≤ record.checkpoint := Nat.not_succ_le_self _
    unfold probe probeGap
    rw [hsummary, hlist]
    simp [prunedReads, hnot, habove]
  · intro hext
    have hnew : (⟨record.fence.slot + 1, inGap, record.fence.slot⟩ : ChannelBlock)
        ∈ restored.through record.checkpoint := by
      refine ChannelChain.mem_through.mpr ⟨?_, hgap⟩
      rw [hrestored]
      exact List.mem_append_right _ List.mem_cons_self
    rw [hext] at hnew
    obtain ⟨hin, hle⟩ := ChannelChain.mem_through.mp hnew
    exact hnewest.not_mem_gap hin (Nat.lt_succ_self _) hle

/-- An `Ok` is trustworthy exactly when the range is empty or no listing node is pruned into
it. -/
theorem verifyLoop_ok_iff (hold : old.HashesDetermineAncestry old) (cut : ℕ) :
    (∀ chain : ChannelChain, old.HashesDetermineAncestry chain →
        ∀ budget first rest, (∀ reads ∈ first :: rest, reads.AnsweredBy chain cut) →
          verifyLoop budget record first rest = .ok → chain.Extends old record.checkpoint) ↔
      record.checkpoint ≤ record.fence.slot ∨ cut ≤ record.fence.slot + 1 := by
  constructor
  · intro hsound
    by_contra hcut
    obtain ⟨hgap, hpruned⟩ := not_or.mp hcut
    have hgap : record.fence.slot < record.checkpoint := Nat.not_le.mp hgap
    obtain ⟨inGap, hinGap⟩ :=
      Infinite.exists_notMem_finset (old.blocks.map (·.blockhash)).toFinset
    obtain ⟨above, habove⟩ :=
      Infinite.exists_notMem_finset (inGap :: old.blocks.map (·.blockhash)).toFinset
    rw [List.mem_toFinset] at hinGap habove
    obtain ⟨hne, habove⟩ := not_or.mp (List.mem_cons.not.mp habove)
    let restored : ChannelChain :=
      ⟨restoredBlocks old record inGap above, restoredBlocks_linked hnewest hgap inGap above⟩
    obtain ⟨fenceBlock, hfence, hslot, -⟩ := ChannelChain.hashAt_eq_some hnewest.present
    have hhead : old.through record.fence.slot <+: old.blocks := by
      obtain ⟨before, after, hsplit⟩ := List.append_of_mem hfence
      rw [← hslot, ChannelChain.through_split hsplit]
      exact ⟨after, by simp [hsplit]⟩
    obtain ⟨hprobe, hnot⟩ := probe_prunedReads hnewest restored hgap rfl
    have hhashes := restored_hashes restored hold hinGap habove (Ne.symm hne) rfl
      hhead
    refine hnot (hsound restored hhashes "" (prunedReads restored record.fence) [] ?_ ?_)
    · intro reads hreads
      obtain rfl : reads = _ := List.mem_singleton.mp hreads
      exact prunedReads_answeredBy _ _ (by omega)
    · unfold verifyLoop
      rw [hprobe]
  · intro hcut chain hashes budget first rest hreads hok
    obtain ⟨reads, hmem, hprobe⟩ := verifyLoop_eq hok nofun
    exact probe_ok_sound hnewest hashes (hreads reads hmem) hcut hprobe

end

end PrivateChannels.Indexer
