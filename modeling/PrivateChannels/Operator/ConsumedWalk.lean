import PrivateChannels.Foundation.Fallible
import PrivateChannels.Operator.ConsumedSet

/-!
# What a walk finds

A walk that succeeds has met every mint newer than the newest known one, and every entry
it returns is a mint that landed.
-/

namespace PrivateChannels.Operator

open Listing
open Storage (Signature TransactionType Row)

section Pagination

variable {rpc : ChannelRpc} {address : Pubkey} {pageLimit : ℕ} {stopAt : List Signature}
  {keep : ListedSignature → Bool} {listing : List ListedSignature}

/-- The pages of an address are cut from one listing. -/
def PagesOf (rpc : ChannelRpc) (address : Pubkey) (pageLimit : ℕ)
    (listing : List ListedSignature) : Prop :=
  ∀ before page, rpc.signatures address before = .ok page →
    page = (afterCursor (·.signature) listing before).take pageLimit

/-- The listed entries newer than every stop. -/
def newerThan (stopAt : List Signature) (listing : List ListedSignature) : List ListedSignature :=
  listing.takeWhile fun status => !stopAt.contains status.signature

/-- From a cursor, with everything before it read, the walk keeps what is newer
than the stops. -/
theorem getSignaturesForAddressPaginated_from (hnodup : (listing.map (·.signature)).Nodup)
    (hpages : PagesOf rpc address pageLimit listing) {fuel : ℕ} {before : Option Signature}
    {read rest all : List ListedSignature} {met : Bool} (hsplit : listing = read ++ rest)
    (hcursor : afterCursor (·.signature) listing before = rest)
    (hread : ∀ status ∈ read, stopAt.contains status.signature = false)
    (h : getSignaturesForAddressPaginated rpc address pageLimit stopAt keep fuel before
      (read.filter keep) = some (.ok (all, met))) :
    all = (newerThan stopAt listing).filter keep := by
  induction fuel generalizing before read rest with
  | zero => cases h
  | succ fuel ih =>
    rw [getSignaturesForAddressPaginated] at h
    cases hpage : rpc.signatures address before with
    | error e =>
      rw [hpage] at h
      cases h
    | ok page =>
      have hcut : page = rest.take pageLimit := hcursor ▸ hpages before page hpage
      have hrest : rest = page ++ rest.drop pageLimit := by
        rw [hcut, List.take_append_drop]
      have hwhile : newerThan stopAt listing = read ++ newerThan stopAt rest := by
        rw [hsplit, newerThan, List.takeWhile_append_of_pos (by simpa using hread)]
        rfl
      simp only [hpage, take_findIdx?_getD, ← List.filter_append] at h
      split at h
      · next hstop =>
        obtain ⟨rfl, _⟩ := Prod.mk.inj (Except.ok.inj (Option.some.inj h))
        have hinside : ¬ (newerThan stopAt page).length = page.length := by
          intro hlen
          have hall : newerThan stopAt page = page :=
            (List.takeWhile_prefix _).eq_of_length hlen
          rw [List.findIdx?_isSome, List.any_eq_true] at hstop
          obtain ⟨status, hmem, hs⟩ := hstop
          rw [← hall] at hmem
          have hpast := List.mem_takeWhile_imp hmem
          rw [hs] at hpast
          cases hpast
        have hcutoff : newerThan stopAt rest = newerThan stopAt page := by
          unfold newerThan at hinside ⊢
          rw [hrest, List.takeWhile_append, if_neg hinside]
        rw [hwhile, hcutoff]
        rfl
      · next hstop =>
        have hnone : ∀ status ∈ page, stopAt.contains status.signature = false := by
          rw [Bool.not_eq_true, List.findIdx?_isSome] at hstop
          intro status hmem
          by_contra hs
          rw [List.any_eq_false] at hstop
          exact hstop status hmem (by simpa using hs)
        have hwhole : (page.takeWhile fun status => !stopAt.contains status.signature) = page :=
          List.takeWhile_eq_self_iff.mpr (by simpa using hnone)
        rw [hwhole] at h
        split at h
        · next hshort =>
          obtain ⟨rfl, _⟩ := Prod.mk.inj (Except.ok.inj (Option.some.inj h))
          have hend : page = rest := by
            rw [hcut] at hshort ⊢
            exact List.take_of_length_le (by rw [List.length_take] at hshort; omega)
          rw [hwhile, newerThan, ← hend, hwhole]
        · cases hlast : page.getLast? with
          | none =>
            rw [hlast] at h
            cases h
          | some last =>
            rw [hlast] at h
            obtain ⟨front, hfront⟩ := List.getLast?_eq_some_iff.mp hlast
            have hlisting : listing = (read ++ page) ++ rest.drop pageLimit := by
              rw [hsplit, List.append_assoc, ← hrest]
            refine @ih _ (read ++ page) (rest.drop pageLimit) hlisting ?_ ?_ h
            · rw [hfront, List.append_assoc, List.append_assoc, List.singleton_append,
                ← List.append_assoc] at hlisting
              rw [hlisting] at hnodup ⊢
              exact afterCursor_last hnodup
            · intro status hmem
              exact (List.mem_append.mp hmem).elim (hread status) (hnone status)

theorem getSignaturesForAddressPaginated_ok (hnodup : (listing.map (·.signature)).Nodup)
    (hpages : PagesOf rpc address pageLimit listing) {fuel : ℕ} {all : List ListedSignature}
    {met : Bool} (h : getSignaturesForAddressPaginated rpc address pageLimit stopAt keep fuel none
      [] = some (.ok (all, met))) : all = (newerThan stopAt listing).filter keep :=
  @getSignaturesForAddressPaginated_from _ _ _ _ _ _ hnodup hpages _ _ [] _ _ _ rfl rfl nofun h

end Pagination

namespace ConsumedSet

variable {set set' : ConsumedSet} {event : SourceEventId} {consumed : ConsumedMint}

/-- The set has an entry for the event. -/
def Has (set : ConsumedSet) (event : SourceEventId) : Prop := (set.get event).isSome = true

theorem mem_of_get (h : set.get event = some consumed) : (event, consumed) ∈ set := by
  obtain ⟨entry, hfind, rfl⟩ := Option.map_eq_some_iff.mp h
  have hkey : entry.1 = event := by simpa using List.find?_some hfind
  exact hkey ▸ List.mem_of_find?_eq_some hfind

theorem has_iff : set.Has event ↔ ∃ consumed, (event, consumed) ∈ set := by
  unfold Has ConsumedSet.get
  rw [Option.isSome_map, List.find?_isSome]
  constructor
  · rintro ⟨⟨e, consumed⟩, hmem, hkey⟩
    obtain rfl : e = event := by simpa using hkey
    exact ⟨consumed, hmem⟩
  · rintro ⟨consumed, hmem⟩
    exact ⟨_, hmem, by simp⟩

/-- What an insertion leaves: the new entry at most, and an entry for the event. -/
structure Added (set set' : ConsumedSet) (event : SourceEventId) (consumed : ConsumedMint) :
    Prop where
  kept : ∀ entry ∈ set, entry ∈ set'
  only : ∀ entry ∈ set', entry ∈ set ∨ entry = (event, consumed)
  has : set'.Has event

theorem added_of_get (h : set.Has event) : Added set set event consumed :=
  ⟨fun _ he => he, fun _ he => .inl he, h⟩

theorem added_append (event : SourceEventId) (consumed : ConsumedMint) :
    Added set (set ++ [(event, consumed)]) event consumed where
  kept := fun _ he => List.mem_append_left _ he
  only := fun _ he => (List.mem_append.mp he).imp_right List.mem_singleton.mp
  has := has_iff.mpr ⟨consumed, by simp⟩

theorem add_added (h : set.add event consumed = .ok set') : Added set set' event consumed := by
  unfold add at h
  split at h
  · cases h
    exact added_append event consumed
  · next hget =>
    split at h
    · cases h
      exact added_of_get (by simp [Has, hget])
    · cases h

variable {entry : SourceEventId × ConsumedMint}

theorem join_added (h : set.join entry = .ok set') : Added set set' entry.1 entry.2 := by
  unfold join at h
  split at h
  · cases h
    exact added_append entry.1 entry.2
  · next hget =>
    split at h
    · cases h
      exact added_of_get (by simp [Has, hget])
    · cases h

/-- An entry stays when the set grows. -/
theorem Has.mono (h : set.Has event) (hsub : ∀ entry ∈ set, entry ∈ set') : set'.Has event := by
  obtain ⟨consumed, hmem⟩ := has_iff.mp h
  exact has_iff.mpr ⟨consumed, hsub _ hmem⟩

end ConsumedSet

theorem insertConsumedMint_added (table : ConsumedSet) (event : SourceEventId)
    (consumed : ConsumedMint) :
    table.Added (insertConsumedMint table event consumed) event consumed := by
  unfold insertConsumedMint
  split
  · next h => exact ConsumedSet.added_of_get h
  · exact ConsumedSet.added_append event consumed

variable {set set' : ConsumedSet}

/-- The walked mints have joined the set. -/
theorem mergeWalked_ok {found : ConsumedSet} (h : mergeWalked set found = .ok set') :
    (∀ entry ∈ set, entry ∈ set') ∧ (∀ entry ∈ set', entry ∈ set ∨ entry ∈ found) ∧
      ∀ entry ∈ found, set'.Has entry.1 := by
  induction found generalizing set with
  | nil =>
    obtain rfl : set = set' := Except.ok.inj h
    exact ⟨fun _ he => he, fun _ he => .inl he, nofun⟩
  | cons entry found ih =>
    obtain ⟨mid, hmid, hrest⟩ := bind_eq_ok.mp h
    have hmid := ConsumedSet.join_added hmid
    obtain ⟨hkept, honly, hhas⟩ := ih hrest
    refine ⟨fun e he => hkept e (hmid.kept e he), fun e he => ?_, fun e he => ?_⟩
    · rcases honly e he with he | he
      · exact (hmid.only e he).imp_right (by rintro rfl; exact List.mem_cons_self)
      · exact .inr (List.mem_cons_of_mem _ he)
    · rcases List.mem_cons.mp he with rfl | he
      · exact hmid.has.mono hkept
      · exact hhas e he

variable {ata : Pubkey → Pubkey → Pubkey → Pubkey}

theorem lookupConsumed_ne_miss
    {row : ClaimedRow} (h : set.Has row.event) : lookupConsumed ata set row ≠ .miss := by
  obtain ⟨consumed, hget⟩ := Option.isSome_iff_exists.mp h
  unfold lookupConsumed
  rw [hget]
  dsimp only
  split <;> exact nofun

theorem lookupConsumed_hit
    {row : ClaimedRow} {consumed : ConsumedMint} (h : lookupConsumed ata set row = .hit consumed) :
    (row.event, consumed) ∈ set := by
  unfold lookupConsumed at h
  split at h
  · cases h
  · next hget =>
    split at h
    · obtain rfl := ConsumedLookup.hit.inj h
      exact ConsumedSet.mem_of_get hget
    · cases h

theorem newestKnownMint_mem {known : List KnownMint} {best : KnownMint}
    (h : newestKnownMint known = some best) : best ∈ known := by
  induction known generalizing best with
  | nil => cases h
  | cons k known ih =>
    simp only [newestKnownMint] at h
    split at h
    · cases h
      exact List.mem_cons_self
    · next best' hrest =>
      split at h
      · cases h
        exact List.mem_cons_self
      · cases h
        exact List.mem_cons_of_mem _ (ih hrest)

/-- The newest known mint of an escrow operator is the counterpart of a completed
deposit. -/
theorem getNewestKnownMintSignatures_deposit {rows : List Row} {x : Signature}
    (h : getNewestKnownMintSignatures .deposit rows = some x) :
    ∃ row ∈ rows, row.status = .completed ∧ row.counterpartSignature = some x := by
  obtain ⟨known, hbest, rfl⟩ := Option.map_eq_some_iff.mp h
  obtain ⟨row, hrow, hknown⟩ := List.mem_filterMap.mp (newestKnownMint_mem hbest)
  refine ⟨row, hrow, ?_⟩
  simp only [knownMint] at hknown
  split at hknown
  · next hguard =>
    simp only [Bool.and_eq_true, beq_iff_eq] at hguard
    obtain ⟨sig, hsig, rfl⟩ := Option.map_eq_some_iff.mp hknown
    exact ⟨hguard.2, hsig⟩
  · cases hknown

/-- One `MintTo` on this mint, with the one marker and memo of this event. -/
structure ChannelTransaction.Pays (tx : ChannelTransaction) (kind : ConsumedMintKind)
    (event : SourceEventId) (mint : Pubkey) : Prop where
  accounts : mint ∈ tx.accounts
  markers : tx.markers = [(kind, some event)]
  memos : (kind, event) ∈ tx.memos
  targets : tx.targets = [mint]
  minted : ∃ fields, tx.mintTos = [fields] ∧ fields.mint = mint

section Collect

variable {tx : Signature → ChannelTransaction} {c : Ledger.Chain Signature} {rpc : ChannelRpc}
  {mint : Pubkey}

/-- The entry is a mint that landed. -/
def Genuine (tx : Signature → ChannelTransaction) (c : Ledger.Chain Signature)
    (entry : SourceEventId × ConsumedMint) : Prop :=
  c.Landed entry.2.signature ∧ (tx entry.2.signature).Pays entry.2.kind entry.1 entry.2.mint

theorem Genuine.mono {c' : Ledger.Chain Signature}
    (h : Genuine tx c entry) (hext : c'.Extends c) : Genuine tx c' entry :=
  ⟨h.1.mono hext, h.2⟩

/-- The history of an address, newest first. -/
def history (tx : Signature → ChannelTransaction) (blocks : List (Ledger.Block Signature))
    (address : Pubkey) : List ListedSignature :=
  (((blocks.flatMap (·.txs)).filter fun entry => (tx entry.1).accounts.contains address).map
    fun entry => ⟨entry.1, !entry.2, (tx entry.1).markers⟩).reverse

/-- The endpoint lists what is retained, at or past `floor`, with whether it succeeded. -/
structure ChannelRpc.Honest (tx : Signature → ChannelTransaction) (c : Ledger.Chain Signature)
    (floor pageLimit : ℕ) (address : Pubkey) (rpc : ChannelRpc) : Prop where
  pages : PagesOf rpc address pageLimit
    (history tx (c.blocks.filter fun b => floor ≤ b.slot) address)
  fetched : ∀ x answer, rpc.transaction x = .ok answer →
    answer.1 = tx x ∧ (answer.2 = true ↔ c.Landed x)

variable {status : ListedSignature}

/-- What the history of a mint lists. -/
theorem mem_history {blocks : List (Ledger.Block Signature)} :
    status ∈ history tx blocks mint ↔ ∃ b ∈ blocks, ∃ ok, (status.signature, ok) ∈ b.txs ∧
      mint ∈ (tx status.signature).accounts ∧ status.failed = !ok ∧
      status.markers = (tx status.signature).markers := by
  simp only [history, List.mem_reverse, List.mem_map, List.mem_filter, List.mem_flatMap,
    List.contains_iff_mem]
  constructor
  · rintro ⟨⟨x, ok⟩, ⟨⟨b, hb, hx⟩, haccount⟩, rfl⟩
    exact ⟨b, hb, ok, hx, haccount, rfl, rfl⟩
  · rintro ⟨b, hb, ok, hx, haccount, hfailed, hmarkers⟩
    refine ⟨(status.signature, ok), ⟨⟨b, hb, hx⟩, haccount⟩, ?_⟩
    cases status
    simp_all

/-- The retained history lists signatures of the chain in reverse order. -/
theorem history_sublist (tx : Signature → ChannelTransaction) (c : Ledger.Chain Signature)
    (floor : ℕ)
    (mint : Pubkey) :
    ((history tx (c.blocks.filter fun b => floor ≤ b.slot) mint).map (·.signature)).Sublist
      c.signatures.reverse := by
  rw [history, List.map_reverse, List.reverse_sublist, List.map_map, Ledger.Chain.signatures]
  exact (List.filter_sublist.trans
    (List.filter_sublist.flatMap _)).map _

/-- What passed the checks of a walk of this mint. -/
theorem authenticate_some {fetched : ChannelTransaction} {ok : Bool}
    {event : SourceEventId} {consumed : ConsumedMint}
    (h : authenticate (.mint mint) status fetched ok = .ok (some (event, consumed))) :
    ok = true ∧ status.markers = [(consumed.kind, some event)] ∧
      (consumed.kind, event) ∈ fetched.memos ∧ fetched.targets = [mint] ∧
      (∃ fields, fetched.mintTos = [fields] ∧ fields.mint = mint) ∧
      consumed.signature = status.signature ∧ consumed.mint = mint := by
  unfold authenticate at h
  dsimp only at h
  split at h
  · cases h
  · next hcounts =>
    simp only [Scope.counts, Bool.not_eq_true, Bool.not_eq_false', Bool.and_eq_true,
      List.contains_iff_mem] at hcounts
    split at h
    · cases h
    · next kind event' hmarkers =>
      split at h
      · cases h
      · next hmemo =>
        split at h
        · next fields hfields =>
          split at h
          · cases h
          · next hmint =>
            simp only [not_or, not_not] at hmint
            cases Option.some.inj (Except.ok.inj h)
            obtain ⟨target, htarget⟩ := List.length_eq_one_iff.mp hmint.1
            rw [htarget, List.mem_singleton] at hcounts
            refine ⟨hcounts.1, hmarkers, ?_, by rw [htarget, hcounts.2], ⟨fields, hfields, hmint.2⟩,
              rfl, hmint.2⟩
            simpa using hmemo
        · cases h
    · cases h

/-- A mint that landed passes them. -/
theorem authenticate_of_pays {fetched : ChannelTransaction}
    {kind : ConsumedMintKind} {event : SourceEventId} (h : fetched.Pays kind event mint)
    (hmarkers : status.markers = fetched.markers) :
    ∃ consumed, authenticate (.mint mint) status fetched true = .ok (some (event, consumed)) := by
  obtain ⟨fields, hfields, hmint⟩ := h.minted
  refine ⟨⟨status.signature, kind, fields.mint, fields.recipientAta, fields.tokenProgram,
    fields.amount⟩, ?_⟩
  simp [authenticate, Scope.counts, hmarkers, h.markers, h.targets, h.memos, hfields, hmint]

variable {pageLimit floor : ℕ}

/-- One listed signature: the set stays genuine, keeps its entries, and has the
event the signature pays. -/
theorem collectStatus_ok (hrpc : rpc.Honest tx c floor pageLimit mint)
    (haccount : mint ∈ (tx status.signature).accounts)
    (hmarkers : status.markers = (tx status.signature).markers)
    (hset : ∀ entry ∈ set, Genuine tx c entry)
    (h : collectStatus rpc (.mint mint) set status = .ok set') :
    (∀ entry ∈ set', Genuine tx c entry) ∧ (∀ entry ∈ set, entry ∈ set') ∧
      (∀ entry ∈ set', entry ∈ set ∨
        (entry.2.mint = mint ∧ entry.2.signature = status.signature)) ∧
      ∀ kind event, (tx status.signature).Pays kind event mint → c.Landed status.signature →
        set'.Has event := by
  unfold collectStatus at h
  split at h
  · next hany =>
    cases h
    refine ⟨hset, fun _ he => he, fun _ he => .inl he, fun kind event hpays _ => ?_⟩
    obtain ⟨entry, hmem, hsig⟩ := List.any_eq_true.mp hany
    have hsig : entry.2.signature = status.signature := by simpa using hsig
    have hgenuine := (hset entry hmem).2
    rw [hsig] at hgenuine
    have heq : entry.1 = event := by
      have := hgenuine.markers.symm.trans hpays.markers
      simp only [List.cons.injEq, Prod.mk.injEq, Option.some.injEq, and_true] at this
      exact this.2
    exact ConsumedSet.has_iff.mpr ⟨entry.2, heq ▸ hmem⟩
  · split at h
    · cases h
    · next fetched ok hfetch =>
      obtain ⟨hfetched, hok⟩ := hrpc.fetched _ _ hfetch
      dsimp only at hfetched hok
      subst hfetched
      split at h
      · cases h
      · next hauth =>
        cases h
        refine ⟨hset, fun _ he => he, fun _ he => .inl he, fun kind event hpays hlanded => ?_⟩
        obtain ⟨consumed, hsome⟩ := authenticate_of_pays hpays hmarkers
        rw [hok.mpr hlanded] at hauth
        cases hauth.symm.trans hsome
      · next event consumed hauth =>
        obtain ⟨hsucceeded, hmarker, hmemo, htargets, hminted, hsig, hmint⟩ :=
          authenticate_some hauth
        have hadded := ConsumedSet.add_added h
        have hnew : Genuine tx c (event, consumed) := by
          refine ⟨hsig ▸ hok.mp hsucceeded, ?_⟩
          rw [hsig, hmint]
          exact ⟨haccount, hmarkers ▸ hmarker, hmemo, htargets, hminted⟩
        refine ⟨fun entry he => ?_, hadded.kept, fun entry he => ?_, fun kind event' hpays _ => ?_⟩
        · rcases hadded.only entry he with he | rfl
          · exact hset entry he
          · exact hnew
        · rcases hadded.only entry he with he | rfl
          · exact .inl he
          · exact .inr ⟨hmint, hsig⟩
        · have := (hmarker.symm.trans hmarkers).trans hpays.markers
          simp only [List.cons.injEq, Prod.mk.injEq, Option.some.injEq, and_true] at this
          exact this.2 ▸ hadded.has

/-- Over a whole list of signatures. -/
theorem collectAll_ok (hrpc : rpc.Honest tx c floor pageLimit mint)
    {statuses : List ListedSignature}
    (hlisted : ∀ status ∈ statuses, mint ∈ (tx status.signature).accounts ∧
      status.markers = (tx status.signature).markers) (hset : ∀ entry ∈ set, Genuine tx c entry)
    (h : statuses.foldlM (collectStatus rpc (.mint mint)) set = .ok set') :
    (∀ entry ∈ set', Genuine tx c entry) ∧ (∀ entry ∈ set, entry ∈ set') ∧
      (∀ entry ∈ set', entry ∈ set ∨ (entry.2.mint = mint ∧
        ∃ status ∈ statuses, entry.2.signature = status.signature)) ∧
      ∀ status ∈ statuses, ∀ kind event, (tx status.signature).Pays kind event mint →
        c.Landed status.signature → set'.Has event := by
  induction statuses generalizing set with
  | nil =>
    obtain rfl : set = set' := Except.ok.inj h
    exact ⟨hset, fun _ he => he, fun _ he => .inl he, nofun⟩
  | cons status statuses ih =>
    obtain ⟨mid, hmid, hrest⟩ := bind_eq_ok.mp h
    obtain ⟨hhead, htail⟩ := List.forall_mem_cons.mp hlisted
    obtain ⟨hgenuine, hkept, honly, hhas⟩ := collectStatus_ok hrpc hhead.1 hhead.2 hset hmid
    obtain ⟨hgenuine', hkept', honly', hhas'⟩ := ih htail hgenuine hrest
    refine ⟨hgenuine', fun entry he => hkept' entry (hkept entry he), fun entry he => ?_, ?_⟩
    · rcases honly' entry he with he | ⟨hmint, status', hmem, hsig⟩
      · exact (honly entry he).imp_right fun hnew => ⟨hnew.1, status, List.mem_cons_self, hnew.2⟩
      · exact .inr ⟨hmint, status', List.mem_cons_of_mem _ hmem, hsig⟩
    · rintro status' hmem kind event hpays hlanded
      rcases List.mem_cons.mp hmem with rfl | hmem
      · exact (hhas kind event hpays hlanded).mono hkept'
      · exact hhas' status' hmem kind event hpays hlanded

/-- A walk returns genuine mints, and every one retained above the newest known signature. -/
theorem walkMint_ok {fuel : ℕ} {role : TransactionType} {stopAt : List Signature}
    {found : ConsumedSet} (hnodup : c.signatures.Nodup)
    (hrpc : rpc.Honest tx c floor pageLimit mint)
    (h : walkMint rpc pageLimit fuel role mint stopAt = some (.ok found)) :
    (∀ entry ∈ found, Genuine tx c entry ∧ entry.2.mint = mint ∧
      entry.2.kind = consumedKind role) ∧
    ∀ event x b, b ∈ c.blocks → floor ≤ b.slot → (x, true) ∈ b.txs →
      (tx x).Pays (consumedKind role) event mint →
      (∀ stop ∈ stopAt, Precedes c.signatures stop x) → found.Has event := by
  obtain ⟨met, hcollect⟩ : ∃ met, collect rpc (.mint mint) pageLimit fuel stopAt
      (some (consumedKind role)) = some (.ok (found, met)) := by
    unfold walkMint at h
    split at h
    · cases h
    · cases h
    · next met hcollect =>
      split at h
      · split at h
        · cases h
        · cases Option.some.inj h
          exact ⟨met, hcollect⟩
      · cases Option.some.inj h
        exact ⟨met, hcollect⟩
  unfold collect at hcollect
  split at hcollect
  · cases hcollect
  · cases hcollect
  · next signatures met' hlist =>
    split at hcollect
    · cases hcollect
    · next set hfold =>
      cases Except.ok.inj (Option.some.inj hcollect)
      have hsub := history_sublist tx c floor mint
      have hkeys : ((history tx (c.blocks.filter fun b => floor ≤ b.slot) mint).map
          (·.signature)).Nodup := (List.nodup_reverse.mpr hnodup).sublist hsub
      have hkept := getSignaturesForAddressPaginated_ok hkeys hrpc.pages hlist
      have hlisted : ∀ status ∈ signatures,
          (status ∈ history tx (c.blocks.filter fun b => floor ≤ b.slot) mint) ∧
            carriesMarker (some (consumedKind role)) status = true := by
        intro status hmem
        rw [hkept, List.mem_filter] at hmem
        exact ⟨(List.takeWhile_prefix _).subset hmem.1, hmem.2⟩
      obtain ⟨hgenuine, _, honly, hhas⟩ := collectAll_ok hrpc (fun status hmem => by
        obtain ⟨_, _, _, _, haccount, _, hmarkers⟩ := mem_history.mp (hlisted status hmem).1
        exact ⟨haccount, hmarkers⟩) (by simp) hfold
      constructor
      · intro entry he
        obtain ⟨hmint, status, hmem, hsig⟩ := (honly entry he).resolve_left (by simp)
        refine ⟨hgenuine entry he, hmint, ?_⟩
        obtain ⟨hin, hcarries⟩ := hlisted status hmem
        obtain ⟨_, _, _, _, _, _, hmarkers⟩ := mem_history.mp hin
        have hmarker := (hgenuine entry he).2.markers
        rw [hsig, ← hmarkers] at hmarker
        simp only [carriesMarker, hmarker, Bool.and_eq_true] at hcarries
        simpa using hcarries.2
      · intro event x b hb hfloor hx hpays hnewer
        let status : ListedSignature := ⟨x, false, (tx x).markers⟩
        have hin : status ∈ history tx (c.blocks.filter fun b => floor ≤ b.slot) mint :=
          mem_history.mpr ⟨b, List.mem_filter.mpr ⟨hb, by simpa using hfloor⟩, true, hx,
            hpays.accounts, rfl, rfl⟩
        have hmem : status ∈ signatures := by
          rw [hkept, List.mem_filter]
          refine ⟨mem_takeWhile_of_precedes hnodup hsub hin hnewer, ?_⟩
          simp [status, carriesMarker, hpays.markers]
        exact hhas status hmem _ event hpays ⟨b, hb, hx⟩

end Collect

end PrivateChannels.Operator
