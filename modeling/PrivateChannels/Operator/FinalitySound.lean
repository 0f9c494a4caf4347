import PrivateChannels.Operator.Finality

/-!
# The classifier's verdicts are sound

Every read is answered from some chain state no later than the present one. `Dead` settles
every signature for good and `Landed` names a finalized success.
-/

namespace PrivateChannels.Operator

open Storage (Signature)
open Ledger (Attempt)

/-- The signature as an attempt of the ledger. -/
def attempt (sig : PendingSig) : Attempt Signature := ⟨sig.signature, sig.lastValidBlockHeight⟩

/-- A signature is included not above its last valid height, above its journaled blockhash slot,
and on Solana within the blockhash window. -/
def Admissible (chain : Chain) (sig : PendingSig) (c : Ledger.Chain Signature) : Prop :=
  ∀ b ∈ c.blocks, ∀ ok, (sig.signature, ok) ∈ b.txs →
    b.height ≤ sig.lastValidBlockHeight ∧
    (∀ slot, sig.blockhashSlot = some slot → slot < b.slot) ∧
    (chain = .solana → sig.lastValidBlockHeight ≤ b.height + maxProcessingAge)

variable {sig : PendingSig}

theorem Admissible.bounded {chain : Chain} {c : Ledger.Chain Signature}
    (h : Admissible chain sig c) : (attempt sig).Bounded c :=
  fun b hb ok hs => (h b hb ok hs).1

/-- Answered from `c` by an endpoint that retains slots from `floor` on, while `root` is
final. -/
structure AnswersStatus (root c : Ledger.Chain Signature) (floor : ℕ) (s : Signature)
    (answer : Option SignatureStatus) : Prop where
  absent : answer = none → ∀ b ∈ c.blocks, ∀ ok, (s, ok) ∈ b.txs → b.slot < floor
  finalized : ∀ status, answer = some status → status.finalized = true →
    root.Executed s (!status.err)

/-- The height came from a state no later than the statuses', and those from one no later than
the present. -/
structure Reads (root now c₁ c₂ : Ledger.Chain Signature) (floor : ℕ)
    (height : Except String ℕ) (sigs : List PendingSig)
    (statuses : List (Option SignatureStatus)) : Prop where
  advanced : c₂.Extends c₁
  present : now.Extends c₂
  height : ∀ h, height = .ok h → h ≤ c₁.tip
  status : ∀ p ∈ sigs.zip statuses, AnswersStatus root c₂ floor p.1.signature p.2

/-- The endpoint's answers come from the chain. The floor is read last and only rises. -/
def Endpoint.Honest (root now : Ledger.Chain Signature) (rpc : Endpoint) (chain : Chain)
    (sigs : List PendingSig) : Prop :=
  match chain with
  | .channel => ∀ snapshot, rpc.signatureStatusSnapshot = .ok snapshot →
    ∃ c, Reads root now c c snapshot.firstAvailableBlock (.ok snapshot.blockHeight) sigs
      snapshot.value
  | .solana => ∀ statuses, rpc.signatureStatuses = .ok statuses →
    ∃ c₁ c₂ floor, Reads root now c₁ c₂ floor rpc.blockHeight sigs statuses ∧
      ∀ f, rpc.firstAvailableBlock = .ok f → floor ≤ f

/-- The remembered minima cover an absent signature. -/
def Absences.Covers (acc : Absences) (sig : PendingSig) : Prop :=
  (∃ m, acc.minLvbh = some m ∧ m ≤ sig.lastValidBlockHeight) ∧
    ∀ b, acc.minBlockhashSlot = some b → ∃ slot, sig.blockhashSlot = some slot ∧ b ≤ slot

/-- The slot minimum is missing exactly when some absence had none, once there
is an absence at all. -/
structure Absences.Consistent (acc : Absences) : Prop where
  unknown : acc.slotUnknown = true → acc.minBlockhashSlot = none
  known : acc.minLvbh.isSome = true → acc.slotUnknown = false → acc.minBlockhashSlot.isSome = true

theorem Absences.consistent_empty : Absences.empty.Consistent :=
  ⟨fun _ => rfl, by simp [Absences.empty]⟩

theorem minWith_le_self (x : ℕ) (o : Option ℕ) : minWith x o ≤ x := by
  cases o with
  | none => exact le_rfl
  | some m => exact Nat.min_le_right m x

theorem minWith_le_of_mem {x m : ℕ} {o : Option ℕ} (h : o = some m) : minWith x o ≤ m := by
  rw [h]
  exact Nat.min_le_left m x

variable {acc : Absences}

theorem Absences.Consistent.note (h : acc.Consistent) (sig : PendingSig) :
    (acc.note sig).Consistent := by
  cases hslot : sig.blockhashSlot with
  | none => exact ⟨by simp [Absences.note, hslot], by simp [Absences.note, hslot]⟩
  | some slot =>
    cases hu : acc.slotUnknown with
    | true => exact ⟨by simpa [Absences.note, hslot, hu] using h.unknown hu, by
        simp [Absences.note, hslot, hu]⟩
    | false => exact ⟨by simp [Absences.note, hslot, hu], by simp [Absences.note, hslot, hu]⟩

/-- Noting a signature covers it. -/
theorem Absences.Consistent.note_covers (h : acc.Consistent)
    (sig : PendingSig) : (acc.note sig).Covers sig := by
  cases hslot : sig.blockhashSlot with
  | none =>
    refine ⟨⟨_, by simp only [Absences.note, hslot]; rfl, minWith_le_self _ _⟩, ?_⟩
    simp [Absences.note, hslot]
  | some slot =>
    cases hu : acc.slotUnknown with
    | true =>
      refine ⟨⟨_, by simp only [Absences.note, hslot, hu]; rfl, minWith_le_self _ _⟩, ?_⟩
      simp [Absences.note, hslot, hu, h.unknown hu]
    | false =>
      refine ⟨⟨_, by simp only [Absences.note, hslot, hu]; rfl, minWith_le_self _ _⟩, ?_⟩
      intro b hb
      simp only [Absences.note, hslot, hu, Bool.false_eq_true, if_false, Option.some.injEq] at hb
      exact ⟨slot, hslot, hb ▸ minWith_le_self _ _⟩

/-- Noting another signature keeps what was covered. -/
theorem Absences.Covers.note (hc : acc.Consistent)
    (h : acc.Covers sig) (other : PendingSig) : (acc.note other).Covers sig := by
  obtain ⟨⟨m, hm, hle⟩, hslots⟩ := h
  cases hslot : other.blockhashSlot with
  | none =>
    refine ⟨⟨_, by simp only [Absences.note, hslot]; rfl, (minWith_le_of_mem hm).trans hle⟩, ?_⟩
    simp [Absences.note, hslot]
  | some slot =>
    cases hu : acc.slotUnknown with
    | true =>
      refine ⟨⟨_, by simp only [Absences.note, hslot, hu]; rfl,
        (minWith_le_of_mem hm).trans hle⟩, ?_⟩
      simpa [Absences.note, hslot, hu] using hslots
    | false =>
      refine ⟨⟨_, by simp only [Absences.note, hslot, hu]; rfl,
        (minWith_le_of_mem hm).trans hle⟩, ?_⟩
      obtain ⟨b₀, hb₀⟩ := Option.isSome_iff_exists.mp (hc.known (by simp [hm]) hu)
      obtain ⟨slot₀, hslot₀, hle₀⟩ := hslots b₀ hb₀
      intro b hb
      simp only [Absences.note, hslot, hu, Bool.false_eq_true, if_false, Option.some.injEq] at hb
      exact ⟨slot₀, hslot₀, (hb ▸ minWith_le_of_mem hb₀).trans hle₀⟩

/-- A walk to its end passed finalized statuses and expired absences, which its minima cover. -/
theorem walk_spec {height : ℕ} {pairs : List (PendingSig × Option SignatureStatus)}
    {acc' : Absences} (h : walk height pairs acc = .ok acc') (hc : acc.Consistent) :
    (∀ sig, acc.Covers sig → acc'.Covers sig) ∧
    ∀ p ∈ pairs, (∃ status, p.2 = some status ∧ status.finalized = true) ∨
      (p.2 = none ∧ p.1.lastValidBlockHeight < height ∧ acc'.Covers p.1) := by
  induction pairs generalizing acc with
  | nil =>
    obtain rfl : acc = acc' := by simpa [walk] using h
    exact ⟨fun _ => id, by simp⟩
  | cons p rest ih =>
    obtain ⟨sig, answer⟩ := p
    cases answer with
    | some status =>
      simp only [walk] at h
      split at h
      · next hfin =>
        obtain ⟨hkeep, hrest⟩ := ih h hc
        exact ⟨hkeep, List.forall_mem_cons.mpr ⟨.inl ⟨status, rfl, hfin⟩, hrest⟩⟩
      · cases h
    | none =>
      simp only [walk] at h
      split at h
      · next hexp =>
        obtain ⟨hkeep, hrest⟩ := ih h (hc.note sig)
        refine ⟨fun other ho => hkeep other (ho.note hc sig), ?_⟩
        exact List.forall_mem_cons.mpr
          ⟨.inr ⟨rfl, hexp, hkeep sig (hc.note_covers sig)⟩, hrest⟩
      · cases h

/-- The status is a finalized failure. -/
def FinalizedFailure (answer : Option SignatureStatus) : Prop :=
  ∃ status, answer = some status ∧ status.finalized = true ∧ status.err = true

/-- What a verdict says about the statuses it was reached from. -/
def EndpointVerdict.Supported (height : Except String ℕ) (sigs : List PendingSig)
    (statuses : List (Option SignatureStatus)) (snapshotFloor : Option ℕ) :
    EndpointVerdict → Prop
  | .landed s => ∃ p ∈ sigs.zip statuses, p.1.signature = s ∧
      ∃ status, p.2 = some status ∧ status.finalized = true ∧ status.err = false
  | .deadFinalizedFailure => statuses.length = sigs.length ∧
      ∀ p ∈ sigs.zip statuses, FinalizedFailure p.2
  | .deadByAbsence minLvbh minBlockhashSlot floor => statuses.length = sigs.length ∧
      floor = snapshotFloor ∧ ∀ p ∈ sigs.zip statuses, FinalizedFailure p.2 ∨
        (p.2 = none ∧ (∃ h, height = .ok h ∧ p.1.lastValidBlockHeight < h) ∧
          minLvbh ≤ p.1.lastValidBlockHeight ∧
          ∀ b, minBlockhashSlot = some b → ∃ slot, p.1.blockhashSlot = some slot ∧ b ≤ slot)
  | .live _ | .uncertain _ => True

/-- The first finalized success decides, and an absent status needs the height. -/
theorem classifyStatuses_supported (height : Except String ℕ) (sigs : List PendingSig)
    (statuses : List (Option SignatureStatus)) (snapshotFloor : Option ℕ) :
    (classifyStatuses height statuses snapshotFloor sigs).Supported height sigs statuses
      snapshotFloor := by
  unfold classifyStatuses
  dsimp only
  split
  · trivial
  next hlen =>
  have hlen : statuses.length = sigs.length := not_not.mp hlen
  split
  · next sig answer hfind =>
    have hmem := List.mem_of_find?_eq_some hfind
    have hok := List.find?_some hfind
    cases answer with
    | none => simp at hok
    | some status =>
      simp only [Option.any_some, Bool.and_eq_true, Bool.not_eq_true'] at hok
      exact ⟨(sig, some status), hmem, rfl, status, rfl, hok.1, hok.2⟩
  next hnone =>
  have hfail : ∀ p ∈ sigs.zip statuses, ∀ status, p.2 = some status →
      status.finalized = true → FinalizedFailure p.2 := by
    intro p hp status hs hfin
    have hno := List.find?_eq_none.mp hnone p hp
    refine ⟨status, hs, hfin, ?_⟩
    simpa [hs, hfin] using hno
  split
  · trivial
  next h hheight =>
  split
  · trivial
  next acc hwalk =>
  obtain ⟨_, hpairs⟩ := walk_spec hwalk Absences.consistent_empty
  split
  · next minLvbh hmin =>
    refine ⟨hlen, rfl, fun p hp => ?_⟩
    rcases hpairs p hp with ⟨status, hs, hfin⟩ | ⟨habs, hexp, ⟨m, hm, hle⟩, hslots⟩
    · exact .inl (hfail p hp status hs hfin)
    · refine .inr ⟨habs, ⟨h, ?_, hexp⟩, ?_, hslots⟩
      · have hany : statuses.any Option.isNone = true :=
          List.any_eq_true.mpr ⟨p.2, (List.of_mem_zip hp).2, by simp [habs]⟩
        rwa [if_pos hany] at hheight
      · rw [hm, Option.some.injEq] at hmin
        exact hmin ▸ hle
  · next hmin =>
    refine ⟨hlen, fun p hp => ?_⟩
    rcases hpairs p hp with ⟨status, hs, hfin⟩ | ⟨_, _, ⟨m, hm, _⟩, _⟩
    · exact hfail p hp status hs hfin
    · rw [hm] at hmin
      cases hmin

/-- Every signature has its status when the lists have one length. -/
theorem exists_mem_zip {sigs : List PendingSig} {statuses : List (Option SignatureStatus)}
    (hlen : statuses.length = sigs.length) (h : sig ∈ sigs) :
    ∃ answer, (sig, answer) ∈ sigs.zip statuses := by
  have hzip : (sigs.zip statuses).map Prod.fst = sigs := List.map_fst_zip (by omega)
  rw [← hzip] at h
  obtain ⟨⟨sig', answer⟩, hmem, rfl⟩ := List.mem_map.mp h
  exact ⟨answer, hmem⟩

section

variable {root now c₁ c₂ : Ledger.Chain Signature} {floor : ℕ} {height : Except String ℕ}
  {sigs : List PendingSig} {statuses : List (Option SignatureStatus)} {snapshotFloor : Option ℕ}
  {chain : Chain} {rpc : Endpoint} {p : PendingSig × Option SignatureStatus}

/-- A floor at or below the coverage bound retains every slot that could hold
an absent signature. -/
theorem floor_le_of_coverage {minLvbh bound : ℕ} {minBlockhashSlot : Option ℕ}
    (hadm : Admissible chain sig now)
    (hb : coverageBound chain minLvbh minBlockhashSlot = some bound)
    (hfloor : floor ≤ bound) (hmin : minLvbh ≤ sig.lastValidBlockHeight)
    (hslots : ∀ b, minBlockhashSlot = some b → ∃ slot, sig.blockhashSlot = some slot ∧ b ≤ slot) :
    ∀ b ∈ now.blocks, ∀ ok, (sig.signature, ok) ∈ b.txs → floor ≤ b.slot := by
  intro b hmem ok hs
  obtain ⟨_, hslot, hwindow⟩ := hadm b hmem ok hs
  cases hm : minBlockhashSlot with
  | some m =>
    obtain ⟨slot, hslot', hle⟩ := hslots m hm
    have := hslot slot hslot'
    simp only [coverageBound, hm, Option.some.injEq] at hb
    omega
  | none =>
    cases chain with
    | channel => simp [coverageBound, hm] at hb
    | solana =>
      simp only [coverageBound, hm, Option.some.injEq] at hb
      have := hwindow rfl
      have := now.height_le_slot b hmem
      omega

section

variable (h : Reads root now c₁ c₂ floor height sigs statuses)
include h

/-- A finalized failure settles its signature. -/
theorem Reads.settled_of_failure (hroot : now.Extends root) (hp : p ∈ sigs.zip statuses)
    (hf : FinalizedFailure p.2) : now.Settled (attempt p.1) := by
  obtain ⟨status, hs, hfin, herr⟩ := hf
  have hexec := (h.status p hp).finalized status hs hfin
  rw [herr] at hexec
  exact .inl (hexec.mono hroot)

/-- A covered absence settles its signature. -/
theorem Reads.settled_of_absence (hp : p ∈ sigs.zip statuses) (hadm : Admissible chain p.1 now)
    (habs : p.2 = none) (hexp : ∃ hh, height = .ok hh ∧ p.1.lastValidBlockHeight < hh)
    (hret : ∀ b ∈ now.blocks, ∀ ok, (p.1.signature, ok) ∈ b.txs → floor ≤ b.slot) :
    now.Settled (attempt p.1) := by
  obtain ⟨hh, hheight, hlt⟩ := hexp
  exact Ledger.Chain.settled_of_absent h.advanced h.present hadm.bounded
    (h.height hh hheight) hlt ((h.status p hp).absent habs) hret

/-- A walk that answers `Landed` found a listed signature with a final success. -/
theorem Reads.landed {snapshotFloor : Option ℕ} {s : Signature}
    (hv : classifyStatuses height statuses snapshotFloor sigs = .landed s) :
    (∃ sig ∈ sigs, sig.signature = s) ∧ root.Landed s := by
  have hsup := classifyStatuses_supported height sigs statuses snapshotFloor
  rw [hv] at hsup
  obtain ⟨p, hp, rfl, status, hs, hfin, herr⟩ := hsup
  have hexec := (h.status p hp).finalized status hs hfin
  rw [herr] at hexec
  exact ⟨⟨p.1, (List.of_mem_zip hp).1, rfl⟩, hexec⟩

end

/-- An endpoint's `Landed` needs nothing of the signatures' windows. -/
theorem classifyEndpoint_landed (hh : rpc.Honest root now chain sigs) {s : Signature}
    (h : classifyEndpoint rpc chain sigs = .landed s) :
    (∃ sig ∈ sigs, sig.signature = s) ∧ root.Landed s := by
  cases chain with
  | channel =>
    simp only [classifyEndpoint] at h
    cases hs : rpc.signatureStatusSnapshot with
    | error e => simp [hs] at h
    | ok snapshot =>
      rw [hs] at h
      obtain ⟨c, hreads⟩ := hh snapshot hs
      exact hreads.landed h
  | solana =>
    simp only [classifyEndpoint] at h
    cases hs : rpc.signatureStatuses with
    | error e => simp [hs] at h
    | ok statuses =>
      rw [hs] at h
      obtain ⟨c₁, c₂, floor, hreads, -⟩ := hh statuses hs
      exact hreads.landed h

/-- What an endpoint's `Dead` settles. Both chains end in the same walk over statuses with their
reads. -/
theorem classifyEndpoint_sound (hroot : now.Extends root)
    (hadm : ∀ sig ∈ sigs, Admissible chain sig now) (hh : rpc.Honest root now chain sigs) :
    (classifyEndpoint rpc chain sigs = .deadFinalizedFailure →
      ∀ sig ∈ sigs, now.Settled (attempt sig)) ∧
    (∀ minLvbh slot floor label,
      classifyEndpoint rpc chain sigs = .deadByAbsence minLvbh slot floor →
      ledgerCoverageVerdict chain rpc minLvbh slot floor label = .dead →
      ∀ sig ∈ sigs, now.Settled (attempt sig)) := by
  have key : ∀ {height statuses snapshotFloor c₁ c₂ readFloor},
      Reads root now c₁ c₂ readFloor height sigs statuses →
      (∀ f, ledgerFloor rpc snapshotFloor = .ok f → readFloor ≤ f) →
      ∀ v, classifyStatuses height statuses snapshotFloor sigs = v →
      (v = .deadFinalizedFailure → ∀ sig ∈ sigs, now.Settled (attempt sig)) ∧
      (∀ minLvbh slot floor label, v = .deadByAbsence minLvbh slot floor →
        ledgerCoverageVerdict chain rpc minLvbh slot floor label = .dead →
        ∀ sig ∈ sigs, now.Settled (attempt sig)) := by
    intro height statuses snapshotFloor c₁ c₂ readFloor hreads hfloor v hv
    have hsup := classifyStatuses_supported height sigs statuses snapshotFloor
    rw [hv] at hsup
    refine ⟨?_, ?_⟩
    · rintro rfl sig hsig
      obtain ⟨hlen, hall⟩ := hsup
      obtain ⟨answer, hp⟩ := exists_mem_zip hlen hsig
      exact hreads.settled_of_failure hroot hp (hall _ hp)
    · rintro minLvbh slot floor label rfl hcov sig hsig
      obtain ⟨hlen, rfl, hall⟩ := hsup
      obtain ⟨answer, hp⟩ := exists_mem_zip hlen hsig
      rcases hall _ hp with hf | ⟨habs, hexp, hmin, hslots⟩
      · exact hreads.settled_of_failure hroot hp hf
      · refine hreads.settled_of_absence hp (hadm sig hsig) habs hexp ?_
        unfold ledgerCoverageVerdict at hcov
        split at hcov
        · cases hcov
        next bound hb =>
        split at hcov
        · cases hcov
        next f hf =>
        split at hcov
        · next hle =>
          exact floor_le_of_coverage (hadm sig hsig) hb ((hfloor f hf).trans hle) hmin hslots
        · cases hcov
  cases chain with
  | channel =>
    simp only [classifyEndpoint]
    cases hs : rpc.signatureStatusSnapshot with
    | error e => exact ⟨by simp, by simp⟩
    | ok snapshot =>
      obtain ⟨c, hreads⟩ := hh snapshot hs
      refine key hreads (fun f hf => ?_) _ rfl
      exact le_of_eq (Except.ok.inj hf)
  | solana =>
    simp only [classifyEndpoint]
    cases hs : rpc.signatureStatuses with
    | error e => exact ⟨by simp, by simp⟩
    | ok statuses =>
      obtain ⟨c₁, c₂, floor, hreads, hfloor⟩ := hh statuses hs
      refine key hreads (fun f hf => ?_) _ rfl
      exact hfloor f hf

/-- Coverage only confirms or withdraws a `Dead`. -/
theorem ledgerCoverageVerdict_ne_landed {minLvbh : ℕ} {slot floor : Option ℕ} {label : String}
    (s : Signature) : ledgerCoverageVerdict chain rpc minLvbh slot floor label ≠ .landed s := by
  unfold ledgerCoverageVerdict
  split
  · simp
  · split
    · simp
    · split <;> simp

variable {finality : FinalityRpc}

/-- `Landed` names a listed signature with a finalized success. -/
theorem classifySignatures_landed (hp : finality.primary.Honest root now finality.chain sigs)
    (hf : ∀ fb, finality.fallback = some fb → fb.Honest root now finality.chain sigs)
    {s : Signature} (h : classifySignatures finality sigs = .landed s) :
    (∃ sig ∈ sigs, sig.signature = s) ∧ root.Landed s := by
  unfold classifySignatures at h
  cases hv : classifyEndpoint finality.primary finality.chain sigs with
  | landed s' =>
    rw [hv] at h
    obtain rfl := SigFinality.landed.inj h
    exact classifyEndpoint_landed hp hv
  | deadByAbsence minLvbh slot floor =>
    rw [hv] at h
    cases hfb : finality.fallback with
    | none =>
      rw [hfb] at h
      exact absurd h (ledgerCoverageVerdict_ne_landed s)
    | some fb =>
      rw [hfb] at h
      dsimp only at h
      cases hv' : classifyEndpoint fb finality.chain sigs with
      | landed s' =>
        rw [hv'] at h
        obtain rfl := SigFinality.landed.inj h
        exact classifyEndpoint_landed (hf fb hfb) hv'
      | deadByAbsence minLvbh slot floor =>
        rw [hv'] at h
        exact absurd h (ledgerCoverageVerdict_ne_landed s)
      | _ => simp [hv'] at h
  | _ => simp [hv] at h

/-- `Dead` settles every signature. -/
theorem classifySignatures_settled (hroot : now.Extends root)
    (hadm : ∀ sig ∈ sigs, Admissible finality.chain sig now)
    (hp : finality.primary.Honest root now finality.chain sigs)
    (hf : ∀ fb, finality.fallback = some fb → fb.Honest root now finality.chain sigs) :
    classifySignatures finality sigs = .dead → ∀ sig ∈ sigs, now.Settled (attempt sig) := by
  obtain ⟨hfail, habs⟩ := classifyEndpoint_sound hroot hadm hp
  unfold classifySignatures
  cases hv : classifyEndpoint finality.primary finality.chain sigs with
  | deadFinalizedFailure => exact fun _ => hfail hv
  | deadByAbsence minLvbh slot floor =>
    cases hfb : finality.fallback with
    | none => exact fun h => habs minLvbh slot floor "" hv h
    | some fb =>
      obtain ⟨hfail', habs'⟩ := classifyEndpoint_sound hroot hadm (hf fb hfb)
      dsimp only
      cases hv' : classifyEndpoint fb finality.chain sigs with
      | deadFinalizedFailure => exact fun _ => hfail' hv'
      | deadByAbsence minLvbh slot floor =>
        exact fun h => habs' minLvbh slot floor "fallback " hv' h
      | _ => simp
  | _ => simp

/-- The verdict over signatures that every valid chain admits, in a valid chain. -/
theorem classifySignatures_doomed {chain : Chain} {valid : Ledger.Chain Signature → Prop}
    (hvalid : valid now) (hadm : ∀ sig ∈ sigs, ∀ c, valid c → Admissible chain sig c)
    (hchain : finality.chain = chain) (hp : finality.primary.Honest now now chain sigs)
    (hf : ∀ fb, finality.fallback = some fb → fb.Honest now now chain sigs) :
    (∀ s, classifySignatures finality sigs = .landed s →
      (∃ sig ∈ sigs, sig.signature = s) ∧ now.Landed s) ∧
    (classifySignatures finality sigs = .dead →
      ∀ sig ∈ sigs, now.Doomed valid sig.signature) := by
  subst hchain
  have hdead := classifySignatures_settled (.refl now)
    (fun sig hsig => hadm sig hsig now hvalid) hp hf
  exact ⟨fun _ => classifySignatures_landed hp hf, fun h sig hsig =>
    (hdead h sig hsig).doomed fun later hlater => (hadm sig hsig later hlater).bounded⟩

/-- Whatever the endpoints do, `Landed` names a listed signature that is final and successful,
and after `Dead` no listed signature has landed or ever lands. -/
theorem classifySignatures_sound {finality : FinalityRpc} (hroot : now.Extends root)
    (hadm : ∀ sig ∈ sigs, Admissible finality.chain sig now)
    (hp : finality.primary.Honest root now finality.chain sigs)
    (hf : ∀ fb, finality.fallback = some fb → fb.Honest root now finality.chain sigs) :
    (∀ s, classifySignatures finality sigs = .landed s →
      (∃ sig ∈ sigs, sig.signature = s) ∧ root.Landed s) ∧
    (classifySignatures finality sigs = .dead → ∀ sig ∈ sigs, ¬ now.Landed sig.signature ∧
      ∀ later : Ledger.Chain Signature, later.Extends now → Admissible finality.chain sig later →
        ¬ later.Landed sig.signature) := by
  have hdead := classifySignatures_settled hroot hadm hp hf
  refine ⟨fun _ => classifySignatures_landed hp hf, fun h sig hsig =>
    ⟨(hdead h sig hsig).not_landed, ?_⟩⟩
  intro later hext hlater
  exact (hdead h sig hsig).never_lands hext hlater.bounded

end

/-- A failed attempt and an expired absent one, read from a Solana endpoint
that retains the absent one's blockhash slot. -/
theorem classifySignatures_sound_failed_and_absent :
    ∃ (now : Ledger.Chain Signature) (finality : FinalityRpc) (sigs : List PendingSig),
      sigs.map (·.signature) = [⟨1⟩, ⟨2⟩] ∧ classifySignatures finality sigs = .dead ∧
      ∀ sig ∈ sigs, ¬ now.Landed sig.signature := by
  let now : Ledger.Chain Signature :=
    ⟨[⟨12, 10, [(⟨1⟩, false)]⟩, ⟨210, 200, []⟩], by simp, by simp, by simp, by simp⟩
  let primary : Endpoint :=
    ⟨.error "unused", .ok 200, .ok [some ⟨true, true⟩, none], .ok 15⟩
  let sigs : List PendingSig := [⟨⟨1⟩, 20, some 11⟩, ⟨⟨2⟩, 150, some 20⟩]
  have hdead : classifySignatures ⟨primary, none, .solana⟩ sigs = .dead := by rfl
  have hadm : ∀ sig ∈ sigs, Admissible .solana sig now := by
    simp [sigs, now, Admissible, maxProcessingAge]
  have hhonest : primary.Honest now now .solana sigs := by
    intro statuses hs
    obtain rfl : [some ⟨true, true⟩, none] = statuses := Except.ok.inj hs
    refine ⟨now, now, 15, ⟨.refl _, .refl _, ?_, ?_⟩, ?_⟩
    · rintro h hh
      obtain rfl : 200 = h := Except.ok.inj hh
      simp [Ledger.Chain.tip, now]
    · intro p hp
      simp only [sigs, List.zip_cons_cons, List.zip_nil_left, List.mem_cons, List.not_mem_nil,
        or_false] at hp
      rcases hp with rfl | rfl
      · exact ⟨by simp, by simp [Ledger.Chain.Executed, now]⟩
      · exact ⟨by simp [now], by simp⟩
    · intro f hf
      exact le_of_eq (Except.ok.inj hf)
  let finality : FinalityRpc := ⟨primary, none, .solana⟩
  have hsound := @classifySignatures_sound now now sigs finality (.refl now) hadm hhonest
    (by simp [finality])
  exact ⟨now, _, sigs, rfl, hdead, fun sig hsig => (hsound.2 hdead sig hsig).1⟩

end PrivateChannels.Operator
