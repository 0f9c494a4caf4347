import PrivateChannels.Operator.Reconciliation

/-!
# The supply invariant at startup

A boot reads every mint's channel supply against custody, and asks again about the mints
that looked short or could not be read.
-/

namespace PrivateChannels.Indexer

/-- `SUPPLY_BREACH_CONFIRMATIONS` -/
def supplyBreachConfirmations : ℕ := 3

/-- `SUPPLY_BREACH_MAX_ROUNDS` -/
def supplyBreachMaxRounds : ℕ := supplyBreachConfirmations * 2

/-- The settings of the check. -/
structure ReconciliationConfig where
  mismatchThresholdRaw : ℕ
  reconciliationToleranceBps : ℕ

def startupToleranceRaw (config : ReconciliationConfig) (custody : ℕ) : ℕ :=
  max config.mismatchThresholdRaw
    (Operator.insolvencyToleranceRaw custody config.reconciliationToleranceBps)

/-- What a round reads: the channel's newest block, a mint's supply with the slot that
answered, and custody. -/
structure SupplyReads (μ : Type*) where
  anchor : Option ℕ
  supply : μ → Option (ℕ × ℕ)
  custody : μ → ℕ

/-- What a round says of a mint. -/
inductive MintReading
  | clean
  | breach
  | unread
  deriving DecidableEq, Repr

/-- The mints a round did not clear. -/
structure SupplyReading (μ : Type*) where
  breaches : Finset μ
  unread : Finset μ

/-- Why the boot is refused. -/
inductive SupplyError
  | supplyExceedsCustody (count threshold : ℕ)
  | supplyInvariantUnverified (count : ℕ)
  deriving DecidableEq, Repr

variable {μ : Type*}

/-- What a round learns of a mint it asks about. -/
def SupplyReads.reading (config : ReconciliationConfig) (reads : SupplyReads μ) (mint : μ) :
    MintReading :=
  match reads.anchor, reads.supply mint with
  | some anchor, some (supply, slot) =>
    if slot < anchor then .unread
    else if startupToleranceRaw config (reads.custody mint) < supply - reads.custody mint then
      .breach
    else .clean
  | _, _ => .unread

/-- How the check ends when it does not pass. -/
def supplyFailure (config : ReconciliationConfig) (mints : Finset μ) (suspects : Option (Finset μ))
    (standing : μ → ℕ) : SupplyError :=
  let count := (mints.filter (0 < standing ·)).card
  if count = 0 then .supplyInvariantUnverified (suspects.elim 0 Finset.card)
  else .supplyExceedsCustody count config.mismatchThresholdRaw

/-- The `retain` of a round, and its breaches counted; a mint that does not stand has no
reading. -/
def advanceStanding [DecidableEq μ] (still breaches : Finset μ) (standing : μ → ℕ) (mint : μ) : ℕ :=
  let retained := if mint ∈ still then standing mint else 0
  if mint ∈ breaches then retained + 1 else retained

section Check

variable [DecidableEq μ] (config : ReconciliationConfig) (reads : ℕ → SupplyReads μ)
  (mints : Finset μ)

/-- One round. -/
def measureSupplyBreaches (reads : SupplyReads μ) (only : Option (Finset μ)) : SupplyReading μ :=
  let asked := mints.filter fun mint => only.all (mint ∈ ·)
  ⟨asked.filter (reads.reading config · = .breach),
    asked.filter (reads.reading config · = .unread)⟩

/-- The loop of `check_channel_supply_invariant`, with the rounds that are left. -/
def supplyRounds : ℕ → ℕ → Option (Finset μ) → (μ → ℕ) → Except SupplyError Unit
  | 0, _, suspects, standing => .error (supplyFailure config mints suspects standing)
  | left + 1, round, suspects, standing =>
    let reading := measureSupplyBreaches config mints (reads round) suspects
    if reading.breaches = ∅ ∧ reading.unread = ∅ then .ok ()
    else
      let still := reading.breaches ∪ reading.unread
      let standing := advanceStanding still reading.breaches standing
      if ∃ mint ∈ mints, supplyBreachConfirmations ≤ standing mint then
        .error (supplyFailure config mints (some still) standing)
      else supplyRounds left (round + 1) (some still) standing

/-- The boot check. -/
def checkChannelSupplyInvariant : Except SupplyError Unit :=
  supplyRounds config reads mints supplyBreachMaxRounds 0 none fun _ => 0

end Check

section Readings

variable (config : ReconciliationConfig) (answer : ℕ → μ → MintReading) (mints : Finset μ)

/-- The mint was not read clean in the first rounds. -/
def Open (rounds : ℕ) (mint : μ) : Prop := ∀ round < rounds, answer round mint ≠ .clean

instance (rounds : ℕ) : DecidablePred (Open answer rounds) := fun _ =>
  inferInstanceAs (Decidable (∀ _ < _, _))

/-- How often the first rounds saw the mint breach, if none of them read it clean. -/
def openBreaches (rounds : ℕ) (mint : μ) : ℕ :=
  if Open answer rounds mint then Nat.count (answer · mint = .breach) rounds else 0

/-- No mint has reached the confirmations. -/
def Unconfirmed (rounds : ℕ) : Prop :=
  ∀ mint ∈ mints, openBreaches answer rounds mint < supplyBreachConfirmations

/-- The error after some rounds: the breaches that stand, or else the mints never read. -/
def failureAfter (rounds : ℕ) : SupplyError :=
  let count := (mints.filter (0 < openBreaches answer rounds ·)).card
  if count = 0 then
    .supplyInvariantUnverified
      (mints.filter fun mint => ∀ round < rounds, answer round mint = .unread).card
  else .supplyExceedsCustody count config.mismatchThresholdRaw

variable {config answer mints} {n : ℕ} {suspects : Option (Finset μ)} {standing : μ → ℕ}

/-- The failure after the last round. -/
theorem supplyFailure_eq (hstanding : ∀ mint ∈ mints, standing mint = openBreaches answer n mint) :
    supplyFailure config mints (some (mints.filter (Open answer n))) standing =
      failureAfter config answer mints n := by
  have hsame : mints.filter (0 < standing ·) = mints.filter (0 < openBreaches answer n ·) :=
    Finset.filter_congr fun mint hmint => by rw [hstanding mint hmint]
  unfold supplyFailure failureAfter
  rw [hsame]
  refine if_ctx_congr Iff.rfl (fun hnone => ?_) fun _ => rfl
  have hunread : mints.filter (Open answer n) =
      mints.filter fun mint => ∀ round < n, answer round mint = .unread := by
    refine Finset.filter_congr fun mint hmint =>
      ⟨fun hopen round hround => ?_, fun h round hround => ?_⟩
    · have hzero := Finset.filter_eq_empty_iff.mp (Finset.card_eq_zero.mp hnone) hmint
      rw [openBreaches, if_pos hopen, Nat.not_lt, Nat.le_zero, Nat.count_iff_forall_not] at hzero
      have hbreach := hzero round hround
      have hclean := hopen round hround
      cases hanswer : answer round mint <;> simp_all
    · simp [h round hround]
  rw [hunread, Option.elim_some]

/-- The loop ends after some rounds. -/
def EndsAfter (config : ReconciliationConfig) (answer : ℕ → μ → MintReading) (mints : Finset μ)
    (rounds : ℕ) (result : Except SupplyError Unit) : Prop :=
  (∀ r < rounds, Unconfirmed answer mints r) ∧
    ((result = .ok () ∧ ∀ mint ∈ mints, ¬ Open answer rounds mint) ∨
      (result = .error (failureAfter config answer mints rounds) ∧
        (∃ mint ∈ mints, Open answer rounds mint) ∧
        (rounds = supplyBreachMaxRounds ∨ ¬ Unconfirmed answer mints rounds)))

variable {reads : ℕ → SupplyReads μ}

/-- What each round would learn of each mint. -/
def answers (config : ReconciliationConfig) (reads : ℕ → SupplyReads μ) (round : ℕ) :
    μ → MintReading :=
  (reads round).reading config

variable [DecidableEq μ]

/-- The rounds end with the first verdict. -/
theorem supplyRounds_ends {left : ℕ} (hanswer : answer = answers config reads)
    (hleft : n + left = supplyBreachMaxRounds)
    (hsuspects : suspects = none ∧ n = 0 ∨ suspects = some (mints.filter (Open answer n)))
    (hstanding : ∀ mint ∈ mints, standing mint = openBreaches answer n mint)
    (hbefore : ∀ r < n + 1, Unconfirmed answer mints r)
    (hopen : n = 0 ∨ ∃ mint ∈ mints, Open answer n mint) :
    ∃ rounds ≤ supplyBreachMaxRounds, EndsAfter config answer mints rounds
      (supplyRounds config reads mints left n suspects standing) := by
  induction left generalizing n suspects standing with
  | zero =>
    obtain rfl : n = supplyBreachMaxRounds := hleft
    refine ⟨_, le_rfl, fun r hr => hbefore r (Nat.lt_succ_of_lt hr),
      .inr ⟨?_, hopen.resolve_left (by decide), .inl rfl⟩⟩
    obtain ⟨-, hzero⟩ | rfl := hsuspects
    · cases hzero
    · rw [← supplyFailure_eq hstanding]
      rfl
  | succ left ih =>
    have hasked : (mints.filter fun mint => suspects.all (mint ∈ ·)) =
        mints.filter (Open answer n) := by
      refine Finset.filter_congr fun mint hmint => ?_
      rcases hsuspects with ⟨rfl, rfl⟩ | rfl
      · simp [Open]
      · simp [hmint]
    have hsucc : ∀ mint, Open answer (n + 1) mint ↔ Open answer n mint ∧ answer n mint ≠ .clean :=
      fun _ => Nat.forall_lt_succ_right
    unfold supplyRounds
    generalize hreading : measureSupplyBreaches config mints (reads n) suspects = reading
    have hbreaches : reading.breaches =
        (mints.filter (Open answer n)).filter (answer n · = .breach) := by
      rw [← hreading, ← hasked, hanswer]
      rfl
    have hunread : reading.unread =
        (mints.filter (Open answer n)).filter (answer n · = .unread) := by
      rw [← hreading, ← hasked, hanswer]
      rfl
    have hstill : reading.breaches ∪ reading.unread = mints.filter (Open answer (n + 1)) := by
      ext mint
      simp only [hbreaches, hunread, Finset.mem_union, Finset.mem_filter, hsucc]
      cases answer n mint <;> simp
    have hnext : ∀ mint ∈ mints, advanceStanding (mints.filter (Open answer (n + 1)))
        reading.breaches standing mint = openBreaches answer (n + 1) mint := by
      intro mint hmint
      simp only [advanceStanding, openBreaches, hbreaches, Finset.mem_filter, hmint, hsucc,
        hstanding mint hmint, Nat.count_succ]
      cases answer n mint <;> by_cases hopen : Open answer n mint <;> simp [hopen]
    simp only [← Finset.union_eq_empty, hstill]
    split
    · next hnone =>
      refine ⟨n + 1, by omega, hbefore, .inl ⟨rfl, fun mint hmint => ?_⟩⟩
      exact Finset.filter_eq_empty_iff.mp hnone hmint
    · next hsome =>
      have hopen' := Finset.filter_nonempty_iff.mp (Finset.nonempty_iff_ne_empty.mpr hsome)
      split
      · next hconfirmed =>
        refine ⟨n + 1, by omega, hbefore, .inr ⟨?_, hopen', .inr fun hnone => ?_⟩⟩
        · rw [supplyFailure_eq hnext]
        · obtain ⟨mint, hmint, hle⟩ := hconfirmed
          rw [hnext mint hmint] at hle
          exact absurd (hnone mint hmint) (not_lt.mpr hle)
      · next hconfirmed =>
        refine ih (by omega) (.inr rfl) hnext (fun r hr => ?_) (.inr hopen')
        rcases (Nat.lt_succ_iff.mp hr).lt_or_eq with hlt | rfl
        · exact hbefore r hlt
        · intro mint hmint
          rw [← not_le, ← hnext mint hmint]
          exact fun hle => hconfirmed ⟨mint, hmint, hle⟩

/-- The check passes exactly when every mint was read clean before any was confirmed, and
otherwise names the uncleared breaches, or else the mints never read. -/
theorem supply_check_verdict (config : ReconciliationConfig) (reads : ℕ → SupplyReads μ)
    (mints : Finset μ) :
    (checkChannelSupplyInvariant config reads mints = .ok () ↔
      ∃ rounds ≤ supplyBreachMaxRounds,
        (∀ mint ∈ mints, ∃ round < rounds, answers config reads round mint = .clean) ∧
        ∀ r < rounds, Unconfirmed (answers config reads) mints r) ∧
      ∃ rounds ≤ supplyBreachMaxRounds, EndsAfter config (answers config reads) mints rounds
        (checkChannelSupplyInvariant config reads mints) := by
  have hfirst : ∀ r < 0 + 1, Unconfirmed (answers config reads) mints r := by
    intro r hr mint _
    obtain rfl : r = 0 := by omega
    simp [openBreaches, supplyBreachConfirmations]
  obtain ⟨rounds, hle, hbefore, hends⟩ := supplyRounds_ends rfl (Nat.zero_add _) (.inl ⟨rfl, rfl⟩)
    (fun mint _ => (by simp [openBreaches] : 0 = openBreaches (answers config reads) 0 mint)) hfirst
    (.inl rfl)
  refine ⟨⟨fun hok => ?_, fun ⟨rounds', hle', hclean, hbefore'⟩ => ?_⟩, rounds, hle, hbefore, hends⟩
  · obtain ⟨-, hclosed⟩ | ⟨herror, -⟩ := hends
    · refine ⟨rounds, hle, fun mint hmint => ?_, hbefore⟩
      simpa [Open] using hclosed mint hmint
    · cases hok.symm.trans herror
  · obtain ⟨hok, -⟩ | ⟨-, ⟨mint, hmint, hopen⟩, hlast⟩ := hends
    · exact hok
    · obtain ⟨round, hround, hread⟩ := hclean mint hmint
      have hlt : rounds < rounds' := by
        by_contra hge
        exact hopen round (hround.trans_le (not_lt.mp hge)) hread
      exact absurd (hbefore' rounds hlt) (hlast.resolve_left (hlt.trans_le hle').ne)

end Readings

end PrivateChannels.Indexer
