import PrivateChannels.Escrow.BitmapRefinement

/-!
# Runs of calls on one bitmap account

A run is any sequence of initialisations, releases and rotations, failures included. One
simulation lemma carries every run to the replay guard.
-/

namespace PrivateChannels.Escrow.WithdrawalBitmap

/-- The calls on the account. `rotate` is the instruction's, which validates first. -/
inductive Call
  | init (bump : UInt8)
  | release (nonce : UInt64)
  | rotate (expected : UInt64)
  deriving DecidableEq

/-- The call as its instruction runs it. -/
def Call.perform (w : Window) : Call → Program Unit
  | .init bump => WithdrawalBitmap.init w bump
  | .release nonce => processReleaseFunds w nonce
  | .rotate expected => processRotateBitmap w expected

/-- A call with the error it returned, if any. -/
structure Event where
  call : Call
  error : Option ProgramError
  deriving DecidableEq

/-- The recorded error and the bytes a call left behind. -/
def outcome : EStateM.Result ProgramError Data Unit → Option ProgramError × Data
  | .ok _ data => (none, data)
  | .error e data => (some e, data)

/-- One recorded call. -/
def Step (w : Window) (data : Data) (e : Event) (data' : Data) : Prop :=
  outcome ((e.call.perform w).run data) = (e.error, data')

instance (w : Window) (data : Data) (e : Event) (data' : Data) :
    Decidable (Step w data e data') :=
  inferInstanceAs (Decidable (_ = _))

variable {events : List Event} {account : Data}

/-- The recorded calls determine the bytes. -/
theorem Step.run_unique {data data' : Data} {w : Window}
    (h : Run (Step w) account events data) (h' : Run (Step w) account events data') :
    data = data' := by
  induction h generalizing data' with
  | nil => exact h'.of_nil.symm
  | @snoc l t u a _ hs ih =>
    obtain ⟨t', hl, ha⟩ := h'.split
    obtain rfl := ih hl
    have hs' : Step w t a data' := ha.of_single
    exact (Prod.mk.inj (hs.symm.trans hs')).2

/-- The call the guard sees. -/
def Call.abstract : Call → GuardCall
  | .init _ => .init
  | .release nonce => .release nonce.toNat
  | .rotate expected => .rotate expected.toNat

/-- The guard's view of a call. -/
def Event.abstract (e : Event) : GuardCall × Bool := (e.call.abstract, e.error.isNone)

variable {w : Window} {data data' : Data} {s : Guard} {e : Event}

/-- The capacity of the stored generation. -/
abbrev cap : ℕ := 2 ^ 64

/-- An initialisation, accepted or refused. -/
theorem Represents.init_step (h : Represents w data s) (bump : UInt8) :
    (∃ data', outcome ((init w bump).run data) = (none, data') ∧
      s.Accepts w.noncesPerGeneration cap .init ∧ Represents w data' (s.apply .init)) ∨
    (∃ e, outcome ((init w bump).run data) = (some e, data) ∧
      ¬ s.Accepts w.noncesPerGeneration cap .init) := by
  have hl := h.length_le
  rw [init_run, if_neg (by omega : ¬ data.length < len w), h.tag]
  cases hlive : s.live with
  | true => exact .inr ⟨.accountAlreadyInitialized, by simp [outcome, discriminator], by
      simp [Guard.Accepts, hlive]⟩
  | false =>
    refine .inl ⟨_, by simp [outcome]; rfl, hlive, h.initialise hlive bump⟩

/-- A release, accepted or refused. -/
theorem Represents.release_step (h : Represents w data s) (n : UInt64) :
    (outcome ((processReleaseFunds w n).run data) = (none, setBit w data n) ∧
      s.Accepts w.noncesPerGeneration cap (.release n.toNat) ∧
      Represents w (setBit w data n) (s.apply (.release n.toNat))) ∨
    (∃ e, outcome ((processReleaseFunds w n).run data) = (some e, data) ∧
      ¬ s.Accepts w.noncesPerGeneration cap (.release n.toNat)) := by
  simp only [processReleaseFunds, EStateM.run_bind, h.validate_run]
  cases hlive : s.live with
  | false => exact .inr ⟨.invalidAccountData, rfl, by simp [Guard.Accepts, hlive]⟩
  | true =>
    simp only [if_true, validateGeneration_run, h.generation_eq]
    by_cases hgen : n.toNat / w.noncesPerGeneration = s.generation
    · simp only [hgen, ne_eq, not_true_eq_false, if_false, consumeNonce_run]
      cases hbit : bit w data n with
      | true =>
        refine .inr ⟨.nonceAlreadyUsed, rfl, ?_⟩
        have := (h.bit_iff n hgen).mp hbit
        simp [Guard.Accepts, this]
      | false =>
        have hnew : n.toNat ∉ s.released := by
          rw [← h.bit_iff n hgen, hbit]
          decide
        exact .inl ⟨rfl, ⟨hlive, hgen, hnew⟩, h.consume hlive hgen⟩
    · exact .inr ⟨.nonceOutsideCurrentGeneration, by simp [hgen, outcome], by
        simp [Guard.Accepts, hgen]⟩

/-- A rotation, accepted or refused. -/
theorem Represents.rotate_step (h : Represents w data s) (g : UInt64) :
    (∃ data', outcome ((processRotateBitmap w g).run data) = (none, data') ∧
      s.Accepts w.noncesPerGeneration cap (.rotate g.toNat) ∧
      Represents w data' (s.apply (.rotate g.toNat))) ∨
    (∃ e data', outcome ((processRotateBitmap w g).run data) = (some e, data') ∧
      ¬ s.Accepts w.noncesPerGeneration cap (.rotate g.toNat) ∧ Represents w data' s) := by
  simp only [processRotateBitmap, EStateM.run_bind, h.validate_run]
  cases hlive : s.live with
  | false => exact .inr ⟨.invalidAccountData, data, rfl, by simp [Guard.Accepts, hlive], h⟩
  | true =>
    simp only [if_true, rotate_run, h.generation_eq]
    by_cases hgen : generation data = g
    · have hg : s.generation = g.toNat := by rw [← hgen, h.generation_eq]
      simp only [hgen, ne_eq, not_true_eq_false, if_false]
      by_cases hcap : s.generation + 1 < 2 ^ 64
      · exact .inl ⟨_, by rw [if_pos hcap]; rfl, ⟨hlive, hg, hg ▸ hcap⟩, h.advance hlive hcap _⟩
      · refine .inr ⟨.arithmeticOverflow, _, by rw [if_neg hcap]; rfl, ?_, h.clear_last hcap⟩
        rintro ⟨_, _, hlt⟩
        exact hcap (hg ▸ hlt)
    · refine .inr ⟨.unexpectedGeneration, data, by simp [hgen, outcome], ?_, h⟩
      rintro ⟨_, hg, _⟩
      exact hgen (UInt64.toNat_inj.mp (by rw [h.generation_eq, hg]))

/-- Every call on a represented account is the guard's call, accepted or
refused alike. -/
theorem Represents.step (h : Represents w data s) (hstep : Step w data e data') :
    ∃ s', s.Step w.noncesPerGeneration cap e.abstract s' ∧ Represents w data' s' := by
  obtain ⟨call, error⟩ := e
  cases call with
  | init bump =>
    rcases h.init_step bump with ⟨d, he, ha, hr⟩ | ⟨err, he, ha⟩ <;>
      cases he.symm.trans hstep
    · exact ⟨_, .inl ⟨rfl, ha, rfl⟩, hr⟩
    · exact ⟨_, .inr ⟨rfl, ha, rfl⟩, h⟩
  | release n =>
    rcases h.release_step n with ⟨he, ha, hr⟩ | ⟨err, he, ha⟩ <;>
      cases he.symm.trans hstep
    · exact ⟨_, .inl ⟨rfl, ha, rfl⟩, hr⟩
    · exact ⟨_, .inr ⟨rfl, ha, rfl⟩, h⟩
  | rotate g =>
    rcases h.rotate_step g with ⟨d, he, ha, hr⟩ | ⟨err, d, he, ha, hr⟩ <;>
      cases he.symm.trans hstep
    · exact ⟨_, .inl ⟨rfl, ha, rfl⟩, hr⟩
    · exact ⟨_, .inr ⟨rfl, ha, rfl⟩, hr⟩

/-- Every run from a zeroed account is a run of the guard from the empty state. -/
theorem exists_guard_run (hl : len w ≤ account.length)
    (h0 : ∀ b ∈ account, b = 0) (h : Run (Step w) account events data) :
    ∃ s, Guard.Explains (events.map Event.abstract) s ∧ Represents w data s := by
  obtain ⟨s, hrun, hrep⟩ := h.simulate (represents_zero hl h0) fun _ _ _ _ hr hs => hr.step hs
  exact ⟨s, Guard.explains_of_run hrun, hrep⟩

/-- An event is a successful release, rotation or initialisation exactly when
the guard sees one. -/
theorem Event.abstract_eq_release (e : Event) (n : UInt64) :
    e.abstract = (.release n.toNat, true) ↔ e = ⟨.release n, none⟩ := by
  obtain ⟨call, error⟩ := e
  cases call <;> cases error <;> simp [Event.abstract, Call.abstract, UInt64.toNat_inj]

theorem Event.abstract_eq_rotate (e : Event) (g : UInt64) :
    e.abstract = (.rotate g.toNat, true) ↔ e = ⟨.rotate g, none⟩ := by
  obtain ⟨call, error⟩ := e
  cases call <;> cases error <;> simp [Event.abstract, Call.abstract, UInt64.toNat_inj]

/-- A successful initialisation, whatever its bump. -/
def Event.isInit (e : Event) : Bool := e.error.isNone && e.call matches .init _

/-- A successful rotation, whatever its argument. -/
def Event.isRotate (e : Event) : Bool := e.error.isNone && e.call matches .rotate _

theorem Event.isInit_iff (e : Event) : e.isInit = true ↔ e.abstract = (.init, true) := by
  obtain ⟨call, error⟩ := e
  cases call <;> cases error <;> simp [Event.isInit, Event.abstract, Call.abstract]

theorem Event.isRotate_eq (e : Event) : e.isRotate = (e.abstract.2 && e.abstract.1.isRotate) := by
  obtain ⟨call, error⟩ := e
  cases call <;> cases error <;> rfl

/-- Counting events that the guard sees alike. -/
theorem count_abstract {x : Event} {y : GuardCall × Bool}
    (h : ∀ e : Event, e.abstract = y ↔ e = x) :
    (events.map Event.abstract).count y = events.count x := by
  rw [List.count, List.countP_map, List.count]
  apply List.countP_congr
  intro e _
  simp [h]

/-- A successful release marks its nonce and no other. -/
theorem Represents.marked_release (h : Represents w data s) {n : UInt64}
    (hstep : Step w data ⟨.release n, none⟩ data') :
    marked w data' n = true ∧ ∀ m, m ≠ n → marked w data' m = marked w data m := by
  have hstep' : outcome ((processReleaseFunds w n).run data) = (none, data') := hstep
  rcases h.release_step n with ⟨he, ⟨_, hgen, _⟩, hr⟩ | ⟨err, he, _⟩
  · obtain ⟨_, rfl⟩ := Prod.mk.inj (he.symm.trans hstep')
    have hsame : generation (setBit w data n) = generation data :=
      generation_congr fun i _ hi => getElem?_setBit hi
    have hn : n.toNat / w.noncesPerGeneration = (generation data).toNat := by
      rw [hgen, h.generation_eq]
    refine ⟨?_, ?_⟩
    · simp [marked, hsame, hn, bit_setBit h.length_le]
    · intro m hm
      simp only [marked, hsame, bit_setBit h.length_le]
      by_cases hmg : m.toNat / w.noncesPerGeneration = (generation data).toNat
      · have hpos : n.toNat % w.noncesPerGeneration ≠ m.toNat % w.noncesPerGeneration := by
          intro hmod
          apply hm
          apply UInt64.toNat_inj.mp
          rw [← Nat.div_add_mod m.toNat w.noncesPerGeneration,
            ← Nat.div_add_mod n.toNat w.noncesPerGeneration, hn, hmg, hmod]
        simp [hpos]
      · rw [beq_false_of_ne hmg, Bool.false_and, Bool.false_and]
  · cases (Prod.mk.inj (he.symm.trans hstep')).1

/-- The stored generation moves by one on a successful rotation and otherwise stays. -/
theorem Represents.generation_step (h : Represents w data s) (hstep : Step w data e data') :
    (generation data').toNat = (generation data).toNat + e.isRotate.toNat := by
  obtain ⟨s', hs, hr⟩ := h.step hstep
  rw [hr.generation_eq, h.generation_eq, Event.isRotate_eq]
  rcases hs with ⟨hok, hacc, rfl⟩ | ⟨hok, _, rfl⟩
  · rw [hok]
    cases hcall : e.abstract.1 with
    | init =>
      rw [hcall] at hacc
      rw [h.dormant hacc]
      rfl
    | _ => rfl
  · simp [hok]

/-- The releases recorded in a run are the guard's. -/
theorem mem_release_iff (hexp : Guard.Explains (events.map Event.abstract) s)
    (n : UInt64) : (⟨.release n, none⟩ : Event) ∈ events ↔ n.toNat ∈ s.released := by
  rw [← List.count_pos_iff, ← count_abstract fun e => e.abstract_eq_release n, hexp.releases,
    List.count_pos_iff]

/-- The account marks exactly the released nonces of its own generation. -/
theorem marked_iff (hl : len w ≤ account.length)
    (h0 : ∀ b ∈ account, b = 0) (h : Run (Step w) account events data) (n : UInt64) :
    marked w data n = true ↔ n.toNat / w.noncesPerGeneration = (generation data).toNat ∧
      (⟨.release n, none⟩ : Event) ∈ events := by
  obtain ⟨s, hexp, hrep⟩ := exists_guard_run hl h0 h
  rw [marked, Bool.and_eq_true, beq_iff_eq, mem_release_iff hexp, hrep.generation_eq]
  exact and_congr_right fun hgen => hrep.bit_iff n hgen

/-- Once the generation has passed a nonce's window, the nonce is released no more. -/
theorem Represents.no_release_below (h : Represents w data s)
    {n : UInt64} (hgen : n.toNat / w.noncesPerGeneration < s.generation)
    (hrun : Run (Step w) data events data') : (⟨.release n, none⟩ : Event) ∉ events := by
  have key := hrun.invariant
    (P := fun l t => (∃ s', Represents w t s' ∧ s.generation ≤ s'.generation) ∧
      (⟨.release n, none⟩ : Event) ∉ l)
    ⟨⟨s, h, le_rfl⟩, by simp⟩ ?_
  · exact key.2
  · rintro l t e u ⟨⟨s', hr, hle⟩, hno⟩ hs
    have hmove := hr.generation_step hs
    obtain ⟨s'', hstep, hr'⟩ := hr.step hs
    rw [hr.generation_eq, hr'.generation_eq] at hmove
    refine ⟨⟨s'', hr', by omega⟩, ?_⟩
    simp only [List.mem_append, List.mem_singleton, not_or]
    refine ⟨hno, ?_⟩
    rintro rfl
    rcases hstep with ⟨_, ⟨_, hn, _⟩, _⟩ | ⟨hok, _⟩
    · have hn' : n.toNat / w.noncesPerGeneration = s'.generation := hn
      omega
    · cases hok

/-- The stored generation counts the successful rotations. -/
theorem countP_isRotate (hl : len w ≤ account.length)
    (h0 : ∀ b ∈ account, b = 0) (h : Run (Step w) account events data) :
    events.countP Event.isRotate = (generation data).toNat := by
  obtain ⟨s, hexp, hrep⟩ := exists_guard_run hl h0 h
  rw [hrep.generation_eq, ← hexp.rotations, List.countP_map]
  exact List.countP_congr fun e _ => by simp [Event.isRotate_eq]

/-- From a zeroed account, whatever calls are made: a nonce is released at most once, exactly
when it is an unreleased one of the stored generation, the generation counts the successful
rotations, and neither a rotation nor the initialisation repeats. -/
theorem bitmap_replay_safe {account : Data} {events : List Event} (hl : len w ≤ account.length)
    (h0 : ∀ b ∈ account, b = 0) (h : Run (Step w) account events data) :
    (∀ n, events.count ⟨.release n, none⟩ ≤ 1) ∧
    (initialised data → ∀ n, (∃ data', Step w data ⟨.release n, none⟩ data') ↔
      n.toNat / w.noncesPerGeneration = (generation data).toNat ∧
        (⟨.release n, none⟩ : Event) ∉ events) ∧
    (∀ n data', Step w data ⟨.release n, none⟩ data' →
      marked w data' n = true ∧ ∀ m, m ≠ n → marked w data' m = marked w data m) ∧
    (∀ n, marked w data n = true ↔ n.toNat / w.noncesPerGeneration = (generation data).toNat ∧
      (⟨.release n, none⟩ : Event) ∈ events) ∧
    (∀ e data', Step w data e data' →
      (generation data').toNat = (generation data).toNat + e.isRotate.toNat) ∧
    events.countP Event.isRotate = (generation data).toNat ∧
    (∀ g, events.count ⟨.rotate g, none⟩ ≤ 1) ∧
    events.countP Event.isInit ≤ 1 := by
  obtain ⟨s, hexp, hrep⟩ := exists_guard_run hl h0 h
  have hcount : ∀ n : UInt64, events.count ⟨.release n, none⟩ = s.released.count n.toNat :=
    fun n => by rw [← hexp.releases, count_abstract fun e => e.abstract_eq_release n]
  refine ⟨?_, ?_, fun n data' hs => hrep.marked_release hs, marked_iff hl h0 h,
    fun e data' hs => hrep.generation_step hs, countP_isRotate hl h0 h, ?_, ?_⟩
  · intro n
    rw [hcount]
    exact List.nodup_iff_count_le_one.mp hexp.nodup _
  · intro hinit n
    have hlive := hrep.initialised_iff.mp hinit
    rw [mem_release_iff hexp, hrep.generation_eq]
    constructor
    · rintro ⟨data', hs⟩
      have hs' : outcome ((processReleaseFunds w n).run data) = (none, data') := hs
      rcases hrep.release_step n with ⟨_, ⟨_, hgen, hnew⟩, _⟩ | ⟨err, he, _⟩
      · exact ⟨hgen, hnew⟩
      · cases (Prod.mk.inj (he.symm.trans hs')).1
    · rintro ⟨hgen, hnew⟩
      rcases hrep.release_step n with ⟨he, _⟩ | ⟨_, _, hno⟩
      · exact ⟨_, he⟩
      · exact absurd ⟨hlive, hgen, hnew⟩ hno
  · intro g
    rw [← count_abstract fun e => e.abstract_eq_rotate g, hexp.rotated]
    split <;> omega
  · have hinits : events.countP Event.isInit = s.live.toNat := by
      rw [← hexp.inits, List.count, List.countP_map]
      exact List.countP_congr fun e _ => by simp [Event.isInit_iff]
    rw [hinits]
    exact Bool.toNat_le _

/-- A run with a refused replay and a rotation, on the test-sized window. -/
theorem bitmap_replay_safe_test_tree :
    let events : List Event := [⟨.init 255, none⟩, ⟨.release 3, none⟩,
      ⟨.release 3, some .nonceAlreadyUsed⟩, ⟨.rotate 0, none⟩,
      ⟨.release 3, some .nonceOutsideCurrentGeneration⟩, ⟨.release 11, none⟩]
    (∀ n, events.count ⟨.release n, none⟩ ≤ 1) ∧ events.countP Event.isRotate = 1 := by
  intro events
  have hrun : Run (Step .testTree) (List.replicate 11 0) events
      [3, 255, 1, 0, 0, 0, 0, 0, 0, 0, 8] :=
    .cons (t := [3, 255, 0, 0, 0, 0, 0, 0, 0, 0, 0]) (by decide) <|
    .cons (t := [3, 255, 0, 0, 0, 0, 0, 0, 0, 0, 8]) (by decide) <|
    .cons (t := [3, 255, 0, 0, 0, 0, 0, 0, 0, 0, 8]) (by decide) <|
    .cons (t := [3, 255, 1, 0, 0, 0, 0, 0, 0, 0, 0]) (by decide) <|
    .cons (t := [3, 255, 1, 0, 0, 0, 0, 0, 0, 0, 0]) (by decide) <|
    .single (by decide)
  have hsafe := bitmap_replay_safe (by decide) (fun _ => List.eq_of_mem_replicate) hrun
  exact ⟨hsafe.1, hsafe.2.2.2.2.2.1⟩

/-- The bare account functions. `rotate` does not check the discriminator: on an account never
initialised it advances a generation that `init` resets. -/
def Call.performBare (w : Window) : Call → Program Unit
  | .rotate expected => WithdrawalBitmap.rotate w expected
  | call => call.perform w

/-- A call of the bare functions. -/
def BareStep (w : Window) (data : Data) (e : Event) (data' : Data) : Prop :=
  outcome ((e.call.performBare w).run data) = (e.error, data')

instance (w : Window) (data : Data) (e : Event) (data' : Data) :
    Decidable (BareStep w data e data') :=
  inferInstanceAs (Decidable (_ = _))

/-- Rotating before `init`: the generation falls back to zero, and `rotate 0` succeeds twice. -/
theorem bare_rotate_succeeds_twice :
    ∃ rotated fresh final,
      Run (BareStep .testTree) (List.replicate 11 0) [⟨.rotate 0, none⟩] rotated ∧
      Run (BareStep .testTree) rotated [⟨.init 255, none⟩] fresh ∧
      Run (BareStep .testTree) fresh [⟨.rotate 0, none⟩] final ∧
      generation rotated = 1 ∧ generation fresh = 0 :=
  ⟨[0, 0, 1, 0, 0, 0, 0, 0, 0, 0, 0], [3, 255, 0, 0, 0, 0, 0, 0, 0, 0, 0],
    [3, 255, 1, 0, 0, 0, 0, 0, 0, 0, 0], .single (by decide), .single (by decide),
    .single (by decide), by decide, by decide⟩

end PrivateChannels.Escrow.WithdrawalBitmap
