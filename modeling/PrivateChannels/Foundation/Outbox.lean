import PrivateChannels.Foundation.Ledger

/-!
# Sending one payment through attempts that may each land

An attempt is broadcast only after it was issued, and a new one is issued only when every
earlier one can no longer land, so the payment happens at most once. The same bookkeeping
makes two payments exclude each other.
-/

namespace PrivateChannels.Ledger

variable {σ : Type*}

/-- Every landed attempt was broadcast, and every broadcast one issued. `ours` are the
payment's. -/
structure Accounted (ours : σ → Prop) (chain : Chain σ) (issued broadcast : List σ) : Prop where
  sent : ∀ s ∈ broadcast, s ∈ issued
  landed : ∀ s, ours s → chain.Landed s → s ∈ broadcast

namespace Accounted

variable {ours : σ → Prop} {chain chain' : Chain σ} {issued broadcast : List σ} {s : σ}

theorem init (hnone : ∀ s, ours s → ¬ chain.Landed s) : Accounted ours chain [] [] :=
  ⟨nofun, fun s hs hl => absurd hl (hnone s hs)⟩

section

variable (h : Accounted ours chain issued broadcast)

include h

theorem issue (s : σ) :
    Accounted ours chain (s :: issued) broadcast :=
  ⟨fun t ht => List.mem_cons_of_mem s (h.sent t ht), h.landed⟩

theorem send (hs : s ∈ issued) :
    Accounted ours chain issued (s :: broadcast) :=
  ⟨List.forall_mem_cons.mpr ⟨hs, h.sent⟩,
    fun t ht hl => List.mem_cons_of_mem s (h.landed t ht hl)⟩

theorem advance
    (hnew : ∀ s, ours s → chain'.Landed s → s ∈ broadcast) :
    Accounted ours chain' issued broadcast :=
  ⟨h.sent, hnew⟩

theorem issued_of_landed (hs : ours s)
    (hl : chain.Landed s) : s ∈ issued :=
  h.sent s (h.landed s hs hl)

/-- Two payments exclude each other when the second is issued only once no attempt of the first
can land. -/
theorem exclusive {τ : Type*} {theirs : τ → Prop} {other : Chain τ} {issued' broadcast' : List τ}
    {valid : Chain σ → Prop}
    (h' : Accounted theirs other issued' broadcast') (hvalid : valid chain)
    (hdead : issued' ≠ [] → ∀ s ∈ issued, chain.Doomed valid s) :
    ¬ ((∃ s, ours s ∧ chain.Landed s) ∧ ∃ t, theirs t ∧ other.Landed t) := by
  rintro ⟨⟨s, hs, hls⟩, t, ht, hlt⟩
  have hdoomed := hdead (List.ne_nil_of_mem (h'.issued_of_landed ht hlt)) s
    (h.issued_of_landed hs hls)
  exact hdoomed.not_landed hvalid hls

end

end Accounted

/-- The attempts issued for one payment, newest first: each was issued when its elders could no
longer land. -/
structure Disciplined (valid : Chain σ → Prop) (ours : σ → Prop) (chain : Chain σ)
    (issued broadcast : List σ) : Prop extends Accounted ours chain issued broadcast where
  admitted : valid chain
  older : issued.Pairwise fun new old => old = new ∨ chain.Doomed valid old

namespace Disciplined

variable {valid : Chain σ → Prop} {ours : σ → Prop} {chain chain' : Chain σ}
  {issued broadcast : List σ} {s t : σ}

/-- Before the first attempt nothing has landed. -/
theorem init (hvalid : valid chain) (hnone : ∀ s, ours s → ¬ chain.Landed s) :
    Disciplined valid ours chain [] [] :=
  ⟨.init hnone, hvalid, .nil⟩

section

variable (h : Disciplined valid ours chain issued broadcast)

include h

/-- The rule for a new attempt. -/
theorem issue
    (hdead : ∀ t ∈ issued, t = s ∨ chain.Doomed valid t) :
    Disciplined valid ours chain (s :: issued) broadcast :=
  ⟨h.toAccounted.issue s, h.admitted, List.pairwise_cons.mpr ⟨hdead, h.older⟩⟩

/-- The rule for a broadcast. -/
theorem send (hs : s ∈ issued) :
    Disciplined valid ours chain issued (s :: broadcast) :=
  ⟨h.toAccounted.send hs, h.admitted, h.older⟩

/-- The chain may advance in any way that lands only broadcast attempts. -/
theorem advance (hext : chain'.Extends chain)
    (hvalid : valid chain') (hnew : ∀ s, ours s → chain'.Landed s → s ∈ broadcast) :
    Disciplined valid ours chain' issued broadcast :=
  ⟨h.toAccounted.advance hnew, hvalid, h.older.imp fun hr => hr.imp_right (·.mono hext)⟩

/-- The payment lands at most once. Of two issued attempts the older one is doomed. -/
theorem landed_unique (hs : ours s)
    (hls : chain.Landed s) (ht : ours t) (hlt : chain.Landed t) : s = t := by
  let R : σ → σ → Prop := fun x y => x = y ∨ chain.Doomed valid x ∨ chain.Doomed valid y
  have hsymm : Std.Symm R := ⟨fun _ _ hr => hr.imp Eq.symm Or.symm⟩
  have hpair : issued.Pairwise R := h.older.imp fun hr => hr.imp Eq.symm .inr
  have hor : R s t := hpair.forall_of_forall (fun _ _ => .inl rfl)
    (h.issued_of_landed hs hls) (h.issued_of_landed ht hlt)
  rcases hor with heq | hd | hd
  · exact heq
  · exact absurd hls (hd.not_landed h.admitted)
  · exact absurd hlt (hd.not_landed h.admitted)

end

end Disciplined

end PrivateChannels.Ledger
