import PrivateChannels.Foundation.Outbox
import PrivateChannels.Operator.FinalitySound
import PrivateChannels.Operator.RemintAttempt
import PrivateChannels.Storage.Lifecycle

/-!
# Remints of one withdrawal under any interleaving

Any number of attempts run against one row and one channel, may crash at any suspension
point, lose an acknowledgement or fail a send that went out, beside every other writer of
the row.
-/

namespace PrivateChannels.Operator

open Storage
open Ledger (Disciplined)

/-- The entry, the states the channel's rules admit, and which signatures are its remint
`MintTo`s. -/
structure RemintWorld where
  info : WithdrawalRemintInfo
  valid : Ledger.Chain Signature → Prop
  remint : Signature → Prop

/-- A remint of this row whose recorded window bounds its inclusion in every
admitted channel state. -/
structure RemintWorld.Signed (w : RemintWorld) (sig : StoredSig) : Prop where
  remint : w.remint sig.signature
  window : ∀ c, w.valid c → Admissible .channel sig c

/-- The database, the channel and the attempts in progress. The last three fields are history:
claimed signatures, newest first, those a `Dead` verdict covered, and those broadcast. -/
structure RemintSystem where
  store : Store
  channel : Ledger.Chain Signature
  tasks : ℕ → Option RemintTask
  claimed : List Signature
  provenDead : List Signature
  broadcast : List Signature

namespace RemintSystem

/-- The attempt moves to its next suspension point. -/
def resume (s : RemintSystem) (i : ℕ) (t : RemintTask) : RemintSystem :=
  { s with tasks := Function.update s.tasks i (some t) }

/-- The row is rewritten. -/
def withRow (s : RemintSystem) (row : Row) : RemintSystem :=
  { s with store := { s.store with row := row } }

/-- The signatures a committed claim adds to the history. -/
def noteClaim (s : RemintSystem) (sig : StoredSig) (claim : RemintClaim) : RemintSystem :=
  if claim = .claimed then { s with claimed := sig.signature :: s.claimed } else s

/-- The signatures a verdict adds to the history. -/
def noteVerdict (s : RemintSystem) (stored : List StoredSig) (v : SigFinality) : RemintSystem :=
  if v = .dead then { s with provenDead := stored.map (·.signature) ++ s.provenDead } else s

/-- The signature is an entry of the row that is not superseded. -/
def LiveEntry (row : Row) (x : Signature) : Prop :=
  ∃ e ∈ row.remintJournal, e.signature = x ∧ e.superseded = false

/-- Before any attempt: nothing claimed, broadcast or landed. -/
structure Fresh (w : RemintWorld) (s : RemintSystem) : Prop where
  admitted : w.valid s.channel
  unlanded : ∀ x, w.remint x → ¬ s.channel.Landed x
  journal : s.store.row.remintJournal = []
  unrefunded : s.store.row.status ≠ .failedReminted
  idle : ∀ i, s.tasks i = none
  unclaimed : s.claimed = []
  unproven : s.provenDead = []
  unsent : s.broadcast = []

end RemintSystem

/-- The operations that write a remint's progress; all others are the row's
remaining writers. -/
def remintOp : Op → Bool
  | .claimRemintAttempt _ _ | .recordRemintResult _ | .tryMarkReminted _ _ => true
  | _ => false

/-- The steps on the row and the channel. -/
inductive RemintEvent
  | begin (i : ℕ)
  | crash (i : ℕ)
  | lookup (i : ℕ) (answer : Except String (Option ConsumedMint))
  | readJournal (i : ℕ) (answer : Except String (List StoredSig))
  | classify (i : ℕ) (finality : FinalityRpc)
  | countRejected (i : ℕ) (answer : Except String ℕ)
  | sign (i : ℕ) (answer : Except BuildError StoredSig)
  | claim (i : ℕ) (now : Stamp) (answer : Except String RemintClaim)
  | send (i : ℕ) (answer : Except String Unit)
  | confirm (i : ℕ) (polls : ℕ → Except String (Option PolledStatus))
  | record (i : ℕ) (now : Stamp) (answer : Except String Unit)
  | readBack (i : ℕ) (answer : Except String TransactionStatus)
  | clear (i : ℕ)
  | gc
  | markReminted (expected : Stamp) (signature : Signature) (now : Stamp)
  | other (op : Op) (now : Stamp)
  | advance

open RemintSystem in
/-- One step. An answer to a read comes from the current database, and from a
channel state no later than the present one. -/
inductive RemintStep (w : RemintWorld) : RemintSystem → RemintEvent → RemintSystem → Prop
  /-- An entry is hydrated, at first or after a restart. -/
  | begin {s : RemintSystem} {i : ℕ} (hfree : s.tasks i = none) :
      RemintStep w s (.begin i) (s.resume i .lookup)
  | crash {s : RemintSystem} {i : ℕ} :
      RemintStep w s (.crash i) { s with tasks := Function.update s.tasks i none }
  /-- The channel lists only mints that landed. -/
  | lookup {s : RemintSystem} {i : ℕ} {answer : Except String (Option ConsumedMint)}
      (hat : s.tasks i = some .lookup)
      (hlisted : ∀ consumed, answer = .ok (some consumed) → consumed.kind = .remint →
        w.remint consumed.signature ∧ s.channel.Landed consumed.signature) :
      RemintStep w s (.lookup i answer) (s.resume i (onLookup w.info answer))
  | readJournal {s : RemintSystem} {i : ℕ} {answer : Except String (List StoredSig)}
      (hat : s.tasks i = some .readJournal)
      (hread : ∀ stored, answer = .ok stored →
        stored = s.store.row.remintJournal.map (·.toStoredSig)) :
      RemintStep w s (.readJournal i answer) (s.resume i (onJournal w.info answer))
  | classify {s : RemintSystem} {i : ℕ} {stored : List StoredSig} {finality : FinalityRpc}
      (hat : s.tasks i = some (.classify stored)) (hchain : finality.chain = .channel)
      (hfallback : finality.fallback = none)
      (hhonest : finality.primary.Honest s.channel s.channel .channel stored) :
      RemintStep w s (.classify i finality)
        ((s.noteVerdict stored (classifySignatures finality stored)).resume i
          (onFinality w.info stored (classifySignatures finality stored)))
  | countRejected {s : RemintSystem} {i : ℕ} {stored : List StoredSig}
      {answer : Except String ℕ} (hat : s.tasks i = some (.countRejected stored)) :
      RemintStep w s (.countRejected i answer) (s.resume i (onRejected w.info stored answer))
  | sign {s : RemintSystem} {i : ℕ} {dead : List Signature}
      {answer : Except BuildError StoredSig}
      (hat : s.tasks i = some (.sign dead))
      (hsigned : ∀ sig, answer = .ok sig → w.Signed sig) :
      RemintStep w s (.sign i answer) (s.resume i (onSigned w.info dead answer))
  /-- The claim commits; an error answer is a lost acknowledgement. -/
  | claim {s : RemintSystem} {i : ℕ} {dead : List Signature} {sig : StoredSig} {now : Stamp}
      {claim : RemintClaim} {row : Row} {answer : Except String RemintClaim}
      (hat : s.tasks i = some (.claim dead sig))
      (hcommit : claimRemintAttempt s.store.observedReleases sig dead now s.store.row =
        some (claim, row))
      (hack : ∀ c, answer = .ok c → c = claim) :
      RemintStep w s (.claim i now answer)
        (((s.withRow row).noteClaim sig claim).resume i (onClaim w.info sig answer))
  | claimFailed {s : RemintSystem} {i : ℕ} {dead : List Signature} {sig : StoredSig} {now : Stamp}
      {e : String} (hat : s.tasks i = some (.claim dead sig)) :
      RemintStep w s (.claim i now (.error e)) (s.resume i (onClaim w.info sig (.error e)))
  /-- The network may have the transaction whatever the answer. -/
  | send {s : RemintSystem} {i : ℕ} {sig : StoredSig} {answer : Except String Unit}
      (hat : s.tasks i = some (.send sig)) :
      RemintStep w s (.send i answer)
        ({ s with broadcast := sig.signature :: s.broadcast }.resume i (onSent w.info sig answer))
  | confirm {s : RemintSystem} {i : ℕ} {sig : StoredSig}
      {polls : ℕ → Except String (Option PolledStatus)} (hat : s.tasks i = some (.confirm sig))
      (hseen : ∀ k status, polls k = .ok (some status) → status.satisfied = true →
        status.err = none → s.channel.Landed sig.signature) :
      RemintStep w s (.confirm i polls) (s.resume i
        (onConfirmation w.info sig (checkTransactionStatus none .mint [] polls)))
  /-- The record commits; an error answer is a lost acknowledgement. -/
  | record {s : RemintSystem} {i : ℕ} {x : Signature} {attempt : ℕ} {now : Stamp} {row : Row}
      {answer : Except String Unit} (hat : s.tasks i = some (.record x attempt))
      (hcommit : recordRemintResult x now s.store.row = some row) :
      RemintStep w s (.record i now answer)
        ((s.withRow row).resume i (onRecorded x attempt answer))
  | recordFailed {s : RemintSystem} {i : ℕ} {x : Signature} {attempt : ℕ} {now : Stamp}
      {e : String} (hat : s.tasks i = some (.record x attempt)) :
      RemintStep w s (.record i now (.error e)) (s.resume i (onRecorded x attempt (.error e)))
  | readBack {s : RemintSystem} {i : ℕ} {x : Signature} {attempt : ℕ} {persistError : String}
      {answer : Except String TransactionStatus}
      (hat : s.tasks i = some (.readBack x attempt persistError))
      (hread : ∀ status, answer = .ok status → status = s.store.row.status) :
      RemintStep w s (.readBack i answer)
        (s.resume i (onReadBack w.info x attempt persistError answer))
  | clear {s : RemintSystem} {i : ℕ} {x : Signature} (hat : s.tasks i = some (.clear x)) :
      RemintStep w s (.clear i)
        ((s.withRow (deleteRemintSignatures s.store.row)).resume i (onCleared w.info x))
  | clearFailed {s : RemintSystem} {i : ℕ} {x : Signature} (hat : s.tasks i = some (.clear x)) :
      RemintStep w s (.clear i) (s.resume i (onCleared w.info x))
  | gc {s : RemintSystem} :
      RemintStep w s .gc (s.withRow (gcStaleRemintSignatures s.store.row))
  /-- The processor closes a row whose remint it finds in the channel's history. -/
  | markReminted {s : RemintSystem} {expected : Stamp} {x : Signature} {now : Stamp} {row : Row}
      (hlisted : w.remint x ∧ s.channel.Landed x)
      (hcommit : tryMarkReminted expected x now s.store.row = some row) :
      RemintStep w s (.markReminted expected x now) (s.withRow row)
  /-- Any other writer. The refund and the payout exclude each other, so none
  of them finishes a row whose remint is live. -/
  | other {s : RemintSystem} {op : Op} {now : Stamp} (hop : remintOp op = false)
      (hfinish : ∀ x, LiveEntry s.store.row x → s.store.row.status.terminal = false →
        (op.run s.store now).2.row.status.terminal = false) :
      RemintStep w s (.other op now) { s with store := (op.run s.store now).2 }
  /-- The channel only advances, and lands only what was broadcast. -/
  | advance {s : RemintSystem} {c : Ledger.Chain Signature} (hext : c.Extends s.channel)
      (hvalid : w.valid c) (hlands : ∀ x, w.remint x → c.Landed x → x ∈ s.broadcast) :
      RemintStep w s .advance { s with channel := c }

end PrivateChannels.Operator
