import PrivateChannels.Operator.ConsumedWalk
import PrivateChannels.Operator.DepositSystem

/-!
# The escrow operator across database restores

Many deposit rows, one database, one channel and one operator. The database may be put
back to any earlier state of its timeline while the operator is down, and lost rows are
indexed again.
-/

namespace PrivateChannels.Operator

open Storage (Signature StoredSig Stamp Op Store Row TransactionType)
open Listing

/-- What a deposit row says about its source event. -/
structure DepositInfo where
  signature : Signature
  slot : ℕ
  mint : Pubkey
  recipient : Pubkey
  initiator : Pubkey
  amount : ℕ
  deriving DecidableEq, Repr

/-- The admitted channel states, the content of every transaction, the source events, and the
walk's configuration. -/
structure RestoreWorld where
  valid : Ledger.Chain Signature → Prop
  once : ∀ c, valid c → c.signatures.Nodup
  tx : Signature → ChannelTransaction
  info : SourceEventId → DepositInfo
  ata : Pubkey → Pubkey → Pubkey → Pubkey
  pageLimit : ℕ

namespace RestoreWorld

/-- The row of a source event, as the lookup reads it. -/
def row (w : RestoreWorld) (e : SourceEventId) : ClaimedRow :=
  let info := w.info e
  ⟨e, info.signature, .deposit, info.mint, info.recipient, info.initiator, info.amount⟩

/-- The signature is a `MintTo` of this deposit. -/
def mints (w : RestoreWorld) (e : SourceEventId) (x : Signature) : Prop :=
  (w.tx x).Pays .deposit e (w.info e).mint

def deposit (w : RestoreWorld) (e : SourceEventId) : DepositWorld := ⟨w.valid, w.mints e⟩

end RestoreWorld

/-- What a restore puts back. `claimed` is history: the signatures journaled on this timeline,
newest first. -/
structure EscrowDb where
  indexed : List SourceEventId
  stores : SourceEventId → Store
  claimed : SourceEventId → List Signature
  consumed : ConsumedSet
  mints : List Pubkey

/-- The newest mint the database knows for a receipt mint. -/
def EscrowDb.newestKnown (w : RestoreWorld) (db : EscrowDb) (mint : Pubkey) : Option Signature :=
  getNewestKnownMintSignatures .deposit
    ((db.indexed.filter fun e => (w.info e).mint == mint).map fun e => (db.stores e).row)

/-- A walk that has been read and is being recorded; `seen` is the channel it read. -/
structure Walk where
  mint : Pubkey
  found : ConsumedSet
  unrecorded : ConsumedSet
  seen : Ledger.Chain Signature

/-- `ConsumedSetCache`, the mints the boot has yet to walk, and the walk under way. -/
structure ConsumedSession where
  set : ConsumedSet
  walked : List Pubkey
  todo : List Pubkey
  walking : Option Walk

/-- The database with its earlier states, the channel, the session, and per event the work in
progress. -/
structure EscrowSystem where
  db : EscrowDb
  past : List EscrowDb
  channel : Ledger.Chain Signature
  session : Option ConsumedSession
  stamps : SourceEventId → List Stamp
  fenceOpen : SourceEventId → Bool
  tasks : SourceEventId → ℕ → Option MintTask
  broadcast : SourceEventId → List Signature

namespace EscrowSystem

/-- The system of one deposit. -/
def deposit (s : EscrowSystem) (e : SourceEventId) : DepositSystem where
  store := s.db.stores e
  stamps := s.stamps e
  channel := s.channel
  fenceOpen := s.fenceOpen e
  tasks := s.tasks e
  claimed := s.db.claimed e
  broadcast := s.broadcast e

/-- The database moves on, and its state so far becomes a restore point. -/
def write (s : EscrowSystem) (db : EscrowDb) : EscrowSystem :=
  { s with db := db, past := s.db :: s.past }

/-- The deposit's system takes this state. -/
def put (s : EscrowSystem) (e : SourceEventId) (d : DepositSystem) : EscrowSystem :=
  { s.write { s.db with
      stores := Function.update s.db.stores e d.store
      claimed := Function.update s.db.claimed e d.claimed } with
    stamps := Function.update s.stamps e d.stamps
    fenceOpen := Function.update s.fenceOpen e d.fenceOpen
    tasks := Function.update s.tasks e d.tasks
    broadcast := Function.update s.broadcast e d.broadcast }

/-- The operator serves once every mint of its boot list is walked. -/
def Serving (s : EscrowSystem) : Prop := ∃ session, s.session = some session ∧ session.todo = []

/-- A deployment that has indexed nothing. -/
structure Fresh (w : RestoreWorld) (s : EscrowSystem) : Prop where
  admitted : w.valid s.channel
  unlanded : ∀ e x, w.mints e x → ¬ s.channel.Landed x
  rows : ∀ e, (s.db.stores e).row.status = .pending ∧ (s.db.stores e).row.releaseJournal = []
  carried : ∀ e, (s.db.stores e).row.updatedAt ∈ s.stamps e
  indexed : s.db.indexed = []
  unclaimed : ∀ e, s.db.claimed e = []
  unrecorded : s.db.consumed = []
  past : s.past = []
  down : s.session = none
  idle : ∀ e i, s.tasks e i = none
  unsent : ∀ e, s.broadcast e = []

end EscrowSystem

/-- The steps of the escrow operator. -/
inductive EscrowEvent
  | deposit (event : SourceEventId) (what : DepositEvent)
  | index (event : SourceEventId)
  | allowMint (mint : Pubkey)
  | boot
  | walk (mint : Pubkey)
  | record
  | walked (mint : Pubkey)
  | walkFailed
  | crash
  | restore (stopped : Bool)
  | advance

/-- What other rows and the session decide. A row is served only once its mint is in the mints
table. -/
def Permitted (w : RestoreWorld) (s : EscrowSystem) (e : SourceEventId) : DepositEvent → Prop
  | .fetch _ _ | .sweep _ => s.Serving
  | .consumed _ answer => ∀ lookup, answer = .ok lookup → ∃ session, s.session = some session ∧
      (w.info e).mint ∈ session.walked ∧ lookup = lookupConsumed w.ata session.set (w.row e) ∧
      (lookup = .miss → (w.info e).mint ∈ s.db.mints)
  | .other op _ => op.completion = none
  | .advance => False
  | _ => True

/-- The channel has retained everything newer than the newest known mint. -/
def Retained (w : RestoreWorld) (s : EscrowSystem) (mint : Pubkey) (floor : ℕ) : Prop :=
  ∀ b ∈ s.channel.blocks, b.slot < floor → ∀ x ok, (x, ok) ∈ b.txs →
    ∃ known, s.db.newestKnown w mint = some known ∧ ¬ Precedes s.channel.signatures known x

/-- One step. -/
inductive EscrowStep (w : RestoreWorld) : EscrowSystem → EscrowEvent → EscrowSystem → Prop
  | deposit {s : EscrowSystem} {e : SourceEventId} {what : DepositEvent} {d : DepositSystem}
      (hindexed : e ∈ s.db.indexed) (hpermitted : Permitted w s e what)
      (hstep : DepositStep (w.deposit e) (s.deposit e) what d) :
      EscrowStep w s (.deposit e what) (s.put e d)
  /-- The indexer inserts a row it does not have, at first or after a restore. -/
  | index {s : EscrowSystem} {e : SourceEventId} (id : ℕ) {now : Stamp}
      (hnew : e ∉ s.db.indexed) (hnow : now ∉ s.stamps e) :
      EscrowStep w s (.index e)
        { s.write { s.db with
            indexed := s.db.indexed ++ [e]
            stores := Function.update s.db.stores e { s.db.stores e with
              row := Row.new id .deposit (w.info e).slot none now } } with
          stamps := Function.update s.stamps e (now :: s.stamps e) }
  | allowMint {s : EscrowSystem} (mint : Pubkey) :
      EscrowStep w s (.allowMint mint) (s.write { s.db with mints := s.db.mints ++ [mint] })
  /-- `build_at_boot`: the recorded mints are loaded and the mints to walk listed. -/
  | boot {s : EscrowSystem} (hdown : s.session = none) :
      EscrowStep w s .boot { s with session := some ⟨s.db.consumed, [], s.db.mints, none⟩ }
  /-- `walk_mint` has read the mint's history. -/
  | walk {s : EscrowSystem} {session : ConsumedSession} {mint : Pubkey} {found : ConsumedSet}
      (rpc : ChannelRpc) (floor fuel : ℕ) (hup : s.session = some session)
      (hidle : session.walking = none) (hnew : mint ∉ session.walked)
      (hrpc : rpc.Honest w.tx s.channel floor w.pageLimit mint)
      (hretained : Retained w s mint floor)
      (hfound : walkMint rpc w.pageLimit fuel .deposit mint
        (s.db.newestKnown w mint).toList = some (.ok found)) :
      EscrowStep w s (.walk mint) { s with
        session := some { session with walking := some ⟨mint, found, found, s.channel⟩ } }
  /-- `insert_consumed_mints` inserts one row. -/
  | record {s : EscrowSystem} {session : ConsumedSession} {walk : Walk}
      {entry : SourceEventId × ConsumedMint} {rest : ConsumedSet}
      (hup : s.session = some session) (hwalking : session.walking = some walk)
      (hnext : walk.unrecorded = entry :: rest) :
      EscrowStep w s .record { s.write { s.db with
          consumed := insertConsumedMint s.db.consumed entry.1 entry.2 } with
        session := some { session with walking := some { walk with unrecorded := rest } } }
  /-- All is recorded: the found mints join the set, and the mint is walked. -/
  | walked {s : EscrowSystem} {session : ConsumedSession} {walk : Walk} {set : ConsumedSet}
      (hup : s.session = some session) (hwalking : session.walking = some walk)
      (hrecorded : walk.unrecorded = []) (hmerge : mergeWalked session.set walk.found = .ok set) :
      EscrowStep w s (.walked walk.mint) { s with
        session := some ⟨set, walk.mint :: session.walked,
          session.todo.filter (· ≠ walk.mint), none⟩ }
  /-- The walk fails, with some of its rows recorded or none. -/
  | walkFailed {s : EscrowSystem} {session : ConsumedSession} (hup : s.session = some session) :
      EscrowStep w s .walkFailed { s with session := some { session with walking := none } }
  /-- The operator stops, at any point. -/
  | crash {s : EscrowSystem} :
      EscrowStep w s .crash { s with session := none, tasks := fun _ _ => none }
  /-- The database goes back. Where the nodes are stopped too, only what has landed is left of
  what was broadcast. -/
  | restore {s : EscrowSystem} {newer older : List EscrowDb} {db : EscrowDb} (stopped : Bool)
      (hdown : s.session = none) (hidle : ∀ e i, s.tasks e i = none)
      (hpast : s.past = newer ++ db :: older) :
      EscrowStep w s (.restore stopped) { s with
        db := db
        past := older
        broadcast := fun e =>
          if stopped then (s.broadcast e).filter fun x => s.channel.Landed x ∧ x ∈ db.claimed e
          else s.broadcast e }
  /-- The channel advances; of the deposits' mints it lands only what was broadcast. -/
  | advance {s : EscrowSystem} (c : Ledger.Chain Signature) (hext : c.Extends s.channel)
      (hvalid : w.valid c)
      (hlands : ∀ e x, w.mints e x → c.Landed x → s.channel.Landed x ∨ x ∈ s.broadcast e) :
      EscrowStep w s .advance { s with channel := c }

/-- The restores of a run stop every service. -/
def Stopped (e : EscrowEvent) : Prop := e ≠ .restore false

/-- Work on a row past its lookup. -/
def MintTask.served : MintTask → Bool
  | .sign _ | .fence _ _ | .claim _ _ | .haltRead _ | .send _ _ | .poll _ _ _ | .jit _ => true
  | _ => false

end PrivateChannels.Operator
