import PrivateChannels.Foundation.Listing
import PrivateChannels.Operator.DepositMint

/-!
# The consumed set

The operator walks each mint's history, newest first, down to the newest mint the database
knows, and keeps every authenticated mint under its source event. Memos and keys are
parsed values here.
-/

namespace PrivateChannels.Operator

open Storage (Signature TransactionType Row)

/-- The durable identity of a source event. -/
structure SourceEventId where
  id : ℕ
  deriving DecidableEq, Repr

/-- A kind and the event it names. -/
abbrev Marker := ConsumedMintKind × Option SourceEventId

/-- An entry of `getSignaturesForAddress`. -/
structure ListedSignature where
  signature : Signature
  failed : Bool
  markers : List Marker
  deriving DecidableEq, Repr

/-- A decoded `MintTo`. -/
structure MintToFields where
  mint : Pubkey
  recipientAta : Pubkey
  mintAuthority : Pubkey
  tokenProgram : Pubkey
  amount : ℕ
  deriving DecidableEq, Repr

/-- The keys it mentions, its signers, the markers of its memo field, its exact idempotency
memos, the mint of each top-level `MintTo`, and the `MintTo`s that decode. -/
structure ChannelTransaction where
  accounts : List Pubkey
  signers : List Pubkey
  markers : List Marker
  memos : List (ConsumedMintKind × SourceEventId)
  targets : List Pubkey
  mintTos : List MintToFields
  deriving DecidableEq, Repr

/-- `ConsumedSet`, an association list with one entry for an event. -/
abbrev ConsumedSet := List (SourceEventId × ConsumedMint)

def ConsumedSet.get (set : ConsumedSet) (event : SourceEventId) : Option ConsumedMint :=
  (set.find? (·.1 == event)).map (·.2)

/-- The channel endpoint. A fetched transaction comes with whether it succeeded. -/
structure ChannelRpc where
  signatures : Pubkey → Option Signature → Except String (List ListedSignature)
  transaction : Signature → Except String (ChannelTransaction × Bool)
  firstAvailableBlock : Except String ℕ

/-- `get_signatures_for_address_paginated`, for at most `fuel` pages. Only a short page ends the
history. -/
def getSignaturesForAddressPaginated (rpc : ChannelRpc) (address : Pubkey) (pageLimit : ℕ)
    (stopAt : List Signature) (keep : ListedSignature → Bool) :
    ℕ → Option Signature → List ListedSignature →
    Option (Except String (List ListedSignature × Bool))
  | 0, _, _ => none
  | fuel + 1, before, all =>
    match rpc.signatures address before with
    | .error e => some (.error e)
    | .ok page =>
      let stop := page.findIdx? fun status => stopAt.contains status.signature
      let all := all ++ (page.take (stop.getD page.length)).filter keep
      if stop.isSome then some (.ok (all, true))
      else if page.length < pageLimit then some (.ok (all, false))
      else
        match page.getLast? with
        | some last => getSignaturesForAddressPaginated rpc address pageLimit stopAt keep fuel
            (some last.signature) all
        | none => some (.error (s!"get_signatures_for_address_paginated: full page for "
            ++ s!"{address.id} but last cursor signature failed to parse; cannot guarantee "
            ++ "completeness"))

/-- Whose history a scan lists, and which of its transactions count. -/
inductive Scope
  | signer (authority : Pubkey)
  | mint (mint : Pubkey)
  deriving DecidableEq, Repr

def Scope.address : Scope → Pubkey
  | .signer address | .mint address => address

/-- History lists every transaction that mentions the address. -/
def Scope.counts (scope : Scope) (tx : ChannelTransaction) : Bool :=
  match scope with
  | .signer authority => tx.signers.contains authority
  | .mint address => tx.targets.contains address

/-- `mint_idempotency_memo` and `remint_idempotency_memo`. -/
def ConsumedMintKind.memo (kind : ConsumedMintKind) (event : SourceEventId) : String :=
  match kind with
  | .deposit => s!"private_channel:mint-idempotency:{event.id}"
  | .remint => s!"private_channel:remint:{event.id}"

/-- The checks of `collect` between the gate and the entry; `none` is a
transaction that does not count. -/
def authenticate (scope : Scope) (status : ListedSignature) (tx : ChannelTransaction)
    (succeeded : Bool) : Except String (Option (SourceEventId × ConsumedMint)) :=
  let signature := status.signature.id
  if !(succeeded && scope.counts tx) then .ok none
  else
    match status.markers with
    | [(_, none)] => .error (s!"channel mint {signature} carries an idempotency memo that does "
        ++ "not parse to a current-scheme source-event-id (legacy memo scheme); resync cannot "
        ++ "reconcile across the memo cutover - see docs/runbooks/mint_memo_cutover.md")
    | [(kind, some event)] =>
      if !tx.memos.contains (kind, event) then
        .error (s!"channel mint {signature} passed the mint gate but has no Memo instruction "
          ++ s!"equal to {kind.memo event}; cannot authenticate it")
      else
        match tx.mintTos with
        | [mintTo] =>
          let consumed := some (event, ⟨status.signature, kind, mintTo.mint, mintTo.recipientAta,
            mintTo.tokenProgram, mintTo.amount⟩)
          match scope with
          | .signer authority =>
            if mintTo.mintAuthority ≠ authority then
              .error (s!"channel mint {signature} mints under {mintTo.mintAuthority.id} instead "
                ++ s!"of the authority {authority.id}")
            else .ok consumed
          | .mint mint =>
            if tx.targets.length ≠ 1 ∨ mintTo.mint ≠ mint then
              .error (s!"channel mint {signature} passed the mint gate on {mint.id} but has "
                ++ s!"{tx.targets.length} MintTo instructions and decodes one on "
                ++ s!"{mintTo.mint.id}; cannot authenticate it")
            else .ok consumed
        | mintTos => .error (s!"channel mint {signature} passed the mint gate but has "
            ++ s!"{mintTos.length} MintTo instructions, expected one")
    | markers => .error (s!"channel mint {signature} passed the mint gate but carries "
        ++ s!"{markers.length} idempotency markers; one mint cannot service them all")

/-- The entry of `collect`. Two successful mints for one event are a double issuance. -/
def ConsumedSet.add (set : ConsumedSet) (event : SourceEventId) (consumed : ConsumedMint) :
    Except String ConsumedSet :=
  match set.get event with
  | none => .ok (set ++ [(event, consumed)])
  | some occupied =>
    if occupied.signature == consumed.signature then .ok set
    else .error (s!"source event {event.id} has two successful channel mints, "
      ++ s!"{occupied.signature.id} and {consumed.signature.id}; one event may be minted once, "
      ++ "see docs/runbooks/resync_consumed_mint_mismatch.md")

/-- One listed signature of `collect`. -/
def collectStatus (rpc : ChannelRpc) (scope : Scope) (set : ConsumedSet)
    (status : ListedSignature) : Except String ConsumedSet :=
  if set.any (·.2.signature == status.signature) then .ok set
  else
    match rpc.transaction status.signature with
    | .error e =>
      .error s!"consumed-set enumeration failed fetching {status.signature.id}: {e}"
    | .ok (tx, succeeded) =>
      match authenticate scope status tx succeeded with
      | .error e => .error e
      | .ok none => .ok set
      | .ok (some (event, consumed)) => set.add event consumed

/-- The filter of the listing: successful, with a marker of the kind asked for. -/
def carriesMarker (only : Option ConsumedMintKind) (status : ListedSignature) : Bool :=
  !status.failed && status.markers.any fun marker => only.all (marker.1 == ·)

/-- `collect` into an empty set, with whether a `stopAt` signature was met. -/
def collect (rpc : ChannelRpc) (scope : Scope) (pageLimit fuel : ℕ) (stopAt : List Signature)
    (only : Option ConsumedMintKind) : Option (Except String (ConsumedSet × Bool)) :=
  match getSignaturesForAddressPaginated rpc scope.address pageLimit stopAt (carriesMarker only)
      fuel none [] with
  | none => none
  | some (.error e) => some (.error (s!"consumed-set enumeration failed listing signatures for "
      ++ s!"{scope.address.id}: {e}"))
  | some (.ok (signatures, met)) =>
    match signatures.foldlM (collectStatus rpc scope) [] with
    | .error e => some (.error e)
    | .ok set => some (.ok (set, met))

/-- A mint the database knows, with the columns its query orders by. -/
structure KnownMint where
  signature : Signature
  processedAt : Option ℕ
  id : ℕ
  deriving DecidableEq, Repr

/-- The rows and the signature column `get_newest_known_mint_signatures` selects. -/
def knownMint (role : TransactionType) (row : Row) : Option KnownMint :=
  let known (signature : Signature) : KnownMint := ⟨signature, row.processedAt, row.id⟩
  match role with
  | .deposit =>
    if row.transactionType == .deposit && row.status == .completed then
      row.counterpartSignature.map known
    else none
  | .withdrawal =>
    if row.transactionType == .withdrawal && row.status == .failedReminted then
      row.landedRemintSignature.map known
    else none

/-- `ORDER BY processed_at DESC NULLS LAST, id DESC`. -/
def KnownMint.sortsBefore (a b : KnownMint) : Bool :=
  match a.processedAt, b.processedAt with
  | some x, some y => y < x || (x == y && b.id < a.id)
  | some _, none => true
  | none, some _ => false
  | none, none => b.id < a.id

/-- Where the walk stops. -/
def newestKnownMint : List KnownMint → Option KnownMint
  | [] => none
  | known :: rest =>
    match newestKnownMint rest with
    | none => some known
    | some best => if known.sortsBefore best then some known else some best

/-- `get_newest_known_mint_signatures` over the rows of one mint. -/
def getNewestKnownMintSignatures (role : TransactionType) (rows : List Row) : Option Signature :=
  (newestKnownMint (rows.filterMap (knownMint role))).map (·.signature)

/-- The marker kind an operator settles. -/
def consumedKind : TransactionType → ConsumedMintKind
  | .deposit => .deposit
  | .withdrawal => .remint

/-- On a channel with its whole history, missing the newest known mint proves a rewind. -/
def acceptPrunedWalk (firstAvailableBlock : Except String ℕ) (mint : Pubkey)
    (stopAt : List Signature) : Except String Unit :=
  let missed := s!"the channel history of {mint.id} never reached the newest mint the DB knows "
    ++ s!"({stopAt.map (·.id)})"
  match firstAvailableBlock with
  | .error e => .error (missed ++ s!" and its first available block is unreadable: {e}")
  | .ok floor => if floor = 0 then .error (missed ++ ": the channel was rewound") else .ok ()

/-- `walk_mint` up to the first write: what the history holds above the newest
known mint. -/
def walkMint (rpc : ChannelRpc) (pageLimit fuel : ℕ) (role : TransactionType) (mint : Pubkey)
    (stopAt : List Signature) : Option (Except String ConsumedSet) :=
  match collect rpc (.mint mint) pageLimit fuel stopAt (some (consumedKind role)) with
  | none => none
  | some (.error e) => some (.error e)
  | some (.ok (found, met)) =>
    if !stopAt.isEmpty && !met then
      match acceptPrunedWalk rpc.firstAvailableBlock mint stopAt with
      | .error e => some (.error e)
      | .ok () => some (.ok found)
    else some (.ok found)

/-- One row of `insert_consumed_mints`, `ON CONFLICT (source_event_id) DO NOTHING`. -/
def insertConsumedMint (table : ConsumedSet) (event : SourceEventId) (consumed : ConsumedMint) :
    ConsumedSet :=
  if (table.get event).isSome then table else table ++ [(event, consumed)]

/-- One entry of the loop that ends `walk_mint`. -/
def ConsumedSet.join (set : ConsumedSet) (entry : SourceEventId × ConsumedMint) :
    Except String ConsumedSet :=
  match set.get entry.1 with
  | none => .ok (set ++ [entry])
  | some occupied =>
    if occupied.signature == entry.2.signature then .ok set
    else .error (s!"source event {entry.1.id} has two successful channel mints, "
      ++ s!"{occupied.signature.id} and {entry.2.signature.id}")

/-- The end of `walk_mint`: the recorded mints join the set. -/
def mergeWalked (set found : ConsumedSet) : Except String ConsumedSet :=
  found.foldlM ConsumedSet.join set

/-- What the check reads of a claimed row. -/
structure ClaimedRow where
  event : SourceEventId
  /-- The source transaction. -/
  signature : Signature
  transactionType : TransactionType
  mint : Pubkey
  recipient : Pubkey
  initiator : Pubkey
  amount : ℕ
  deriving DecidableEq, Repr

def ConsumedMintKind.debug : ConsumedMintKind → String
  | .deposit => "Deposit"
  | .remint => "Remint"

def transactionTypeDebug : TransactionType → String
  | .deposit => "Deposit"
  | .withdrawal => "Withdrawal"

/-- `ata` derives the associated token address of an owner for a mint. -/
def fieldDifferences (ata : Pubkey → Pubkey → Pubkey → Pubkey) (consumed : ConsumedMint)
    (row : ClaimedRow) (owner : Pubkey) : Option String :=
  let expectedAta := ata owner row.mint consumed.tokenProgram
  let differences :=
    (if consumed.mint ≠ row.mint then
      [s!"mint: channel {consumed.mint.id}, row {row.mint.id}"] else []) ++
    (if consumed.recipientAta ≠ expectedAta then
      [s!"recipient ATA: channel {consumed.recipientAta.id}, row {expectedAta.id}"] else []) ++
    (if consumed.amount ≠ row.amount then
      [s!"amount: channel {consumed.amount}, row {row.amount}"] else [])
  if differences.isEmpty then none else some ("; ".intercalate differences)

/-- `check_consumed_mint`. -/
def checkConsumedMint (ata : Pubkey → Pubkey → Pubkey → Pubkey) (consumed : ConsumedMint)
    (row : ClaimedRow) : Except String Unit :=
  let reason :=
    match consumed.kind, row.transactionType with
    | .deposit, .deposit => fieldDifferences ata consumed row row.recipient
    | .remint, .withdrawal => fieldDifferences ata consumed row row.initiator
    | kind, transactionType => some (s!"kind: channel {kind.debug} marker, row "
        ++ s!"{transactionTypeDebug transactionType}")
  match reason with
  | none => .ok ()
  | some reason => .error (s!"channel mint {consumed.signature.id} names source event "
      ++ s!"{row.event.id} (source tx {row.signature.id}) but does not pay it ({reason}); resync "
      ++ "aborted before drop, see docs/runbooks/resync_consumed_mint_mismatch.md")

/-- `ConsumedSetCache::lookup`, once the mint is walked. -/
def lookupConsumed (ata : Pubkey → Pubkey → Pubkey → Pubkey) (set : ConsumedSet)
    (row : ClaimedRow) : ConsumedLookup :=
  match set.get row.event with
  | none => .miss
  | some consumed =>
    match checkConsumedMint ata consumed row with
    | .ok () => .hit consumed
    | .error mismatch => .mismatch mismatch

end PrivateChannels.Operator
