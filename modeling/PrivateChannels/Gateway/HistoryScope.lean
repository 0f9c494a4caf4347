import PrivateChannels.Gateway.OwnerChain

/-!
# Which slots of an address's history a user may read

A request is admitted when the account's current owner is one of the caller's wallets, and
scoped to the slots the caller held the account for. Address derivation and the swap
layout are parameters; metrics and error redaction are left out.
-/

namespace PrivateChannels.Gateway

/-- The program that owns an account. -/
inductive ProgramOwner
  | splToken
  | splToken2022
  | dvpSwap
  | other
  deriving DecidableEq, Repr

def ProgramOwner.isTokenProgram : ProgramOwner → Bool
  | .splToken | .splToken2022 => true
  | _ => false

/-- What the gateway's dependencies compute. -/
structure Programs where
  /-- `get_associated_token_address_with_program_id(owner, mint, token_program)` -/
  associatedTokenAddress : Wallet → Wallet → ProgramOwner → Wallet
  /-- The two users and the settlement authority of `SwapDvp::try_from_bytes`. -/
  swapParties : List UInt8 → Option (Wallet × Wallet × Wallet)

/-- `data[first..last]`. -/
def range (data : List UInt8) (first last : ℕ) : List UInt8 := (data.drop first).take (last - first)

def tokenAccountSize : ℕ := 165
def accountTypeOffset : ℕ := tokenAccountSize
def accountTypeAccount : UInt8 := 2

/-- By length or account type byte. -/
def isTokenAccount (data : List UInt8) : Bool :=
  data.length = tokenAccountSize ∨ data[accountTypeOffset]? = some accountTypeAccount

def mintField (data : List UInt8) : Wallet := range data 0 32
def ownerField (data : List UInt8) : Wallet := range data 32 64
def delegateOptionField (data : List UInt8) : List UInt8 := range data 72 76
def delegateField (data : List UInt8) : Wallet := range data 76 108
def stateField (data : List UInt8) : List UInt8 := range data 108 109
def delegatedAmountField (data : List UInt8) : List UInt8 := range data 121 129

/-- The address the owner field derives to. The pubkey is its base58 decoding. -/
def derivesAsOwnAta (programs : Programs) (data : List UInt8) (programOwner : ProgramOwner)
    (pubkey : Option (List UInt8)) : Bool :=
  match pubkey with
  | none => false
  | some address =>
    address.length = 32 ∧
      programs.associatedTokenAddress (ownerField data) (mintField data) programOwner = address

/-- The caller's among some wallets. -/
def ownedWallets (db : GatewayDb) (pubkeys : List Wallet) : List Wallet :=
  if pubkeys = [] then [] else db.verifiedWallets.filter (· ∈ pubkeys)

def isWalletOwnedByUser (db : GatewayDb) (pubkey : Wallet) : Bool := pubkey ∈ db.verifiedWallets

/-- The caller's wallets among the candidates. -/
theorem mem_ownedWallets {db : GatewayDb} {pubkeys : List Wallet} {pubkey : Wallet} :
    pubkey ∈ ownedWallets db pubkeys ↔ pubkey ∈ db.verifiedWallets ∧ pubkey ∈ pubkeys := by
  unfold ownedWallets
  split
  · next hempty => simp [hempty]
  · simp

def maxOwnerChanges : ℕ := 64

/-- Inclusive slot windows. -/
abbrev SlotRanges := List (ℤ × ℤ)

/-- Ranges cut to the coverage. -/
def clipToCoverage (ranges : SlotRanges) (coverage : OwnerChangeCoverage) : SlotRanges :=
  ranges.filterMap fun (first, last) =>
    let first := max first coverage.indexedFrom
    let last := min last coverage.tip
    if first ≤ last then some (first, last) else none

/-- The rows chain up to the account's current owner. -/
def chainLinks (changes : List OwnerChange) (currentOwner : Wallet) : Bool :=
  changes.IsChain (fun change next => change.newOwner = next.prevOwner) ∧
    changes.getLast?.any (·.newOwner = currentOwner)

/-- The last slot before the next handoff. -/
def windowEnd : List OwnerChange → ℤ
  | [] => i64Max
  | next :: _ => saturatingPred next.slot

/-- The window each handoff opens. -/
def windowsAfter (owned : List Wallet) : List OwnerChange → SlotRanges
  | [] => []
  | change :: rest =>
    if saturatingSucc change.slot ≤ windowEnd rest ∧ change.newOwner ∈ owned then
      (saturatingSucc change.slot, windowEnd rest) :: windowsAfter owned rest
    else windowsAfter owned rest

/-- The window before the first handoff. -/
def headWindow (owned : List Wallet) (chainIsComplete : Bool) (first : OwnerChange) : SlotRanges :=
  let headEnd := saturatingPred first.slot
  if chainIsComplete ∧ first.prevOwner ∈ owned ∧ 0 ≤ headEnd then [(0, headEnd)] else []

/-- The windows of the caller's tenures. -/
def slotRangesForOwner (changes : List OwnerChange) (currentOwner : Wallet) (owned : List Wallet)
    (chainIsComplete : Bool) : SlotRanges :=
  match changes with
  | [] => []
  | first :: rest =>
    if chainLinks (first :: rest) currentOwner then
      headWindow owned chainIsComplete first ++ windowsAfter owned (first :: rest)
    else []

/-- The gateway's statements against the auth database. -/
inductive Statement
  | ownerIsVerified
  | delegateIsVerified
  | swapPartyIsVerified
  | pubkeyIsVerified
  | ownerChain
  | ownedWallets
  deriving DecidableEq, Repr

/-- The database did not answer. -/
inductive SqlxError
  | unavailable
  deriving DecidableEq, Repr

/-- A statement's answer, unless the database cannot be reached for it. -/
def ask {α : Type} (reachable : Statement → Bool) (statement : Statement) (answer : α) :
    Except SqlxError α :=
  if reachable statement then .ok answer else .error .unavailable

/-- The ranges of a chain whose coverage is known. -/
def rangesOfChain (programs : Programs) (reachable : Statement → Bool) (db : GatewayDb)
    (data : List UInt8) (programOwner : ProgramOwner) (pubkey : Option (List UInt8))
    (changes : List OwnerChange) (coverage : OwnerChangeCoverage) : Except SqlxError SlotRanges :=
  if changes = [] then
    if derivesAsOwnAta programs data programOwner pubkey then
      .ok (clipToCoverage [(0, i64Max)] coverage)
    else .ok []
  else
    let chainIsComplete := decide (changes.length ≤ maxOwnerChanges)
    let candidates := (changes.flatMap fun change => [change.prevOwner, change.newOwner]).dedup
    match ask reachable .ownedWallets (ownedWallets db candidates) with
    | .error error => .error error
    | .ok owned =>
      .ok (clipToCoverage (slotRangesForOwner changes (ownerField data) owned chainIsComplete)
        coverage)

/-- The scope of one request. -/
def resolveOwnedSlotRanges (programs : Programs) (reachable : Statement → Bool) (db : GatewayDb)
    (data : List UInt8) (programOwner : ProgramOwner) (pubkey : Option (List UInt8))
    (fetchedSlot : ℕ) : Except SqlxError (Option SlotRanges) :=
  if !programOwner.isTokenProgram || !isTokenAccount data then .ok none
  else
    match pubkey with
    | none => .ok (some [])
    | some address =>
      if i64Max < (fetchedSlot : ℤ) then .ok (some [])
      else
        match ask reachable .ownerChain (ownerChain db address (maxOwnerChanges + 1)) with
        | .error error => .error error
        | .ok chain =>
          match chain.coverage with
          | none => .ok (some [])
          | some coverage =>
            (rangesOfChain programs reachable db data programOwner pubkey chain.changes
              { coverage with tip := min coverage.tip fetchedSlot }).map some

/-- The gated methods. -/
inductive Method
  | getAccountInfo
  | getTokenAccountBalance
  | getSignaturesForAddress
  deriving DecidableEq, Repr

/-- `OWNER_ONLY_METHODS` -/
def Method.isOwnerOnly : Method → Bool
  | .getSignaturesForAddress => true
  | _ => false

/-- The statuses of a refusal. -/
inductive StatusCode
  | forbidden
  | internalServerError
  | serviceUnavailable
  deriving DecidableEq, Repr

/-- The body of a refusal. -/
structure ErrorBody where
  code : ℤ
  message : String
  deriving DecidableEq, Repr

def forbiddenBody : ErrorBody := ⟨-32002, "Forbidden: account not owned by caller"⟩
def dbErrorBody : ErrorBody := ⟨-32603, "Internal error: could not verify account ownership"⟩
def authUnavailableBody : ErrorBody :=
  ⟨-32004, "Service unavailable: could not verify account ownership"⟩

/-- Whether a request goes on. -/
inductive AuthDecision
  | proceed
  | reject (status : StatusCode) (body : ErrorBody)
  deriving DecidableEq, Repr

/-- One wallet lookup: found, an error, or what is tried next. -/
def verifiedOr (reachable : Statement → Bool) (statement : Statement) (isOwned : Bool)
    (otherwise : AuthDecision) : AuthDecision :=
  match ask reachable statement isOwned with
  | .ok true => .proceed
  | .ok false => otherwise
  | .error _ => .reject .internalServerError dbErrorBody

def checkTokenAccountOwnership (reachable : Statement → Bool) (db : GatewayDb) (data : List UInt8)
    (method : Method) : AuthDecision :=
  if !isTokenAccount data then .reject .forbidden forbiddenBody
  else
    verifiedOr reachable .ownerIsVerified (isWalletOwnedByUser db (ownerField data)) <|
      if method.isOwnerOnly then .reject .forbidden forbiddenBody
      else if delegateOptionField data = [1, 0, 0, 0] ∧ stateField data ≠ [0] ∧
          delegatedAmountField data ≠ List.replicate 8 0 then
        verifiedOr reachable .delegateIsVerified (isWalletOwnedByUser db (delegateField data))
          (.reject .forbidden forbiddenBody)
      else .reject .forbidden forbiddenBody

def checkSwapDvpOwnership (programs : Programs) (reachable : Statement → Bool) (db : GatewayDb)
    (data : List UInt8) : AuthDecision :=
  match programs.swapParties data with
  | none => .reject .forbidden forbiddenBody
  | some (userA, userB, settlementAuthority) =>
    verifiedOr reachable .swapPartyIsVerified (isWalletOwnedByUser db userA) <|
      verifiedOr reachable .swapPartyIsVerified (isWalletOwnedByUser db userB) <|
        verifiedOr reachable .swapPartyIsVerified (isWalletOwnedByUser db settlementAuthority) <|
          .reject .forbidden forbiddenBody

def checkAccountDataOwnership (programs : Programs) (reachable : Statement → Bool) (db : GatewayDb)
    (data : List UInt8) (programOwner : ProgramOwner) (pubkey : Option (List UInt8))
    (method : Method) : AuthDecision :=
  match programOwner with
  | .splToken | .splToken2022 => checkTokenAccountOwnership reachable db data method
  | .dvpSwap => checkSwapDvpOwnership programs reachable db data
  | .other =>
    verifiedOr reachable .pubkeyIsVerified (pubkey.any (isWalletOwnedByUser db))
      (.reject .forbidden forbiddenBody)

/-- What the node says of the account. -/
inductive AccountFetch
  | found (data : List UInt8) (programOwner : ProgramOwner) (contextSlot : ℕ)
  | notFound
  | unavailable

/-- The slot ranges put into the call policy of a user's request, or the rejection. -/
def enforceAuth (programs : Programs) (reachable : Statement → Bool) (db : GatewayDb)
    (method : Method) (pubkey : Option (List UInt8)) (fetched : AccountFetch) :
    Except (StatusCode × ErrorBody) (Option SlotRanges) :=
  match fetched with
  | .notFound => .error (.forbidden, forbiddenBody)
  | .unavailable => .error (.serviceUnavailable, authUnavailableBody)
  | .found data programOwner contextSlot =>
    match checkAccountDataOwnership programs reachable db data programOwner pubkey method with
    | .reject status body => .error (status, body)
    | .proceed =>
      if method.isOwnerOnly then
        match resolveOwnedSlotRanges programs reachable db data programOwner pubkey contextSlot with
        | .ok ranges => .ok ranges
        | .error _ => .error (.internalServerError, dbErrorBody)
      else .ok none

end PrivateChannels.Gateway
