import PrivateChannels.Storage.Row
import PrivateChannels.Foundation.Ledger

/-!
# Classifying broadcast signatures

`classify_signatures` over the answers of its endpoints. An absence-based `Dead` must
survive a ledger-floor check. An endpoint is read at most once per method, so a record of
answers stands for it.
-/

namespace PrivateChannels.Operator

open Storage (Signature)

/-- A broadcast signature with what bounds its inclusion. -/
abbrev PendingSig := Storage.StoredSig

/-- The Solana blockhash window in blocks. -/
def maxProcessingAge : ℕ := 150

/-- Which chain the endpoints serve. -/
inductive Chain
  | channel
  | solana
  deriving DecidableEq, Repr

/-- A status entry: whether it satisfies finalized commitment, and whether the
transaction failed. -/
structure SignatureStatus where
  finalized : Bool
  err : Bool
  deriving DecidableEq, Repr

/-- Height, statuses and ledger floor of one channel state. -/
structure StatusSnapshot where
  blockHeight : ℕ
  value : List (Option SignatureStatus)
  firstAvailableBlock : ℕ

/-- What an endpoint answers to each read of one classification. -/
structure Endpoint where
  signatureStatusSnapshot : Except String StatusSnapshot
  blockHeight : Except String ℕ
  signatureStatuses : Except String (List (Option SignatureStatus))
  firstAvailableBlock : Except String ℕ

/-- A primary endpoint plus an optional fallback. -/
structure FinalityRpc where
  primary : Endpoint
  fallback : Option Endpoint
  chain : Chain

/-- The classifier's verdicts. -/
inductive SigFinality
  | landed (signature : Signature)
  | live (reason : String)
  | dead
  | uncertain (reason : String)
  deriving DecidableEq, Repr

/-- One endpoint's verdicts. -/
inductive EndpointVerdict
  | landed (signature : Signature)
  | live (reason : String)
  | uncertain (reason : String)
  | deadFinalizedFailure
  | deadByAbsence (minLvbh : ℕ) (minBlockhashSlot : Option ℕ) (floor : Option ℕ)
  deriving DecidableEq, Repr

/-- What the walk remembers of the expired absences it passed. -/
structure Absences where
  minLvbh : Option ℕ
  minBlockhashSlot : Option ℕ
  slotUnknown : Bool
  deriving DecidableEq, Repr

def Absences.empty : Absences := ⟨none, none, false⟩

/-- `map_or(x, |m| m.min(x))`. -/
def minWith (x : ℕ) : Option ℕ → ℕ
  | none => x
  | some m => min m x

/-- One attempt without a journaled slot forfeits the exact bound for the set. -/
def Absences.note (acc : Absences) (sig : PendingSig) : Absences :=
  let minLvbh := some (minWith sig.lastValidBlockHeight acc.minLvbh)
  match sig.blockhashSlot with
  | some slot =>
    if acc.slotUnknown then { acc with minLvbh := minLvbh }
    else
      { acc with
        minLvbh := minLvbh
        minBlockhashSlot := some (minWith slot acc.minBlockhashSlot) }
  | none => ⟨minLvbh, none, true⟩

def awaitingFinalization : String :=
  "signature is on-chain (confirmed/processed) and awaiting finalization"

/-- Walks the signatures to see whether any could still land; the error is the
reason of a `Live` verdict. -/
def walk (currentHeight : ℕ) :
    List (PendingSig × Option SignatureStatus) → Absences → Except String Absences
  | [], acc => .ok acc
  | (_, some status) :: rest, acc =>
    if status.finalized then walk currentHeight rest acc else .error awaitingFinalization
  | (sig, none) :: rest, acc =>
    if currentHeight > sig.lastValidBlockHeight then walk currentHeight rest (acc.note sig)
    else .error s!"signatures still within blockhash validity (current_height={currentHeight})"

/-- `classify_endpoint` after its reads. The height matters only to absent statuses. -/
def classifyStatuses (blockHeight : Except String ℕ) (statuses : List (Option SignatureStatus))
    (snapshotFloor : Option ℕ) (sigs : List PendingSig) : EndpointVerdict :=
  let got := statuses.length
  let want := sigs.length
  if got ≠ want then
    .uncertain s!"RPC returned {got} statuses for {want} signatures"
  else
    let pairs := sigs.zip statuses
    match pairs.find? fun p => p.2.any fun status => status.finalized && !status.err with
    | some (sig, _) => .landed sig.signature
    | none =>
      let currentHeight :=
        if statuses.any Option.isNone then blockHeight else .ok 0
      match currentHeight with
      | .error e => .uncertain s!"block height RPC failed: {e}"
      | .ok height =>
        match walk height pairs Absences.empty with
        | .error reason => .live reason
        | .ok acc =>
          match acc.minLvbh with
          | some minLvbh => .deadByAbsence minLvbh acc.minBlockhashSlot snapshotFloor
          | none => .deadFinalizedFailure

/-- The channel answers from one snapshot; Solana reads the height before the statuses. -/
def classifyEndpoint (rpc : Endpoint) (chain : Chain) (sigs : List PendingSig) :
    EndpointVerdict :=
  match chain with
  | .channel =>
    match rpc.signatureStatusSnapshot with
    | .error e => .uncertain s!"signature status snapshot RPC failed: {e}"
    | .ok snapshot =>
      classifyStatuses (.ok snapshot.blockHeight) snapshot.value
        (some snapshot.firstAvailableBlock) sigs
  | .solana =>
    match rpc.signatureStatuses with
    | .error e => .uncertain s!"signature status RPC failed: {e}"
    | .ok statuses => classifyStatuses rpc.blockHeight statuses none sigs

/-- The lowest slot the absent signatures could be in, where the chain fixes one. -/
def coverageBound (chain : Chain) (minLvbh : ℕ) : Option ℕ → Option ℕ
  | some slot => some slot
  | none =>
    match chain with
    | .solana => some (minLvbh - maxProcessingAge)
    | .channel => none

/-- The snapshot's floor, or one read separately. -/
def ledgerFloor (rpc : Endpoint) : Option ℕ → Except String ℕ
  | some floor => .ok floor
  | none => rpc.firstAvailableBlock

/-- Resolves an absence-based `Dead`: `Dead` only when the endpoint retains the
attempts' slot range. -/
def ledgerCoverageVerdict (chain : Chain) (rpc : Endpoint) (minLvbh : ℕ)
    (minBlockhashSlot snapshotFloor : Option ℕ) (label : String) : SigFinality :=
  match coverageBound chain minLvbh minBlockhashSlot with
  | none => .uncertain (s!"{label}attempt predates the journaled blockhash slot (lvbh {minLvbh}); "
      ++ "the channel's blockhash window may have been reduced since it was broadcast, so "
      ++ "absence is not proof of non-inclusion")
  | some bound =>
    match ledgerFloor rpc snapshotFloor with
    | .error e => .uncertain s!"ledger floor RPC failed: {e}"
    | .ok floor =>
      if floor ≤ bound then .dead
      else .uncertain (s!"{label}ledger floor {floor} above attempt window (lvbh {minLvbh}, "
        ++ s!"retained-slot bound {bound}); pruned or lagging, absence is not proof of "
        ++ "non-inclusion")

/-- The fallback, where there is one, decides what the primary's absence means. -/
def classifySignatures (finality : FinalityRpc) (sigs : List PendingSig) : SigFinality :=
  match classifyEndpoint finality.primary finality.chain sigs with
  | .landed sig => .landed sig
  | .live reason => .live reason
  | .uncertain reason => .uncertain reason
  | .deadFinalizedFailure => .dead
  | .deadByAbsence minLvbh minBlockhashSlot floor =>
    match finality.fallback with
    | some fb =>
      match classifyEndpoint fb finality.chain sigs with
      | .landed sig => .landed sig
      | .live reason => .live reason
      | .uncertain reason => .uncertain reason
      | .deadFinalizedFailure => .dead
      | .deadByAbsence minLvbh minBlockhashSlot floor =>
        ledgerCoverageVerdict finality.chain fb minLvbh minBlockhashSlot floor "fallback "
    | none =>
      ledgerCoverageVerdict finality.chain finality.primary minLvbh minBlockhashSlot floor ""

end PrivateChannels.Operator
