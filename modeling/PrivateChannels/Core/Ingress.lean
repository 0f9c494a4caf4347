import PrivateChannels.Core.Block
import PrivateChannels.Foundation.Bytes

/-!
# Admission of transactions and their routing

`sigverify_transaction` classifies a transaction and checks it; the executor classifies it
once more, to choose between the Admin VM and the SVM. The two disagree on instructions
without data.
-/

namespace PrivateChannels.Core

/-- Two program ids, the bytes of a key, and the associated Token-2022 account. -/
structure Programs where
  token2022 : Pubkey
  withdraw : Pubkey
  keyBytes : Pubkey → List UInt8
  token2022Ata : Pubkey → Pubkey → Pubkey

/-- An instruction with its program, as `program_instructions_iter` yields it. -/
structure ProgramInstruction where
  programId : Pubkey
  accounts : List ℕ
  data : List UInt8
  deriving DecidableEq, Repr

/-- A sanitized transaction at ingress; `verified` is the outcome of `verify`. -/
structure IngressTransaction where
  accountKeys : List Pubkey
  numRequiredSignatures : ℕ
  instructions : List ProgramInstruction
  verified : Except String Unit

/-- Who may seize tokens, and for whom. -/
structure SeizePolicy where
  delegate : Option Pubkey
  complianceOwner : Option Pubkey
  deriving DecidableEq, Repr

/-- The node's admission settings. -/
structure IngressPolicy where
  adminKeys : List Pubkey
  seize : SeizePolicy
  deriving DecidableEq, Repr

section Instructions

variable (programs : Programs)

/-- `ADMIN_INSTRUCTIONS_MAP`: the mint initialisations of Token-2022. -/
def isAdminInstruction (programId : Pubkey) (instructionType : UInt8) : Bool :=
  programId == programs.token2022 && [0, 20, 35].contains instructionType

/-- Instructions a mint's own authority signs. -/
def requiresAdminSigner (programId : Pubkey) (data : List UInt8) : Bool :=
  match data.head? with
  | none => false
  | some instructionType =>
    if programId = programs.withdraw then instructionType == 1
    else if programId ≠ programs.token2022 then false
    else if [7, 10, 11, 14].contains instructionType then true
    else if instructionType = 6 then !(data[1]? == some 2 || data[1]? == some 3)
    else false

/-- A `SetAuthority(PermanentDelegate)` that does not name the configured delegate. -/
def isForeignDelegateRotation (programId : Pubkey) (data : List UInt8) (delegate : Option Pubkey) :
    Bool :=
  if programId ≠ programs.token2022 ∨ data.head? ≠ some 6 ∨ data[1]? ≠ some 8 then false
  else
    let namesDelegate := data[2]? == some 1 &&
      delegate.any fun d => 35 ≤ data.length && (data.drop 3).take 32 == programs.keyBytes d
    !namesDelegate

/-- A balance move by the permanent delegate on an account it does not own. -/
structure DelegateMove where
  instructionType : UInt8
  source : Pubkey
  mint : Pubkey
  destination : Option Pubkey
  amount : Option ℕ
  deriving DecidableEq, Repr

def delegateMove (programId : Pubkey) (accounts : List Pubkey) (data : List UInt8)
    (seize : SeizePolicy) : Option DelegateMove := do
  let delegate ← seize.delegate
  if programId ≠ programs.token2022 then none
  let instructionType ← data.head?
  let authorityIndex ←
    if instructionType = 12 then some 3
    else if instructionType = 8 ∨ instructionType = 15 then some 2
    else none
  if accounts[authorityIndex]? ≠ some delegate then none
  let source ← accounts.head?
  let mint ← accounts[1]?
  if source = programs.token2022Ata delegate mint then none
  pure
    { instructionType, source, mint
      destination := if instructionType = 12 then accounts[2]? else none
      amount := if 9 ≤ data.length then some (leNat ((data.drop 1).take 8)) else none }

/-- Only a transfer into the mint's compliance account passes. -/
def DelegateMove.isRefused (move : DelegateMove) (seize : SeizePolicy) : Bool :=
  let toCompliance := seize.complianceOwner.any fun owner =>
    move.destination == some (programs.token2022Ata owner move.mint)
  !(move.instructionType == 12 && toCompliance)

end Instructions

/-- The classes of transactions. -/
inductive TransactionType
  | empty
  | admin
  | normal
  | mixed
  deriving DecidableEq, Repr

/-- The verdicts of sigverify. -/
inductive SigverifyResult
  | valid (transactionType : TransactionType)
  | invalidTransaction (transactionType : TransactionType)
  | notSignedByAdmin
  | foreignDelegateRotation
  | seizeTargetRefused
  | sigverifyFailed (reason : String)
  deriving DecidableEq, Repr

section Sigverify

variable (programs : Programs)

def isSignedByAdmin (tx : IngressTransaction) (adminKeys : List Pubkey) : Bool :=
  (tx.accountKeys.take tx.numRequiredSignatures).any adminKeys.contains

def needsAdminSigner (tx : IngressTransaction) : Bool :=
  tx.instructions.any fun ix => requiresAdminSigner programs ix.programId ix.data

def rotatesDelegateAway (tx : IngressTransaction) (policy : IngressPolicy) : Bool :=
  tx.instructions.any fun ix =>
    isForeignDelegateRotation programs ix.programId ix.data policy.seize.delegate

def delegateMoves (tx : IngressTransaction) (seize : SeizePolicy) : List DelegateMove :=
  if seize.delegate.isNone then []
  else
    tx.instructions.filterMap fun ix =>
      delegateMove programs ix.programId (ix.accounts.filterMap (tx.accountKeys[·]?)) ix.data seize

/-- One turn of the loop of `classify_transaction`: an instruction without data is passed
over. -/
def countInstruction (counts : ℕ × ℕ) (ix : ProgramInstruction) : ℕ × ℕ :=
  match ix.data.head? with
  | none => counts
  | some instructionType =>
    (if isAdminInstruction programs ix.programId instructionType then counts.1 + 1 else counts.1,
      counts.2 + 1)

/-- Admin, normal, mixed or empty. -/
def classifyTransaction (tx : IngressTransaction) : TransactionType :=
  let counts := tx.instructions.foldl (countInstruction programs) (0, 0)
  if counts.2 = 0 then .empty
  else if counts.1 = 0 then .normal
  else if counts.1 = counts.2 then .admin
  else .mixed

/-- The checks after the classification and the signers. -/
def verifyClassified (tx : IngressTransaction) (policy : IngressPolicy)
    (transactionType : TransactionType) : SigverifyResult :=
  match tx.verified with
  | .error reason => .sigverifyFailed reason
  | .ok () =>
    if rotatesDelegateAway programs tx policy then .foreignDelegateRotation
    else if (delegateMoves programs tx policy.seize).any (·.isRefused programs policy.seize) then
      .seizeTargetRefused
    else .valid transactionType

/-- The verdict on a transaction. -/
def sigverifyTransaction (tx : IngressTransaction) (policy : IngressPolicy) : SigverifyResult :=
  match classifyTransaction programs tx with
  | .empty => .invalidTransaction .empty
  | .mixed => .invalidTransaction .mixed
  | .admin =>
    if !isSignedByAdmin tx policy.adminKeys then .notSignedByAdmin
    else verifyClassified programs tx policy .admin
  | .normal =>
    if needsAdminSigner programs tx && !isSignedByAdmin tx policy.adminKeys then .notSignedByAdmin
    else verifyClassified programs tx policy .normal

end Sigverify

section Routing

variable (programs : Programs)

/-- An instruction with data whose first byte is listed for its program. -/
def ProgramInstruction.isAdmin (ix : ProgramInstruction) : Bool :=
  ix.data.head?.any fun instructionType => isAdminInstruction programs ix.programId instructionType

/-- The flags `has_any_admin` and `all_admin` of one transaction. -/
def adminFlags (tx : IngressTransaction) : Bool × Bool :=
  tx.instructions.foldl
    (fun flags ix => (flags.1 || ix.isAdmin programs, flags.2 && ix.isAdmin programs)) (false, true)

/-- The executor's classification. -/
def adminRouted (tx : IngressTransaction) : Bool :=
  (adminFlags programs tx).1 && (adminFlags programs tx).2

/-- The partition of `execute_batch`: for the Admin VM, and for the SVM. -/
def partitionTransactions (transactions : List IngressTransaction) :
    List IngressTransaction × List IngressTransaction :=
  transactions.foldl (fun parts tx =>
    if adminRouted programs tx then (parts.1 ++ [tx], parts.2) else (parts.1, parts.2 ++ [tx]))
    ([], [])

end Routing

section Classification

variable {programs : Programs} {tx : IngressTransaction} {policy : IngressPolicy}

theorem ProgramInstruction.isAdmin_of_nil {ix : ProgramInstruction} (h : ix.data = []) :
    ix.isAdmin programs = false := by
  simp [ProgramInstruction.isAdmin, h]

/-- An admin instruction is a Token-2022 one of the three listed types. -/
theorem ProgramInstruction.isAdmin_iff {ix : ProgramInstruction} :
    ix.isAdmin programs = true ↔ ix.programId = programs.token2022 ∧
      (ix.data.head? = some 0 ∨ ix.data.head? = some 20 ∨ ix.data.head? = some 35) := by
  unfold ProgramInstruction.isAdmin isAdminInstruction
  cases ix.data.head? <;> simp

theorem foldl_countInstruction (instructions : List ProgramInstruction) (counts : ℕ × ℕ) :
    instructions.foldl (countInstruction programs) counts =
      (counts.1 + instructions.countP (·.isAdmin programs),
        counts.2 + instructions.countP (!·.data.isEmpty)) := by
  induction instructions generalizing counts with
  | nil => rfl
  | cons ix rest ih =>
    rw [List.foldl_cons, ih]
    unfold countInstruction
    cases hdata : ix.data with
    | nil => simp [ProgramInstruction.isAdmin_of_nil hdata, hdata]
    | cons b bs =>
      simp [List.countP_cons, ProgramInstruction.isAdmin, hdata]
      split <;> omega

/-- The instructions counted are the admin ones and the others that carry data. -/
theorem countP_data (programs : Programs) (instructions : List ProgramInstruction) :
    instructions.countP (!·.data.isEmpty) = instructions.countP (·.isAdmin programs) +
      instructions.countP (fun ix => !ix.data.isEmpty && !ix.isAdmin programs) := by
  induction instructions with
  | nil => rfl
  | cons ix rest ih =>
    simp only [List.countP_cons, ih]
    cases hdata : ix.data with
    | nil => simp [ProgramInstruction.isAdmin_of_nil hdata]
    | cons b bs => cases ix.isAdmin programs <;> simp <;> omega

/-- The class, by the instructions. -/
theorem classifyTransaction_eq :
    classifyTransaction programs tx =
      if tx.instructions.countP (!·.data.isEmpty) = 0 then .empty
      else if tx.instructions.countP (·.isAdmin programs) = 0 then .normal
      else if tx.instructions.countP (fun ix => !ix.data.isEmpty && !ix.isAdmin programs) = 0 then
        .admin
      else .mixed := by
  have hdata := countP_data programs tx.instructions
  unfold classifyTransaction
  simp only [foldl_countInstruction, Nat.zero_add]
  congr 3
  exact propext ⟨fun h => by omega, fun h => by omega⟩

/-- Every instruction with data is an admin one, and there is one. -/
theorem classifyTransaction_eq_admin :
    classifyTransaction programs tx = .admin ↔
      (∃ ix ∈ tx.instructions, ix.isAdmin programs = true) ∧
        ∀ ix ∈ tx.instructions, ix.data ≠ [] → ix.isAdmin programs = true := by
  have hdata := countP_data programs tx.instructions
  have hsome : tx.instructions.countP (·.isAdmin programs) ≠ 0 ↔
      ∃ ix ∈ tx.instructions, ix.isAdmin programs = true := by
    simp [List.countP_eq_zero]
  have hall : tx.instructions.countP (fun ix => !ix.data.isEmpty && !ix.isAdmin programs) = 0 ↔
      ∀ ix ∈ tx.instructions, ix.data ≠ [] → ix.isAdmin programs = true := by
    simp [List.countP_eq_zero]
  rw [classifyTransaction_eq, ← hsome, ← hall]
  split
  · next hnone => exact ⟨nofun, fun h => absurd (by omega) h.1⟩
  · split
    · next hnone => simp [hnone]
    · next hadmin => split <;> simp_all

/-- A normal transaction has instructions, none of them an admin one. -/
theorem isAdmin_of_normal (h : classifyTransaction programs tx = .normal) :
    tx.instructions ≠ [] ∧ ∀ ix ∈ tx.instructions, ix.isAdmin programs = false := by
  rw [classifyTransaction_eq] at h
  split at h
  · cases h
  · next hdata =>
    split at h
    · next hnone =>
      refine ⟨fun hnil => hdata ?_, by simpa [List.countP_eq_zero] using hnone⟩
      rw [hnil]
      rfl
    · split at h <;> cases h

/-- What runs in the Admin VM. -/
theorem adminRouted_iff : adminRouted programs tx = true ↔
    (∃ ix ∈ tx.instructions, ix.isAdmin programs = true) ∧
      ∀ ix ∈ tx.instructions, ix.isAdmin programs = true := by
  have hfold : ∀ (instructions : List ProgramInstruction) (flags : Bool × Bool),
      instructions.foldl
          (fun flags ix => (flags.1 || ix.isAdmin programs, flags.2 && ix.isAdmin programs)) flags =
        (flags.1 || instructions.any (·.isAdmin programs),
          flags.2 && instructions.all (·.isAdmin programs)) := by
    intro instructions
    induction instructions with
    | nil => simp
    | cons ix rest ih =>
      intro flags
      rw [List.foldl_cons, ih]
      simp [Bool.or_assoc, Bool.and_assoc]
  simp [adminRouted, adminFlags, hfold]

/-- The Admin VM gets the transactions of admin instructions only, the SVM the rest. -/
theorem partitionTransactions_eq (transactions : List IngressTransaction) :
    partitionTransactions programs transactions =
      (transactions.filter (adminRouted programs ·),
        transactions.filter (!adminRouted programs ·)) := by
  have hfold : ∀ (transactions : List IngressTransaction)
      (parts : List IngressTransaction × List IngressTransaction),
      transactions.foldl (fun parts tx => if adminRouted programs tx then (parts.1 ++ [tx], parts.2)
          else (parts.1, parts.2 ++ [tx])) parts =
        (parts.1 ++ transactions.filter (adminRouted programs ·),
          parts.2 ++ transactions.filter (!adminRouted programs ·)) := by
    intro transactions
    induction transactions with
    | nil => simp
    | cons tx rest ih =>
      intro parts
      rw [List.foldl_cons, ih]
      cases hadmin : adminRouted programs tx <;> simp [hadmin]
  exact (hfold transactions ([], [])).trans rfl

/-- The delegate's rules say nothing of admin instructions or of those without data. -/
theorem verifyClassified_of_admin {transactionType : TransactionType}
    (hall : ∀ ix ∈ tx.instructions, ix.data ≠ [] → ix.isAdmin programs = true) :
    verifyClassified programs tx policy transactionType = .valid transactionType ↔
      tx.verified = .ok () := by
  have hhead : ∀ ix ∈ tx.instructions, ix.data.head? = none ∨ ix.data.head? = some 0 ∨
      ix.data.head? = some 20 ∨ ix.data.head? = some 35 := by
    intro ix hix
    by_cases hdata : ix.data = []
    · exact .inl (by rw [hdata]; rfl)
    · exact .inr (ProgramInstruction.isAdmin_iff.mp (hall ix hix hdata)).2
  have hrotates : rotatesDelegateAway programs tx policy = false := by
    refine List.any_eq_false.mpr fun ix hix => ?_
    unfold isForeignDelegateRotation
    rw [if_pos]
    · simp
    · refine .inr (.inl ?_)
      rcases hhead ix hix with h | h | h | h <;> rw [h] <;> decide
  have hmoves : delegateMoves programs tx policy.seize = [] := by
    unfold delegateMoves
    split
    · rfl
    · refine List.filterMap_eq_nil_iff.mpr fun ix hix => ?_
      unfold delegateMove
      rcases hhead ix hix with h | h | h | h <;> simp [h]
  unfold verifyClassified
  rw [hrotates, hmoves]
  cases tx.verified <;> simp

/-- A valid transaction is of the type it was classified as. -/
theorem sigverifyTransaction_valid {transactionType : TransactionType}
    (h : sigverifyTransaction programs tx policy = .valid transactionType) :
    classifyTransaction programs tx = transactionType ∧
      (transactionType = .admin ∨ transactionType = .normal) := by
  have hverify : ∀ classified,
      verifyClassified programs tx policy classified = .valid transactionType →
        classified = transactionType := by
    intro classified hv
    unfold verifyClassified at hv
    split at hv
    · cases hv
    · split at hv
      · cases hv
      · split at hv
        · cases hv
        · exact SigverifyResult.valid.inj hv
  unfold sigverifyTransaction at h
  split at h
  · cases h
  · cases h
  · next hclass =>
    split at h
    · cases h
    · obtain rfl := hverify _ h
      exact ⟨hclass, .inl rfl⟩
  · next hclass =>
    split at h
    · cases h
    · obtain rfl := hverify _ h
      exact ⟨hclass, .inr rfl⟩

/-- What is valid as admin. -/
theorem sigverifyTransaction_eq_admin :
    sigverifyTransaction programs tx policy = .valid .admin ↔
      ((∃ ix ∈ tx.instructions, ix.isAdmin programs = true) ∧
        ∀ ix ∈ tx.instructions, ix.data ≠ [] → ix.isAdmin programs = true) ∧
      isSignedByAdmin tx policy.adminKeys = true ∧ tx.verified = .ok () := by
  refine ⟨fun h => ?_, fun ⟨hclass, hsigned, hverified⟩ => ?_⟩
  · have hclass := (sigverifyTransaction_valid h).1
    have hall := classifyTransaction_eq_admin.mp hclass
    unfold sigverifyTransaction at h
    rw [hclass] at h
    dsimp only at h
    split at h
    · cases h
    · next hsigned =>
      exact ⟨hall, by simpa using hsigned, (verifyClassified_of_admin hall.2).mp h⟩
  · unfold sigverifyTransaction
    rw [classifyTransaction_eq_admin.mpr hclass]
    rw [hsigned]
    exact (verifyClassified_of_admin hclass.2).mpr hverified

end Classification

/-- Valid as admin are exactly the valid transactions of admin instructions only, a valid one
with an admin instruction runs in the Admin VM, and a mix is never valid. -/
structure IngressLawful (programs : Programs) (policy : IngressPolicy) (tx : IngressTransaction) :
    Prop where
  admin_iff : sigverifyTransaction programs tx policy = .valid .admin ↔
    (∃ transactionType, sigverifyTransaction programs tx policy = .valid transactionType) ∧
      ∀ ix ∈ tx.instructions, ix.isAdmin programs = true
  routed : ∀ transactionType, sigverifyTransaction programs tx policy = .valid transactionType →
    (∃ ix ∈ tx.instructions, ix.isAdmin programs = true) → ∀ batch, tx ∈ batch →
      tx ∈ (partitionTransactions programs batch).1 ∧ tx ∉ (partitionTransactions programs batch).2
  unmixed : (∃ ix ∈ tx.instructions, ix.isAdmin programs = true) →
    (∃ ix ∈ tx.instructions, ix.isAdmin programs = false) →
    ∀ transactionType, sigverifyTransaction programs tx policy ≠ .valid transactionType

/-- A properly signed admin transaction with an instruction that carries no data. -/
structure HidesEmptyData (programs : Programs) (policy : IngressPolicy) (tx : IngressTransaction) :
    Prop where
  hidden : ∃ ix ∈ tx.instructions, ix.data = []
  admin : ∃ ix ∈ tx.instructions, ix.isAdmin programs = true
  others : ∀ ix ∈ tx.instructions, ix.data ≠ [] → ix.isAdmin programs = true
  signed : isSignedByAdmin tx policy.adminKeys = true
  verified : tx.verified = .ok ()

/-- **Admission and routing agree** on every transaction but a signed admin one that
hides an instruction without data. -/
theorem ingress_lawful_iff (programs : Programs) (policy : IngressPolicy)
    (tx : IngressTransaction) :
    IngressLawful programs policy tx ↔ ¬HidesEmptyData programs policy tx := by
  constructor
  · rintro h ⟨⟨ix, hix, hdata⟩, hadmin, hothers, hsigned, hverified⟩
    refine h.unmixed hadmin ⟨ix, hix, ProgramInstruction.isAdmin_of_nil hdata⟩ .admin ?_
    exact sigverifyTransaction_eq_admin.mpr ⟨⟨hadmin, hothers⟩, hsigned, hverified⟩
  · intro hnot
    have hpure : ∀ transactionType,
        sigverifyTransaction programs tx policy = .valid transactionType →
        (∃ ix ∈ tx.instructions, ix.isAdmin programs = true) →
        transactionType = .admin ∧ ∀ ix ∈ tx.instructions, ix.isAdmin programs = true := by
      intro transactionType hvalid hsome
      obtain ⟨hclass, rfl | rfl⟩ := sigverifyTransaction_valid hvalid
      · obtain ⟨⟨hadmin, hothers⟩, hsigned, hverified⟩ := sigverifyTransaction_eq_admin.mp hvalid
        refine ⟨rfl, fun ix hix => hothers ix hix fun hdata => ?_⟩
        exact hnot ⟨⟨ix, hix, hdata⟩, hadmin, hothers, hsigned, hverified⟩
      · obtain ⟨ix, hix, hadmin⟩ := hsome
        rw [(isAdmin_of_normal hclass).2 ix hix] at hadmin
        cases hadmin
    refine ⟨⟨fun h => ?_, fun ⟨⟨transactionType, hvalid⟩, hall⟩ => ?_⟩, ?_, ?_⟩
    · exact ⟨⟨_, h⟩, (hpure _ h (sigverifyTransaction_eq_admin.mp h).1.1).2⟩
    · obtain ⟨hclass, rfl | rfl⟩ := sigverifyTransaction_valid hvalid
      · exact hvalid
      · obtain ⟨hne, hplain⟩ := isAdmin_of_normal hclass
        obtain ⟨ix, hix⟩ := List.exists_mem_of_ne_nil _ hne
        exact absurd (hall ix hix) (by rw [hplain ix hix]; decide)
    · intro transactionType hvalid hsome batch hmem
      have hrouted := adminRouted_iff.mpr ⟨hsome, (hpure _ hvalid hsome).2⟩
      rw [partitionTransactions_eq]
      simp [hmem, hrouted]
    · rintro hsome ⟨ix, hix, hplain⟩ transactionType hvalid
      rw [(hpure _ hvalid hsome).2 ix hix] at hplain
      cases hplain

/-- An admin's `InitializeMint2`, then the creation of a token account, which takes no data. -/
def mintAndCreate : IngressTransaction where
  accountKeys := [9, 1, 5, 6]
  numRequiredSignatures := 1
  instructions := [⟨1, [3], [20]⟩, ⟨5, [0, 3], []⟩]
  verified := .ok ()

/-- It is admitted as an admin transaction and then routed to the SVM. -/
theorem empty_data_admitted_as_admin :
    let programs : Programs := ⟨1, 2, fun key => List.replicate 32 (UInt8.ofNat key), fun _ _ => 7⟩
    let policy : IngressPolicy := ⟨[9], ⟨none, none⟩⟩
    sigverifyTransaction programs mintAndCreate policy = .valid .admin ∧
      partitionTransactions programs [mintAndCreate] = ([], [mintAndCreate]) ∧
      ¬IngressLawful programs policy mintAndCreate := by
  refine ⟨rfl, rfl, fun h => ?_⟩
  have hall := (h.admin_iff.mp rfl).2 ⟨5, [0, 3], []⟩ (by decide)
  cases hall

end PrivateChannels.Core
