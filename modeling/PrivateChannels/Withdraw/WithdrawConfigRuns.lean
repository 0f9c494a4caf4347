import PrivateChannels.Foundation.Fallible
import PrivateChannels.Foundation.LatestWrite
import PrivateChannels.Foundation.Transition
import PrivateChannels.Withdraw.WithdrawConfig

/-!
# Configs landing in any order

The operator sends the config with every deposit, and deposits land in any order. Where a
slot determines the values the order does not matter.
-/

namespace PrivateChannels.Withdraw

open scoped List

@[simp] theorem u64OfSlice_leBytes (error : ProgramError) (n : UInt64) :
    u64OfSlice error (leBytes 8 n.toNat) = .ok n := by
  unfold u64OfSlice
  rw [if_pos (length_leBytes 8 _), leNat_leBytes n.toNat_lt, UInt64.ofNat_toNat]

@[simp] theorem addressOfSlice_bytes (error : ProgramError) (address : Address) :
    addressOfSlice error address.bytes = .ok address := by
  unfold addressOfSlice
  rw [dif_pos address.length_bytes]

@[simp] theorem length_toBytes (config : WithdrawConfig) :
    config.toBytes.length = WithdrawConfig.len := by
  simp [WithdrawConfig.toBytes, WithdrawConfig.len, config.treasury.length_bytes,
    config.treasuryTokenAccount.length_bytes]

/-- A stored config decodes to itself. -/
theorem tryFromBytes_toBytes (config : WithdrawConfig) :
    WithdrawConfig.tryFromBytes config.toBytes = .ok config := by
  have hlayout : config.toBytes = config.bump :: (leBytes 8 config.fee.toNat ++
      (leBytes 8 config.allowMintSlot.toNat ++ (config.treasury.bytes ++
        (config.treasuryTokenAccount.bytes ++ leBytes 8 config.minWithdrawAmount.toNat)))) := by
    simp [WithdrawConfig.toBytes]
  have hfee : slice config.toBytes 1 8 = leBytes 8 config.fee.toNat :=
    slice_append [config.bump] _ hlayout rfl (by simp)
  have hslot : slice config.toBytes 9 8 = leBytes 8 config.allowMintSlot.toNat :=
    slice_append (config.bump :: leBytes 8 config.fee.toNat) _ hlayout (by simp) (by simp)
  have htreasury : slice config.toBytes 17 32 = config.treasury.bytes :=
    slice_append (config.bump :: (leBytes 8 config.fee.toNat ++
      leBytes 8 config.allowMintSlot.toNat)) (config.treasuryTokenAccount.bytes ++
        leBytes 8 config.minWithdrawAmount.toNat) (by simp [hlayout]) (by simp)
      config.treasury.length_bytes
  have haccount : slice config.toBytes 49 32 = config.treasuryTokenAccount.bytes :=
    slice_append (config.bump :: (leBytes 8 config.fee.toNat ++
      (leBytes 8 config.allowMintSlot.toNat ++ config.treasury.bytes)))
      (leBytes 8 config.minWithdrawAmount.toNat) (by simp [hlayout])
      (by simp [config.treasury.length_bytes]) config.treasuryTokenAccount.length_bytes
  have hminimum : slice config.toBytes 81 8 = leBytes 8 config.minWithdrawAmount.toNat :=
    slice_append (config.bump :: (leBytes 8 config.fee.toNat ++
      (leBytes 8 config.allowMintSlot.toNat ++ (config.treasury.bytes ++
        config.treasuryTokenAccount.bytes)))) [] (by simp [hlayout])
      (by simp [config.treasury.length_bytes, config.treasuryTokenAccount.length_bytes]) (by simp)
  have hbump : config.toBytes.getD 0 0 = config.bump := by rw [hlayout]; rfl
  unfold WithdrawConfig.tryFromBytes
  rw [if_neg (by simp), hfee, hslot, htreasury, haccount, hminimum, hbump]
  simp only [u64OfSlice_leBytes, addressOfSlice_bytes]
  rfl

section Instruction

variable {runtime : Runtime} {programId : Address}
  {invoke : SystemInstruction → Except ProgramError Unit} {account : AccountView}

/-- The account a creation leaves: owned by the program, with room for the config. -/
theorem createPdaAccount_ok {space : ℕ} {owner : Address} {created : AccountView}
    (h : createPdaAccount runtime invoke space owner account = .ok created) :
    created.address = account.address ∧ created.owner = owner ∧ created.data.length = space := by
  obtain ⟨minimum, _, h⟩ := bind_eq_ok.mp h
  dsimp only at h
  split at h
  · split at h
    · obtain ⟨_, _, h⟩ := bind_eq_ok.mp h
      obtain ⟨_, _, h⟩ := bind_eq_ok.mp h
      obtain ⟨_, _, h⟩ := bind_eq_ok.mp h
      cases h
      exact ⟨rfl, rfl, List.length_replicate⟩
    · obtain ⟨_, _, h⟩ := bind_eq_ok.mp h
      obtain ⟨_, _, h⟩ := bind_eq_ok.mp h
      cases h
      exact ⟨rfl, rfl, List.length_replicate⟩
  · obtain ⟨_, _, h⟩ := bind_eq_ok.mp h
    cases h
    exact ⟨rfl, rfl, List.length_replicate⟩

/-- A copy fits when the lengths do. -/
theorem copyFromSlice_eq {bytes : List UInt8} (hlength : account.data.length = bytes.length) :
    copyFromSlice account bytes = .ok { account with data := bytes } := if_pos hlength

/-- The accounts pass every check: the mint's authority signs. -/
structure Authorized (runtime : Runtime) (programId : Address)
    (authority mint config system : AccountView) : Prop where
  signer : authority.isSigner = true
  mintOwner : mint.owner = runtime.tokenProgramId
  mintLength : runtime.mintBaseLen ≤ mint.data.length
  mintAuthority : runtime.mintAuthority mint.data = some authority.address
  systemProgram : system.address = runtime.systemProgramId
  derived : config.address =
    (runtime.findProgramAddress [withdrawConfigSeed, mint.address.bytes] programId).1

variable {config : AccountView}

variable {authority system mint : AccountView}

theorem checkAccounts_of_authorized
    (h : Authorized runtime programId authority mint config system) :
    checkAccounts runtime programId authority mint config system = .ok () := by
  unfold checkAccounts verifySigner verifyMintAccount
  rw [if_pos h.signer, if_neg (not_not.mpr h.mintOwner), if_neg (Nat.not_lt.mpr h.mintLength),
    if_neg (not_not.mpr h.mintAuthority), if_neg (not_not.mpr h.systemProgram),
    if_neg (not_not.mpr h.derived)]
  rfl

variable {args : SetWithdrawConfigArgs}

theorem processSetWithdrawConfig_authorized {data : List UInt8}
    (hauth : Authorized runtime programId authority mint config system)
    (hparse : parseInstructionData data = .ok args) :
    processSetWithdrawConfig runtime programId invoke [authority, mint, config, system] data =
      writeConfig runtime programId invoke mint.address config args := by
  unfold processSetWithdrawConfig
  rw [hparse]
  change (checkAccounts runtime programId authority mint config system >>= _) = _
  rw [checkAccounts_of_authorized hauth]
  rfl

/-- A successful instruction had four accounts and ran to the write. -/
theorem processSetWithdrawConfig_ok {data : List UInt8}
    (h : processSetWithdrawConfig runtime programId invoke [authority, mint, config, system] data =
      .ok account) :
    ∃ args, parseInstructionData data = .ok args ∧
      writeConfig runtime programId invoke mint.address config args = .ok account := by
  obtain ⟨args, hparse, h⟩ := bind_eq_ok.mp h
  obtain ⟨_, _, h⟩ := bind_eq_ok.mp h
  exact ⟨args, hparse, h⟩

/-- On a config that exists: an older slot leaves the account as it is. -/
theorem writeConfig_owned {mint : Address}
    {stored : SetWithdrawConfigArgs} (howner : config.owner = programId)
    (hdata : config.data = (configFor runtime programId mint stored).toBytes) :
    writeConfig runtime programId invoke mint config args =
      if args.allowMintSlot < stored.allowMintSlot then .ok config
      else .ok { config with data := (configFor runtime programId mint args).toBytes } := by
  unfold writeConfig
  rw [if_pos howner, hdata, tryFromBytes_toBytes]
  refine if_congr Iff.rfl rfl (copyFromSlice_eq ?_)
  rw [hdata, length_toBytes, length_toBytes]

/-- The first write creates the account. -/
theorem writeConfig_created {mint : Address} (howner : config.owner ≠ programId)
    (h : writeConfig runtime programId invoke mint config args = .ok account) :
    account.owner = programId ∧ account.address = config.address ∧
      account.data = (configFor runtime programId mint args).toBytes := by
  unfold writeConfig at h
  rw [if_neg howner] at h
  obtain ⟨created, hcreated, h⟩ := bind_eq_ok.mp h
  obtain ⟨haddress, howner', hlength⟩ := createPdaAccount_ok hcreated
  rw [copyFromSlice_eq (by rw [hlength, length_toBytes])] at h
  cases h
  exact ⟨howner', haddress, rfl⟩

end Instruction

/-- What happens to the account. -/
inductive ConfigLabel
  | landed (args : SetWithdrawConfigArgs)
  | failed
  | credited

/-- The arguments of the instructions that landed, in order. -/
def landedArgs (labels : List ConfigLabel) : List SetWithdrawConfigArgs :=
  labels.filterMap fun
    | .landed args => some args
    | _ => none

/-- A failed instruction is rolled back, and anyone may send lamports to the address. -/
inductive ConfigStep (runtime : Runtime) (programId mint : Address) :
    AccountView → ConfigLabel → AccountView → Prop
  | landed {config account authority mintInfo system : AccountView} {data : List UInt8}
      {args : SetWithdrawConfigArgs} {invoke : SystemInstruction → Except ProgramError Unit}
      (hmint : mintInfo.address = mint) (hparse : parseInstructionData data = .ok args)
      (hok : processSetWithdrawConfig runtime programId invoke
        [authority, mintInfo, config, system] data = .ok account) :
      ConfigStep runtime programId mint config (.landed args) account
  | failed {config : AccountView} : ConfigStep runtime programId mint config .failed config
  | credited {config : AccountView} {lamports : ℕ} :
      ConfigStep runtime programId mint config .credited { config with lamports := lamports }

/-- The mint's config address before the first instruction. -/
structure Uncreated (runtime : Runtime) (programId mint : Address) (config : AccountView) :
    Prop where
  address : config.address =
    (runtime.findProgramAddress [withdrawConfigSeed, mint.bytes] programId).1
  owner : config.owner ≠ programId

/-- The config as it is read back. -/
def storedConfig (programId : Address) (config : AccountView) : Option WithdrawConfig :=
  if config.owner = programId then (WithdrawConfig.tryFromBytes config.data).toOption else none

section Runs

variable {runtime : Runtime} {programId mint : Address}

/-- The account holds the latest of the instructions that landed. -/
structure Holds (runtime : Runtime) (programId mint : Address) (labels : List ConfigLabel)
    (config : AccountView) (args : SetWithdrawConfigArgs) : Prop where
  owner : config.owner = programId
  data : config.data = (configFor runtime programId mint args).toBytes
  latest : IsLatest (·.allowMintSlot.toNat) (landedArgs labels) args

variable {labels : List ConfigLabel}

theorem Holds.stored (h : Holds runtime programId mint labels config args) :
    storedConfig programId config = some (configFor runtime programId mint args) := by
  unfold storedConfig
  rw [if_pos h.owner, h.data, tryFromBytes_toBytes]
  rfl

/-- What every run keeps: nothing landed and nothing there, or the latest. -/
structure ConfigInv (runtime : Runtime) (programId mint : Address) (labels : List ConfigLabel)
    (config : AccountView) : Prop where
  address : config.address =
    (runtime.findProgramAddress [withdrawConfigSeed, mint.bytes] programId).1
  held : (config.owner ≠ programId ∧ landedArgs labels = []) ∨
    ∃ args, Holds runtime programId mint labels config args

theorem landedArgs_append (labels : List ConfigLabel) (label : ConfigLabel) :
    landedArgs (labels ++ [label]) = landedArgs labels ++ landedArgs [label] :=
  List.filterMap_append

/-- A step in which nothing landed. -/
theorem ConfigInv.other {label : ConfigLabel}
    (h : ConfigInv runtime programId mint labels config)
    (hlabel : landedArgs [label] = []) (haddress : account.address =
      (runtime.findProgramAddress [withdrawConfigSeed, mint.bytes] programId).1)
    (howner : account.owner = config.owner) (hdata : account.data = config.data) :
    ConfigInv runtime programId mint (labels ++ [label]) account := by
  have hlanded : landedArgs (labels ++ [label]) = landedArgs labels := by
    rw [landedArgs_append, hlabel, List.append_nil]
  refine ⟨haddress, ?_⟩
  rcases h.held with ⟨hunowned, hnone⟩ | ⟨stored, hstored⟩
  · exact .inl ⟨by rw [howner]; exact hunowned, hlanded.trans hnone⟩
  · exact .inr ⟨stored, howner.trans hstored.owner, hdata.trans hstored.data,
      hlanded ▸ hstored.latest⟩

/-- Every step keeps the newest config. -/
theorem ConfigStep.inv {label : ConfigLabel} (h : ConfigInv runtime programId mint labels config)
    (hstep : ConfigStep runtime programId mint config label account) :
    ConfigInv runtime programId mint (labels ++ [label]) account := by
  cases hstep with
  | @landed account authority mintInfo system data args invoke hmint hparse hok =>
    obtain ⟨args', hparse', hwrite⟩ := processSetWithdrawConfig_ok hok
    cases hparse.symm.trans hparse'
    rw [hmint] at hwrite
    have hlanded : landedArgs (labels ++ [.landed args]) = landedArgs labels ++ [args] :=
      landedArgs_append labels _
    rcases h.held with ⟨howner, hnone⟩ | ⟨stored, hstored⟩
    · obtain ⟨howner', haddress, hdata⟩ := writeConfig_created howner hwrite
      refine ⟨haddress.trans h.address, .inr ⟨args, howner', hdata, ?_⟩⟩
      rw [hlanded, hnone]
      exact .of_le nofun
    · rw [writeConfig_owned hstored.owner hstored.data] at hwrite
      split at hwrite
      · next hold =>
        cases hwrite
        refine ⟨h.address, .inr ⟨stored, hstored.owner, hstored.data, ?_⟩⟩
        rw [hlanded]
        exact hstored.latest.append (UInt64.lt_iff_toNat_lt.mp hold)
      · next hnew =>
        cases hwrite
        refine ⟨h.address, .inr ⟨args, hstored.owner, rfl, ?_⟩⟩
        rw [hlanded]
        have hle := not_lt.mp fun hlt => hnew (UInt64.lt_iff_toNat_lt.mpr hlt)
        exact .of_le fun other hmem => (hstored.latest.le hmem).trans hle
  | _ => exact h.other rfl h.address rfl rfl

theorem run_configInv {start : AccountView} (hstart : Uncreated runtime programId mint start)
    (hrun : Run (ConfigStep runtime programId mint) start labels config) :
    ConfigInv runtime programId mint labels config :=
  hrun.invariant (P := ConfigInv runtime programId mint)
    ⟨hstart.address, .inl ⟨hstart.owner, rfl⟩⟩ fun _ _ _ _ h hstep => hstep.inv h

/-- The config is the one of the last instruction among those with the greatest slot, its slot
never goes down, a lower slot succeeds and changes nothing, and where a slot determines the
values, another order leaves the same bytes. -/
structure ConfigLawful (runtime : Runtime) (programId mint : Address) (labels : List ConfigLabel)
    (config : AccountView) : Prop where
  latest : landedArgs labels ≠ [] →
    ∃ args, IsLatest (·.allowMintSlot.toNat) (landedArgs labels) args ∧
      storedConfig programId config = some (configFor runtime programId mint args)
  monotone : ∀ label account, ConfigStep runtime programId mint config label account →
    ∀ stored, storedConfig programId config = some stored →
      ∃ stored', storedConfig programId account = some stored' ∧
        stored.allowMintSlot ≤ stored'.allowMintSlot
  stale : ∀ authority mintInfo system data args stored invoke, mintInfo.address = mint →
    Authorized runtime programId authority mintInfo config system →
    parseInstructionData data = .ok args → storedConfig programId config = some stored →
    args.allowMintSlot < stored.allowMintSlot →
    processSetWithdrawConfig runtime programId invoke [authority, mintInfo, config, system] data =
      .ok config
  confluent : ∀ start' labels' config', Uncreated runtime programId mint start' →
    Run (ConfigStep runtime programId mint) start' labels' config' →
    landedArgs labels' ~ landedArgs labels → landedArgs labels ≠ [] →
    (∀ args ∈ landedArgs labels, ∀ args' ∈ landedArgs labels,
      args.allowMintSlot = args'.allowMintSlot → args = args') →
    config'.data = config.data

/-- **The latest config wins.** -/
theorem withdraw_config_latest {start config : AccountView} {labels : List ConfigLabel}
    (hstart : Uncreated runtime programId mint start)
    (hrun : Run (ConfigStep runtime programId mint) start labels config) :
    ConfigLawful runtime programId mint labels config := by
  have hinv := run_configInv hstart hrun
  have hheld : ∀ stored, storedConfig programId config = some stored →
      ∃ args, Holds runtime programId mint labels config args ∧
        stored = configFor runtime programId mint args := by
    intro stored hstored
    rcases hinv.held with ⟨howner, -⟩ | ⟨args, hargs⟩
    · unfold storedConfig at hstored
      rw [if_neg howner] at hstored
      cases hstored
    · exact ⟨args, hargs, Option.some.inj (hstored.symm.trans hargs.stored)⟩
  refine ⟨fun hne => ?_, fun label account hstep stored hstored => ?_,
    fun authority mintInfo system data args stored invoke hmint hauth hparse hstored hlt => ?_,
    fun start' labels' config' hstart' hrun' hperm hne hequal => ?_⟩
  · rcases hinv.held with ⟨-, hnone⟩ | ⟨args, hargs⟩
    · exact absurd hnone hne
    · exact ⟨args, hargs.latest, hargs.stored⟩
  · obtain ⟨args, hargs, rfl⟩ := hheld stored hstored
    obtain ⟨-, ⟨-, hnone⟩ | ⟨args', hargs'⟩⟩ := hstep.inv hinv
    · have hmem := hargs.latest.mem
      rw [landedArgs_append] at hnone
      rw [(List.append_eq_nil_iff.mp hnone).1] at hmem
      exact absurd hmem List.not_mem_nil
    · refine ⟨_, hargs'.stored, UInt64.le_iff_toNat_le.mpr (hargs'.latest.le ?_)⟩
      rw [landedArgs_append]
      exact List.mem_append_left _ hargs.latest.mem
  · obtain ⟨stored', hstored', rfl⟩ := hheld stored hstored
    rw [processSetWithdrawConfig_authorized hauth hparse, hmint,
      writeConfig_owned hstored'.owner hstored'.data]
    exact if_pos hlt
  · rcases hinv.held with ⟨-, hnone⟩ | ⟨args, hargs⟩
    · exact absurd hnone hne
    · obtain ⟨-, ⟨-, hnone⟩ | ⟨args', hargs'⟩⟩ := run_configInv hstart' hrun'
      · exact absurd (hnone ▸ hperm).nil_eq.symm hne
      · have hsame := hargs.latest.eq_of_perm hargs'.latest hperm fun b hb c hc hslot =>
          hequal b hb c hc (UInt64.toNat_inj.mp hslot)
        rw [hargs.data, hargs'.data, hsame]

end Runs

def exampleRuntime : Runtime where
  tokenProgramId := repeated 1
  ataProgramId := repeated 2
  systemProgramId := repeated 3
  findProgramAddress := fun _ _ => (repeated 4, 255)
  mintBaseLen := 0
  mintAuthority := fun _ => some (repeated 5)
  minimumBalance := fun _ => .ok 0

def exampleArgs (slot : UInt64) : SetWithdrawConfigArgs := ⟨100, slot, repeated 8, 10⟩

/-- The config address with a lamport on it, which anyone may have sent. -/
def exampleAccount : AccountView := ⟨repeated 4, false, repeated 3, 1, []⟩

theorem exampleAccount_uncreated :
    Uncreated exampleRuntime (repeated 6) (repeated 7) exampleAccount :=
  ⟨rfl, by decide⟩

def exampleData (slot : ℕ) : List UInt8 :=
  leBytes 8 100 ++ leBytes 8 slot ++ List.replicate 32 8 ++ leBytes 8 10

/-- The instruction of the mint authority. -/
def exampleSet (slot : ℕ) (config : AccountView) : Except ProgramError AccountView :=
  processSetWithdrawConfig exampleRuntime (repeated 6) (fun _ => .ok ())
    [⟨repeated 5, true, repeated 3, 0, []⟩, ⟨repeated 7, false, repeated 1, 0, []⟩, config,
      ⟨repeated 3, false, repeated 3, 0, []⟩] (exampleData slot)

theorem exampleSet_landed (slot : ℕ) (args : SetWithdrawConfigArgs) {config account : AccountView}
    (hparse : parseInstructionData (exampleData slot) = .ok args)
    (hok : exampleSet slot config = .ok account) :
    ConfigStep exampleRuntime (repeated 6) (repeated 7) config (.landed args) account :=
  .landed rfl hparse hok

/-- A first instruction of slot 5, one of slot 9, and one of slot 7 that comes too late. -/
theorem withdraw_config_stale :
    ∃ labels config, Run (ConfigStep exampleRuntime (repeated 6) (repeated 7)) exampleAccount labels
        config ∧ landedArgs labels = [exampleArgs 5, exampleArgs 9, exampleArgs 7] ∧
      storedConfig (repeated 6) config =
        some (configFor exampleRuntime (repeated 6) (repeated 7) (exampleArgs 9)) ∧
      ConfigLawful exampleRuntime (repeated 6) (repeated 7) labels config := by
  have h1 := (Run.nil (s := exampleAccount)).snoc
    (exampleSet_landed 5 (exampleArgs 5) (by decide) rfl)
  have h2 := h1.snoc (exampleSet_landed 9 (exampleArgs 9) (by decide) rfl)
  have h3 := h2.snoc (exampleSet_landed 7 (exampleArgs 7) (by decide) rfl)
  exact ⟨_, _, h3, rfl, by decide, withdraw_config_latest exampleAccount_uncreated h3⟩

end PrivateChannels.Withdraw
