import PrivateChannels.Decoder.Parsers
import PrivateChannels.Escrow.EscrowBalance
import PrivateChannels.Withdraw.WithdrawConfigRuns
import PrivateChannels.Withdraw.WithdrawFunds

/-!
# The parsers read what the programs accepted

The programs read their arguments at fixed offsets, the indexer with Borsh. What a program
accepted parses, to the values the program went by.
-/

namespace PrivateChannels.Decoder

open Withdraw (Address repeated slice WithdrawFundsArgs)
open Escrow (u64At addressAt)
open Escrow.Processor (DepositArgs DepositEvent ReleaseFundsArgs)

/-- An amount, a tag and an optional key. -/
structure AmountAndKey (data : List UInt8) (amount : UInt64) (key : Option Pubkey) : Prop where
  long : 9 ≤ data.length
  amount_eq : amount = u64At data 0
  key_eq : data.getD 8 0 = 0 ∧ key = none ∨
    data.getD 8 0 = 1 ∧ ∃ k, key = some k ∧ k.bytes = slice data 9 32

theorem run_readKey {input : List UInt8} {key : Pubkey} (h : key.bytes = input.take 32) :
    readKey.run input = .ok (key, input.drop 32) := by
  have hlen : 32 ≤ input.length := by
    have := congrArg List.length h
    rw [key.length_bytes, List.length_take] at this
    omega
  obtain ⟨bytes, hbytes⟩ := key
  obtain rfl : bytes = input.take 32 := h
  unfold readKey
  rw [Borsh.run_bind_of (Borsh.run_readBytes hlen)]
  rfl

variable {data : List UInt8}

/-- Borsh reads the layout back, whatever follows it. -/
theorem AmountAndKey.deserialize {α : Type} {amount : UInt64}
    {key : Option Pubkey} (h : AmountAndKey data amount key) (mk : UInt64 → Option Pubkey → α) :
    deserialize (do
      let amount ← Borsh.readU64
      let key ← Borsh.readOption readKey
      pure (mk amount key)) data = .ok (mk amount key) := by
  have htail : data.drop 8 = data.getD 8 0 :: data.drop 9 := by
    rw [List.drop_eq_getElem_cons h.long, List.getD_eq_getElem?_getD,
      List.getElem?_eq_getElem h.long, Option.getD_some]
  have hkey : ∃ rest, (Borsh.readOption readKey).run (data.drop 8) = .ok (key, rest) := by
    rw [htail]
    rcases h.key_eq with ⟨htag, rfl⟩ | ⟨htag, k, rfl, hk⟩
    · rw [htag]
      exact ⟨_, Borsh.run_readOption_none⟩
    · rw [htag]
      exact ⟨_, Borsh.run_readOption_some (run_readKey hk)⟩
  obtain ⟨rest, hkey⟩ := hkey
  unfold Decoder.deserialize Borsh.deserialize
  rw [Borsh.run_bind_of (Borsh.run_readU64 (Nat.le_of_succ_le h.long)), Borsh.run_bind_of hkey,
    h.amount_eq]
  rfl

theorem addressAt_ok {error : Escrow.InstructionError} {offset : ℕ}
    {key : Pubkey} (h : addressAt error data offset = .ok key) :
    key.bytes = slice data offset 32 := by
  unfold addressAt at h
  split at h
  · cases h
    rfl
  · cases h

/-- The program's view of the layout. -/
theorem DepositArgs.layout {args : DepositArgs}
    (h : DepositArgs.parse data = .ok args) : AmountAndKey data args.amount args.recipient := by
  obtain ⟨_, hlong, h⟩ := bind_eq_ok.mp h
  split at h
  · rename_i htag
    cases h
    exact ⟨of_ensure_eq_ok hlong, rfl, .inl ⟨htag, rfl⟩⟩
  · rename_i htag
    simp only [bind_eq_ok] at h
    obtain ⟨_, _, recipient, hrecipient, h⟩ := h
    cases h
    exact ⟨of_ensure_eq_ok hlong, rfl, .inr ⟨htag, recipient, rfl, addressAt_ok hrecipient⟩⟩
  · cases h

/-- The program's view of the layout. -/
theorem WithdrawFundsArgs.layout {args : WithdrawFundsArgs}
    (h : WithdrawFundsArgs.parse data = .ok args) :
    AmountAndKey data args.amount args.destination := by
  simp only [WithdrawFundsArgs.parse, bind_eq_ok] at h
  obtain ⟨_, hlong, amount, hamount, h⟩ := h
  have hamount : amount = u64At data 0 := by
    unfold Withdraw.u64OfSlice at hamount
    split at hamount
    · exact (Except.ok.inj hamount).symm
    · cases hamount
  split at h
  · rename_i htag
    cases h
    exact ⟨of_ensure_eq_ok hlong, hamount, .inl ⟨htag, rfl⟩⟩
  · rename_i htag
    simp only [bind_eq_ok] at h
    obtain ⟨_, _, destination, hdestination, h⟩ := h
    cases h
    refine ⟨of_ensure_eq_ok hlong, hamount, .inr ⟨htag, destination, rfl, ?_⟩⟩
    unfold Withdraw.addressOfSlice at hdestination
    split at hdestination
    · cases hdestination
      rfl
    · cases hdestination
  · cases h

/-- The indexer asks for less than the program does. -/
theorem ReleaseFundsArgs.fromBytes {args : ReleaseFundsArgs}
    (h : ReleaseFundsArgs.parse data = .ok args) :
    ReleaseFundsData.fromBytes data = .ok ⟨args.amount, args.user, args.transactionNonce⟩ := by
  simp only [ReleaseFundsArgs.parse, bind_eq_ok] at h
  obtain ⟨_, hlong, user, huser, _, _, h⟩ := h
  cases h
  have hlong : 80 ≤ data.length := of_ensure_eq_ok hlong
  unfold ReleaseFundsData.fromBytes
  rw [if_neg (by omega), ← addressAt_ok huser, keyOfBytes_bytes]

/-- Events survive their encoding. -/
theorem depositEventOfBytes_toBytes (event : DepositEvent) :
    depositEventOfBytes event.toBytes = some event := by
  have htag : Escrow.Processor.eventIxTagLe = eventIxTagLe := by decide +kernel
  have hlen : eventIxTagLe.length = 8 := rfl
  have hbytes : event.toBytes = eventIxTagLe ++ (6 :: (event.instanceSeed.bytes ++
      (event.user.bytes ++ (leBytes 8 event.amount.toNat ++ (event.recipient.bytes ++
        event.mint.bytes))))) := by
    simp [DepositEvent.toBytes, htag]
  have hfields : slice event.toBytes 9 32 = event.instanceSeed.bytes ∧
      slice event.toBytes 41 32 = event.user.bytes ∧
      slice event.toBytes 73 8 = leBytes 8 event.amount.toNat ∧
      slice event.toBytes 81 32 = event.recipient.bytes ∧
      slice event.toBytes 113 32 = event.mint.bytes := by
    refine ⟨?_, ?_, ?_, ?_, ?_⟩ <;>
      simp [slice, hbytes, hlen, List.drop_append, List.drop_eq_nil_of_le,
        List.take_of_length_le, Address.length_bytes]
  obtain ⟨hseed, huser, hamount, hrecipient, hmint⟩ := hfields
  have hevent : ¬ (event.toBytes.length < 145 ∨ ¬ eventIxTagLe <+: event.toBytes ∨
      event.toBytes.getD 8 0 ≠ depositEventDiscriminator) := by
    rw [hbytes]
    simp [hlen, Address.length_bytes, depositEventDiscriminator]
  unfold depositEventOfBytes
  rw [if_neg hevent, hseed, huser, hrecipient, hmint, u64At, hamount,
    leNat_leBytes event.amount.toNat_lt]
  simp

variable {env : Env} {accountKeys : List Pubkey} {instruction : CompiledInstruction}
  {innerInstructions : List InnerInstructions} {location : InstructionLocation}
  {data : List UInt8} {event : DepositEvent}

theorem eventMismatch_eq_none {accounts : List Pubkey}
    {ixData : DepositData} : eventMismatch env event accounts ixData = none ↔
      accounts[1]? = some event.user ∧ accounts[3]? = some event.mint ∧
        effectiveRecipient accounts ixData = some event.recipient ∧
        accounts[2]? = some (env.findInstancePda event.instanceSeed) := by
  unfold eventMismatch
  split_ifs <;> simp_all

/-- Where a deposit's event is looked for: among the calls it made. -/
def eventScope (set : InnerInstructions) : Option InnerLocation → List InnerInstruction
  | none => set.instructions
  | some ⟨innerIndex, some ownHeight⟩ => subtree set innerIndex ownHeight
  | some ⟨innerIndex, none⟩ => set.instructions.drop (innerIndex + 1)

/-- The first call of the escrow that a deposit made carried this event. -/
def Emitted (env : Env) (accountKeys : List Pubkey) (innerInstructions : List InnerInstructions)
    (location : InstructionLocation) (eventData : List UInt8) : Prop :=
  ∃ set before entry after, innerSet innerInstructions location.topLevelIndex = some set ∧
    eventScope set location.inner = before ++ entry :: after ∧
    (∀ inner ∈ before, isEscrowProgram env accountKeys inner = false) ∧
    isEscrowProgram env accountKeys entry = true ∧
    env.base58.decode entry.instruction.data = .ok eventData

/-- A deposit is given the amount of its event. -/
theorem depositAmount_of_emitted {accounts : List Pubkey} {ixData : DepositData}
    (h : Emitted env accountKeys innerInstructions location event.toBytes)
    (hmatches : eventMismatch env event accounts ixData = none) :
    depositAmount env accountKeys innerInstructions location accounts ixData
      = .ok (some event.amount) := by
  obtain ⟨set, before, entry, after, hset, hscope, hbefore, hentry, hdata⟩ := h
  have hdecoded : decodeDepositEvent env accountKeys entry = some event := by
    simp [decodeDepositEvent, hentry, hdata, depositEventOfBytes_toBytes]
  have hfirst : (before ++ entry :: after).findSome? (depositEventAmount env accountKeys)
      = some event.amount := by
    have hnone : before.findSome? (depositEventAmount env accountKeys) = none := by
      refine List.findSome?_eq_none_iff.mpr fun inner hinner => ?_
      simp [depositEventAmount, decodeDepositEvent, hbefore inner hinner]
    simp [List.findSome?_append, hnone, depositEventAmount, hdecoded]
  have hfind : (before ++ entry :: after).find? (isEscrowProgram env accountKeys) = some entry := by
    have hnone : before.find? (isEscrowProgram env accountKeys) = none :=
      List.find?_eq_none.mpr fun inner hinner => by simp [hbefore inner hinner]
    simp [List.find?_append, hnone, hentry]
  unfold depositAmount
  rw [hset]
  cases hinner : location.inner with
  | none =>
    rw [hinner] at hscope
    exact congrArg Except.ok ((congrArg _ hscope).trans hfirst)
  | some inner =>
    obtain ⟨innerIndex, height⟩ := inner
    rw [hinner] at hscope
    cases height with
    | some ownHeight => exact congrArg Except.ok ((congrArg _ hscope).trans hfirst)
    | none =>
      have hscope : set.instructions.drop (innerIndex + 1) = before ++ entry :: after := hscope
      simp only [callOrderAmount, hscope, hfind, hdecoded, checkEventMatchesDeposit, hmatches]
      rfl

variable {addresses : List Pubkey}

section

variable (h : Resolves instruction accountKeys addresses)
include h

theorem requireAccounts_ok {n : ℕ} (hlen : n ≤ addresses.length) :
    requireAccounts n instruction = .ok () :=
  ensure_of _ (h.length_eq ▸ hlen)

/-- A withdrawal parses to its arguments. -/
theorem parseWithdrawFunds_eq {args : WithdrawFundsArgs} {user : Pubkey}
    (hargs : WithdrawFundsArgs.parse data = .ok args) (hlen : 5 ≤ addresses.length)
    (huser : addresses[0]? = some user) :
    parseWithdrawFunds accountKeys instruction data = .ok (.withdrawFunds (addresses.take 5)
      ⟨args.amount, args.destination.getD user⟩) := by
  have hdata : deserialize WithdrawFundsIxData.read data = .ok ⟨args.amount, args.destination⟩ :=
    (WithdrawFundsArgs.layout hargs).deserialize WithdrawFundsIxData.mk
  simp only [parseWithdrawFunds, hdata, requireAccounts_ok h hlen, h.resolveAccount huser,
    h.resolveAccounts hlen, bind, Except.bind]
  rfl

theorem parseReleaseFunds_eq {args : ReleaseFundsArgs}
    (hargs : ReleaseFundsArgs.parse data = .ok args) (hlen : 13 ≤ addresses.length) :
    parseReleaseFunds accountKeys instruction data = .ok (.releaseFunds (addresses.take 13)
      ⟨args.amount, args.user, args.transactionNonce⟩) := by
  simp only [parseReleaseFunds, requireAccounts_ok h hlen, ReleaseFundsArgs.fromBytes hargs,
    h.resolveAccounts hlen, bind, Except.bind]
  rfl

/-- A deposit parses to its event's amount. -/
theorem parseDeposit_eq {args : DepositArgs} (hargs : DepositArgs.parse data = .ok args)
    (hlen : 12 ≤ addresses.length)
    (hemitted : Emitted env accountKeys innerInstructions location event.toBytes)
    (hmatches : eventMismatch env event (addresses.take 12) ⟨args.amount, args.recipient⟩ = none) :
    parseDeposit env accountKeys instruction innerInstructions location data
      = .ok (.deposit (addresses.take 12) ⟨args.amount, args.recipient⟩ event.amount) := by
  have hdata : deserialize DepositData.read data = .ok ⟨args.amount, args.recipient⟩ :=
    (DepositArgs.layout hargs).deserialize DepositData.mk
  simp only [parseDeposit, hdata, requireAccounts_ok h hlen, h.resolveAccounts hlen, bind,
    Except.bind, depositAmount_of_emitted hemitted hmatches]
  rfl

end

/-- The event of a deposit names the deposit's own accounts and recipient. -/
theorem processDeposit_matches {callees : Escrow.Callees} {views : List Escrow.AccountView}
    {ata : Escrow.AccountView}
    (h : Escrow.Processor.processDeposit env.runtime callees views data = .ok (event, ata)) :
    ∃ args, DepositArgs.parse data = .ok args ∧ 12 ≤ views.length ∧
      eventMismatch env event ((views.map (·.address)).take 12) ⟨args.amount, args.recipient⟩
        = none := by
  obtain ⟨args, deposit, checked, hargs, haccounts, hchecked, hsettled⟩ :=
    Escrow.Processor.processDeposit_ok h
  obtain ⟨-, -, hinstance, hrecipient⟩ := Escrow.Processor.checkDeposit_ok hchecked
  obtain ⟨-, -, -, -, hevent⟩ := Escrow.Processor.settleDeposit_ok hsettled
  unfold Escrow.Processor.DepositAccounts.ofList at haccounts
  split at haccounts
  · cases haccounts
    refine ⟨args, hargs, by simp, ?_⟩
    rw [hevent]
    refine eventMismatch_eq_none.mpr ⟨rfl, rfl, ?_, congrArg some hinstance⟩
    simp only [effectiveRecipient, hrecipient]
    cases args.recipient <;> rfl
  · cases haccounts

/-- What a program accepted, the indexer parses to what the program went by. -/
theorem parsers_agree_with_programs (env : Env) (accountKeys : List Pubkey)
    (instruction : CompiledInstruction) (innerInstructions : List InnerInstructions)
    (location : InstructionLocation) (data : List UInt8) :
    (∀ runtime programId createProgramAddress token views event,
      Withdraw.processWithdrawFunds runtime programId createProgramAddress token views data
        = .ok event →
      env.base58.decode instruction.data = .ok (0 :: data) →
      Resolves instruction accountKeys (views.map (·.address)) →
      ∃ accounts, parseWithdrawInstruction env accountKeys instruction
          = .ok (some (.withdrawFunds accounts ⟨event.amount, event.destination⟩)) ∧
        accounts = (views.map (·.address)).take 5) ∧
    (∀ callees views event ata,
      Escrow.Processor.processDeposit env.runtime callees views data = .ok (event, ata) →
      env.base58.decode instruction.data = .ok (6 :: data) →
      Resolves instruction accountKeys (views.map (·.address)) →
      Emitted env accountKeys innerInstructions location event.toBytes →
      ∃ accounts ixData, parseEscrowInstruction env accountKeys instruction innerInstructions
          location = .ok (some (.deposit accounts ixData event.amount)) ∧
        DepositArgs.parse data = .ok ⟨ixData.amount, ixData.recipient⟩ ∧
        accounts[1]? = some event.user ∧ accounts[3]? = some event.mint ∧
        effectiveRecipient accounts ixData = some event.recipient) ∧
    (∀ window callees views released,
      Escrow.Processor.processReleaseFunds env.runtime window callees views data = .ok released →
      env.base58.decode instruction.data = .ok (7 :: data) →
      Resolves instruction accountKeys (views.map (·.address)) →
      ∃ accounts args, parseEscrowInstruction env accountKeys instruction innerInstructions
          location = .ok (some (.releaseFunds accounts
            ⟨args.amount, args.user, args.transactionNonce⟩)) ∧
        ReleaseFundsArgs.parse data = .ok args ∧
        accounts = (views.map (·.address)).take 13) := by
  refine ⟨?_, ?_, ?_⟩
  · intro runtime programId createProgramAddress token views event hprocess hdata haccounts
    obtain ⟨args, withdrawal, hargs, hlist, rfl⟩ := Withdraw.processWithdrawFunds_ok hprocess
    unfold Withdraw.WithdrawFundsAccounts.ofList at hlist
    split at hlist
    · cases hlist
      refine ⟨_, ?_, rfl⟩
      unfold parseWithdrawInstruction decodeData
      rw [hdata]
      exact congrArg (some <$> ·) (parseWithdrawFunds_eq haccounts hargs (by simp) rfl)
    · cases hlist
  · intro callees views event ata hprocess hdata haccounts hemitted
    obtain ⟨args, hargs, hlen, hmatches⟩ := processDeposit_matches hprocess
    have hparsed := parseDeposit_eq haccounts hargs (by simpa using hlen) hemitted hmatches
    obtain ⟨huser, hmint, hrecipient, -⟩ := eventMismatch_eq_none.mp hmatches
    refine ⟨(views.map (·.address)).take 12, ⟨args.amount, args.recipient⟩, ?_, hargs, huser, hmint,
      hrecipient⟩
    unfold parseEscrowInstruction decodeData
    rw [hdata]
    exact congrArg (some <$> ·) hparsed
  · intro window callees views released hprocess hdata haccounts
    obtain ⟨args, release, _, hargs, hlist, -⟩ := Escrow.Processor.processReleaseFunds_ok hprocess
    unfold Escrow.Processor.ReleaseFundsAccounts.ofList at hlist
    split at hlist
    · refine ⟨_, args, ?_, hargs, rfl⟩
      unfold parseEscrowInstruction decodeData
      rw [hdata]
      exact congrArg (some <$> ·) (parseReleaseFunds_eq haccounts hargs (by simp))
    · cases hlist

/-- One character for each byte. -/
def byteText : Base58 where
  encode bytes := String.ofList (bytes.map fun b => Char.ofNat b.toNat)
  decode text := .ok (text.toList.map fun c => UInt8.ofNat c.toNat)
  decode_encode bytes := by
    have hbyte (b : UInt8) : UInt8.ofNat (Char.ofNat b.toNat).toNat = b := by
      have hvalid : b.toNat.isValidChar := .inl (by have := b.toNat_lt; omega)
      simp only [Char.ofNat, dif_pos hvalid]
      exact UInt8.ofNat_toNat
    simp [Function.comp_def, hbyte]

open Withdraw (exampleRuntime exampleArgs configFor)
open Escrow.Processor (byteDeposit byteRelease byteCallees byteRuntime byteDepositEvent
  byteReleaseEvent)

def byteEnv : Env := ⟨byteText, byteRuntime⟩

/-- An instruction of the first accounts of its transaction. -/
def byteInstruction (accounts : ℕ) (data : List UInt8) : CompiledInstruction :=
  ⟨11, (List.range accounts).map UInt8.ofNat, byteText.encode data⟩

/-- Key 5 withdraws from mint 7, whose config asks for a fee. -/
def byteWithdrawal : List Withdraw.AccountView :=
  [⟨repeated 5, true, repeated 3, 0, []⟩, ⟨repeated 7, false, repeated 1, 0, []⟩,
    ⟨repeated 4, false, repeated 1, 0, [0]⟩, ⟨repeated 1, false, repeated 0, 0, []⟩,
    ⟨repeated 2, false, repeated 0, 0, []⟩,
    ⟨repeated 4, false, repeated 6, 0,
      (configFor exampleRuntime (repeated 6) (repeated 7) (exampleArgs 5)).toBytes⟩,
    ⟨repeated 4, false, repeated 1, 0, [0]⟩]

/-- A withdrawal to its signer, a deposit of which less arrived and a release, each with a byte
too many. -/
theorem parsers_agree_on_each :
    (∃ accounts, parseWithdrawInstruction byteEnv (byteWithdrawal.map (·.address))
        (byteInstruction 7 (0 :: (leBytes 8 20 ++ [0, 9])))
      = .ok (some (.withdrawFunds accounts ⟨20, repeated 5⟩))) ∧
    (∃ accounts, parseEscrowInstruction byteEnv (byteDeposit.map (·.address))
        (byteInstruction 14 (6 :: (leBytes 8 5 ++ [0, 9])))
        [⟨0, [⟨⟨11, [], byteText.encode byteDepositEvent.toBytes⟩, some 2⟩]⟩] (.topLevel 0)
      = .ok (some (.deposit accounts ⟨5, none⟩ 4))) ∧
    ∃ accounts, parseEscrowInstruction byteEnv (byteRelease.map (·.address))
        (byteInstruction 16 (7 :: (leBytes 8 6 ++ List.replicate 32 3 ++ leBytes 8 0 ++
          List.replicate 33 3))) [] (.topLevel 0)
      = .ok (some (.releaseFunds accounts ⟨6, repeated 3, 0⟩)) := by
  refine ⟨?_, ?_, ?_⟩
  · obtain ⟨accounts, hparsed, -⟩ :=
      (parsers_agree_with_programs byteEnv (byteWithdrawal.map (·.address))
        (byteInstruction 7 (0 :: (leBytes 8 20 ++ [0, 9]))) [] (.topLevel 0)
        (leBytes 8 20 ++ [0, 9])).1 exampleRuntime (repeated 6) (fun _ _ => some (repeated 4))
        ⟨fun _ _ _ _ => .ok (), fun _ _ _ _ => .ok ()⟩ byteWithdrawal ⟨20, repeated 5⟩
        (by decide +kernel) (byteText.decode_encode _) rfl
    exact ⟨accounts, hparsed⟩
  · obtain ⟨accounts, ⟨amount, recipient⟩, hparsed, hargs, -⟩ :=
      (parsers_agree_with_programs byteEnv (byteDeposit.map (·.address))
        (byteInstruction 14 (6 :: (leBytes 8 5 ++ [0, 9])))
        [⟨0, [⟨⟨11, [], byteText.encode byteDepositEvent.toBytes⟩, some 2⟩]⟩] (.topLevel 0)
        (leBytes 8 5 ++ [0, 9])).2.1 (byteCallees 14) byteDeposit byteDepositEvent
        (Escrow.Processor.byteAccount 108 1 [14]) (by decide +kernel) (byteText.decode_encode _)
        rfl ⟨_, [], _, [], rfl, rfl, nofun, beq_self_eq_true _, byteText.decode_encode _⟩
    have hread : DepositArgs.parse (leBytes 8 5 ++ [0, 9]) = .ok ⟨5, none⟩ := by decide +kernel
    obtain ⟨rfl, rfl⟩ := DepositArgs.mk.inj (Except.ok.inj (hread.symm.trans hargs))
    exact ⟨accounts, hparsed⟩
  · obtain ⟨accounts, args, hparsed, hargs, -⟩ :=
      (parsers_agree_with_programs byteEnv (byteRelease.map (·.address))
        (byteInstruction 16 (7 :: (leBytes 8 6 ++ List.replicate 32 3 ++ leBytes 8 0 ++
          List.replicate 33 3))) [] (.topLevel 0) (leBytes 8 6 ++ List.replicate 32 3 ++
          leBytes 8 0 ++ List.replicate 33 3)).2.2 .testTree (byteCallees 8) byteRelease
        ⟨byteReleaseEvent, Escrow.Processor.byteAccount 108 1 [8],
          3 :: List.replicate 9 0 ++ [1]⟩ (by decide +kernel) (byteText.decode_encode _) rfl
    have hread : ReleaseFundsArgs.parse (leBytes 8 6 ++ List.replicate 32 3 ++ leBytes 8 0 ++
      List.replicate 33 3) = .ok ⟨6, repeated 3, 0, repeated 3⟩ := by decide +kernel
    obtain rfl := Except.ok.inj (hread.symm.trans hargs)
    exact ⟨accounts, hparsed⟩

end PrivateChannels.Decoder
