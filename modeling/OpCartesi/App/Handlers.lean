import OpCartesi.App.Ledger

/-!
# Handlers

The state a handler runs on, the outputs sink, and the built-in contracts of
`handlers/`, each as the computations its `advance` and its `view` are. A handler that
throws leaves the state it reached behind; undoing it is the router's work.

* `World`: the ledger, the sink of the current input, the RAM of `L1Block` and the
  RAM of the applications, which no journal covers.
* `Bridge`, `Config`, `Erc20Facade`, `L1Block`, `L2Bridge`, `Messenger`,
  `MessagePasser`, `PortalReceiver`, `Registry`.
-/

namespace OpCartesi.App

open Drive Exec

/-! ## The state of the guest -/

/-- `BufferSink` (`router.ts:83-90`). -/
structure BufferSink where
  inputIndex : ℕ
  emissions : List Emission
  withdrawals : ℕ

def BufferSink.new (inputIndex : ℕ) : BufferSink := ⟨inputIndex, [], 0⟩

/-- `L1Attributes` (`l1block.ts:32-42`). -/
structure L1Attributes where
  baseFeeScalar : ℕ
  blobBaseFeeScalar : ℕ
  sequenceNumber : ℕ
  timestamp : ℕ
  number : ℕ
  basefee : ℕ
  blobBaseFee : ℕ
  hash : Bytes
  batcherHash : Bytes
  deriving DecidableEq

/-- What a handler reads and writes. `own` is the RAM of the applications. -/
structure World (ρ : Type) where
  ledger : Ledger
  sink : BufferSink
  l1Block : Option L1Attributes
  own : ρ

abbrev GuestM (ρ α : Type) := EStateM AppError (World ρ) α

variable {ρ : Type}

def onLedger {α : Type} (x : LedgerM α) : GuestM ρ α :=
  zoom World.ledger (fun l w => { w with ledger := l }) id x

/-- Read the ledger. -/
def ledger : GuestM ρ Ledger := do
  let w ← get
  return w.ledger

/-! ## The sink (`router.ts:92-145`) -/

def emit (e : Emission) : GuestM ρ Unit :=
  modify fun w => { w with sink.emissions := w.sink.emissions ++ [e] }

/-- `notice`. -/
def notice (payload : Payload) : GuestM ρ Unit := emit (.notice payload)

/-- `voucher`; the value and payload default to `0` and the empty string. -/
def voucher (destination : Address) (value : ℕ) (payload : Calldata) : GuestM ρ Unit :=
  emit (.voucher destination value payload)

/-- `report`. -/
def report (payload : ReportData) : GuestM ρ Unit := emit (.report .app payload)

/-- `log`. -/
def log (emitter : Address) (event : Event) : GuestM ρ Unit := notice (.evmLog emitter event)

variable (V : Viem)

/-- `withdrawal`. The ordinal is counted before the nonce is made of it. -/
def withdrawal (sender target : Address) (value gasLimit : ℕ) (data : Calldata) :
    GuestM ρ Unit := do
  let w ← get
  modify fun w => { w with sink.withdrawals := w.sink.withdrawals + 1 }
  let nonce ← check (versionedWithdrawalNonce w.sink.inputIndex w.sink.withdrawals)
  let message : WithdrawalMessage := { nonce, sender, target, value, gasLimit, data }
  notice (.withdrawal message)
  log MESSAGE_PASSER_ADDRESS (.messagePassed message (V.withdrawalHash message))

/-- `reportsOnly`. -/
def BufferSink.reportsOnly (s : BufferSink) : List Emission := s.emissions.filter Emission.isReport

/-- What the router wires the registry to (`router.ts:177-181`): the payable flag of the
    handler an address resolves to, and the addresses of the manifest. -/
structure Wiring where
  lookup : Address → Ledger → Option Bool
  list : List Address

/-- `Handler` (`app/src/types.ts:27-32`). A view is given the router's wiring, which only the
    registry reads. -/
structure Handler (ρ : Type) where
  payable : Bool
  advance : Option (TxContext → GuestM ρ AdvanceOutcome)
  view : Option (Wiring → CallContext → GuestM ρ ViewOutcome)

/-- `encodeFunctionResult` of an unsigned integer of `bits` bits, which refuses any other. -/
def uintResult (bits : ℕ) (n : ℤ) : GuestM ρ ViewOutcome :=
  if 0 ≤ n ∧ n < 2 ^ bits then return .returned (.uint n.toNat)
  else throw (.error "integer out of range")

/-- `{ kind: "revert", data: errorRevert(reason) }`. -/
def revertWith (reason : String) : AdvanceOutcome := .revert (.errorRevert reason)

/-- The same answer of a view. -/
def viewRevert (reason : String) : ViewOutcome := .revert (.errorRevert reason)

/-! ## `Bridge` (`bridge.ts:26-90`) -/

namespace Bridge

def withdrawEther (ctx : TxContext) (dest : Address) : GuestM ρ AdvanceOutcome := do
  if ctx.value = 0 then return revertWith "withdrawEther: no value"
  else
    onLedger (Ledger.debitEther V ctx.dest ctx.value)
    withdrawal V ctx.sender dest ctx.value WITHDRAWAL_DEFAULT_GAS_LIMIT (.bytes [])
    return .accept

def withdrawERC20 (ctx : TxContext) (l2Token dest : Address) (amount : ℕ) :
    GuestM ρ AdvanceOutcome := do
  let l ← ledger
  if l.ram.crossDomainConfig.isSome then
    return revertWith "ERC-20 leaves through the standard bridge (0x4200…0010) on this chain"
  else
    match l.tokenByL2Address l2Token with
    | none => return revertWith "unknown token"
    | some token =>
      let debited ← tryCatch
        (do
          onLedger (Ledger.debitToken V ctx.sender token.id amount)
          return true)
        fun e =>
          match e with
          | .insufficientFunds _ => return false
          | e => throw e
      if debited = false then return revertWith "withdrawERC20: amount exceeds balance"
      else
        voucher token.l1Token 0 (.transfer dest amount)
        log l2Token (.transfer ctx.sender ZERO_ADDRESS amount)
        return .accept

def advance (ctx : TxContext) : GuestM ρ AdvanceOutcome :=
  match V.decodeBridge ctx.data with
  | none => return revertWith "unknown function"
  | some (.withdrawEther dest) => withdrawEther V ctx dest
  | some (.withdrawERC20 l2Token dest amount) => withdrawERC20 V ctx l2Token dest amount

end Bridge

/-! ## `Config` (`config.ts:50-184`) -/

namespace Config

def setFee (fee : ℕ) : GuestM ρ AdvanceOutcome := do
  onLedger (Ledger.setFee fee)
  log CONFIG_ADDRESS (.feeSet fee)
  return .accept

def registerPortal (kind : ℕ) (portal : Address) : GuestM ρ AdvanceOutcome := do
  if kind ≠ PORTAL_ETHER ∧ kind ≠ PORTAL_ERC20 then return revertWith "unknown portal kind"
  else
    let l ← ledger
    if kind = PORTAL_ERC20 ∧ l.ram.crossDomainConfig.isSome then
      return revertWith "the standard bridge is registered; escrows are exclusive"
    else
      let aliased := applyL1ToL2Alias portal
      onLedger (Ledger.registerPortal aliased kind)
      log CONFIG_ADDRESS (.portalRegistered kind portal aliased)
      return .accept

def registerMessenger (l1Messenger l1Bridge : Address) : GuestM ρ AdvanceOutcome := do
  let l ← ledger
  if l.hasErc20Portal then
    return revertWith "an ERC-20 portal is registered; escrows are exclusive"
  else
    onLedger (Ledger.registerCrossDomain
      ⟨l1Messenger, applyL1ToL2Alias l1Messenger, l1Bridge⟩)
    log CONFIG_ADDRESS (.messengerRegistered l1Messenger l1Bridge)
    return .accept

def registerToken (l1Token : Address) (m : TokenMetadata) : GuestM ρ AdvanceOutcome :=
  tryCatch
    (do
      let (id, l2Token) ← onLedger (Ledger.registerToken V l1Token (some m))
      log CONFIG_ADDRESS (.tokenRegistered l1Token l2Token id)
      return .accept)
    fun e =>
      match e with
      | .drive .duplicateToken => return revertWith "token already registered"
      | e => throw e

def setTokenMetadata (l1Token : Address) (m : TokenMetadata) : GuestM ρ AdvanceOutcome := do
  let l ← ledger
  match l.tokenByL1Address l1Token with
  | none => return revertWith "unknown token"
  | some token =>
    onLedger (Ledger.setMetadata token.id m)
    return .accept

def advance (owner : Address) (ctx : TxContext) : GuestM ρ AdvanceOutcome :=
  if ctx.sender ≠ owner then return revertWith "not the owner"
  else
    match V.decodeConfig ctx.data with
    | none => return revertWith "unknown function"
    | some (.setFee fee) => setFee fee
    | some (.registerPortal kind portal) => registerPortal kind portal
    | some (.registerMessenger l1Messenger l1Bridge) => registerMessenger l1Messenger l1Bridge
    | some (.registerToken l1Token _ name symbol decimals) =>
      registerToken V l1Token ⟨name, symbol, decimals⟩
    | some (.setTokenMetadata l1Token name symbol decimals) =>
      setTokenMetadata l1Token ⟨name, symbol, decimals⟩
    | some call => return revertWith (call.functionName ++ " is not a transaction")

def view (owner : Address) (call : CallContext) : GuestM ρ ViewOutcome := do
  match V.decodeConfig call.data with
  | none => return viewRevert "unknown function"
  | some .fee =>
    let l ← ledger
    uintResult 256 l.ram.fee
  | some .owner => return .returned (.address owner)
  | some call => return viewRevert (call.functionName ++ " is not a view")

end Config

/-! ## `Erc20Facade` (`erc20.ts:26-115`) -/

namespace Erc20Facade

def transfer (ctx : TxContext) (id : ℕ) (dest : Address) (value : ℕ) :
    GuestM ρ AdvanceOutcome := do
  let moved ← tryCatch
    (do
      onLedger (Ledger.debitToken V ctx.sender id value)
      onLedger (Ledger.creditToken V dest id value)
      return true)
    fun e =>
      match e with
      | .insufficientFunds _ => return false
      | e => throw e
  if moved = false then return revertWith "ERC20: transfer amount exceeds balance"
  else
    log ctx.dest (.transfer ctx.sender dest value)
    return .accept

def advance (ctx : TxContext) : GuestM ρ AdvanceOutcome := do
  let l ← ledger
  match l.tokenByL2Address ctx.dest with
  | none => return revertWith "unknown token"
  | some token =>
    match V.decodeErc20 ctx.data with
    | none => return revertWith "unknown function"
    | some (.transfer dest value) => transfer V ctx token.id dest value
    | some call => return revertWith (call.functionName ++ " is not a transaction")

def view (call : CallContext) : GuestM ρ ViewOutcome := do
  let l ← ledger
  match l.tokenByL2Address call.dest with
  | none => return viewRevert "unknown token"
  | some token =>
    match V.decodeErc20 call.data with
    | none => return viewRevert "unknown function"
    | some (.balanceOf owner) =>
      let b ← onLedger (Ledger.tokenBalance V owner token.id)
      uintResult 256 b
    | some .totalSupply => uintResult 256 (l.totalSupply token.id)
    | some .decimals => uintResult 8 (l.metadataOf token.id).decimals
    | some .name => return .returned (.string (l.metadataOf token.id).name)
    | some .symbol => return .returned (.string (l.metadataOf token.id).symbol)
    | some call => return viewRevert (call.functionName ++ " is not a view")

end Erc20Facade

/-! ## `L1Block` (`l1block.ts:50-154`) -/

namespace L1Block

/-- The packed attributes after the selector. -/
def attributes (body : Bytes) : L1Attributes where
  baseFeeScalar := beNat (sub body 0 4)
  blobBaseFeeScalar := beNat (sub body 4 4)
  sequenceNumber := beNat (sub body 8 8)
  timestamp := beNat (sub body 16 8)
  number := beNat (sub body 24 8)
  basefee := beNat (sub body 32 32)
  blobBaseFee := beNat (sub body 64 32)
  hash := sub body 96 32
  batcherHash := sub body 128 32

def advance (ctx : TxContext) : GuestM ρ AdvanceOutcome := do
  if ctx.data.length < 4 then return revertWith "unknown function"
  else
    let selector := ctx.data.take 4
    if selector ≠ V.toFunctionSelector "setL1BlockValuesEcotone()" ∧
        selector ≠ V.toFunctionSelector "setL1BlockValuesIsthmus()" then
      return revertWith "unknown function"
    else
      let body := ctx.data.drop 4
      if body.length < 160 then return revertWith "short attributes"
      else
        modify fun w => { w with l1Block := some (attributes body) }
        return .accept

def view (call : CallContext) : GuestM ρ ViewOutcome := do
  match V.decodeL1Block call.data with
  | none => return viewRevert "unknown function"
  | some f =>
    let w ← get
    match w.l1Block with
    | none => return viewRevert "no L1 attributes yet"
    | some a =>
      match f with
      | .number => uintResult 64 a.number
      | .timestamp => uintResult 64 a.timestamp
      | .basefee => uintResult 256 a.basefee
      | .blobBaseFee => uintResult 256 a.blobBaseFee
      | .hash => return .returned (.bytes32 a.hash)
      | .sequenceNumber => uintResult 64 a.sequenceNumber
      | .batcherHash => return .returned (.bytes32 a.batcherHash)
      | .baseFeeScalar => uintResult 32 a.baseFeeScalar
      | .blobBaseFeeScalar => uintResult 32 a.blobBaseFeeScalar

end L1Block

/-! ## Outbound messages (`messenger.ts:182-214`) -/

/-- `sendCrossDomainMessage`. -/
def sendCrossDomainMessage (cd : CrossDomainConfig) (sender target : Address)
    (message : Calldata) (minGasLimit value : ℕ) : GuestM ρ Unit := do
  let counter ← onLedger Ledger.nextMessageNonce
  let nonce := encodeVersionedNonce counter MESSAGE_VERSION
  let gasLimit := baseGas message.size minGasLimit
  withdrawal V L2_MESSENGER_ADDRESS cd.l1Messenger value gasLimit
    (.relayMessage nonce sender target value minGasLimit message)
  log L2_MESSENGER_ADDRESS (.sentMessage target sender message nonce gasLimit)
  log L2_MESSENGER_ADDRESS (.sentMessageExtension1 sender value)

/-! ## `L2Bridge` (`l2bridge.ts:53-224`) -/

namespace L2Bridge

/-- `initiate`. -/
def initiate (ctx : TxContext) (cd : CrossDomainConfig) (localToken remoteToken dest : Address)
    (amount minGasLimit : ℕ) (extraData : Bytes) : GuestM ρ AdvanceOutcome := do
  let l ← ledger
  match l.tokenByL2Address localToken with
  | none => return revertWith "wrong token pair"
  | some token =>
    if token.l1Token ≠ remoteToken then return revertWith "wrong token pair"
    else
      let debited ← tryCatch
        (do
          onLedger (Ledger.debitToken V ctx.sender token.id amount)
          return true)
        fun e =>
          match e with
          | .insufficientFunds _ => return false
          | e => throw e
      if debited = false then return revertWith "amount exceeds balance"
      else
        log localToken (.transfer ctx.sender ZERO_ADDRESS amount)
        log L2_BRIDGE_ADDRESS
          (.erc20BridgeInitiated localToken remoteToken ctx.sender dest amount extraData)
        sendCrossDomainMessage V cd L2_BRIDGE_ADDRESS cd.l1Bridge
          (.finalizeBridgeERC20 remoteToken localToken ctx.sender dest amount extraData)
          minGasLimit 0
        return .accept

def advance (ctx : TxContext) : GuestM ρ AdvanceOutcome := do
  let l ← ledger
  match l.ram.crossDomainConfig with
  | none => return revertWith "no standard bridge registered"
  | some cd =>
    match V.decodeL2Bridge ctx.data with
    | none => return revertWith "unknown function"
    | some (.bridgeERC20 localToken remoteToken amount minGasLimit extraData) =>
      initiate V ctx cd localToken remoteToken ctx.sender amount minGasLimit extraData
    | some (.bridgeERC20To localToken remoteToken dest amount minGasLimit extraData) =>
      initiate V ctx cd localToken remoteToken dest amount minGasLimit extraData
    | some _ => return revertWith "finalize is only callable by the messenger"

/-- The id of a token, registered when it is first seen (`l2bridge.ts:181-186`,
    `portal.ts:78-82`). -/
def tokenId (l1Token : Address) : GuestM ρ ℕ := do
  let l ← ledger
  match l.tokenByL1Address l1Token with
  | some token => return token.id
  | none =>
    let (id, _) ← onLedger (Ledger.registerToken V l1Token none)
    return id

def finalizeBridgeERC20 (m : CrossDomainMessage) (localToken remoteToken sender dest : Address)
    (amount : ℕ) (extraData : Bytes) : GuestM ρ Unit := do
  if m.value ≠ 0 then throw (.error "ERC-20 message carries value")
  else if localToken ≠ V.l2TokenAddress remoteToken then throw (.error "wrong token pair")
  else
    let id ← tokenId V remoteToken
    onLedger (Ledger.creditToken V dest id amount)
    log localToken (.transfer ZERO_ADDRESS dest amount)
    log L2_BRIDGE_ADDRESS
      (.erc20BridgeFinalized localToken remoteToken sender dest amount extraData)

def finalizeBridgeETH (m : CrossDomainMessage) (sender dest : Address) (amount : ℕ)
    (extraData : Bytes) : GuestM ρ Unit := do
  if m.value ≠ amount then throw (.error "value does not match amount")
  else
    onLedger (Ledger.debitEther V L2_MESSENGER_ADDRESS amount)
    onLedger (Ledger.creditEther V dest amount)
    log L2_BRIDGE_ADDRESS (.ethBridgeFinalized sender dest amount extraData)

/-- `finalizeFromMessenger`. -/
def finalizeFromMessenger (m : CrossDomainMessage) (cd : CrossDomainConfig) : GuestM ρ Unit :=
  if m.sender ≠ cd.l1Bridge then throw (.error "xDomainMessageSender is not the L1 bridge")
  else
    match V.decodeL2Bridge m.message with
    | none => throw (.error "not a bridge message")
    | some (.finalizeBridgeERC20 localToken remoteToken sender dest amount extraData) =>
      finalizeBridgeERC20 V m localToken remoteToken sender dest amount extraData
    | some (.finalizeBridgeETH sender dest amount extraData) =>
      finalizeBridgeETH V m sender dest amount extraData
    | some call => throw (.error ("unsupported bridge message " ++ call.functionName))

end L2Bridge

/-! ## `Messenger` (`messenger.ts:55-175`) -/

namespace Messenger

/-- `dispatch`. -/
def dispatch (m : CrossDomainMessage) (cd : CrossDomainConfig) : GuestM ρ Unit := do
  if m.target = L2_BRIDGE_ADDRESS then L2Bridge.finalizeFromMessenger V m cd
  else if 0 < m.message.length then throw (.error "unsupported relay target")
  else
    onLedger (Ledger.debitEther V L2_MESSENGER_ADDRESS m.value)
    onLedger (Ledger.creditEther V m.target m.value)

/-- The relay proper: the inner call, and the record of how it ended. -/
def relay (m : CrossDomainMessage) (cd : CrossDomainConfig) : GuestM ρ AdvanceOutcome := do
  let hash := V.hashCrossDomainMessageV1 m
  let mark ← onLedger Ledger.mark
  tryCatch
    (do
      dispatch V m cd
      onLedger (Ledger.setMessageStatus hash .successful)
      log L2_MESSENGER_ADDRESS (.relayedMessage hash false))
    fun _ => do
      onLedger (Ledger.rollbackTo mark)
      onLedger (Ledger.afterRollback V)
      onLedger (Ledger.setMessageStatus hash .failed)
      log L2_MESSENGER_ADDRESS (.relayedMessage hash true)
  return .accept

/-- Why a delivery or a replay is refused (`messenger.ts:66-95`). -/
def refusal (ctx : TxContext) (cd : CrossDomainConfig) (m : CrossDomainMessage)
    (status : Option MessageStatus) : Option String :=
  if nonceVersion m.nonce ≠ MESSAGE_VERSION then some "only version 1 messages are supported"
  else if status = some .successful then some "message has already been relayed"
  else if ctx.isDeposit ∧ ctx.sender = cd.l1MessengerAliased then
    if ctx.value ≠ m.value then some "value does not match the message"
    else if status = some .failed then some "message already received"
    else none
  else if ctx.value ≠ 0 then some "value must be zero on replay"
  else if status ≠ some .failed then some "message cannot be replayed"
  else none

def advance (ctx : TxContext) : GuestM ρ AdvanceOutcome := do
  let l ← ledger
  match l.ram.crossDomainConfig with
  | none => return revertWith "no messenger registered"
  | some cd =>
    match V.decodeMessenger ctx.data with
    | some (.relayMessage m) =>
      match refusal ctx cd m (l.ram.messages (V.hashCrossDomainMessageV1 m)) with
      | some reason => return revertWith reason
      | none => relay V m cd
    | _ => return revertWith "unknown function"

def view (call : CallContext) : GuestM ρ ViewOutcome := do
  let l ← ledger
  match V.decodeMessenger call.data with
  | none => return viewRevert "unknown function"
  | some .messageNonce => uintResult 256 (encodeVersionedNonce l.ram.msgNonce MESSAGE_VERSION)
  | some (.successfulMessages hash) =>
    return .returned (.bool (l.ram.messages hash = some .successful))
  | some (.failedMessages hash) => return .returned (.bool (l.ram.messages hash = some .failed))
  | some call => return viewRevert (call.functionName ++ " is not a view")

end Messenger

/-! ## `MessagePasser` (`passer.ts:21-37`) -/

namespace MessagePasser

def advance (ctx : TxContext) : GuestM ρ AdvanceOutcome := do
  if ctx.data.length = 0 then
    onLedger (Ledger.debitEther V ctx.dest ctx.value)
    withdrawal V ctx.sender ctx.sender ctx.value WITHDRAWAL_DEFAULT_GAS_LIMIT (.bytes [])
    return .accept
  else
    match V.decodePasser ctx.data with
    | none => return revertWith "unknown function"
    | some call =>
      onLedger (Ledger.debitEther V ctx.dest ctx.value)
      withdrawal V ctx.sender call.target ctx.value call.gasLimit (.bytes call.data)
      return .accept

end MessagePasser

/-! ## `PortalReceiver` (`portal.ts:27-89`) -/

namespace PortalReceiver

/-- `addressAt`. -/
def addressAt (data : Bytes) (off : ℕ) : Address := toAddress (sub data off 20)

/-- `uint256At`. -/
def uint256At (data : Bytes) (off : ℕ) : ℕ := beNat (sub data off 32)

def receiveEther (ctx : TxContext) : GuestM ρ AdvanceOutcome := do
  if ctx.data.length < 52 then return revertWith "short ether deposit"
  else
    let beneficiary := addressAt ctx.data 0
    let amount := uint256At ctx.data 20
    tryCatch
      (do
        onLedger (Ledger.debitEther V ctx.dest amount)
        onLedger (Ledger.creditEther V beneficiary amount)
        return .accept)
      fun e =>
        match e with
        | .insufficientFunds _ => return revertWith "deposit value does not cover the credit"
        | e => throw e

def receiveERC20 (ctx : TxContext) : GuestM ρ AdvanceOutcome := do
  if ctx.data.length < 72 then return revertWith "short erc20 deposit"
  else
    let l1Token := addressAt ctx.data 0
    let beneficiary := addressAt ctx.data 20
    let amount := uint256At ctx.data 40
    let id ← L2Bridge.tokenId V l1Token
    onLedger (Ledger.creditToken V beneficiary id amount)
    log (V.l2TokenAddress l1Token) (.transfer ZERO_ADDRESS beneficiary amount)
    return .accept

def advance (ctx : TxContext) : GuestM ρ AdvanceOutcome := do
  if ctx.isDeposit = false then return revertWith "not a portal deposit"
  else
    let l ← ledger
    match l.ram.portals ctx.sender with
    | none => return revertWith "unregistered portal"
    | some kind => if kind = PORTAL_ETHER then receiveEther V ctx else receiveERC20 V ctx

end PortalReceiver

/-! ## `Registry` (`registry.ts:16-66`) -/

namespace Registry

def view (wiring : Wiring) (call : CallContext) : GuestM ρ ViewOutcome := do
  let l ← ledger
  match V.decodeRegistry call.data with
  | none => return viewRevert "unknown function"
  | some (.handlerAt target) =>
    match wiring.lookup target l with
    | some payable => return .returned (.routed true payable)
    | none => return .returned (.routed (l.tokenByL2Address target).isSome false)
  | some .handlers =>
    return .returned (.addresses
      (wiring.list ++ l.drive.tokens.map fun t => V.l2TokenAddress t.address))
  | some (.l2TokenOf l1Token) => return .returned (.address (V.l2TokenAddress l1Token))

end Registry

/-! ## The handlers -/

def registry : Handler ρ := ⟨false, none, some (Registry.view V)⟩
def bridge : Handler ρ := ⟨true, some (Bridge.advance V), none⟩
def config (owner : Address) : Handler ρ :=
  ⟨false, some (Config.advance V owner), some fun _ => Config.view V owner⟩
def l1Block : Handler ρ := ⟨false, some (L1Block.advance V), some fun _ => L1Block.view V⟩
def messenger : Handler ρ := ⟨true, some (Messenger.advance V), some fun _ => Messenger.view V⟩
def l2Bridge : Handler ρ := ⟨false, some (L2Bridge.advance V), none⟩
def messagePasser : Handler ρ := ⟨true, some (MessagePasser.advance V), none⟩
def portalReceiver : Handler ρ := ⟨true, some (PortalReceiver.advance V), none⟩
def erc20 : Handler ρ := ⟨false, some (Erc20Facade.advance V), some fun _ => Erc20Facade.view V⟩

end OpCartesi.App
