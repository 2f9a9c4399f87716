import OpCartesi.Drive.Config

/-!
# The guest's vocabulary

The types of `evm-compat/js/src/types.ts` and the calls, events and messages of
the built-in contracts, with the address map and the small pure functions over
them.

* `Viem`: what the guest takes from third-party libraries, the keccak, the
  transaction parser, the signature recovery and the ABI decoders, as arbitrary
  functions.
* `Calldata`, `Event`, `Payload`: what the guest encodes with viem is kept as the
  call or event it encodes.
* `parseInput` (`tx.ts:88-128`): the admission of a raw input.
-/

namespace OpCartesi.App

open Drive

/-! ## Addresses (`addresses.ts`, `crossdomain.ts:27-28`, `withdrawal.ts:32`) -/

/-- The address a hexadecimal literal writes. -/
def addressOf (n : ℕ) : Address := ⟨beBytes 20 n, beBytes_length 20 n⟩

theorem addressOf_ne {m n : ℕ} (hm : m < 256 ^ 20) (hn : n < 256 ^ 20) (h : m ≠ n) :
    addressOf m ≠ addressOf n := by
  intro heq
  have hbytes : beBytes 20 m = beBytes 20 n := congrArg Subtype.val heq
  apply h
  rw [← beNat_beBytes_of_lt hm, hbytes, beNat_beBytes_of_lt hn]

def ZERO_ADDRESS : Address := addressOf 0
def REGISTRY_ADDRESS : Address := addressOf 0xc751000000000000000000000000000000000000
def BRIDGE_ADDRESS : Address := addressOf 0xc751000000000000000000000000000000000001
def CONFIG_ADDRESS : Address := addressOf 0xc751000000000000000000000000000000000002
def L1BLOCK_ADDRESS : Address := addressOf 0x4200000000000000000000000000000000000015
def L2_MESSENGER_ADDRESS : Address := addressOf 0x4200000000000000000000000000000000000007
def L2_BRIDGE_ADDRESS : Address := addressOf 0x4200000000000000000000000000000000000010
def MESSAGE_PASSER_ADDRESS : Address := addressOf 0x4200000000000000000000000000000000000016

def ALIAS_OFFSET : ℕ := 0x1111000000000000000000000000000000001111

/-- `applyL1ToL2Alias` (`addresses.ts:45-48`). -/
def applyL1ToL2Alias (l1 : Address) : Address :=
  addressOf ((beNat l1.val + ALIAS_OFFSET) % 2 ^ 160)

def PORTAL_ETHER : ℕ := 0
def PORTAL_ERC20 : ℕ := 1

/-! ## Decoded calls (`abis.ts`, `crossdomain.ts:31-45`) -/

/-- `CrossDomainMessage` (`crossdomain.ts:70-77`). -/
structure CrossDomainMessage where
  nonce : ℕ
  sender : Address
  target : Address
  value : ℕ
  minGasLimit : ℕ
  message : Bytes
  deriving DecidableEq

inductive BridgeCall
  | withdrawEther (dest : Address)
  | withdrawERC20 (token dest : Address) (amount : ℕ)

inductive ConfigCall
  | setFee (fee : ℕ)
  | registerPortal (kind : ℕ) (portal : Address)
  | registerMessenger (l1Messenger l1Bridge : Address)
  | registerToken (l1Token : Address) (width : ℕ) (name symbol : String) (decimals : ℕ)
  | setTokenMetadata (l1Token : Address) (name symbol : String) (decimals : ℕ)
  | fee
  | owner

inductive Erc20Call
  | balanceOf (owner : Address)
  | totalSupply
  | decimals
  | name
  | symbol
  | transfer (dest : Address) (value : ℕ)

inductive L2BridgeCall
  | bridgeERC20 (localToken remoteToken : Address) (amount minGasLimit : ℕ) (extraData : Bytes)
  | bridgeERC20To (localToken remoteToken dest : Address) (amount minGasLimit : ℕ)
      (extraData : Bytes)
  | finalizeBridgeERC20 (localToken remoteToken sender dest : Address) (amount : ℕ)
      (extraData : Bytes)
  | finalizeBridgeETH (sender dest : Address) (amount : ℕ) (extraData : Bytes)

inductive MessengerCall
  | relayMessage (m : CrossDomainMessage)
  | messageNonce
  | successfulMessages (hash : Bytes)
  | failedMessages (hash : Bytes)

/-- `initiateWithdrawal`, the one function of `messagePasserAbi`. -/
structure PasserCall where
  target : Address
  gasLimit : ℕ
  data : Bytes

inductive RegistryCall
  | handlerAt (target : Address)
  | handlers
  | l2TokenOf (l1Token : Address)

inductive L1BlockCall
  | number
  | timestamp
  | basefee
  | blobBaseFee
  | hash
  | sequenceNumber
  | batcherHash
  | baseFeeScalar
  | blobBaseFeeScalar

def ConfigCall.functionName : ConfigCall → String
  | .setFee .. => "setFee"
  | .registerPortal .. => "registerPortal"
  | .registerMessenger .. => "registerMessenger"
  | .registerToken .. => "registerToken"
  | .setTokenMetadata .. => "setTokenMetadata"
  | .fee => "fee"
  | .owner => "owner"

def Erc20Call.functionName : Erc20Call → String
  | .balanceOf .. => "balanceOf"
  | .totalSupply => "totalSupply"
  | .decimals => "decimals"
  | .name => "name"
  | .symbol => "symbol"
  | .transfer .. => "transfer"

def MessengerCall.functionName : MessengerCall → String
  | .relayMessage .. => "relayMessage"
  | .messageNonce => "messageNonce"
  | .successfulMessages .. => "successfulMessages"
  | .failedMessages .. => "failedMessages"

def L2BridgeCall.functionName : L2BridgeCall → String
  | .bridgeERC20 .. => "bridgeERC20"
  | .bridgeERC20To .. => "bridgeERC20To"
  | .finalizeBridgeERC20 .. => "finalizeBridgeERC20"
  | .finalizeBridgeETH .. => "finalizeBridgeETH"

/-! ## Outputs -/

/-- Calldata that a handler sends to L1. -/
inductive Calldata
  | bytes (b : Bytes)
  | transfer (dest : Address) (amount : ℕ)
  | finalizeBridgeERC20 (localToken remoteToken sender dest : Address) (amount : ℕ)
      (extraData : Bytes)
  | relayMessage (nonce : ℕ) (sender target : Address) (value minGasLimit : ℕ)
      (message : Calldata)
  deriving DecidableEq

/-- The length of a dynamic `bytes` argument of `n` bytes: its length word and its padded
    content. -/
def paddedSize (n : ℕ) : ℕ := 32 + (n + 31) / 32 * 32

/-- The size of the encoded calldata: a selector, six words of arguments or two. -/
def Calldata.size : Calldata → ℕ
  | .bytes b => b.length
  | .transfer .. => 4 + 2 * 32
  | .finalizeBridgeERC20 _ _ _ _ _ extraData => 4 + 6 * 32 + paddedSize extraData.length
  | .relayMessage _ _ _ _ _ message => 4 + 6 * 32 + paddedSize message.size

/-- `WithdrawalMessage` (`withdrawal.ts:46-53`). -/
structure WithdrawalMessage where
  nonce : ℕ
  sender : Address
  target : Address
  value : ℕ
  gasLimit : ℕ
  data : Calldata
  deriving DecidableEq

/-- The events the guest emits: the first topic, the indexed arguments and the data. -/
inductive Event
  | transfer (source dest : Address) (value : ℕ)
  | feeSet (fee : ℕ)
  | portalRegistered (kind : ℕ) (portal aliased : Address)
  | messengerRegistered (l1Messenger l1Bridge : Address)
  | tokenRegistered (l1Token l2Token : Address) (id : ℕ)
  | erc20BridgeInitiated (localToken remoteToken sender dest : Address) (amount : ℕ)
      (extraData : Bytes)
  | erc20BridgeFinalized (localToken remoteToken sender dest : Address) (amount : ℕ)
      (extraData : Bytes)
  | ethBridgeFinalized (sender dest : Address) (amount : ℕ) (extraData : Bytes)
  | messagePassed (w : WithdrawalMessage) (withdrawalHash : Bytes)
  | sentMessage (target sender : Address) (message : Calldata) (messageNonce gasLimit : ℕ)
  | sentMessageExtension1 (sender : Address) (value : ℕ)
  | relayedMessage (msgHash : Bytes) (failed : Bool)
  | other (topics : List Bytes) (data : Bytes)
  deriving DecidableEq

/-- What a notice carries: an `EvmLog`, a `Withdrawal`, or an application's own bytes. -/
inductive Payload
  | evmLog (emitter : Address) (event : Event)
  | withdrawal (w : WithdrawalMessage)
  | bytes (b : Bytes)
  deriving DecidableEq

/-- What a report or a revert carries: `errorRevert` of a reason, or bytes. -/
inductive ReportData
  | errorRevert (reason : String)
  | bytes (b : Bytes)
  deriving DecidableEq

/-- The tag of a report (`types.ts:113-116`). -/
inductive Tag
  | app
  | revert
  | fail
  deriving DecidableEq

/-- `Emission` (`types.ts:76-79`). -/
inductive Emission
  | notice (payload : Payload)
  | voucher (destination : Address) (value : ℕ) (payload : Calldata)
  | report (tag : Tag) (payload : ReportData)
  deriving DecidableEq

def Emission.isReport : Emission → Bool
  | .report .. => true
  | _ => false

/-! ## Contexts and outcomes -/

/-- `BlockContext` (`types.ts:12-19`). -/
structure BlockContext where
  chainId : ℕ
  appContract : Address
  blockNumber : ℕ
  timestamp : ℕ
  prevRandao : ℕ
  inputIndex : ℕ

/-- `TxContext` (`types.ts:23-36`). -/
structure TxContext where
  block : BlockContext
  sender : Address
  /-- The transaction's `to`. -/
  dest : Address
  value : ℕ
  data : Bytes
  isDeposit : Bool
  mint : ℕ

/-- `CallContext` (`types.ts:39-44`). -/
structure CallContext where
  sender : Address
  /-- The call's `to`. -/
  dest : Address
  value : ℕ
  data : Bytes

/-- What a view returns, before `encodeFunctionResult`. -/
inductive ReturnData
  | empty
  | uint (n : ℕ)
  | bool (b : Bool)
  | address (a : Address)
  | bytes32 (b : Bytes)
  | string (s : String)
  | addresses (as : List Address)
  | routed (found payable : Bool)
  | bytes (b : Bytes)
  deriving DecidableEq

/-- `ViewOutcome` (`types.ts:72`). -/
inductive ViewOutcome
  | returned (data : ReturnData)
  | revert (data : ReportData)
  deriving DecidableEq

/-- A report that answers an inspect: `TAG_RETURN`, `TAG_REVERT` or `TAG_FAIL` and its data. -/
inductive InspectReport
  | returned (data : ReturnData)
  | revert (data : ReportData)
  | fail (data : ReportData)
  deriving DecidableEq

/-- `InspectResult` (`router.ts:78-81`). -/
structure InspectResult where
  accept : Bool
  reports : List InspectReport

/-- `DecodedCall` (`evmcall.ts:32-39`) without its `chainId`, which nothing reads. -/
structure DecodedCall where
  simulate : Bool
  /-- The call's `from`. -/
  sender : Address
  /-- The call's `to`. -/
  dest : Address
  value : ℕ
  data : Bytes

/-- `AdvanceOutcome` (`types.ts:66-70`). -/
inductive AdvanceOutcome
  | accept
  | revert (data : ReportData)
  | fail (data : ReportData)
  | reject (reason : String)
  deriving DecidableEq

/-- `AdvanceResult.outcome` (`router.ts:74`); `unparsed` is "opaque". -/
inductive Outcome
  | accept
  | revert
  | fail
  | reject
  | unparsed
  deriving DecidableEq

/-- `AdvanceResult` (`router.ts:69-76`). -/
structure AdvanceResult where
  accept : Bool
  emissions : List Emission
  outcome : Outcome
  reason : Option String

/-! ## Errors -/

/-- What guest code throws: a drive error, `InsufficientFunds`, or an `Error`. -/
inductive AppError
  | drive (e : DriveError)
  | insufficientFunds (what : String)
  | error (message : String)
  deriving DecidableEq

/-- The kind of an `AccountsDriveError` (`drive.ts:123-132`). The other drive errors are
    plain `Error`s, named here without the numbers of their messages. -/
def driveKind : DriveError → Option String
  | .tableFull => some "tableFull"
  | .registryFull => some "registryFull"
  | .overflow => some "overflow"
  | .nonceProtected => some "nonceProtected"
  | .duplicateToken => some "duplicateToken"
  | .unknownToken => some "unknownToken"
  | .badWidth => some "badWidth"
  | .zeroAddress => some "zeroAddress"
  | .profile => some "profile"
  | _ => none

/-- `describe` (`router.ts:523-528`). -/
def describe : AppError → String
  | .drive e =>
    match driveKind e with
    | some kind => "drive: " ++ kind
    | none => "drive access"
  | .insufficientFunds what => "insufficient " ++ what
  | .error message => message

/-! ## Inputs (`tx.ts`) -/

/-- The transaction types of viem's op-stack parser. -/
inductive TxType
  | deposit
  | legacy
  | eip2930
  | eip1559
  | eip4844
  | eip7702
  deriving DecidableEq

def TxType.name : TxType → String
  | .deposit => "deposit"
  | .legacy => "legacy"
  | .eip2930 => "eip2930"
  | .eip1559 => "eip1559"
  | .eip4844 => "eip4844"
  | .eip7702 => "eip7702"

/-- A JavaScript `number` holding a natural number. -/
abbrev Number := { n : ℕ // toNumber n = n }

instance : Zero Number := ⟨⟨0, rfl⟩⟩

instance : One Number := ⟨⟨1, rfl⟩⟩

/-- `AnyParsedTx` (`tx.ts:75-86`). -/
structure AnyParsedTx where
  type : TxType
  /-- The deposit's `from`. -/
  sender : Option Address
  /-- The transaction's `to`. -/
  dest : Option Address
  mint : Option ℕ
  value : Option ℕ
  data : Bytes
  chainId : Option Number
  nonce : Option Number
  r : Option ℕ
  s : Option ℕ

structure Deposit where
  /-- The deposit's `from`. -/
  sender : Address
  /-- The transaction's `to`. -/
  dest : Option Address
  mint : ℕ
  value : ℕ
  data : Bytes

structure SignedTx where
  type : TxType
  chainId : Option ℕ
  nonce : Number
  /-- The transaction's `to`. -/
  dest : Option Address
  value : ℕ
  data : Bytes
  s : ℕ
  raw : Bytes

/-- `ParsedInput` (`tx.ts:22-54`); `unparsed` is "opaque". -/
inductive ParsedInput
  | deposit (d : Deposit)
  | signed (tx : SignedTx)
  | unparsed
  | refused (reason : String)

/-- What the guest takes from its libraries. Nothing is assumed of these functions. -/
structure Viem where
  keccak256 : Bytes → Bytes
  parseTransaction : Bytes → Option AnyParsedTx
  recoverTransactionAddress : Bytes → Option Address
  encodeRelayMessage : CrossDomainMessage → Bytes
  /-- `encodeAbiParameters` of a withdrawal's fields. -/
  encodeWithdrawalParams : WithdrawalMessage → Bytes
  decodeBridge : Bytes → Option BridgeCall
  decodeConfig : Bytes → Option ConfigCall
  decodeErc20 : Bytes → Option Erc20Call
  decodeL2Bridge : Bytes → Option L2BridgeCall
  decodeMessenger : Bytes → Option MessengerCall
  decodePasser : Bytes → Option PasserCall
  decodeRegistry : Bytes → Option RegistryCall
  decodeL1Block : Bytes → Option L1BlockCall
  /-- `decodeAbiParameters` of the fields of an `EvmCall`: `from`, `to`, value and data. -/
  decodeCallParams : Bytes → Option (Address × Address × ℕ × Bytes)

/-- UTF-8. -/
def stringToBytes (s : String) : Bytes := s.toUTF8.toList.map fun b => Fin.ofNat 256 b.toNat

namespace Viem

variable (V : Viem)

/-- The platform of the guest's accounts drive. -/
def platform : Platform := Ts.platform fun seed key => V.keccak256 (seed ++ key)

/-- `l2TokenAddress` (`addresses.ts:34-37`): the last twenty bytes of the hash. -/
def l2TokenAddress (l1Token : Address) : Address :=
  let hash := V.keccak256 (stringToBytes "ctsi.erc20.v1" ++ l1Token.val)
  toAddress (hash.drop (hash.length - 20))

/-- `hashCrossDomainMessageV1` (`crossdomain.ts:111-113`). -/
def hashCrossDomainMessageV1 (m : CrossDomainMessage) : Bytes :=
  V.keccak256 (V.encodeRelayMessage m)

/-- `withdrawalHash` (`withdrawal.ts:93-104`). -/
def withdrawalHash (w : WithdrawalMessage) : Bytes := V.keccak256 (V.encodeWithdrawalParams w)

/-- `toFunctionSelector`. -/
def toFunctionSelector (signature : String) : Bytes :=
  (V.keccak256 (stringToBytes signature)).take 4

/-- `decodeEvmCall` (`evmcall.ts:41-61`). -/
def decodeEvmCall (payload : Bytes) : Option DecodedCall :=
  if payload.length < 4 then none
  else
    let selector := payload.take 4
    let simulate := selector = V.toFunctionSelector "EvmSimulate(uint256,address,address,uint256,bytes)"
    if ¬simulate ∧ selector ≠ V.toFunctionSelector "EvmCall(uint256,address,address,uint256,bytes)"
    then none
    else
      match V.decodeCallParams (payload.drop 4) with
      | none => none
      | some (sender, dest, value, data) => some ⟨decide simulate, sender, dest, value, data⟩

def HALF_N : ℕ := 0x7fffffffffffffffffffffffffffffff5d576e7357a4501ddfe92f46681b20a0

/-- `isSerializedTransaction` (`tx.ts:66-69`). -/
def isSerializedTransaction : Bytes → Bool
  | [] => false
  | b :: _ => 0xc0 ≤ b.val || (1 ≤ b.val && b.val ≤ 4)

/-- `parseInput` (`tx.ts:88-128`). -/
def parseInput (raw : Bytes) : ParsedInput :=
  match V.parseTransaction raw with
  | none => .unparsed
  | some tx =>
    if tx.type = .deposit then
      match tx.sender with
      | none => .unparsed
      | some sender => .deposit
        { sender, dest := tx.dest, mint := tx.mint.getD 0, value := tx.value.getD 0, data := tx.data }
    else if tx.type ≠ .legacy ∧ tx.type ≠ .eip2930 ∧ tx.type ≠ .eip1559 then
      .refused ("transaction type " ++ tx.type.name ++ " not admitted")
    else
      match tx.r, tx.s with
      | some _, some s =>
        if isSerializedTransaction raw = false then .unparsed
        else .signed
          { type := tx.type, chainId := tx.chainId.map Subtype.val, nonce := tx.nonce.getD 0
            dest := tx.dest, value := tx.value.getD 0, data := tx.data, s, raw }
      | _, _ => .unparsed

/-- `recoverSender` (`tx.ts:132-141`). -/
def recoverSender (parsed : SignedTx) : Option Address :=
  if HALF_N < parsed.s then none else V.recoverTransactionAddress parsed.raw

end Viem

/-! ## Nonces and gas (`crossdomain.ts:47-57,130-146`, `withdrawal.ts:133-136`) -/

/-- `encodeVersionedNonce`. -/
def encodeVersionedNonce (nonce version : ℕ) : ℕ := (version <<< 240) ||| nonce

/-- The version of `decodeVersionedNonce`. -/
def nonceVersion (nonce : ℕ) : ℕ := nonce >>> 240

def MESSAGE_VERSION : ℕ := 1

def WITHDRAWAL_DEFAULT_GAS_LIMIT : ℕ := 100000

/-- `versionedWithdrawalNonce`. -/
def versionedWithdrawalNonce (inputIndex ordinal : ℕ) : Except AppError ℕ :=
  if 1 <<< 32 ≤ ordinal then .error (.error "too many withdrawals in one input")
  else .ok ((1 <<< 240) ||| (inputIndex <<< 32) ||| ordinal)

/-- `baseGas` (`crossdomain.ts:135-146`). -/
def baseGas (messageLength minGasLimit : ℕ) : ℕ :=
  let executionGas := 200000 + 40000 + 40000 + 5000 + minGasLimit * 64 / 63
  let totalMessageSize := messageLength + 260
  let withCalldata := executionGas + totalMessageSize * 16
  let floor := totalMessageSize * 40
  21000 + (if floor < withCalldata then withCalldata else floor)

end OpCartesi.App
