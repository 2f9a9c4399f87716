import OpCartesi.App.Types

/-!
# The node's vocabulary

The types of the Go packages `chain`, `machine` and `mempool`, and of what they take from
go-ethereum.

* A hash is a byte string, `zeroHash` the zero value of `common.Hash`.
* `Geth`: the hashing, RLP, ABI and JSON functions of go-ethereum as arbitrary functions.
* `Machine`: the emulator behind `machine.Machine`. An advance is a function of the state, the input
  and the cycle budget, and a fork is a copy.
* A block's header and body, payloads and payload attributes, the configuration.
* `Pool` (`mempool.go`): what the chain uses of the sequencer's queue.
-/

namespace OpCartesi.Node

open Drive

/-! ## Hashes -/

abbrev Hash := Bytes
abbrev PayloadID := Bytes

/-- `common.Hash{}`. -/
def zeroHash : Hash := zeros 32

/-- The hash a hexadecimal literal writes. -/
def hashOf (n : ℕ) : Hash := beBytes 32 n

/-- `types.EmptyUncleHash`, `EmptyTxsHash`, `EmptyReceiptsHash` and `EmptyRequestsHash`. -/
def EmptyUncleHash : Hash :=
  hashOf 0x1dcc4de8dec75d7aab85b567b6ccd41ad312451b948a7413f0a142fd40d49347
def EmptyTxsHash : Hash :=
  hashOf 0x56e81f171bcc55a6ff8345e692c0f86e5b48e01b996cadc001622fb5e363b421
def EmptyReceiptsHash : Hash := EmptyTxsHash
def EmptyRequestsHash : Hash :=
  hashOf 0xe3b0c44298fc1c149afbf4c8996fb92427ae41e4649b934ca495991b7852b855

/-- `types.BloomByteLength`. -/
def BloomByteLength : ℕ := 256

/-! ## Blocks and payloads -/

/-- `types.Header`. The fields that may be absent in a header this chain holds are options. -/
structure Header where
  parentHash : Hash
  uncleHash : Hash
  coinbase : Address
  root : Hash
  txHash : Hash
  receiptHash : Hash
  bloom : Bytes
  difficulty : ℕ
  number : ℕ
  gasLimit : ℕ
  gasUsed : ℕ
  time : ℕ
  extra : Bytes
  mixDigest : Hash
  nonce : Bytes
  baseFee : Option ℕ
  withdrawalsHash : Option Hash
  blobGasUsed : Option ℕ
  excessBlobGas : Option ℕ
  parentBeaconRoot : Hash
  requestsHash : Hash
  deriving DecidableEq

/-- The header its RLP encoding decodes to: an absent blob gas field is written as the empty
    string, which is how zero is written. -/
def Header.stored (h : Header) : Header :=
  { h with
    blobGasUsed := some (h.blobGasUsed.getD 0)
    excessBlobGas := some (h.excessBlobGas.getD 0) }

/-- `Block` (`block.go:19-24`). The cached hash is that of the header, `Block.hash`. -/
structure Block where
  header : Header
  txs : List Bytes
  deriving DecidableEq

/-- `NumberU64` (`block.go:31`). -/
def Block.number (b : Block) : ℕ := b.header.number

/-- `Time` (`block.go:32`). -/
def Block.time (b : Block) : ℕ := b.header.time

/-- `engine.ExecutableData`. -/
structure ExecutableData where
  parentHash : Hash
  feeRecipient : Address
  stateRoot : Hash
  receiptsRoot : Hash
  logsBloom : Bytes
  random : Hash
  number : ℕ
  gasLimit : ℕ
  gasUsed : ℕ
  timestamp : ℕ
  extraData : Bytes
  baseFeePerGas : Option ℕ
  blockHash : Hash
  transactions : List Bytes
  withdrawals : Option (List Bytes)
  blobGasUsed : Option ℕ
  excessBlobGas : Option ℕ
  withdrawalsRoot : Option Hash
  deriving DecidableEq

/-- `engine.PayloadAttributes`. -/
structure PayloadAttributes where
  timestamp : ℕ
  random : Hash
  suggestedFeeRecipient : Address
  withdrawals : List Bytes
  beaconRoot : Option Hash
  transactions : List Bytes
  noTxPool : Bool
  gasLimit : Option ℕ
  eip1559Params : Bytes
  deriving DecidableEq

/-- `engine.ForkchoiceStateV1`. -/
structure ForkchoiceState where
  headBlockHash : Hash
  safeBlockHash : Hash
  finalizedBlockHash : Hash

/-- `Config` (`config.go:23-61`). -/
structure Config where
  chainID : ℕ
  genesisTimestamp : ℕ
  gasLimit : ℕ
  baseFee : Option ℕ
  maxCyclesPerInput : ℕ
  appContract : Address
  maxSnapshots : ℤ
  checkpointInterval : ℕ
  checkpointRetention : ℤ
  eip1559Denominator : ℕ
  eip1559Elasticity : ℕ
  deriving DecidableEq

/-- `withDefaults` (`config.go:90-116`). -/
def Config.withDefaults (c : Config) : Config :=
  { c with
    gasLimit := if c.gasLimit = 0 then 30000000 else c.gasLimit
    baseFee := some (c.baseFee.getD 1000000000)
    maxCyclesPerInput := if c.maxCyclesPerInput = 0 then 1000000000 else c.maxCyclesPerInput
    maxSnapshots := if c.maxSnapshots ≤ 0 then 32 else c.maxSnapshots
    checkpointInterval := if c.checkpointInterval = 0 then 100 else c.checkpointInterval
    checkpointRetention := if c.checkpointRetention ≤ 0 then 3 else c.checkpointRetention
    eip1559Denominator := if c.eip1559Denominator = 0 then 250 else c.eip1559Denominator
    eip1559Elasticity := if c.eip1559Elasticity = 0 then 6 else c.eip1559Elasticity }

/-! ## Third-party functions -/

/-- The arguments of an `EvmAdvance` envelope (`input.go:16-19`). -/
structure EvmAdvance where
  chainId : ℕ
  appContract : Address
  msgSender : Address
  blockNumber : ℕ
  blockTimestamp : ℕ
  prevRandao : Hash
  index : ℕ
  payload : Bytes
  deriving DecidableEq

/-- `Withdrawal` (`withdrawal.go:24-37`). -/
structure Withdrawal where
  nonce : ℕ
  sender : Address
  target : Address
  value : ℕ
  gasLimit : ℕ
  data : Bytes
  deriving DecidableEq

/-- What the chain takes from go-ethereum and the Go library, `τ` being the type of decoded
    transactions. -/
structure Geth (τ : Type) where
  keccak256 : Bytes → Hash
  sha256 : Bytes → Bytes
  /-- The keccak of a header's RLP encoding. -/
  hashRLP : Header → Hash
  /-- `types.DeriveSha` over opaque bytes, with a `StackTrie`. -/
  deriveSha : List Bytes → Hash
  /-- `trie.Trie.Hash`, of the contents of the trie. -/
  trieHash : (Hash → Option Bytes) → Hash
  /-- `json.Marshal` of payload attributes. -/
  marshalJSON : PayloadAttributes → Option Bytes
  /-- `types.Transaction.UnmarshalBinary`, `MarshalBinary` and `Hash`. -/
  unmarshalBinary : Bytes → Option τ
  marshalBinary : τ → Option Bytes
  txHash : τ → Hash
  /-- `types.Sender` with the latest signer of a chain id. -/
  sender : ℕ → τ → Option Address
  /-- `abi.Arguments.Pack` and `Unpack` for the three ABI types of this package. -/
  packEvmAdvance : EvmAdvance → Option Bytes
  unpackNotice : Bytes → Option Bytes
  unpackWithdrawal : Bytes → Option Withdrawal
  packWithdrawal : Withdrawal → Option Bytes

section Hashing

variable {τ : Type} (G : Geth τ)

/-- `types.Header.Hash`. -/
def Header.hash (h : Header) : Hash := G.hashRLP h.stored

/-- `Block.Hash` (`block.go:30`). -/
def Block.hash (b : Block) : Hash := b.header.hash G
/-- `txHash` (`chain.go:701-707`). -/
def txHash (raw : Bytes) : Option Hash := (G.unmarshalBinary raw).map G.txHash

/-- The first four bytes of the hash of a signature. -/
def selector (signature : String) : Bytes :=
  (G.keccak256 (App.stringToBytes signature)).take 4

end Hashing

/-! ## The machine (`machine.go`) -/

/-- `Output` (`machine.go:51-54`). -/
structure Output where
  reason : ℕ
  data : Bytes

/-- `IsProvable` (`machine.go:58`): `CmioYieldAutomaticReasonTxOutput`. -/
def Output.isProvable (o : Output) : Bool := o.reason == 2

/-- `IsReport` (`machine.go:62`): `CmioYieldAutomaticReasonTxReport`. -/
def Output.isReport (o : Output) : Bool := o.reason == 4

/-- `AdvanceResult` (`machine.go:65-79`), without the guest's own outputs root, which the chain
    does not read. -/
structure AdvanceResult where
  accepted : Bool
  cycles : ℕ
  outputs : List Output

/-- `Machine` (`machine.go:93-131`), the part the chain runs blocks with: an emulator with states
    `σ`. A call that returns an error is `none`. -/
structure Machine (σ : Type) where
  advanceInput : σ → Bytes → ℕ → Option (AdvanceResult × σ)
  rootHash : σ → Option Hash
  fork : σ → Option σ
  /-- `Store`: the state a directory then loads to. -/
  store : σ → Option σ
  /-- A fork is an independent copy. -/
  fork_eq : ∀ {s s'}, fork s = some s' → s' = s

/-! ## The sequencer's queue (`mempool.go`) -/

/-- `senderNonce` (`mempool.go:34-37`). -/
structure SenderNonce where
  sender : Address
  nonce : ℕ
  deriving DecidableEq

/-- `entry` (`mempool.go:39-46`). -/
structure Entry where
  raw : Bytes
  hash : Hash
  sn : SenderNonce
  gated : Bool

/-- `Pool` (`mempool.go:49-63`). -/
structure Pool where
  txs : List Entry
  known : Finset Hash
  byNonce : Finset SenderNonce
  max : ℤ

/-- `Pending` (`mempool.go:199-207`). -/
def Pool.pending (p : Pool) : List Bytes := p.txs.map Entry.raw

/-- `Forget` (`mempool.go:211-233`). -/
def Pool.forget (p : Pool) (hashes : List Hash) : Pool :=
  let dropped := p.txs.filter fun e => e.hash ∈ hashes
  { p with
    txs := p.txs.filter fun e => e.hash ∉ hashes
    known := p.known \ (dropped.map Entry.hash).toFinset
    byNonce := p.byNonce \ ((dropped.filter Entry.gated).map Entry.sn).toFinset }

/-- Every queued transaction decodes, as `Add` requires (`mempool.go:105-108`). -/
def Pool.Decodes {τ : Type} (G : Geth τ) (p : Pool) : Prop :=
  ∀ e ∈ p.txs, ∃ tx, G.unmarshalBinary e.raw = some tx
/-! ## A small instance, for concrete runs -/

namespace Sample

/-- Transactions are raw bytes that do not start with `0xff`; the hash of a header shows its number,
    its randomness and its parent. As `StackTrie` does, `deriveSha` skips empty values. -/
def geth : Geth Bytes where
  keccak256 b := b
  sha256 b := b.reverse
  hashRLP h := 1 :: Fin.ofNat 256 h.number :: h.mixDigest ++ h.parentHash
  deriveSha txs :=
    match txs.zipIdx.filter fun x => x.1 ≠ [] with
    | [] => EmptyTxsHash
    | kept => 2 :: kept.flatMap fun x => Fin.ofNat 256 x.2 :: Fin.ofNat 256 x.1.length :: x.1
  trieHash _ := hashOf 7
  marshalJSON attrs := some (zeros 8 ++ attrs.random ++ [Fin.ofNat 256 attrs.timestamp])
  unmarshalBinary raw := if raw = [] ∨ raw.head? = some 0xff then none else some raw
  marshalBinary tx := some tx
  txHash tx := tx
  sender _ _ := none
  packEvmAdvance e := some (Fin.ofNat 256 e.index :: e.payload)
  unpackNotice _ := none
  unpackWithdrawal _ := none
  packWithdrawal _ := none

end Sample

end OpCartesi.Node
