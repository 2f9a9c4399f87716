import OpCartesi.Chain.Store

/-!
# The chain (`chain.go`, `persist.go`)

The state of a node and its calls, as computations that keep the state reached when they fail.

* `Chain`: the maps of `Chain` as functions, the pending payloads as a list.
* `Executed`: a validated block with what executing it produced, the arguments of `commit`.
* `new`, `adopt`: a fresh chain and attaching a store to it.
* `forkchoiceUpdated`, `buildPayload`, `importPayload`: the engine's calls.
-/

namespace OpCartesi.Node

open Drive Exec

variable {σ τ : Type}

/-! ## State -/

/-- `pendingPayload` (`chain.go:31-39`). -/
structure PendingPayload (σ : Type) where
  data : ExecutableData
  beaconRoot : Hash
  machine : σ
  outputs : List TxOutputs
  tree : OutputTree
  passer : PasserTrie
  firstInput : ℕ

/-- A validated block and what executing it produced: the arguments of `commit`
    (`chain.go:670`). -/
structure Executed (σ : Type) where
  block : Block
  machine : σ
  outputs : List TxOutputs
  tree : OutputTree
  passer : PasserTrie
  firstInput : ℕ

/-- The inputs the chain has consumed through the block. -/
def Executed.inputs (x : Executed σ) : ℕ := x.firstInput + x.block.txs.length

/-- `Chain` (`chain.go:41-96`), without the caches of the drives' addresses. -/
structure Chain (σ τ : Type) where
  cfg : Config
  pool : Option Pool
  blocks : Hash → Option Block
  canonical : ℕ → Option Hash
  machines : Hash → Option σ
  outputs : Hash → List TxOutputs
  trees : Hash → Option OutputTree
  passers : Hash → Option PasserTrie
  inputs : Hash → Option ℕ
  txBlocks : Hash → List Hash
  pending : List (PayloadID × PendingPayload σ)
  store : Option (Store σ τ)
  da : DALimits
  genesisHash : Hash
  head : Hash
  safe : Hash
  finalized : Hash

/-- What Go leaves open and a call fixes: the order of directories of one height, and the order in
    which the pending map is ranged over. -/
structure Runtime (σ : Type) extends DirSort σ where
  order : List (PayloadID × PendingPayload σ) → List (PayloadID × PendingPayload σ)
  order_perm : ∀ l, (order l).Perm l

/-- The reasons an import answers INVALID. -/
inductive Invalid
  | payload (e : PayloadError)
  | blockHashMismatch (computed claims : Hash)
  | notParentNumberPlusOne
  | timestampNotAfterParent
  | stateRootMismatch (computed claims : Hash)
  | gasUsedMismatch (computed claims : ℕ)
  | withdrawalsRootMismatch (computed : Hash) (claims : Option Hash)
  deriving DecidableEq

/-- `engine.PayloadStatusV1`. -/
inductive PayloadStatus
  | valid (latestValidHash : Hash)
  | invalid (latestValidHash : Option Hash) (error : Invalid)
  | syncing
  deriving DecidableEq

/-- `engine.ForkChoiceResponse`. -/
inductive ForkChoiceResponse
  | syncing
  | valid (latestValidHash : Hash) (payloadID : Option PayloadID)
  deriving DecidableEq

variable (G : Geth τ) (M : Machine σ)

/-! ## A fresh chain (`chain.go:98-165`) -/

/-- The genesis header (`chain.go:123-145`). -/
def genesisHeader (cfg : Config) (root : Hash) (extra : Bytes) (withdrawalsHash : Hash) :
    Header where
  parentHash := zeroHash
  uncleHash := EmptyUncleHash
  coinbase := App.ZERO_ADDRESS
  root := root
  txHash := EmptyTxsHash
  receiptHash := EmptyReceiptsHash
  bloom := zeros BloomByteLength
  difficulty := 0
  number := 0
  gasLimit := cfg.gasLimit
  gasUsed := 0
  time := cfg.genesisTimestamp
  extra := extra
  mixDigest := zeroHash
  nonce := zeros 8
  baseFee := cfg.baseFee
  withdrawalsHash := some withdrawalsHash
  blobGasUsed := some 0
  excessBlobGas := some 0
  parentBeaconRoot := zeroHash
  requestsHash := EmptyRequestsHash

/-- A chain that holds one block, as `New` (`chain.go:147-163`) and `adopt`
    (`persist.go:224-246`) make it. -/
def singleton (cfg : Config) (pool : Option Pool) (store : Option (Store σ τ)) (x : Executed σ)
    (txBlocks : Hash → List Hash) (genesisHash : Hash) : Chain σ τ where
  cfg := cfg
  pool := pool
  blocks := Function.update (fun _ => none) (x.block.hash G) (some x.block)
  canonical := Function.update (fun _ => none) x.block.number (some (x.block.hash G))
  machines := Function.update (fun _ => none) (x.block.hash G) (some x.machine)
  outputs := Function.update (fun _ => []) (x.block.hash G) x.outputs
  trees := Function.update (fun _ => none) (x.block.hash G) (some x.tree)
  passers := Function.update (fun _ => none) (x.block.hash G) (some x.passer)
  inputs := Function.update (fun _ => none) (x.block.hash G) (some x.inputs)
  txBlocks := txBlocks
  pending := []
  store := store
  da := ⟨0, 0⟩
  genesisHash := genesisHash
  head := x.block.hash G
  safe := x.block.hash G
  finalized := x.block.hash G

/-- The genesis block with its records: no outputs, and a commitment of the empty tree's root. -/
def genesis (cfg : Config) (m : σ) : Except ChainError (Executed σ) := do
  let root ← expect (M.rootHash m) .rootHashFailed
  let extra ← cfg.genesisExtraData
  let passer := newPasserTrie.setOutputsRoot G (newOutputTree.root G)
  pure ⟨⟨genesisHeader cfg root extra (passer.root G), []⟩, m, [], newOutputTree, passer, 0⟩

/-- `New` (`chain.go:101-165`). -/
def new (cfg : Config) (m : σ) (pool : Option Pool) : Except ChainError (Chain σ τ) := do
  let cfg := cfg.withDefaults
  cfg.validate
  let x ← genesis G M cfg m
  pure (singleton G cfg pool none x (fun _ => []) (x.block.hash G))

namespace Chain

/-! ## Forkchoice (`chain.go:205-312`) -/

/-- `reorgTo` (`chain.go:260-280`). -/
def reorgTo (c : Chain σ τ) (head : Block) : Chain σ τ :=
  let kept := fun n => if head.number < n then none else c.canonical n
  { c with canonical := Store.relabel G c.blocks kept (head.number + 1) head kept }

/-- `isCanonical` (`persist.go:308-320`). -/
def isCanonical (c : Chain σ τ) (hash : Hash) : Bool :=
  match c.blocks hash with
  | some b => c.canonical b.number == some hash
  | none =>
    match c.store with
    | none => false
    | some s =>
      match s.block G hash with
      | none => false
      | some b => s.canonical b.number == some hash

/-- The height of a held block. -/
def numberOf (c : Chain σ τ) (hash : Hash) : ℕ :=
  match c.blocks hash with
  | some b => b.number
  | none => 0

/-- `prune` (`chain.go:285-312`). The head and every block with a machine are held. -/
def prune (c : Chain σ τ) : Chain σ τ :=
  let headNum := c.numberOf c.head
  let cutoff := headNum - c.cfg.maxSnapshots.toNat
  { c with
    machines := fun h =>
      if h = c.head ∨ h = c.safe ∨ h = c.finalized ∨ cutoff ≤ c.numberOf h then c.machines h
      else none
    pending := c.pending.filter fun p => decide (headNum < p.2.data.number) }

variable (rt : Runtime σ)

/-- `checkpoint` (`persist.go:194-216`). -/
def checkpoint (c : Chain σ τ) (s : Store σ τ) (b : Block) : Store σ τ :=
  match c.machines (b.hash G) with
  | none => s
  | some m =>
    if s.hasDir b.number (b.hash G) then s
    else
      match M.fork m with
      | none => s
      | some forked =>
        match M.store forked with
        | none => s
        | some saved =>
          { s with dirs := ⟨b.number, (b.hash G).take 6, some saved⟩ :: s.dirs }.pruneCheckpoints
            rt.toDirSort c.cfg.checkpointRetention.toNat

/-- `checkpointIfFinalized` (`persist.go:261-273`). -/
def checkpointIfFinalized (c : Chain σ τ) (s : Store σ τ) : Store σ τ :=
  if c.cfg.checkpointInterval = 0 ∨ c.finalized = zeroHash then s
  else
    match c.blocks c.finalized with
    | none => s
    | some b =>
      if b.number = 0 then s
      else
        match s.latestCheckpoint rt.toDirSort b.number with
        | some cp => if b.number ≤ cp.number then s else c.checkpoint G M rt s b
        | none => c.checkpoint G M rt s b

/-- What `ForkchoiceUpdated` writes to the store (`chain.go:233-243`). -/
def recordForkchoice (c : Chain σ τ) (head : Block) : Chain σ τ :=
  { c with
    store := c.store.map fun s =>
      c.checkpointIfFinalized G M rt
        ((s.setCanonical G head c.blocks).setHeads c.head c.safe c.finalized) }

/-! ## Building (`chain.go:314-419`) -/

/-- `payloadID` (`chain.go:314-323`). -/
def payloadID (parent : Hash) (attrs : PayloadAttributes) : Except ChainError PayloadID :=
  expect ((G.marshalJSON attrs).map fun encoded => (G.sha256 (parent ++ encoded)).take 8)
    .marshalAttributes

/-- `extendPasser` (`chain.go:404-419`). -/
def extendPasser (c : Chain σ τ) (parent : Hash) (outputs : List TxOutputs) (tree : OutputTree) :
    Except ChainError PasserTrie := do
  let base ← expect (c.passers parent) (.noWithdrawalCommitment parent)
  pure (base.extend G outputs tree)

/-- The transactions a build may take from the pool (`chain.go:345-348`). -/
def poolTxs (c : Chain σ τ) (attrs : PayloadAttributes) : List Bytes :=
  if attrs.noTxPool then [] else c.pool.elim [] Pool.pending

/-- The gas limit of a build (`chain.go:341-344`). -/
def gasLimitFor (parent : Block) (attrs : PayloadAttributes) : ℕ :=
  attrs.gasLimit.getD parent.header.gasLimit

/-- Running a build's inputs (`chain.go:341-363`): the first input index, what was executed and the
    hashes to forget. -/
def runBuild (c : Chain σ τ) (parent : Block) (attrs : PayloadAttributes) (parentMachine : σ) :
    Except ChainError (ℕ × ExecResult σ × List Hash) := do
  let work ← expect (M.fork parentMachine) .forkFailed
  let firstInput ← expect (c.inputs (parent.hash G)) (.noInputCounter (parent.hash G))
  let ic := c.cfg.inputContextFor parent.header attrs.timestamp attrs.random firstInput
  let (exec, dropped) ← applyBuild G M c.cfg ic c.da work attrs.transactions (c.poolTxs attrs)
    (gasLimitFor parent attrs)
  pure (firstInput, exec, dropped)

/-- Assembling the payload of a build (`chain.go:364-397`). -/
def assemble (c : Chain σ τ) (parent : Block) (attrs : PayloadAttributes) (firstInput : ℕ)
    (exec : ExecResult σ) : Except ChainError (PendingPayload σ) := do
  let root ← expect (M.rootHash exec.machine) .rootHashFailed
  let extra ← c.cfg.extraData attrs.eip1559Params
  let base ← expect (c.trees (parent.hash G)) (.noAccumulator (parent.hash G))
  let tree ← expect (base.append G (outputLeaves G exec.outputs)) .panicked
  let passer ← c.extendPasser G (parent.hash G) exec.outputs tree
  let gasLimit := gasLimitFor parent attrs
  let header := buildHeader G parent.header attrs root exec.included (min exec.gasUsed gasLimit)
    gasLimit c.cfg.baseFee extra (passer.root G)
  pure ⟨executableData G header exec.included, header.parentBeaconRoot, exec.machine, exec.outputs,
    tree, passer, firstInput⟩

/-- `pool.Forget` (`chain.go:505-507`, `682-690`). -/
def forget (c : Chain σ τ) (hashes : List Hash) : Chain σ τ :=
  { c with pool := c.pool.map fun p => p.forget hashes }

/-- `buildPayload` (`chain.go:328-399`). -/
def buildPayload (parent : Block) (attrs : PayloadAttributes) :
    EStateM ChainError (Chain σ τ) PayloadID := do
  let c ← get
  let parentMachine ← check (expect (c.machines (parent.hash G))
    (.unknownParentState (parent.hash G)))
  let id ← check (payloadID G (parent.hash G) attrs)
  if c.pending.any fun p => p.1 == id then pure id
  else do
    let (firstInput, exec, dropped) ← check (c.runBuild G M parent attrs parentMachine)
    modify fun c => c.forget dropped
    let p ← check (c.assemble G M parent attrs firstInput exec)
    modify fun c => { c with pending := c.pending ++ [(id, p)] }
    pure id

/-- One of the two pointers of a forkchoice request (`chain.go:219-230`). -/
def updateRef (hash : Hash) (put : Hash → Chain σ τ → Chain σ τ) :
    EStateM ChainError (Chain σ τ) Unit := do
  let c ← get
  if hash = zeroHash then pure ()
  else if c.isCanonical G hash then modify (put hash)
  else throw .invalidForkChoiceState

/-- `ForkchoiceUpdated` (`chain.go:208-257`). -/
def forkchoiceUpdated (fc : ForkchoiceState) (attrs : Option PayloadAttributes) :
    EStateM ChainError (Chain σ τ) ForkChoiceResponse := do
  let c ← get
  match c.blocks fc.headBlockHash with
  | none => pure .syncing
  | some head => do
    modify fun c => c.reorgTo G head
    updateRef G fc.safeBlockHash fun h c => { c with safe := h }
    updateRef G fc.finalizedBlockHash fun h c => { c with finalized := h }
    modify fun c => { c with head := head.hash G }.prune.recordForkchoice G M rt head
    match attrs with
    | none => pure (.valid (head.hash G) none)
    | some attrs =>
      if attrs.timestamp ≤ head.time then throw .invalidPayloadAttributes
      else do
        let id ← tryCatch (buildPayload G M head attrs) fun e => throw (.buildingPayload e)
        pure (.valid (head.hash G) (some id))

/-! ## Importing (`chain.go:569-699`, `persist.go:167-216`) -/

/-- Re-executing a payload on its parent (`chain.go:609-662`). An early return is an error here:
    the status or error the call then answers with. -/
def reexecute (c : Chain σ τ) (header : Header) (data : ExecutableData) (parentHash : Hash) :
    Except (Except ChainError PayloadStatus) (Executed σ) := do
  let parentMachine ← expect (c.machines data.parentHash) (.ok .syncing)
  let work ← expect (M.fork parentMachine) (.error .forkFailed)
  let firstInput ← expect (c.inputs data.parentHash) (.ok .syncing)
  let exec ← (replayImport G M c.cfg (c.cfg.inputContextOf header firstInput) work
    data.transactions).mapError .error
  let root ← expect (M.rootHash exec.machine) (.error .rootHashFailed)
  require (root = data.stateRoot)
    (.ok (.invalid (some parentHash) (.stateRootMismatch root data.stateRoot)))
  require (min exec.gasUsed data.gasLimit = data.gasUsed)
    (.ok (.invalid (some parentHash)
      (.gasUsedMismatch (min exec.gasUsed data.gasLimit) data.gasUsed)))
  let base ← expect (c.trees data.parentHash) (.ok .syncing)
  let tree ← expect (base.append G (outputLeaves G exec.outputs)) (.error .panicked)
  let passer ← (c.extendPasser G data.parentHash exec.outputs tree).mapError fun _ => .ok .syncing
  require (some (passer.root G) = data.withdrawalsRoot)
    (.ok (.invalid (some parentHash)
      (.withdrawalsRootMismatch (passer.root G) data.withdrawalsRoot)))
  pure ⟨⟨header, data.transactions⟩, exec.machine, exec.outputs, tree, passer, firstInput⟩

/-- `ImportPayload` up to its commit (`chain.go:573-662`): the block to commit, and the pending
    payload it was adopted from. -/
def verify (c : Chain σ τ) (data : ExecutableData) (beaconRoot : Option Hash) :
    Except (Except ChainError PayloadStatus) (Executed σ × Option PayloadID) := do
  let header ← (headerFromPayload G data beaconRoot).mapError fun e =>
    .ok (.invalid none (.payload e))
  require (header.hash G = data.blockHash)
    (.ok (.invalid none (.blockHashMismatch (header.hash G) data.blockHash)))
  require (c.blocks (header.hash G) = none) (.ok (.valid (header.hash G)))
  let parent ← expect (c.blocks data.parentHash) (.ok .syncing)
  require (data.number = parent.number + 1)
    (.ok (.invalid (some (parent.hash G)) .notParentNumberPlusOne))
  require (parent.time < data.timestamp)
    (.ok (.invalid (some (parent.hash G)) .timestampNotAfterParent))
  match (rt.order c.pending).find? fun p => p.2.data.blockHash == header.hash G with
  | some (id, p) =>
    pure (⟨⟨header, data.transactions⟩, p.machine, p.outputs, p.tree, p.passer, p.firstInput⟩,
      some id)
  | none => do
    let x ← c.reexecute G M header data (parent.hash G)
    pure (x, none)

/-- `commit` (`chain.go:670-691`). -/
def commit (c : Chain σ τ) (x : Executed σ) : Chain σ τ :=
  { c.forget (x.block.txs.filterMap (txHash G)) with
    blocks := Function.update c.blocks (x.block.hash G) (some x.block)
    machines := Function.update c.machines (x.block.hash G) (some x.machine)
    outputs := Function.update c.outputs (x.block.hash G) x.outputs
    trees := Function.update c.trees (x.block.hash G) (some x.tree)
    passers := Function.update c.passers (x.block.hash G) (some x.passer)
    inputs := Function.update c.inputs (x.block.hash G) (some x.inputs)
    txBlocks := fun h =>
      c.txBlocks h ++ (x.outputs.filter fun o => o.txHash ≠ zeroHash ∧ o.txHash = h).map
        fun _ => x.block.hash G }

/-- `persist` (`persist.go:174-189`). -/
def persist (c : Chain σ τ) (x : Executed σ) : Chain σ τ :=
  { c with
    store := c.store.map fun s =>
      match s.putBlock G x.block x.outputs x.tree x.inputs with
      | .error _ => s
      | .ok s' =>
        if c.cfg.checkpointInterval = 0 ∨ x.block.number = 0 ∨
            x.block.number % c.cfg.checkpointInterval ≠ 0 then s'
        else c.checkpoint G M rt s' x.block }

/-- `commitAndPersist` (`chain.go:696-699`). -/
def commitAndPersist (c : Chain σ τ) (x : Executed σ) : Chain σ τ :=
  (c.commit G x).persist G M rt x

/-- `ImportPayload` (`chain.go:572-665`). -/
def importPayload (data : ExecutableData) (beaconRoot : Option Hash) :
    EStateM ChainError (Chain σ τ) PayloadStatus := do
  let c ← get
  match c.verify G M rt data beaconRoot with
  | .error answer => check answer
  | .ok (x, adopted) => do
    modify fun c => c.commitAndPersist G M rt x
    modify fun c => { c with pending := c.pending.filter fun p => some p.1 ≠ adopted }
    pure (.valid (x.block.hash G))

/-! ## Other calls -/

/-- `Payload` (`chain.go:549-567`): the payload and its beacon root. -/
def payload (c : Chain σ τ) (id : PayloadID) : Option (ExecutableData × Hash) :=
  (c.pending.find? fun p => p.1 == id).map fun p => (p.2.data, p.2.beaconRoot)

/-- `SetMaxDASize` (`dalimit.go:28-31`), of clamped sizes. -/
def setMaxDASize (c : Chain σ τ) (limits : DALimits) : Chain σ τ := { c with da := limits }

/-- `checkpointGenesis` (`persist.go:278-299`). -/
def checkpointGenesis (c : Chain σ τ) (s : Store σ τ) : Store σ τ :=
  match c.blocks c.genesisHash, c.machines c.genesisHash with
  | some b, some m =>
    if s.hasDir 0 (b.hash G) then s
    else
      match M.store m with
      | none => s
      | some saved => { s with dirs := ⟨0, (b.hash G).take 6, some saved⟩ :: s.dirs }
  | _, _ => s

/-- `Adopt` (`persist.go:324-337`), on a chain that holds its genesis block. -/
def adopt (c : Chain σ τ) (s : Store σ τ) : Except StoreError (Chain σ τ) := do
  let genesis ← expect (c.blocks c.genesisHash) .noGenesis
  let s ← s.putBlock G genesis [] newOutputTree 0
  let s := s.setCanonical G genesis c.blocks
  pure { c with store := some (c.checkpointGenesis G M s) }

end Chain

end OpCartesi.Node
