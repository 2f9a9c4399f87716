import OpCartesi.Chain.Life
import OpCartesi.Chain.Withdrawals

/-!
# Receipts and emissions of transactions (`receipts.go`, `outputs.go`, `evmlog.go`)

The chain synthesizes receipts from what the machine emitted, and finds the canonical block of a
transaction through an index that keeps every occurrence.

* `buildReceipts`, `receiptByTxHash`, `txEmissions`: the queries.
* `buildReceipts_logs`, `buildReceipts_gas`: the numbering of the logs and the cumulative gas.
* `Indexed`: the index has the blocks that recorded a transaction. `Indexed.exec`: calls keep it.
* `Reach.placed`: a recorded transaction is in its block at the position of the record.
* `lookup_follows_canonical`: what the two queries answer in every state of every run.
-/

namespace OpCartesi.Node

open Drive Exec

variable {σ τ : Type} {h : Hash}

/-! ## Events of the guest (`evmlog.go`) -/

/-- `EvmLog` (`evmlog.go:38-42`). -/
structure EvmLog where
  emitter : Address
  topics : List Hash
  data : Bytes
  deriving DecidableEq

/-- `types.Log`. -/
structure Log where
  address : Address
  topics : List Hash
  data : Bytes
  blockNumber : ℕ
  txHash : Hash
  txIndex : ℕ
  blockHash : Hash
  index : ℕ
  deriving DecidableEq

/-- What receipts take from go-ethereum besides `Geth`: two fields of a transaction, the ABI type of
    a guest event, and the bloom filter of logs. -/
structure ReceiptTypes (τ : Type) where
  type : τ → ℕ
  recipient : τ → Option Address
  unpackEvmLog : Bytes → Option EvmLog
  createBloom : List Log → Bytes

variable (G : Geth τ) (T : ReceiptTypes τ)

/-- `ParseEvmLogOutput` (`evmlog.go:48-73`). -/
def parseEvmLogOutput (output : Bytes) : Option EvmLog :=
  (unwrapAll (selector G "Notice(bytes)") G.unpackNotice output).bind fun payload =>
    unwrapAll (selector G "EvmLog(address,bytes32[],bytes)") T.unpackEvmLog payload

/-! ## Receipts (`receipts.go`) -/

/-- `OutputsEmitterAddress` (`receipts.go:17`). -/
def OutputsEmitterAddress : Address := App.addressOf 0x4200000000000000000000000000000000000cA1

/-- `OutputEventTopic` (`receipts.go:21`). -/
def outputEventTopic : Hash := G.keccak256 (App.stringToBytes "CartesiOutput(uint64,bytes)")

/-- `Receipt` (`receipts.go:30-44`). -/
structure Receipt where
  txHash : Hash
  txIndex : ℕ
  blockHash : Hash
  blockNumber : ℕ
  sender : Address
  recipient : Option Address
  type : ℕ
  status : ℕ
  gasUsed : ℕ
  cumulativeGasUsed : ℕ
  effectiveGasPrice : Option ℕ
  logs : List Log
  bloom : Bytes

/-- The log of an output (`receipts.go:83-113`): a guest event, or the output with its number. -/
def outputLog (b : Block) (txo : TxOutputs) (outputIndex logIndex : ℕ) (output : Bytes) : Log :=
  let log : Log := {
    address := OutputsEmitterAddress
    topics := [outputEventTopic G, hashOf outputIndex]
    data := output
    blockNumber := b.number
    txHash := txo.txHash
    txIndex := txo.txIndex
    blockHash := b.hash G
    index := logIndex }
  match parseEvmLogOutput G T output with
  | some evmLog =>
    { log with address := evmLog.emitter, topics := evmLog.topics, data := evmLog.data }
  | none => log

/-- The logs of a transaction (`receipts.go:82-117`): both counters go up with every output. -/
def outputLogs (b : Block) (txo : TxOutputs) : List Bytes → ℕ → ℕ → List Log
  | [], _, _ => []
  | output :: outputs, outputIndex, logIndex =>
    outputLog G T b txo outputIndex logIndex output ::
      outputLogs b txo outputs (outputIndex + 1) (logIndex + 1)

/-- The transaction of a record, if it decodes (`receipts.go:71-72`). -/
def Block.decoded (b : Block) (txo : TxOutputs) : Option τ :=
  b.txs[txo.txIndex]?.bind G.unmarshalBinary

/-- `buildReceipts` (`receipts.go:50-122`), with its three counters. -/
def buildReceipts (b : Block) (cfg : Config) : List TxOutputs → ℕ → ℕ → ℕ → List Receipt
  | [], _, _, _ => []
  | txo :: txOutputs, outputIndex, cumulativeGas, logIndex =>
    let gasUsed := txo.cycles / CyclesPerGas
    let cumulativeGas := (cumulativeGas + gasUsed) % 2 ^ 64
    let logs := outputLogs G T b txo txo.outputs outputIndex logIndex
    let tx := b.decoded G txo
    { txHash := txo.txHash
      txIndex := txo.txIndex
      blockHash := b.hash G
      blockNumber := b.number
      sender := (tx.bind (G.sender cfg.chainID)).getD App.ZERO_ADDRESS
      recipient := tx.bind T.recipient
      type := (tx.map T.type).getD 0
      status := if txo.accepted then 1 else 0
      gasUsed := gasUsed
      cumulativeGasUsed := cumulativeGas
      effectiveGasPrice := cfg.baseFee
      logs := logs
      bloom := T.createBloom logs } ::
    buildReceipts b cfg txOutputs (outputIndex + txo.outputs.length) cumulativeGas
      (logIndex + txo.outputs.length)

/-- `countOutputs` (`receipts.go:166-172`). -/
def countOutputs (txs : List TxOutputs) : ℕ := (txs.map fun tx => tx.outputs.length).sum

/-- The number of the first output of a block (`receipts.go:162`, `outputs.go:121`), whose outputs
    the tree includes: a subtraction of 64-bit integers. -/
def firstOutputIndex (tree : OutputTree) (txs : List TxOutputs) : ℕ :=
  (tree.count + 2 ^ 64 - countOutputs txs) % 2 ^ 64

/-- `TxEmissions` (`outputs.go:92-97`). -/
structure TxEmissions where
  blockHash : Hash
  blockNumber : ℕ
  firstOutputIndex : ℕ
  outputs : TxOutputs
  deriving DecidableEq

/-- The loop of `TxEmissions` (`outputs.go:122-132`). -/
def emissionLoop (txHash : Hash) : ℕ → List TxOutputs → Option (ℕ × TxOutputs)
  | _, [] => none
  | index, txo :: all =>
    if txo.txHash = txHash then some (index, txo)
    else emissionLoop txHash (index + txo.outputs.length) all

namespace Chain

/-- `canonicalBlockOf` (`receipts.go:178-189`). -/
def canonicalBlockOf (c : Chain σ τ) (txHash : Hash) : Option Hash :=
  (c.txBlocks txHash).find? fun blockHash =>
    match c.blocks blockHash with
    | none => false
    | some b => c.canonical b.number == some blockHash

/-- `receiptsIn` (`receipts.go:149-164`). -/
def receiptsIn (c : Chain σ τ) (blockHash : Hash) : List Receipt :=
  match c.blocks blockHash, c.trees blockHash with
  | some b, some tree =>
    buildReceipts G T b c.cfg (c.outputs blockHash)
      (firstOutputIndex tree (c.outputs blockHash)) 0 0
  | _, _ => []

/-- `ReceiptByTxHash` (`receipts.go:126-140`). -/
def receiptByTxHash (c : Chain σ τ) (hash : Hash) : Option Receipt := do
  let blockHash ← c.canonicalBlockOf hash
  (c.receiptsIn G T blockHash).find? fun r => r.txHash == hash

/-- `TxEmissions` (`outputs.go:101-134`). -/
def txEmissions (c : Chain σ τ) (txHash : Hash) : Option TxEmissions := do
  let blockHash ← c.canonicalBlockOf txHash
  let b ← c.blocks blockHash
  let tree ← c.trees blockHash
  let all := c.outputs blockHash
  let (index, txo) ← emissionLoop txHash (firstOutputIndex tree all) all
  some ⟨blockHash, b.number, index, txo⟩

end Chain

variable {G T} {M : Machine σ} {cfg : Config} {c c₀ : Chain σ τ} {L : Ledger σ}

/-! ## The counters of a block -/

theorem countOutputs_cons (txo : TxOutputs) (txs : List TxOutputs) :
    countOutputs (txo :: txs) = txo.outputs.length + countOutputs txs := by
  rw [countOutputs, List.map_cons, List.sum_cons, ← countOutputs]

theorem outputLog_index (b : Block) (txo : TxOutputs) (outputIndex logIndex : ℕ) (output : Bytes) :
    (outputLog G T b txo outputIndex logIndex output).index = logIndex := by
  unfold outputLog
  cases parseEvmLogOutput G T output <;> rfl

theorem outputLogs_index (b : Block) (txo : TxOutputs) (outputs : List Bytes) :
    ∀ outputIndex logIndex, (outputLogs G T b txo outputs outputIndex logIndex).map Log.index =
      List.range' logIndex outputs.length := by
  induction outputs with
  | nil => exact fun _ _ => rfl
  | cons output outputs ih =>
    intro outputIndex logIndex
    rw [outputLogs, List.map_cons, ih, outputLog_index, List.length_cons, List.range'_succ]

/-- The logs of a block are numbered one after the other. -/
theorem buildReceipts_logs (b : Block) (cfg : Config) (txs : List TxOutputs) :
    ∀ outputIndex gas logIndex,
      ((buildReceipts G T b cfg txs outputIndex gas logIndex).flatMap Receipt.logs).map Log.index =
        List.range' logIndex (countOutputs txs) := by
  induction txs with
  | nil => exact fun _ _ _ => rfl
  | cons txo txs ih =>
    intro outputIndex gas logIndex
    rw [buildReceipts, List.flatMap_cons, List.map_append, ih, outputLogs_index, countOutputs_cons,
      List.range'_append_1]

/-- The cumulative gas of a receipt is the gas of the receipts up to it. -/
theorem buildReceipts_gas (b : Block) (cfg : Config) (txs : List TxOutputs) :
    ∀ outputIndex gas logIndex (i : ℕ) (r : Receipt),
      (buildReceipts G T b cfg txs outputIndex gas logIndex)[i]? = some r →
      r.cumulativeGasUsed = (gas + (((buildReceipts G T b cfg txs outputIndex gas logIndex).take
        (i + 1)).map Receipt.gasUsed).sum) % 2 ^ 64 := by
  induction txs with
  | nil =>
    intro outputIndex gas logIndex i r hr
    cases hr
  | cons txo txs ih =>
    intro outputIndex gas logIndex i r hr
    rw [buildReceipts] at hr ⊢
    cases i with
    | zero =>
      cases hr
      simp
    | succ i =>
      rw [List.getElem?_cons_succ] at hr
      rw [ih _ _ _ i r hr, List.take_succ_cons, List.map_cons, List.sum_cons, Nat.mod_add_mod,
        Nat.add_assoc]

/-- A block has one receipt for every record, in order. -/
theorem buildReceipts_records (b : Block) (cfg : Config) (txs : List TxOutputs) :
    ∀ outputIndex gas logIndex, (buildReceipts G T b cfg txs outputIndex gas logIndex).map
      (fun r => (r.txHash, r.txIndex, r.blockHash, r.blockNumber)) =
        txs.map fun o => (o.txHash, o.txIndex, b.hash G, b.number) := by
  induction txs with
  | nil => exact fun _ _ _ => rfl
  | cons txo txs ih =>
    intro outputIndex gas logIndex
    rw [buildReceipts, List.map_cons, ih, List.map_cons]

theorem outputLogs_getElem? (b : Block) (txo : TxOutputs) (outputs : List Bytes) :
    ∀ (outputIndex logIndex k : ℕ), (outputLogs G T b txo outputs outputIndex logIndex)[k]? =
      outputs[k]?.map (outputLog G T b txo (outputIndex + k) (logIndex + k)) := by
  induction outputs with
  | nil => exact fun _ _ _ => rfl
  | cons output outputs ih =>
    intro outputIndex logIndex k
    rw [outputLogs]
    cases k with
    | zero => rfl
    | succ k =>
      rw [List.getElem?_cons_succ, List.getElem?_cons_succ, ih, Nat.add_right_comm outputIndex,
        Nat.add_right_comm logIndex]
      rfl

/-- The first receipt of a transaction is that of its first record, with the outputs counted up to
    it. -/
theorem find_buildReceipts (b : Block) (cfg : Config) (after : List TxOutputs) {o : TxOutputs}
    (ho : o.txHash = h) (before : List TxOutputs) (hbefore : ∀ p ∈ before, p.txHash ≠ h) :
    ∀ outputIndex gas logIndex, ∃ r,
      (buildReceipts G T b cfg (before ++ o :: after) outputIndex gas logIndex).find?
        (fun r => r.txHash == h) = some r ∧
      r.logs = outputLogs G T b o o.outputs (outputIndex + countOutputs before)
        (logIndex + countOutputs before) := by
  induction before with
  | nil =>
    intro outputIndex gas logIndex
    rw [List.nil_append, buildReceipts]
    exact ⟨_, List.find?_cons_of_pos (beq_iff_eq.2 ho), rfl⟩
  | cons p before ih =>
    intro outputIndex gas logIndex
    have hp : ¬(p.txHash == h) = true := by
      rw [beq_iff_eq]
      exact hbefore p (List.mem_cons_self ..)
    obtain ⟨r, hr, hlogs⟩ := ih (fun q hq => hbefore q (List.mem_cons_of_mem _ hq))
      (outputIndex + p.outputs.length) ((gas + p.cycles / CyclesPerGas) % 2 ^ 64)
      (logIndex + p.outputs.length)
    refine ⟨r, ?_, ?_⟩
    · rw [List.cons_append, buildReceipts, List.find?_cons]
      simp only [hp]
      exact hr
    · rw [hlogs, countOutputs_cons, Nat.add_assoc, Nat.add_assoc]

/-- The loop finds the first record of the transaction, and counts the outputs before it. -/
theorem emissionLoop_eq_some (txs : List TxOutputs) : ∀ {i j : ℕ} {o : TxOutputs},
    emissionLoop h i txs = some (j, o) ↔ ∃ before after, txs = before ++ o :: after ∧
      (∀ p ∈ before, p.txHash ≠ h) ∧ o.txHash = h ∧ j = i + countOutputs before := by
  induction txs with
  | nil =>
    intro i j o
    simp [emissionLoop]
  | cons txo txs ih =>
    intro i j o
    rw [emissionLoop]
    split_ifs with hhash
    · constructor
      · rintro h
        cases h
        exact ⟨[], txs, rfl, fun p hp => absurd hp List.not_mem_nil, hhash, rfl⟩
      · rintro ⟨before, after, heq, hbefore, -, rfl⟩
        cases before with
        | nil =>
          cases heq
          rfl
        | cons p before =>
          cases heq
          exact absurd hhash (hbefore txo (List.mem_cons_self ..))
    · rw [ih]
      constructor
      · rintro ⟨before, after, rfl, hbefore, hh, rfl⟩
        refine ⟨txo :: before, after, rfl, fun p hp => ?_, hh, ?_⟩
        · rcases List.mem_cons.1 hp with rfl | hp
          · exact hhash
          · exact hbefore p hp
        · rw [countOutputs_cons, Nat.add_assoc]
      · rintro ⟨before, after, heq, hbefore, hh, rfl⟩
        cases before with
        | nil =>
          cases heq
          exact absurd hh hhash
        | cons p before =>
          cases heq
          refine ⟨before, after, rfl, fun p hp => hbefore p (List.mem_cons_of_mem _ hp), hh, ?_⟩
          rw [countOutputs_cons, Nat.add_assoc]

theorem emissionLoop_isSome (txs : List TxOutputs) : ∀ i : ℕ,
    (emissionLoop h i txs).isSome = true ↔ ∃ o ∈ txs, o.txHash = h := by
  induction txs with
  | nil =>
    intro i
    simp [emissionLoop]
  | cons txo txs ih =>
    intro i
    rw [emissionLoop]
    split_ifs with hhash
    · exact ⟨fun _ => ⟨txo, List.mem_cons_self .., hhash⟩, fun _ => rfl⟩
    · rw [ih]
      simp [hhash]

/-! ## The index of transactions -/

/-- The index has the blocks of the ledger that recorded a transaction. -/
def Indexed (L : Ledger σ) (c : Chain σ τ) : Prop :=
  ∀ h blockHash, h ≠ zeroHash → (blockHash ∈ c.txBlocks h ↔
    ∃ x, L blockHash = some x ∧ ∃ o ∈ x.outputs, o.txHash = h)

/-- A commit enters the block for every transaction it recorded. -/
theorem Indexed.commit (h : Indexed L c) {y : Executed σ} (hfresh : L (y.block.hash G) = none) :
    Indexed (Function.update L (y.block.hash G) (some y)) (c.commit G y) := by
  intro txHash blockHash hne
  have hnew : blockHash ∈ (y.outputs.filter fun o => o.txHash ≠ zeroHash ∧ o.txHash = txHash).map
      (fun _ => y.block.hash G) ↔ blockHash = y.block.hash G ∧ ∃ o ∈ y.outputs, o.txHash = txHash := by
    constructor
    · intro hmem
      obtain ⟨o, ho, rfl⟩ := List.mem_map.1 hmem
      obtain ⟨ho, hhash⟩ := List.mem_filter.1 ho
      exact ⟨rfl, o, ho, (of_decide_eq_true hhash).2⟩
    · rintro ⟨rfl, o, ho, rfl⟩
      exact List.mem_map.2 ⟨o, List.mem_filter.2 ⟨ho, decide_eq_true ⟨hne, rfl⟩⟩, rfl⟩
  show blockHash ∈ c.txBlocks txHash ++ _ ↔ _
  rw [List.mem_append, hnew, h txHash blockHash hne]
  by_cases heq : blockHash = y.block.hash G
  · subst heq
    simp [hfresh]
  · simp [heq]

theorem Indexed.exec (h : Indexed L c) (hrec : Recorded G M L c) (k : Call σ) :
    Indexed (k.grow G M c L) (k.exec G M c) := by
  cases k with
  | importPayload rt data beaconRoot =>
    rcases hrec.import_cases rt data beaconRoot with
      ⟨hstate, hgrow⟩ | ⟨x, y, adopted, -, hstate, hgrow, -, -, hfresh, -⟩
    · rw [hstate, hgrow]
      exact h
    · rw [hstate, hgrow]
      exact h.commit hfresh
  | forkchoiceUpdated rt fc attrs =>
    have hstep := (Call.forkchoiceUpdated rt fc attrs).step (G := G) (M := M) hrec.block_keyed
    unfold Call.grow
    simp only
    generalize (Call.forkchoiceUpdated rt fc attrs).exec G M c = c' at hstep
    have htxBlocks : c'.txBlocks = c.txBlocks := by
      cases hstep with
      | trims h => exact h.txBlocks
      | built h => exact h.txBlocks
    unfold Indexed
    rw [htxBlocks]
    exact h
  | setMaxDASize limits => exact h
  | queue pool => exact h

theorem txBlocks_fresh (h : Fresh G M c) : c.txBlocks = fun _ => [] := by
  cases h with
  | inMemory h =>
    obtain ⟨-, x, -, rfl⟩ := new_eq_ok.1 h
    rfl
  | adopted h h' =>
    obtain ⟨x, dirs, -, -, rfl⟩ := adopt_fresh h h'
    rfl

theorem indexed_fresh (h : Fresh G M c) {m : σ} {root : Executed σ}
    (hroot : genesis G M cfg m = .ok root) : Indexed (Ledger.only G root) c := by
  intro txHash blockHash _
  rw [txBlocks_fresh h]
  refine ⟨fun hmem => absurd hmem List.not_mem_nil, ?_⟩
  rintro ⟨x, hx, o, ho, -⟩
  obtain ⟨-, rfl⟩ := Ledger.only_eq_some hx
  obtain ⟨r, extra, -, -, rfl⟩ := genesis_eq_ok.1 hroot
  exact absurd ho List.not_mem_nil

/-! ## Where a recorded transaction is -/

/-- A record of the replay loop is of the transaction at its position. -/
theorem replayLoop_records {ic : InputContext} (txs : List Bytes) : ∀ {i : ℕ} {t t' : Trace σ},
    replayLoop G M cfg ic i t txs = .ok t' → ∀ o ∈ t'.outputs, o ∈ t.outputs ∨
      ∃ (j : ℕ) (tx : Bytes), txs[j]? = some tx ∧ o.txIndex = i + j ∧
        o.txHash = (txHash G tx).getD zeroHash := by
  induction txs with
  | nil =>
    intro i t t' h o ho
    cases h
    exact .inl ho
  | cons tx txs ih =>
    intro i t t' h o ho
    rw [replayLoop] at h
    obtain ⟨envelope, -, h⟩ := except_bind_eq_ok.1 h
    obtain ⟨cand, -, h⟩ := except_bind_eq_ok.1 h
    have hlater : ∀ (j : ℕ) (tx' : Bytes), txs[j]? = some tx' → o.txIndex = i + 1 + j →
        o.txHash = (txHash G tx').getD zeroHash → ∃ (j : ℕ) (tx'' : Bytes),
          (tx :: txs)[j]? = some tx'' ∧ o.txIndex = i + j ∧
            o.txHash = (txHash G tx'').getD zeroHash := by
      intro j tx' htx' hindex hhash
      exact ⟨j + 1, tx', htx', by omega, hhash⟩
    split at h
    · rcases ih h o ho with hold | ⟨j, tx', htx', hindex, hhash⟩
      · exact .inl hold
      · exact .inr (hlater j tx' htx' hindex hhash)
    · rcases ih h o ho with hold | ⟨j, tx', htx', hindex, hhash⟩
      · rcases List.mem_append.1 hold with hold | hnew
        · exact .inl hold
        · rw [List.mem_singleton.1 hnew]
          exact .inr ⟨0, tx, rfl, rfl, rfl⟩
      · exact .inr (hlater j tx' htx' hindex hhash)

/-- The transaction of a record with a hash is in the block, at the position of the record. -/
def Executed.Placed (G : Geth τ) (y : Executed σ) : Prop :=
  ∀ o ∈ y.outputs, o.txHash ≠ zeroHash →
    ∃ tx, y.block.txs[o.txIndex]? = some tx ∧ txHash G tx = some o.txHash

/-- An adopted block may have empty transactions where the build had others, but not where a
    transaction has a hash. -/
theorem RanAs.placed (hG : G.TxsAligned) (hempty : G.unmarshalBinary [] = none)
    {x ran y : Executed σ} (h : RanAs G M cfg x ran y) : y.Placed G := by
  intro o ho hne
  obtain ⟨gas, hrun, -⟩ := h.executes.ran
  have houtputs : y.outputs = ran.outputs := by rw [h.records]
  rw [houtputs] at ho
  rcases replayLoop_records _ (replayImport_eq_ok.1 hrun).1 o ho with hold | ⟨j, tx, htx, hj, hhash⟩
  · exact absurd hold List.not_mem_nil
  · cases htxHash : Node.txHash G tx with
    | none =>
      rw [hhash, htxHash] at hne
      exact absurd rfl hne
    | some h' =>
      have hfilled : tx ≠ [] := by
        rintro rfl
        rw [Node.txHash, hempty] at htxHash
        cases htxHash
      rw [Nat.zero_add] at hj
      rw [hhash, htxHash, hj]
      exact ⟨tx, hG _ _ h.txsRoot_eq j tx hfilled htx, htxHash⟩

theorem Traced.placed (hG : G.TxsAligned) (hempty : G.unmarshalBinary [] = none)
    {root : Executed σ} {m : σ} (hroot : genesis G M cfg m = .ok root)
    (h : Traced G M cfg (Ledger.only G root) L) : ∀ hash y, L hash = some y → y.Placed G := by
  intro hash y hy
  rcases h hash y hy with hbase | ⟨x, ran, -, hran⟩
  · obtain ⟨-, rfl⟩ := Ledger.only_eq_some hbase
    obtain ⟨r, extra, -, -, rfl⟩ := genesis_eq_ok.1 hroot
    exact fun o ho => absurd ho List.not_mem_nil
  · exact hran.placed hG hempty

/-! ## Lookups -/

/-- A canonical block recorded an executed transaction with the hash. -/
def Chain.RecordedTx (c : Chain σ τ) (h : Hash) : Prop :=
  ∃ n blockHash o, c.canonical n = some blockHash ∧ o ∈ c.outputs blockHash ∧ o.txHash = h

/-- The block is canonical at its height, and has a transaction with the hash at the position. -/
def Chain.HasTx (G : Geth τ) (c : Chain σ τ) (blockHash : Hash) (n i : ℕ) (h : Hash) : Prop :=
  c.canonical n = some blockHash ∧ ∃ b tx, c.blocks blockHash = some b ∧ b.number = n ∧
    b.txs[i]? = some tx ∧ txHash G tx = some h

section

variable (hrec : Recorded G M L c)
include hrec

/-- The index finds a canonical block that recorded the transaction, if there is one. -/
theorem canonicalBlockOf_isSome (hl : c.Linked G) (hidx : Indexed L c) (hh : h ≠ zeroHash)
    : (c.canonicalBlockOf h).isSome = true ↔ c.RecordedTx h := by
  unfold Chain.canonicalBlockOf
  rw [List.find?_isSome]
  constructor
  · rintro ⟨blockHash, hmem, hcan⟩
    obtain ⟨x, hx, o, ho, hhash⟩ := (hidx h blockHash hh).1 hmem
    rw [hrec.blocks, hx] at hcan
    exact ⟨_, blockHash, o, eq_of_beq hcan, (hrec.outputs _ x hx).symm ▸ ho, hhash⟩
  · rintro ⟨n, blockHash, o, hcan, ho, hhash⟩
    obtain ⟨b, hb, rfl⟩ := hl.held n blockHash hcan
    obtain ⟨x, hx, rfl⟩ := hrec.of_block hb
    rw [hrec.outputs _ x hx] at ho
    refine ⟨blockHash, (hidx h blockHash hh).2 ⟨x, hx, o, ho, hhash⟩, ?_⟩
    rw [hb]
    exact beq_iff_eq.2 hcan

/-- What the index finds is a canonical block of the ledger. -/
theorem canonicalBlockOf_held {h blockHash : Hash} (hfound : c.canonicalBlockOf h = some blockHash)
    :
    ∃ x, L blockHash = some x ∧ c.canonical x.block.number = some blockHash := by
  have hcan := List.find?_some hfound
  cases hx : L blockHash with
  | none =>
    rw [hrec.blocks, hx] at hcan
    cases hcan
  | some x =>
    rw [hrec.blocks, hx] at hcan
    exact ⟨x, rfl, eq_of_beq hcan⟩

/-- It is one that recorded the transaction. -/
theorem canonicalBlockOf_eq_some (hidx : Indexed L c) {h blockHash : Hash} (hh : h ≠ zeroHash)
    (hfound : c.canonicalBlockOf h = some blockHash) :
    ∃ x, L blockHash = some x ∧ c.canonical x.block.number = some blockHash ∧
      ∃ o ∈ x.outputs, o.txHash = h := by
  obtain ⟨x, hx, hcan⟩ := canonicalBlockOf_held hrec hfound
  obtain ⟨x', hx', hrecorded⟩ := (hidx h blockHash hh).1 (List.mem_of_find?_eq_some hfound)
  obtain rfl := Option.some.inj (hx.symm.trans hx')
  exact ⟨x, hx, hcan, hrecorded⟩

theorem receiptsIn_eq {x : Executed σ} (hx : L h = some x) :
    c.receiptsIn G T h = buildReceipts G T x.block c.cfg x.outputs
      (firstOutputIndex x.tree x.outputs) 0 0 := by
  unfold Chain.receiptsIn
  rw [hrec.blocks, hx, hrec.trees _ x hx, hrec.outputs _ x hx]
  rfl

end

/-- The logs of the receipts are numbered from zero, and the cumulative gas is the running sum of the
    gas, in 64 bits. -/
structure Counted (receipts : List Receipt) : Prop where
  logs : (receipts.flatMap Receipt.logs).map Log.index =
    List.range (receipts.flatMap Receipt.logs).length
  gas : ∀ (i : ℕ) (r : Receipt), receipts[i]? = some r →
    r.cumulativeGasUsed = ((receipts.take (i + 1)).map Receipt.gasUsed).sum % 2 ^ 64

section

variable (hrec : Recorded G M L c)
include hrec

theorem counted_receiptsIn (blockHash : Hash) :
    Counted (c.receiptsIn G T blockHash) := by
  cases hx : L blockHash with
  | none =>
    have hnone : c.receiptsIn G T blockHash = [] := by
      unfold Chain.receiptsIn
      rw [hrec.blocks, hx]
      rfl
    rw [hnone]
    exact ⟨rfl, fun i r hr => by cases hr⟩
  | some x =>
    rw [receiptsIn_eq hrec hx]
    have hlogs := buildReceipts_logs (G := G) (T := T) x.block c.cfg x.outputs
      (firstOutputIndex x.tree x.outputs) 0 0
    refine ⟨?_, fun i r hr => ?_⟩
    · have hlength := congrArg List.length hlogs
      rw [List.length_map, List.length_range'] at hlength
      rw [hlogs, hlength, List.range_eq_range']
    · rw [buildReceipts_gas _ _ _ _ _ _ i r hr, Nat.zero_add]

/-- A block has a receipt for every transaction it recorded. -/
theorem receiptByTxHash_isSome (hidx : Indexed L c) (hh : h ≠ zeroHash) :
    (c.receiptByTxHash G T h).isSome = true ↔ (c.canonicalBlockOf h).isSome = true := by
  unfold Chain.receiptByTxHash
  cases hfound : c.canonicalBlockOf h with
  | none => exact Iff.rfl
  | some blockHash =>
    refine ⟨fun _ => rfl, fun _ => ?_⟩
    obtain ⟨x, hx, -, o, ho, hhash⟩ := canonicalBlockOf_eq_some hrec hidx hh hfound
    have hrecord := List.mem_map_of_mem (f := fun o : TxOutputs =>
      (o.txHash, o.txIndex, x.block.hash G, x.block.number)) ho
    rw [← buildReceipts_records (G := G) (T := T) x.block c.cfg x.outputs
      (firstOutputIndex x.tree x.outputs) 0 0, ← receiptsIn_eq hrec hx] at hrecord
    obtain ⟨r, hr, heq⟩ := List.mem_map.1 hrecord
    simp only [Prod.mk.injEq] at heq
    refine List.find?_isSome.2 ⟨r, hr, ?_⟩
    rw [heq.1, hhash]
    exact beq_self_eq_true h

theorem txEmissions_isSome (hidx : Indexed L c) (hh : h ≠ zeroHash) :
    (c.txEmissions h).isSome = true ↔ (c.canonicalBlockOf h).isSome = true := by
  unfold Chain.txEmissions
  cases hfound : c.canonicalBlockOf h with
  | none => exact Iff.rfl
  | some blockHash =>
    refine ⟨fun _ => rfl, fun _ => ?_⟩
    obtain ⟨x, hx, -, hrecorded⟩ := canonicalBlockOf_eq_some hrec hidx hh hfound
    obtain ⟨⟨index, txo⟩, hloop⟩ := Option.isSome_iff_exists.1
      ((emissionLoop_isSome (h := h) x.outputs (firstOutputIndex x.tree x.outputs)).2 hrecorded)
    simp only [Option.bind_eq_bind, Option.bind_some, hrec.blocks, hx, Option.map_some,
      hrec.trees _ x hx, hrec.outputs _ x hx, hloop]
    rfl

/-- A receipt that a lookup finds. -/
theorem receiptByTxHash_eq_some (hidx : Indexed L c)
    (hplaced : ∀ hash y, L hash = some y → y.Placed G) (hh : h ≠ zeroHash) {r : Receipt}
    (hr : c.receiptByTxHash G T h = some r) :
    r.txHash = h ∧ r ∈ c.receiptsIn G T r.blockHash ∧
      c.HasTx G r.blockHash r.blockNumber r.txIndex h := by
  obtain ⟨blockHash, hfound, hr⟩ := Option.bind_eq_some_iff.1 hr
  obtain ⟨x, hx, hcan, -⟩ := canonicalBlockOf_eq_some hrec hidx hh hfound
  have hmem := List.mem_of_find?_eq_some hr
  have hbeq := List.find?_some hr
  have hhash : r.txHash = h := eq_of_beq hbeq
  have hmem' := hmem
  rw [receiptsIn_eq hrec hx] at hmem'
  have hrecord := List.mem_map_of_mem (f := fun r : Receipt =>
    (r.txHash, r.txIndex, r.blockHash, r.blockNumber)) hmem'
  rw [buildReceipts_records] at hrecord
  obtain ⟨o, ho, heq⟩ := List.mem_map.1 hrecord
  simp only [Prod.mk.injEq] at heq
  obtain ⟨htxHash, htxIndex, hblockHash, hblockNumber⟩ := heq
  have hkeyed := hrec.keyed _ x hx
  obtain ⟨tx, htx, htxh⟩ := hplaced _ x hx o ho (by rw [htxHash, hhash]; exact hh)
  rw [← hblockHash, hkeyed, ← hblockNumber, ← htxIndex]
  refine ⟨hhash, hmem, hcan, x.block, tx, ?_, rfl, htx, ?_⟩
  · rw [hrec.blocks, hx]
    rfl
  · rw [htxh, htxHash, hhash]

/-- Emissions that a lookup finds. -/
theorem txEmissions_eq_some {e : TxEmissions} (he : c.txEmissions h = some e) :
    ∃ x before after, c.canonicalBlockOf h = some e.blockHash ∧ L e.blockHash = some x ∧
      c.canonical x.block.number = some e.blockHash ∧
      e.blockNumber = x.block.number ∧ x.outputs = before ++ e.outputs :: after ∧
      (∀ o ∈ before, o.txHash ≠ h) ∧ e.outputs.txHash = h ∧
      e.firstOutputIndex = firstOutputIndex x.tree x.outputs + countOutputs before := by
  simp only [Chain.txEmissions, Option.bind_eq_bind, Option.bind_eq_some_iff] at he
  obtain ⟨blockHash, hfound, b, hb, tree, htree, ⟨index, txo⟩, hloop, heq⟩ := he
  obtain ⟨x, hx, hcan⟩ := canonicalBlockOf_held hrec hfound
  cases heq
  rw [hrec.blocks, hx] at hb
  cases hb
  rw [hrec.trees _ x hx] at htree
  cases htree
  rw [hrec.outputs _ x hx] at hloop
  obtain ⟨before, after, houtputs, hbefore, hhash, hindex⟩ := (emissionLoop_eq_some _).1 hloop
  exact ⟨x, before, after, hfound, hx, hcan, rfl, houtputs, hbefore, hhash, hindex⟩

/-- The receipt of a transaction that has emissions: its logs are numbered as the emissions are. -/
theorem receiptByTxHash_of_emissions {e : TxEmissions} (he : c.txEmissions h = some e)
    : ∃ r b logIndex, c.receiptByTxHash G T h = some r ∧
      r.logs = outputLogs G T b e.outputs e.outputs.outputs e.firstOutputIndex logIndex := by
  obtain ⟨x, before, after, hfound, hx, -, -, houtputs, hbefore, hhash, hindex⟩ :=
    txEmissions_eq_some hrec he
  obtain ⟨r, hr, hlogs⟩ := find_buildReceipts (G := G) (T := T) x.block c.cfg after hhash before hbefore
    (firstOutputIndex x.tree x.outputs) 0 0
  refine ⟨r, x.block, 0 + countOutputs before, ?_, by rw [hindex, hlogs]⟩
  unfold Chain.receiptByTxHash
  rw [hfound]
  show (c.receiptsIn G T e.blockHash).find? _ = _
  rw [receiptsIn_eq hrec hx]
  nth_rewrite 1 [houtputs]
  exact hr

end

/-- In every state of every run, for every nonzero hash: the lookups find something exactly if a
    canonical block recorded an executed transaction with the hash; what they find is of a canonical
    block, which has the transaction at the reported position; and within a block the logs are
    numbered from zero and the cumulative gas is the running sum. -/
theorem lookup_follows_canonical (hG : G.HeadersDiffer) (hG' : G.TxsAligned)
    (hempty : G.unmarshalBinary [] = none) {ok : Call σ → Prop} (h₀ : Fresh G M c₀)
    (hreach : Reach G M ok c₀ c) {h : Hash} (hh : h ≠ zeroHash) :
    ((c.receiptByTxHash G T h).isSome = true ↔ c.RecordedTx h) ∧
    ((c.txEmissions h).isSome = true ↔ c.RecordedTx h) ∧
    (∀ r, c.receiptByTxHash G T h = some r → r.txHash = h ∧ r ∈ c.receiptsIn G T r.blockHash ∧
      c.HasTx G r.blockHash r.blockNumber r.txIndex h) ∧
    (∀ e, c.txEmissions h = some e → e.outputs.txHash = h ∧ e.outputs ∈ c.outputs e.blockHash ∧
      c.HasTx G e.blockHash e.blockNumber e.outputs.txIndex h) ∧
    ∀ blockHash, Counted (c.receiptsIn G T blockHash) := by
  obtain ⟨_, m, root, -, hroot, -, -, hrec₀⟩ := recorded_fresh h₀
  obtain ⟨L, hrec, ⟨-, htraced⟩, hidx⟩ := hreach.ledger
    (fun L c => (c.cfg = c₀.cfg ∧ Traced G M c₀.cfg (Ledger.only G root) L) ∧ Indexed L c) hrec₀
    ⟨⟨rfl, fun _ _ hy => .inl hy⟩, indexed_fresh h₀ hroot⟩
    fun _ _ k _ hrec hI => ⟨Traced.exec_cfg hG hrec hI.1 k, hI.2.exec hrec k⟩
  have hplaced := htraced.placed hG' hempty hroot
  have hl := hreach.linked h₀
  refine ⟨(receiptByTxHash_isSome hrec hidx hh).trans (canonicalBlockOf_isSome hrec hl hidx hh),
    (txEmissions_isSome hrec hidx hh).trans (canonicalBlockOf_isSome hrec hl hidx hh),
    fun r hr => receiptByTxHash_eq_some hrec hidx hplaced hh hr, fun e he => ?_,
    counted_receiptsIn hrec⟩
  obtain ⟨x, before, after, -, hx, hcan, hnumber, houtputs, -, hhash, -⟩ :=
    txEmissions_eq_some hrec he
  have hmem : e.outputs ∈ x.outputs := by
    rw [houtputs]
    exact List.mem_append_right _ (List.mem_cons_self ..)
  obtain ⟨tx, htx, htxHash⟩ := hplaced _ x hx e.outputs hmem (by rw [hhash]; exact hh)
  rw [hrec.outputs _ x hx, hnumber]
  refine ⟨hhash, hmem, hcan, x.block, tx, ?_, rfl, htx, htxHash.trans (congrArg some hhash)⟩
  rw [hrec.blocks, hx]
  rfl

namespace Sample

/-- No transaction has a recipient, and no output is a guest event. -/
def receiptTypes : ReceiptTypes Bytes where
  type _ := 2
  recipient _ := none
  unpackEvmLog _ := none
  createBloom _ := zeros BloomByteLength

/-- A block with one transaction, and a node that imports it and makes it its head. -/
def spending : ExecutableData :=
  executableData aligned (child aligned (genesisBlock aligned).block.header 1 (hashOf 1) [[5]]) [[5]]

def spent : Chain ℕ Bytes :=
  (Call.forkchoiceUpdated runtime ⟨spending.blockHash, zeroHash, zeroHash⟩ none).exec aligned machine
    ((Call.importPayload runtime spending none).exec aligned machine (start aligned none))

end Sample

open Sample in
theorem lookup_follows_canonical_sample :
    ∃ r, spent.receiptByTxHash aligned receiptTypes [5] = some r ∧
      spent.HasTx aligned r.blockHash r.blockNumber r.txIndex [5] := by
  have hreach : Reach aligned machine (fun _ => True) (start aligned none) spent :=
    .call (.call .start (.importPayload runtime spending none) trivial)
      (.forkchoiceUpdated runtime ⟨spending.blockHash, zeroHash, zeroHash⟩ none) trivial
  obtain ⟨-, -, hfound, -⟩ := lookup_follows_canonical (T := receiptTypes) aligned_headersDiffer
    aligned_txsAligned rfl (.inMemory (new_start aligned none)) hreach
    (show ([5] : Hash) ≠ zeroHash by decide)
  have hsome : (spent.receiptByTxHash aligned receiptTypes [5]).isSome = true := by decide +kernel
  obtain ⟨r, hr⟩ := Option.isSome_iff_exists.1 hsome
  exact ⟨r, hr, (hfound r hr).2.2⟩

end OpCartesi.Node
