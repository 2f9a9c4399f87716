import OpCartesi.Chain.Execution

/-!
# The durable half (`store.go`)

* `Store`: the tables of the key-value database, by block hash, and the checkpoint directories.
* `putBlock`, `block`, `records`: writing a block with its records and reading them back.
* `setCanonical`, `setHeads`: the canonical numbering and the forkchoice pointers.
* `latestCheckpoint`, `pruneCheckpoints`: checkpoints are found by height only.
* `block_putBlock`, `records_putBlock`: what reading back a written block gives.
-/

namespace OpCartesi.Node

open Drive Exec

variable {σ τ : Type}

/-! ## Stored shapes (`store.go:303-359`) -/

/-- `storedTxOutputs` (`store.go:307-314`). -/
structure StoredTxOutputs where
  txIndex : ℕ
  txHash : Hash
  accepted : Bool
  cycles : ℕ
  outputs : List Bytes
  reports : List Bytes

/-- `encodeOutputs` (`store.go:316-329`). -/
def encodeOutputs (outputs : List TxOutputs) : List StoredTxOutputs :=
  outputs.map fun o => ⟨o.txIndex, o.txHash, o.accepted, o.cycles, o.outputs, o.reports⟩

/-- `decodeOutputs` (`store.go:331-347`). -/
def decodeOutputs (stored : List StoredTxOutputs) : List TxOutputs :=
  stored.map fun o => ⟨o.txIndex, o.txHash, o.accepted, o.cycles, o.outputs, o.reports⟩

theorem decodeOutputs_encodeOutputs (outputs : List TxOutputs) :
    decodeOutputs (encodeOutputs outputs) = outputs := by
  rw [decodeOutputs, encodeOutputs, List.map_map]
  exact List.map_id outputs

/-- `storedTree` (`store.go:353-356`). -/
structure StoredTree where
  count : ℕ
  branch : List Hash

/-- `OutputTree.encode` and `storedTree.decode` (`store.go:358-364`). -/
def OutputTree.encode (t : OutputTree) : StoredTree := ⟨t.count, t.branch⟩
def StoredTree.decode (s : StoredTree) : OutputTree := ⟨s.count, s.branch⟩

/-- A checkpoint directory: its name is the height and the first six bytes of the block hash
    (`CheckpointDir`, `store.go:237-239`); `content` is the machine it loads to, if it loads. -/
structure CheckpointDir (σ : Type) where
  number : ℕ
  name : Bytes
  content : Option σ

/-- The store: rawdb's tables, this package's tables and the directories on disk. -/
structure Store (σ τ : Type) where
  headers : Hash → Option Header
  bodies : Hash → Option (List τ)
  canonical : ℕ → Option Hash
  headBlock : Option Hash
  safeHead : Option Hash
  finalizedBlock : Option Hash
  outputs : Hash → Option (List StoredTxOutputs)
  trees : Hash → Option StoredTree
  inputs : Hash → Option ℕ
  dirs : List (CheckpointDir σ)

/-- `sort.Slice` by height (`store.go:267`), which leaves open how it orders directories of one
    height. -/
structure DirSort (σ : Type) where
  sort : List (CheckpointDir σ) → List (CheckpointDir σ)
  sort_perm : ∀ l, (sort l).Perm l
  sort_sorted : ∀ l, (sort l).Pairwise fun a b => a.number ≤ b.number

/-- A stable sort by height. -/
def stableSort : DirSort σ where
  sort l := l.insertionSort fun a b => a.number ≤ b.number
  sort_perm l := List.perm_insertionSort _ l
  sort_sorted l := List.pairwise_insertionSort _ l

/-- The errors of reading and writing blocks. -/
inductive StoreError
  | doesNotDecode (block : Hash) (i : ℕ)
  | noRecords (block : Hash)
  | noGenesis
  deriving DecidableEq

namespace Store

/-- An empty store (`OpenStore` of a new directory). -/
def empty : Store σ τ where
  headers _ := none
  bodies _ := none
  canonical _ := none
  headBlock := none
  safeHead := none
  finalizedBlock := none
  outputs _ := none
  trees _ := none
  inputs _ := none
  dirs := []

/-! ## Blocks (`store.go:82-113`, `168-223`) -/

variable (G : Geth τ)

/-- The decoding loop of `PutBlock` (`store.go:83-90`). -/
def decodeTxs (hash : Hash) : ℕ → List Bytes → Except StoreError (List τ)
  | _, [] => .ok []
  | i, raw :: txs => do
    let tx ← expect (G.unmarshalBinary raw) (.doesNotDecode hash i)
    let rest ← decodeTxs hash (i + 1) txs
    pure (tx :: rest)

/-- `PutBlock` (`store.go:82-113`). -/
def putBlock (s : Store σ τ) (b : Block) (outputs : List TxOutputs) (tree : OutputTree)
    (inputsConsumed : ℕ) : Except StoreError (Store σ τ) := do
  let txs ← decodeTxs G (b.hash G) 0 b.txs
  pure
    { s with
      headers := Function.update s.headers (b.hash G) (some b.header.stored)
      bodies := Function.update s.bodies (b.hash G) (some txs)
      outputs := Function.update s.outputs (b.hash G) (some (encodeOutputs outputs))
      trees := Function.update s.trees (b.hash G) (some tree.encode)
      inputs := Function.update s.inputs (b.hash G) (some inputsConsumed) }

/-- `Block` (`store.go:168-192`). -/
def block (s : Store σ τ) (hash : Hash) : Option Block := do
  let header ← s.headers hash
  let body ← s.bodies hash
  let txs ← body.mapM G.marshalBinary
  some ⟨header, txs⟩

/-- `Records` (`store.go:200-223`). -/
def records (s : Store σ τ) (hash : Hash) : Except StoreError (List TxOutputs × OutputTree × ℕ) := do
  let outputs ← expect (s.outputs hash) (.noRecords hash)
  let tree ← expect (s.trees hash) (.noRecords hash)
  let inputs ← expect (s.inputs hash) (.noRecords hash)
  pure (decodeOutputs outputs, tree.decode, inputs)

/-! ## The canonical chain (`store.go:115-160`) -/

/-- The walk down from `cur` that `SetCanonical` (`store.go:128-137`) and `reorgTo`
    (`chain.go:266-279`) make: each block is entered under its number until one is reached that
    `seen` already has. Heights go down, so no entry the walk wrote is read again. -/
def relabel (walkParent : Hash → Option Block) (seen : ℕ → Option Hash) :
    ℕ → Block → (ℕ → Option Hash) → ℕ → Option Hash
  | 0, _, canonical => canonical
  | fuel + 1, cur, canonical =>
    if seen cur.number = some (cur.hash G) then canonical
    else
      let canonical := Function.update canonical cur.number (some (cur.hash G))
      if cur.number = 0 then canonical
      else
        match walkParent cur.header.parentHash with
        | none => canonical
        | some parent => relabel walkParent seen fuel parent canonical

/-- The entries above `number` up to the first gap (`store.go:121-127`). -/
def aboveHead (canonical : ℕ → Option Hash) (number n : ℕ) : Bool :=
  decide (number < n) && (List.range (n + 1)).all fun m => decide (m ≤ number) || (canonical m).isSome

/-- `SetCanonical` (`store.go:117-141`). -/
def setCanonical (s : Store σ τ) (head : Block) (walkParent : Hash → Option Block) : Store σ τ :=
  let kept := fun n => if aboveHead s.canonical head.number n then none else s.canonical n
  { s with
    canonical := relabel G walkParent s.canonical (head.number + 1) head kept
    headBlock := some (head.hash G) }

/-- `SetHeads` (`store.go:144-157`). -/
def setHeads (s : Store σ τ) (head safe finalized : Hash) : Store σ τ :=
  { s with
    headBlock := some head
    safeHead := if safe = zeroHash then s.safeHead else some safe
    finalizedBlock := if finalized = zeroHash then s.finalizedBlock else some finalized }

/-! ## Checkpoints (`store.go:225-292`) -/

variable (rt : DirSort σ)

/-- Whether `CheckpointDir(number, hash)` exists. -/
def hasDir (s : Store σ τ) (number : ℕ) (hash : Hash) : Bool :=
  s.dirs.any fun d => d.number == number && d.name == hash.take 6

/-- `LatestCheckpoint` (`store.go:271-279`), as the directory; its hash is
    `canonical dir.number`. -/
def latestCheckpoint (s : Store σ τ) (number : ℕ) : Option (CheckpointDir σ) :=
  (rt.sort s.dirs).reverse.find? fun d => decide (d.number ≤ number)

/-- `PruneCheckpoints` (`store.go:284-292`). -/
def pruneCheckpoints (s : Store σ τ) (keep : ℕ) : Store σ τ :=
  if s.dirs.length ≤ keep then s
  else { s with dirs := (rt.sort s.dirs).drop (s.dirs.length - keep) }

end Store

/-! ## Reading back -/

variable {G : Geth τ}

theorem decodeTxs_eq_ok {hash : Hash} (txs : List Bytes) : ∀ {i : ℕ} {decoded : List τ},
    Store.decodeTxs G hash i txs = .ok decoded ↔ txs.mapM G.unmarshalBinary = some decoded := by
  induction txs with
  | nil =>
    intro i decoded
    simp [Store.decodeTxs, eq_comm]
  | cons raw txs ih =>
    intro i decoded
    unfold Store.decodeTxs
    simp [except_bind_eq_ok, ih, List.mapM_cons, Option.bind_eq_some_iff, pure, Except.pure]

theorem putBlock_eq_ok {s s' : Store σ τ} {b : Block} {outputs : List TxOutputs} {tree : OutputTree}
    {n : ℕ} : s.putBlock G b outputs tree n = .ok s' ↔
      ∃ txs, b.txs.mapM G.unmarshalBinary = some txs ∧ s' =
        { s with
          headers := Function.update s.headers (b.hash G) (some b.header.stored)
          bodies := Function.update s.bodies (b.hash G) (some txs)
          outputs := Function.update s.outputs (b.hash G) (some (encodeOutputs outputs))
          trees := Function.update s.trees (b.hash G) (some tree.encode)
          inputs := Function.update s.inputs (b.hash G) (some n) } := by
  unfold Store.putBlock
  simp only [except_bind_eq_ok, decodeTxs_eq_ok]
  constructor
  · rintro ⟨txs, htxs, hpure⟩
    cases hpure
    exact ⟨txs, htxs, rfl⟩
  · rintro ⟨txs, htxs, rfl⟩
    exact ⟨txs, htxs, rfl⟩

/-- A store reads a written block's transactions back as they were, if encoding inverts decoding. -/
def Geth.Reencodes (G : Geth τ) : Prop :=
  ∀ raw tx, G.unmarshalBinary raw = some tx → G.marshalBinary tx = some raw

theorem Geth.Reencodes.mapM (hG : G.Reencodes) : ∀ {raws : List Bytes} {txs : List τ},
    raws.mapM G.unmarshalBinary = some txs → txs.mapM G.marshalBinary = some raws := by
  intro raws
  induction raws with
  | nil =>
    intro txs h
    cases h
    rfl
  | cons raw raws ih =>
    intro txs h
    simp only [List.mapM_cons, Option.bind_eq_bind, Option.bind_eq_some_iff] at h
    obtain ⟨tx, htx, rest, hrest, hpure⟩ := h
    cases hpure
    simp [hG raw tx htx, ih hrest]

theorem block_putBlock (hG : G.Reencodes) {s s' : Store σ τ} {b : Block} {outputs : List TxOutputs}
    {tree : OutputTree} {n : ℕ} (h : s.putBlock G b outputs tree n = .ok s') :
    s'.block G (b.hash G) = some ⟨b.header.stored, b.txs⟩ := by
  obtain ⟨txs, htxs, rfl⟩ := putBlock_eq_ok.1 h
  simp [Store.block, hG.mapM htxs]

theorem records_putBlock {s s' : Store σ τ} {b : Block} {outputs : List TxOutputs}
    {tree : OutputTree} {n : ℕ} (h : s.putBlock G b outputs tree n = .ok s') :
    s'.records (b.hash G) = .ok (outputs, tree, n) := by
  obtain ⟨txs, htxs, rfl⟩ := putBlock_eq_ok.1 h
  simp [Store.records, expect, decodeOutputs_encodeOutputs, OutputTree.encode, StoredTree.decode,
    bind, Except.bind, pure, Except.pure]

end OpCartesi.Node
