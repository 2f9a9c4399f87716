import OpCartesi.Chain.OutputProof
import OpCartesi.Chain.Steps

/-!
# Output proofs of a chain (`outputproof.go:88-197`)

The chain proves an output, named by its chain-wide number, against the commitment of any block that
includes it. The leaves come from a walk down to the genesis block, through the blocks in memory and
then through the store.

* `leavesThrough`, `outputProofAt`: the walk and the proof.
* `outputProofAt_eq_ok`: when a proof is given, and what it folds to.
-/

namespace OpCartesi.Node

open Drive Exec

variable {σ τ : Type} (G : Geth τ)

/-- `OutputAt` (`outputproof.go:88-98`). -/
structure OutputAt where
  output : Bytes
  blockHash : Hash
  blockNumber : ℕ
  txHash : Hash
  deriving DecidableEq

/-- The outputs of a block as the walk lists them (`outputproof.go:184-194`). -/
def Block.emitted (b : Block) (txs : List TxOutputs) : List OutputAt :=
  txs.flatMap fun tx => tx.outputs.map fun output => ⟨output, b.hash G, b.number, tx.txHash⟩

namespace Chain

/-- The block below another in the walk (`outputproof.go:161-170`): from memory, or from the
    store. -/
def below (c : Chain σ τ) (b : Block) : Except ProofError Block :=
  match c.blocks b.header.parentHash with
  | some parent => .ok parent
  | none =>
    match c.store with
    | none => .error (.notInMemory (b.number - 1))
    | some s => expect (s.block G b.header.parentHash) (.blockMissing b.header.parentHash)

/-- The walk down from a block (`outputproof.go:155-172`), oldest block first. Heights go down by one,
    so that the height bounds it. -/
def walk (c : Chain σ τ) : ℕ → Block → Except ProofError (List Block)
  | 0, b => .ok [b]
  | height + 1, b =>
    if b.number = 0 then .ok [b]
    else do
      let parent ← c.below G b
      let chain ← walk c height parent
      pure (chain ++ [b])

/-- The records of a block in the walk (`outputproof.go:178-186`). The blocks in memory are those with
    records in memory; only the genesis block of `New` has none, and no outputs either. -/
def outputsOf (c : Chain σ τ) (b : Block) : Except ProofError (List TxOutputs) :=
  if (c.blocks (b.hash G)).isSome then .ok (c.outputs (b.hash G))
  else
    match c.store with
    | none => .ok []
    | some s =>
      match s.records (b.hash G) with
      | .ok (stored, _, _) => .ok stored
      | .error _ => if b.number ≠ 0 then .error (.noRecords b.number) else .ok []

/-- `leavesThrough` (`outputproof.go:154-197`): what produced each leaf; the leaves are the hashes of
    the outputs. -/
def leavesThrough (c : Chain σ τ) (target : Block) : Except ProofError (List OutputAt) := do
  let chain ← c.walk G target.number target
  let emitted ← chain.mapM fun b => (c.outputsOf G b).map (b.emitted G)
  pure emitted.flatten

/-- `OutputProofAt` (`outputproof.go:108-144`). -/
def outputProofAt (c : Chain σ τ) (index : ℕ) (blockHash : Hash) :
    Except ProofError (OutputAt × OutputProof) := do
  let target ← expect (c.blocks blockHash) (.unknownBlock blockHash)
  let found ← c.leavesThrough G target
  let leaves := found.map fun o => outputLeaf G o.output
  require (index < leaves.length) (.notYet index target.number leaves.length)
  let proof ← proveOutput G leaves index
  let tree ← expect (c.trees blockHash) (.noAccumulator blockHash)
  let got := rootAfterReplacement G proof.siblings index (leaves.getD index zeroHash)
  require (got = tree.root G) (.wrongRoot got target.number (tree.root G))
  let out ← expect found[index]? (.noSuchOutput index found.length)
  pure (out, proof)

end Chain

/-! ## When a proof is given -/

variable {G} {c : Chain σ τ}

theorem Chain.leavesThrough_zero {b : Block} {txs : List TxOutputs} (hzero : b.number = 0)
    (houtputs : c.outputsOf G b = .ok txs) : c.leavesThrough G b = .ok (b.emitted G txs) := by
  unfold Chain.leavesThrough
  rw [hzero, Chain.walk]
  simp only [bind, Except.bind, List.mapM_cons, List.mapM_nil, houtputs, Except.map, pure, Except.pure]
  simp

/-- The walk lists the outputs up to the block below, then the block's own. -/
theorem Chain.leavesThrough_succ {b below : Block} {txs : List TxOutputs} {found : List OutputAt}
    (hnumber : b.number = below.number + 1) (hbelow : c.below G b = .ok below)
    (houtputs : c.outputsOf G b = .ok txs) (hfound : c.leavesThrough G below = .ok found) :
    c.leavesThrough G b = .ok (found ++ b.emitted G txs) := by
  unfold Chain.leavesThrough at hfound ⊢
  obtain ⟨chain, hchain, hfound⟩ := except_bind_eq_ok.1 hfound
  obtain ⟨emitted, hemitted, hpure⟩ := except_bind_eq_ok.1 hfound
  cases hpure
  refine except_bind_eq_ok.2 ⟨chain ++ [b], ?_,
    except_bind_eq_ok.2 ⟨emitted ++ [b.emitted G txs], ?_, ?_⟩⟩
  · rw [hnumber, Chain.walk, if_neg (by omega), hbelow]
    exact except_bind_eq_ok.2 ⟨below, rfl, except_bind_eq_ok.2 ⟨chain, hchain, rfl⟩⟩
  · rw [List.mapM_append, hemitted, List.mapM_cons, houtputs]
    rfl
  · simp [pure, Except.pure]

/-- If the accumulator of a held block is that of the outputs the walk finds, there is a proof for each
    of them, and it folds to the accumulator's root. -/
theorem Chain.outputProofAt_eq_ok {blockHash : Hash} {b : Block} {found : List OutputAt}
    {tree : OutputTree} {index : ℕ} (hb : c.blocks blockHash = some b)
    (hfound : c.leavesThrough G b = .ok found) (htree : c.trees blockHash = some tree)
    (hof : tree.Of G (found.map fun o => outputLeaf G o.output))
    (hroom : found.length < 2 ^ OutputTreeHeight) {o : OutputAt} (ho : found[index]? = some o) :
    ∃ siblings, c.outputProofAt G index blockHash = .ok (o, ⟨index, siblings⟩) ∧
      rootAfterReplacement G siblings index (outputLeaf G o.output) = tree.root G := by
  have hindex : index < found.length := (List.getElem?_eq_some_iff.1 ho).1
  generalize hleaves : (found.map fun o => outputLeaf G o.output) = leaves at hof
  have hlength : leaves.length = found.length := by rw [← hleaves, List.length_map]
  have hleaf : leaves.getD index zeroHash = outputLeaf G o.output := by
    rw [← hleaves, List.getD_eq_getElem?_getD, List.getElem?_map, ho]
    rfl
  have hroot : rootAfterReplacement G (coPath G leaves index) index (leaves.getD index zeroHash) =
      tree.root G := by
    rw [rootAfterReplacement_coPath (by omega), hof.root_eq (by omega)]
  refine ⟨coPath G leaves index, ?_, hleaf ▸ hroot⟩
  have hproof : proveOutput G leaves index = .ok ⟨index, coPath G leaves index⟩ :=
    proveOutput_eq (by omega)
  unfold Chain.outputProofAt
  simp only [hb, expect_some, bind, Except.bind, hfound, hleaves, require,
    if_pos (show index < leaves.length by omega), hproof, htree, hroot, ho, if_true]
  rfl

end OpCartesi.Node
