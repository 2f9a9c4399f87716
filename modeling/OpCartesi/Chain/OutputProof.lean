import OpCartesi.Chain.OutputTree

/-!
# Output proofs (`outputproof.go`)

The co-path of one output in the outputs tree, built level by level, and folding it back to a root.

* `proveOutput`, `rootAfterReplacement`: the builder and the verifier of a proof.
* `proveOutput_complete`: the proof of every leaf folds to the root of the accumulator.
* `rootAfterReplacement_binding`: a proof that folds to that root is the one of the leaf it names.
-/

namespace OpCartesi.Node

open Merkle

variable {τ : Type} (G : Geth τ)

/-- The refusals of the output proof calls. -/
inductive ProofError
  | noSuchOutput (index holds : ℕ)
  | unknownBlock (hash : Hash)
  | notInMemory (number : ℕ)
  | blockMissing (hash : Hash)
  | noRecords (number : ℕ)
  | notYet (index number count : ℕ)
  | noAccumulator (hash : Hash)
  | wrongRoot (got : Hash) (number : ℕ) (commits : Hash)
  deriving DecidableEq

/-- `OutputProof` (`outputproof.go:17-23`). -/
structure OutputProof where
  outputIndex : ℕ
  siblings : List Hash
  deriving DecidableEq

/-- `nodeAt` (`outputproof.go:52-57`). -/
def nodeAt (nodes : List Hash) (index : ℕ) (defaultNode : Hash) : Hash :=
  if h : index < nodes.length then nodes[index] else defaultNode

/-- `parentLevel` (`outputproof.go:61-71`). -/
def parentLevel (nodes : List Hash) (defaultNode : Hash) : List Hash :=
  if nodes = [] then []
  else
    (List.range ((nodes.length + 1) / 2)).map fun i =>
      hashPair G (nodeAt nodes (2 * i) defaultNode) (nodeAt nodes (2 * i + 1) defaultNode)

/-- The loop of `ProveOutput` (`outputproof.go:42-46`), `levels` iterations from its end. -/
def proveLoop : ℕ → ℕ → List Hash → ℕ → List Hash
  | 0, _, _, _ => []
  | levels + 1, h, level, cursor =>
    nodeAt level (cursor ^^^ 1) (zeroHashes G h) ::
      proveLoop levels (h + 1) (parentLevel G level (zeroHashes G h)) (cursor / 2)

/-- `ProveOutput` (`outputproof.go:36-49`). -/
def proveOutput (leaves : List Hash) (index : ℕ) : Except ProofError OutputProof :=
  if leaves.length ≤ index then .error (.noSuchOutput index leaves.length)
  else .ok ⟨index, proveLoop G OutputTreeHeight 0 leaves index⟩

/-- `RootAfterReplacement` (`outputproof.go:76-86`). -/
def rootAfterReplacement : List Hash → ℕ → Hash → Hash
  | [], _, leaf => leaf
  | sibling :: siblings, index, leaf =>
    rootAfterReplacement siblings (index / 2)
      (if index % 2 = 0 then hashPair G leaf sibling else hashPair G sibling leaf)

/-! ## The builder's levels -/

variable {G}

theorem nodeAt_eq_getD (nodes : List Hash) (i : ℕ) (dflt : Hash) :
    nodeAt nodes i dflt = nodes.getD i dflt := by
  unfold nodeAt
  split_ifs with h
  · rw [List.getD_eq_getElem _ _ h]
  · rw [List.getD_eq_default _ _ (by omega)]

theorem parentLevel_eq (nodes : List Hash) (dflt : Hash) :
    parentLevel G nodes dflt = parents (hashPair G) dflt nodes := by
  unfold parentLevel parents
  split_ifs with hnil
  · rw [hnil]
    rfl
  · simp only [nodeAt_eq_getD]

/-- The siblings the builder collects from level `h` on are those of the tree, if the level it
    starts from is. -/
theorem proveLoop_eq_copath (leaf : ℕ → Hash) (levels : ℕ) : ∀ h level cursor,
    (∀ i, level.getD i (zeroHashes G h) = node (hashPair G) leaf h i) →
    proveLoop G levels h level cursor = copath (hashPair G) leaf h levels cursor := by
  induction levels with
  | zero =>
    intro h level cursor _
    rfl
  | succ levels ih =>
    intro h level cursor hlevel
    unfold proveLoop copath
    rw [nodeAt_eq_getD, hlevel, parentLevel_eq, ih]
    · rfl
    · intro i
      rw [node, ← hlevel, ← hlevel]
      exact getD_parents (zeroHashes G h) level i

/-- The co-path of a position in the outputs tree of `leaves`. -/
def coPath (G : Geth τ) (leaves : List Hash) (index : ℕ) : List Hash :=
  copath (hashPair G) (fun i => leaves.getD i zeroHash) 0 OutputTreeHeight index

theorem proveOutput_eq {leaves : List Hash} {index : ℕ} (h : index < leaves.length) :
    proveOutput G leaves index = .ok ⟨index, coPath G leaves index⟩ := by
  unfold proveOutput
  rw [if_neg (by omega), proveLoop_eq_copath (fun i => leaves.getD i zeroHash)]
  · rfl
  · intro i
    rfl

theorem rootAfterReplacement_eq_climb (siblings : List Hash) : ∀ index leaf,
    rootAfterReplacement G siblings index leaf = climb (hashPair G) siblings index leaf := by
  induction siblings with
  | nil => intro index leaf; rfl
  | cons s siblings ih => intro index leaf; exact ih _ _

theorem rootAfterReplacement_coPath {leaves : List Hash} {index : ℕ}
    (hindex : index < 2 ^ OutputTreeHeight) :
    rootAfterReplacement G (coPath G leaves index) index (leaves.getD index zeroHash) =
      naiveRoot G leaves := by
  have h : climb (hashPair G) (copath (hashPair G) _ 0 OutputTreeHeight index) index _ = _ :=
    climb_copath (fun i => leaves.getD i zeroHash) OutputTreeHeight 0 index
  rw [Nat.div_eq_of_lt hindex, Nat.zero_add] at h
  rw [rootAfterReplacement_eq_climb, naiveRoot, levelRoot_eq, ← h]
  rfl

/-! ## Completeness and binding -/

/-- Every leaf has a proof of 63 siblings, and it folds to the root of the tree the leaves were
    appended to. -/
theorem proveOutput_complete (G : Geth τ) (leaves : List Hash) (index : ℕ)
    (hroom : leaves.length < 2 ^ OutputTreeHeight) (hindex : index < leaves.length) :
    ∃ siblings t, proveOutput G leaves index = .ok ⟨index, siblings⟩ ∧ siblings.length = 63 ∧
      newOutputTree.append G leaves = some t ∧
      rootAfterReplacement G siblings index leaves[index] = t.root G := by
  obtain ⟨t, happend, ht⟩ := OutputTree.of_newOutputTree (G := G).append leaves (by simpa using hroom)
  rw [List.nil_append] at ht
  refine ⟨coPath G leaves index, t, proveOutput_eq hindex, length_copath _ _ _ _, happend, ?_⟩
  have hleaf : leaves[index] = leaves.getD index zeroHash := (List.getD_eq_getElem _ _ hindex).symm
  rw [hleaf, rootAfterReplacement_coPath (by omega), ht.root_eq hroom]

/-- The second of three outputs. -/
theorem proveOutput_complete_sample :
    ∃ siblings t, proveOutput Sample.geth [hashOf 1, hashOf 2, hashOf 3] 1 = .ok ⟨1, siblings⟩ ∧
      siblings.length = 63 ∧
      newOutputTree.append Sample.geth [hashOf 1, hashOf 2, hashOf 3] = some t ∧
      rootAfterReplacement Sample.geth siblings 1 (hashOf 2) = t.root Sample.geth :=
  proveOutput_complete Sample.geth [hashOf 1, hashOf 2, hashOf 3] 1 (by decide) (by decide)

/-- A leaf and 63 siblings that fold to the root of the tree are the leaf at that position, the zero
    hash past the end, and its co-path, if at no level the verifier's pair collides with the tree's.
    A pair hash with no collisions at all has none there. -/
theorem rootAfterReplacement_binding (G : Geth τ) {leaves siblings : List Hash} {index : ℕ}
    {leaf : Hash} {t : OutputTree} (hroom : leaves.length < 2 ^ OutputTreeHeight)
    (hindex : index < 2 ^ OutputTreeHeight) (happend : newOutputTree.append G leaves = some t)
    (hlength : siblings.length = 63)
    (hinj : List.Forall₂ (fun p q => hashPair G p.1 p.2 = hashPair G q.1 q.2 → p = q)
      (climbed (hashPair G) siblings index leaf)
      (climbed (hashPair G) (coPath G leaves index) index (leaves.getD index zeroHash)))
    (hroot : rootAfterReplacement G siblings index leaf = t.root G) :
    leaf = leaves.getD index zeroHash ∧ siblings = coPath G leaves index := by
  obtain ⟨t', happend', ht⟩ :=
    OutputTree.of_newOutputTree (G := G).append leaves (by simpa using hroom)
  obtain rfl : t' = t := Option.some.inj (happend'.symm.trans happend)
  rw [List.nil_append] at ht
  rw [ht.root_eq hroom, rootAfterReplacement_eq_climb, naiveRoot, levelRoot_eq] at hroot
  have hheight : OutputTreeHeight = siblings.length := hlength.symm
  have hzero : index / 2 ^ siblings.length = 0 := Nat.div_eq_of_lt (hheight ▸ hindex)
  unfold coPath at hinj ⊢
  rw [hheight] at hinj hroot ⊢
  exact climb_binding (h := 0) hinj (by rw [hroot, hzero, Nat.zero_add])

/-- The proof `ProveOutput` builds for the only output of a tree. -/
theorem rootAfterReplacement_binding_sample :
    ∃ t, newOutputTree.append Sample.geth [hashOf 1] = some t ∧
      rootAfterReplacement Sample.geth (proveLoop Sample.geth 63 0 [hashOf 1] 0) 0 (hashOf 1) =
        t.root Sample.geth ∧
      hashOf 1 = [hashOf 1].getD 0 zeroHash ∧
      proveLoop Sample.geth 63 0 [hashOf 1] 0 = coPath Sample.geth [hashOf 1] 0 := by
  obtain ⟨t, happend, ht⟩ := OutputTree.of_newOutputTree (G := Sample.geth).append [hashOf 1]
    (by decide)
  have hsiblings : proveLoop Sample.geth 63 0 [hashOf 1] 0 = coPath Sample.geth [hashOf 1] 0 :=
    proveLoop_eq_copath _ 63 0 _ 0 fun i => rfl
  have hroot : rootAfterReplacement Sample.geth (proveLoop Sample.geth 63 0 [hashOf 1] 0) 0
      (hashOf 1) = t.root Sample.geth := by
    rw [hsiblings, ht.root_eq (by decide)]
    exact rootAfterReplacement_coPath (by decide)
  refine ⟨t, happend, hroot, rootAfterReplacement_binding Sample.geth (by decide) (by decide)
    happend ?_ ?_ hroot⟩
  · rw [hsiblings]
    exact length_copath _ _ _ _
  · rw [hsiblings]
    exact List.forall₂_same.2 fun p _ _ => rfl

end OpCartesi.Node
