import OpCartesi.Chain.Types
import OpCartesi.Common.Merkle

/-!
# The outputs accumulator (`outputtree.go`)

The append-only Merkle tree of a chain's provable outputs, of which only the frontier is kept.

* `OutputTree.insert`, `append`, `root`: the frontier arithmetic. A panic is `none`.
* `naiveRoot`: the level-by-level reference of the tests (`outputtree_test.go:15-32`).
* `OutputTree.Of`: a tree value holds the frontier of a list of leaves. `Of.append` and
  `Of.root_eq`: appending keeps that, and the root is the reference root of the list.
  `Of.append_room`: appending only succeeds while there is room.
-/

namespace OpCartesi.Node

variable {τ : Type} (G : Geth τ)

/-- `OutputTreeHeight` (`outputtree.go:16`). -/
def OutputTreeHeight : ℕ := 63

/-- `OutputLeaf` (`outputtree.go:21-23`). -/
def outputLeaf (output : Bytes) : Hash := G.keccak256 output

/-- `hashPair` (`outputtree.go:26-28`). -/
def hashPair (left right : Hash) : Hash := G.keccak256 (left ++ right)

/-- `zeroHashes` (`outputtree.go:33-39`). -/
def zeroHashes (h : ℕ) : Hash := Merkle.blank (hashPair G) zeroHash h

/-- `OutputTree` (`outputtree.go:52-58`). -/
structure OutputTree where
  count : ℕ
  branch : List Hash
  deriving DecidableEq

/-- `NewOutputTree` (`outputtree.go:61`). -/
def newOutputTree : OutputTree := ⟨0, []⟩

namespace OutputTree

/-- The loop of `insert` (`outputtree.go:85-99`), `levels` iterations from its end: `node` is carried
    up while the level is taken, and parked at the first free one. Reading `branch` past its end,
    where Go would panic, does not occur in a tree built by appending (`Frontier`). -/
def insertLoop (t : OutputTree) : ℕ → ℕ → ℕ → Hash → Option OutputTree
  | 0, _, _, _ => none -- "output tree is full"
  | levels + 1, h, size, node =>
    if size % 2 = 0 then
      let branch := t.branch ++ List.replicate (h + 1 - t.branch.length) zeroHash
      some ⟨t.count + 1, branch.set h node⟩
    else
      t.insertLoop levels (h + 1) (size / 2) (hashPair G (t.branch.getD h zeroHash) node)

/-- `insert` (`outputtree.go:82-99`). -/
def insert (t : OutputTree) (leaf : Hash) : Option OutputTree :=
  t.insertLoop G OutputTreeHeight 0 t.count leaf

/-- `Append` (`outputtree.go:68-77`). -/
def append (t : OutputTree) (leaves : List Hash) : Option OutputTree :=
  leaves.foldlM (insert G) t

/-- The loop of `Root` (`outputtree.go:105-116`). -/
def rootLoop (t : OutputTree) : ℕ → ℕ → ℕ → Hash → Hash
  | 0, _, _, node => node
  | levels + 1, h, size, node =>
    t.rootLoop levels (h + 1) (size / 2)
      (if size % 2 = 1 then hashPair G (t.branch.getD h zeroHash) node
       else hashPair G node (zeroHashes G h))

/-- `Root` (`outputtree.go:104-117`). -/
def root (t : OutputTree) : Hash := t.rootLoop G OutputTreeHeight 0 t.count zeroHash

end OutputTree

/-- `naiveRoot` (`outputtree_test.go:15-32`), of the tree's height. -/
def naiveRoot (leaves : List Hash) : Hash :=
  Merkle.levelRoot (hashPair G) OutputTreeHeight zeroHash leaves

/-! ## The frontier of a list of leaves -/

open Merkle

namespace OutputTree

/-- The tree value that appending `leaves` to the empty tree gives: its count, and a frontier. -/
structure Of (t : OutputTree) (leaves : List Hash) : Prop where
  count_eq : t.count = leaves.length
  frontier : Frontier (hashPair G) (fun i => leaves.getD i zeroHash) leaves.length t.branch

variable {G} {t t' : OutputTree} {leaves : List Hash}

theorem of_newOutputTree : newOutputTree.Of G [] := ⟨rfl, frontier_nil⟩

theorem getD_of_frontier {leaf : ℕ → Hash} {n h : ℕ} {branch : List Hash}
    (hf : Frontier (hashPair G) leaf n branch) (hbit : n / 2 ^ h % 2 = 1) :
    branch.getD h zeroHash = node (hashPair G) leaf h (n / 2 ^ h - 1) := by
  rw [List.getD_eq_getElem?_getD, hf h hbit, Option.getD_some]

/-- Carrying up from level `h`: below it all bits of the count are set, and the node carried is the
    one above the new leaf. The loop reaches a clear bit before it runs out of levels. -/
theorem Of.insertLoop (ht : t.Of G leaves) (leaf : Hash) (levels : ℕ) :
    ∀ h node, h + levels = OutputTreeHeight → leaves.length + 1 < 2 ^ OutputTreeHeight →
      (leaves.length / 2 ^ h + 1) * 2 ^ h = leaves.length + 1 →
      node = Merkle.node (hashPair G) (fun i => (leaves ++ [leaf]).getD i zeroHash) h
        (leaves.length / 2 ^ h) →
      ∃ t', t.insertLoop G levels h (leaves.length / 2 ^ h) node = some t' ∧
        t'.Of G (leaves ++ [leaf]) := by
  have hsame : ∀ j < leaves.length,
      (leaves ++ [leaf]).getD j zeroHash = leaves.getD j zeroHash := by
    intro j hj
    rw [List.getD_append _ _ _ _ hj]
  induction levels with
  | zero =>
    intro h node hlevels hroom hones _
    obtain rfl : h = OutputTreeHeight := by omega
    rw [Nat.div_eq_of_lt (by omega)] at hones
    omega
  | succ levels ih =>
    intro h node hlevels hroom hones hnode
    unfold OutputTree.insertLoop
    rcases Nat.mod_two_eq_zero_or_one (leaves.length / 2 ^ h) with hbit | hbit
    · rw [if_pos hbit]
      refine ⟨_, rfl, by simp [ht.count_eq], ?_⟩
      rw [List.length_append, List.length_singleton]
      exact ht.frontier.park hsame hones hbit hnode
    · rw [if_neg (by omega), ← div_pow_succ]
      apply ih (h + 1) _ (by omega) hroom
      · have hdiv := div_pow_succ leaves.length h
        have heven : 2 * (leaves.length / 2 ^ (h + 1) + 1) = leaves.length / 2 ^ h + 1 := by omega
        rw [← hones, ← heven, pow_succ]
        ring
      · rw [node_of_odd hbit, getD_of_frontier ht.frontier hbit, hnode]
        congr 1
        apply node_congr
        intro j _ hj
        exact (hsame j (lt_of_lt_of_le hj (block_le hbit))).symm

theorem Of.insert (ht : t.Of G leaves) (leaf : Hash)
    (hroom : leaves.length + 1 < 2 ^ OutputTreeHeight) :
    ∃ t', t.insert G leaf = some t' ∧ t'.Of G (leaves ++ [leaf]) := by
  have h := ht.insertLoop leaf OutputTreeHeight 0 leaf (by simp) hroom (by simp) (by
    simp [node, List.getD_eq_getElem?_getD])
  rwa [pow_zero, Nat.div_one, ← ht.count_eq] at h
theorem append_append (t : OutputTree) (l l' : List Hash) :
    t.append G (l ++ l') = (t.append G l).bind fun t' => t'.append G l' := by
  unfold append
  rw [List.foldlM_append]
  rfl

/-- Appending to the tree of a list gives the tree of the longer list. -/
theorem Of.append (ht : t.Of G leaves) (more : List Hash)
    (hroom : leaves.length + more.length < 2 ^ OutputTreeHeight) :
    ∃ t', t.append G more = some t' ∧ t'.Of G (leaves ++ more) := by
  induction more generalizing t leaves with
  | nil => exact ⟨t, rfl, by rwa [List.append_nil]⟩
  | cons leaf more ih =>
    rw [List.length_cons] at hroom
    obtain ⟨t₁, h₁, hof₁⟩ := ht.insert leaf (by omega)
    obtain ⟨t', h', hof'⟩ := ih hof₁ (by simp; omega)
    refine ⟨t', ?_, by simpa using hof'⟩
    unfold OutputTree.append at h' ⊢
    rw [List.foldlM_cons, h₁]
    exact h'

/-- The last leaf of the tree is never filled: carrying up from it runs out of levels. -/
theorem insertLoop_full (t : OutputTree) (levels : ℕ) : ∀ h size node,
    size = 2 ^ levels - 1 → t.insertLoop G levels h size node = none := by
  induction levels with
  | zero =>
    intro h size node _
    rfl
  | succ levels ih =>
    intro h size node hsize
    have hpow : 2 ^ (levels + 1) = 2 * 2 ^ levels := pow_succ' 2 levels
    have hpos : 0 < 2 ^ levels := by positivity
    unfold OutputTree.insertLoop
    rw [if_neg (by omega)]
    exact ih _ _ _ (by omega)

theorem Of.insert_room (ht : t.Of G leaves) (hroom : leaves.length < 2 ^ OutputTreeHeight)
    {leaf : Hash} (h : t.insert G leaf = some t') : leaves.length + 1 < 2 ^ OutputTreeHeight := by
  by_contra hfull
  have hcount : t.count = 2 ^ OutputTreeHeight - 1 := by
    rw [ht.count_eq]
    omega
  rw [OutputTree.insert, insertLoop_full t _ 0 _ leaf hcount] at h
  cases h

/-- What can be appended fits in. -/
theorem Of.append_room (ht : t.Of G leaves) (hroom : leaves.length < 2 ^ OutputTreeHeight)
    {more : List Hash} (h : t.append G more = some t') :
    leaves.length + more.length < 2 ^ OutputTreeHeight ∧ t'.Of G (leaves ++ more) := by
  have hfits : leaves.length + more.length < 2 ^ OutputTreeHeight := by
    induction more generalizing t leaves with
    | nil => simpa using hroom
    | cons leaf more ih =>
      unfold OutputTree.append at h
      rw [List.foldlM_cons] at h
      obtain ⟨t₁, h₁, hrest⟩ := Option.bind_eq_some_iff.1 h
      have hroom₁ := ht.insert_room hroom h₁
      obtain ⟨t₂, h₂, hof⟩ := ht.insert leaf hroom₁
      obtain rfl := Option.some.inj (h₁.symm.trans h₂)
      have hrec := ih hof (by simpa using hroom₁) hrest
      rw [List.length_append, List.length_singleton] at hrec
      rw [List.length_cons]
      omega
  obtain ⟨t₂, h₂, hof⟩ := ht.append more hfits
  obtain rfl := Option.some.inj (h.symm.trans h₂)
  exact ⟨hfits, hof⟩

/-- Climbing from level `h` of the first empty leaf. -/
theorem Of.rootLoop (ht : t.Of G leaves) (levels : ℕ) : ∀ h node,
    node = Merkle.node (hashPair G) (fun i => leaves.getD i zeroHash) h (leaves.length / 2 ^ h) →
    t.rootLoop G levels h (leaves.length / 2 ^ h) node =
      Merkle.node (hashPair G) (fun i => leaves.getD i zeroHash) (h + levels)
        (leaves.length / 2 ^ (h + levels)) := by
  induction levels with
  | zero =>
    intro h node hnode
    exact hnode
  | succ levels ih =>
    intro h node hnode
    unfold OutputTree.rootLoop
    rw [← div_pow_succ, ih (h + 1), show h + 1 + levels = h + (levels + 1) by omega]
    rcases Nat.mod_two_eq_zero_or_one (leaves.length / 2 ^ h) with hbit | hbit
    · rw [if_neg (by omega), node_of_even hbit, hnode]
      congr 1
      -- the right neighbour lies past the last leaf
      refine (node_eq_blank fun j hj => List.getD_eq_default _ _ ?_).symm
      have hpast := Nat.lt_div_mul_add (a := leaves.length) (show 0 < 2 ^ h by positivity)
      rw [add_mul, one_mul] at hj
      omega
    · rw [if_pos hbit, node_of_odd hbit, hnode, getD_of_frontier ht.frontier hbit]

theorem Of.root_eq (ht : t.Of G leaves) (hroom : leaves.length < 2 ^ OutputTreeHeight) :
    t.root G = naiveRoot G leaves := by
  have hzero : zeroHash =
      node (hashPair G) (fun i => leaves.getD i zeroHash) 0 (leaves.length / 2 ^ 0) := by
    rw [pow_zero, Nat.div_one, node, List.getD_eq_default _ _ le_rfl]
  have h := ht.rootLoop OutputTreeHeight 0 zeroHash hzero
  rw [Nat.zero_add, Nat.div_eq_of_lt hroom, pow_zero, Nat.div_one, ← ht.count_eq] at h
  rw [root, naiveRoot, levelRoot_eq, h]

end OutputTree

end OpCartesi.Node
