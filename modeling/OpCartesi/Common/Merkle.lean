import Mathlib

/-!
# Fixed-height Merkle trees and their frontier

Binary Merkle trees of a fixed height over an arbitrary node type, for an arbitrary `pair`.

* `node pair leaf h i`: the `i`-th node of level `h` over the leaves `leaf`. `node_injOn`: it fixes
  them, collisions apart.
* `parents`, `levelRoot`: building the tree level by level from a list of leaves, padding each
  level with the root of an empty subtree; `levelRoot_eq` says this gives `node`.
* `Frontier`: the binary-counter invariant of an append-only tree of which only the pending left
  nodes are kept. Bit `h` of the count says whether level `h` has such a node.
* `Frontier.park`: parking a carried node at the first clear level keeps the invariant.
* `climb`, `copath`: folding a proof from a leaf to the root. `climb_copath`: the siblings of a leaf's
  path prove it. `climb_binding`: no other proof does, unless a pair it hashes collides with the tree's.
-/

namespace OpCartesi.Merkle

variable {α : Type*} (pair : α → α → α) (zero : α)

/-! ## Nodes -/

/-- The root of a subtree of height `h` all of whose leaves are `zero`. -/
def blank : ℕ → α
  | 0 => zero
  | h + 1 => pair (blank h) (blank h)

/-- The `i`-th node of level `h` over the leaves `leaf`. -/
def node (leaf : ℕ → α) : ℕ → ℕ → α
  | 0, i => leaf i
  | h + 1, i => pair (node leaf h (2 * i)) (node leaf h (2 * i + 1))

variable {pair zero} {leaf leaf' : ℕ → α} {h i n : ℕ}

/-- A node depends only on the leaves below it. -/
theorem node_congr (heq : ∀ j, i * 2 ^ h ≤ j → j < (i + 1) * 2 ^ h → leaf j = leaf' j) :
    node pair leaf h i = node pair leaf' h i := by
  induction h generalizing i with
  | zero => exact heq i (by simp) (by simp)
  | succ h ih =>
    have hpow : 2 ^ (h + 1) = 2 * 2 ^ h := pow_succ' 2 h
    unfold node
    congr 1
    · apply ih
      intro j hlow hhigh
      apply heq j <;> rw [hpow] <;> nlinarith
    · apply ih
      intro j hlow hhigh
      apply heq j <;> rw [hpow] <;> nlinarith

/-- A node whose leaves are all `zero` is the blank node of its level. -/
theorem node_eq_blank (hzero : ∀ j, i * 2 ^ h ≤ j → leaf j = zero) :
    node pair leaf h i = blank pair zero h := by
  have hconst : ∀ h i, node pair (fun _ => zero) h i = blank pair zero h := by
    intro h
    induction h with
    | zero => intro i; rfl
    | succ h ih => intro i; rw [node, ih, ih, blank]
  rw [← hconst h i]
  exact node_congr fun j hlow _ => hzero j hlow

/-- A node fixes the leaves below it, if no two pairs of nodes from `S` collide. -/
theorem node_injOn {S : Set α} (hS : ∀ a ∈ S, ∀ b ∈ S, pair a b ∈ S)
    (hpair : ∀ a ∈ S, ∀ b ∈ S, ∀ a' ∈ S, ∀ b' ∈ S, pair a b = pair a' b' → a = a' ∧ b = b')
    (hleaf : ∀ i, leaf i ∈ S) (hleaf' : ∀ i, leaf' i ∈ S) :
    ∀ h i, node pair leaf h i = node pair leaf' h i →
      ∀ j, i * 2 ^ h ≤ j → j < (i + 1) * 2 ^ h → leaf j = leaf' j := by
  have hnode : ∀ {leaf : ℕ → α}, (∀ i, leaf i ∈ S) → ∀ h i, node pair leaf h i ∈ S := by
    intro leaf hleaf h
    induction h with
    | zero => exact hleaf
    | succ h ih => exact fun i => hS _ (ih _) _ (ih _)
  intro h
  induction h with
  | zero =>
    intro i heq j hlow hhigh
    obtain rfl : j = i := by omega
    exact heq
  | succ h ih =>
    intro i heq j hlow hhigh
    obtain ⟨hleft, hright⟩ := hpair _ (hnode hleaf _ _) _ (hnode hleaf _ _) _ (hnode hleaf' _ _) _
      (hnode hleaf' _ _) heq
    have hpow : 2 ^ (h + 1) = 2 * 2 ^ h := pow_succ' 2 h
    rw [hpow] at hlow hhigh
    rcases Nat.lt_or_ge j ((2 * i + 1) * 2 ^ h) with hj | hj
    · exact ih _ hleft j (by nlinarith) hj
    · exact ih _ hright j hj (by nlinarith)

/-! ## Level by level -/

variable (pair) in
/-- The level above `nodes`, `dflt` standing for the missing ones. -/
def parents (dflt : α) (nodes : List α) : List α :=
  (List.range ((nodes.length + 1) / 2)).map fun i =>
    pair (nodes.getD (2 * i) dflt) (nodes.getD (2 * i + 1) dflt)

variable (pair) in
/-- The root of height `h` over `nodes`, a level at a time. -/
def levelRoot : ℕ → α → List α → α
  | 0, dflt, nodes => nodes.getD 0 dflt
  | h + 1, dflt, nodes => levelRoot h (pair dflt dflt) (parents pair dflt nodes)

theorem getD_parents (dflt : α) (nodes : List α) (i : ℕ) :
    (parents pair dflt nodes).getD i (pair dflt dflt) =
      pair (nodes.getD (2 * i) dflt) (nodes.getD (2 * i + 1) dflt) := by
  unfold parents
  rcases Nat.lt_or_ge i ((nodes.length + 1) / 2) with hi | hi
  · simp [List.getD_eq_getElem?_getD, List.getElem?_range hi]
  · have hnone : nodes.length ≤ 2 * i := by omega
    rw [List.getD_eq_default _ _ (by simpa using hi), List.getD_eq_default _ _ hnone,
      List.getD_eq_default _ _ (by omega)]

theorem levelRoot_eq (h : ℕ) (dflt : α) (nodes : List α) :
    levelRoot pair h dflt nodes = node pair (fun i => nodes.getD i dflt) h 0 := by
  -- one level up, the nodes of level `k` are those of level `k + 1` below
  have hlift : ∀ (leaf : ℕ → α) k i, node pair leaf (k + 1) i =
      node pair (fun j => pair (leaf (2 * j)) (leaf (2 * j + 1))) k i := by
    intro leaf k
    induction k with
    | zero => intro i; rfl
    | succ k ih => intro i; rw [node, ih, ih]; rfl
  induction h generalizing dflt nodes with
  | zero => rfl
  | succ h ih =>
    rw [levelRoot, ih, hlift]
    simp only [getD_parents]

/-! ## The frontier -/

/-- `branch` holds the pending left node of every level whose bit is set in `n`: the leaves below
    it are the last complete block of `2 ^ h` before the `n`-th leaf. -/
def Frontier (pair : α → α → α) (leaf : ℕ → α) (n : ℕ) (branch : List α) : Prop :=
  ∀ h, n / 2 ^ h % 2 = 1 → branch[h]? = some (node pair leaf h (n / 2 ^ h - 1))

theorem frontier_nil : Frontier pair leaf 0 [] := by
  intro h hbit
  simp at hbit

theorem div_pow_succ (n h : ℕ) : n / 2 ^ (h + 1) = n / 2 ^ h / 2 := by
  rw [pow_succ, Nat.div_div_eq_div_mul]

/-- The parent of two neighbours, the right one at position `n / 2 ^ h`. -/
theorem node_of_odd (hbit : n / 2 ^ h % 2 = 1) : node pair leaf (h + 1) (n / 2 ^ (h + 1)) =
    pair (node pair leaf h (n / 2 ^ h - 1)) (node pair leaf h (n / 2 ^ h)) := by
  rw [div_pow_succ, node]
  congr 2 <;> omega

/-- The parent of two neighbours, the left one at position `n / 2 ^ h`. -/
theorem node_of_even (hbit : n / 2 ^ h % 2 = 0) : node pair leaf (h + 1) (n / 2 ^ (h + 1)) =
    pair (node pair leaf h (n / 2 ^ h)) (node pair leaf h (n / 2 ^ h + 1)) := by
  rw [div_pow_succ, node]
  congr 2 <;> omega

/-- Below the first clear bit `h` of `n`, the bits of `n + 1` are clear; above it they are those
    of `n`. -/
theorem succ_bits (hones : (n / 2 ^ h + 1) * 2 ^ h = n + 1) (hclear : n / 2 ^ h % 2 = 0) (k : ℕ) :
    (k < h → (n + 1) / 2 ^ k % 2 = 0) ∧ (k = h → (n + 1) / 2 ^ k = n / 2 ^ h + 1) ∧
      (h < k → (n + 1) / 2 ^ k = n / 2 ^ k) := by
  refine ⟨fun hk => ?_, fun hk => ?_, fun hk => ?_⟩
  · obtain ⟨d, rfl⟩ : ∃ d, h = k + 1 + d := ⟨h - k - 1, by omega⟩
    rw [← hones, show 2 ^ (k + 1 + d) = 2 * 2 ^ d * 2 ^ k by ring, ← mul_assoc,
      Nat.mul_div_cancel _ (by positivity), mul_left_comm, Nat.mul_mod_right]
  · rw [hk, ← hones, Nat.mul_div_cancel _ (by positivity)]
  · obtain ⟨d, rfl⟩ : ∃ d, k = h + 1 + d := ⟨k - h - 1, by omega⟩
    rw [show 2 ^ (h + 1 + d) = 2 ^ h * (2 * 2 ^ d) by ring, ← Nat.div_div_eq_div_mul,
      ← Nat.div_div_eq_div_mul n, ← hones, Nat.mul_div_cancel _ (by positivity),
      ← Nat.div_div_eq_div_mul, ← Nat.div_div_eq_div_mul]
    generalize n / 2 ^ h = m at hclear
    rw [show (m + 1) / 2 = m / 2 by omega]

/-- The block a frontier node covers ends at or before the `n`-th leaf. -/
theorem block_le (hbit : n / 2 ^ h % 2 = 1) : (n / 2 ^ h - 1 + 1) * 2 ^ h ≤ n := by
  have hpos : ∀ m : ℕ, m % 2 = 1 → m - 1 + 1 = m := by
    intro m hm
    omega
  rw [hpos _ hbit]
  exact Nat.div_mul_le_self n (2 ^ h)

/-- Parking the carried node at the first clear level `h` keeps the invariant, one leaf later. -/
theorem Frontier.park {branch : List α} {carry zero' : α} (hf : Frontier pair leaf n branch)
    (hleaf : ∀ j < n, leaf' j = leaf j) (hones : (n / 2 ^ h + 1) * 2 ^ h = n + 1)
    (hclear : n / 2 ^ h % 2 = 0) (hcarry : carry = node pair leaf' h (n / 2 ^ h)) :
    Frontier pair leaf' (n + 1)
      ((branch ++ List.replicate (h + 1 - branch.length) zero').set h carry) := by
  intro k hbit
  obtain ⟨hbelow, hat, habove⟩ := succ_bits hones hclear k
  rcases Nat.lt_trichotomy k h with hk | hk | hk
  · rw [hbelow hk] at hbit
    omega
  · subst hk
    rw [hat rfl, List.getElem?_set_self (by simp; omega), hcarry]
    rfl
  · rw [habove hk] at hbit ⊢
    have hold := hf k hbit
    have hlen : k < branch.length := by
      by_contra hge
      rw [List.getElem?_eq_none (by omega)] at hold
      cases hold
    rw [List.getElem?_set_ne (by omega), List.getElem?_append_left hlen, hold]
    congr 1
    apply node_congr
    intro j _ hj
    exact (hleaf j (lt_of_lt_of_le hj (block_le hbit))).symm

/-! ## Proofs -/

/-- The position that shares its parent with `i`. -/
def sibling (i : ℕ) : ℕ := i ^^^ 1

theorem sibling_even (heven : i % 2 = 0) : sibling i = i + 1 := by
  obtain ⟨m, rfl⟩ := Nat.dvd_of_mod_eq_zero heven
  unfold sibling
  apply Nat.eq_of_testBit_eq
  intro b
  cases b <;> simp [Nat.testBit_succ, Nat.testBit_zero]

theorem sibling_odd (hodd : i % 2 = 1) : sibling i = i - 1 := by
  have heven : (i - 1) % 2 = 0 := by omega
  have hback := sibling_even heven
  unfold sibling at hback ⊢
  rw [show i = i - 1 + 1 by omega, ← hback, Nat.xor_assoc, Nat.xor_self, Nat.xor_zero, hback]
  omega

variable (pair) in
/-- The node the siblings `ss` lead to from `x` at position `i`. -/
def climb : List α → ℕ → α → α
  | [], _, x => x
  | s :: ss, i, x => climb ss (i / 2) (if i % 2 = 0 then pair x s else pair s x)

variable (pair) in
/-- The pairs hashed on the way. -/
def climbed : List α → ℕ → α → List (α × α)
  | [], _, _ => []
  | s :: ss, i, x =>
    (if i % 2 = 0 then (x, s) else (s, x)) ::
      climbed ss (i / 2) (if i % 2 = 0 then pair x s else pair s x)

variable (pair) in
/-- The siblings of the `k` levels from `h` on, above position `i` of level `h`. -/
def copath (leaf : ℕ → α) : ℕ → ℕ → ℕ → List α
  | _, 0, _ => []
  | h, k + 1, i => node pair leaf h (sibling i) :: copath leaf (h + 1) k (i / 2)

theorem length_copath (leaf : ℕ → α) (k : ℕ) : ∀ h i, (copath pair leaf h k i).length = k := by
  induction k with
  | zero => intro h i; rfl
  | succ k ih => intro h i; rw [copath, List.length_cons, ih]

/-- A node and its sibling give the node above them. -/
theorem node_parent (leaf : ℕ → α) (h i : ℕ) :
    (if i % 2 = 0 then pair (node pair leaf h i) (node pair leaf h (sibling i))
      else pair (node pair leaf h (sibling i)) (node pair leaf h i)) =
      node pair leaf (h + 1) (i / 2) := by
  rw [node]
  rcases Nat.mod_two_eq_zero_or_one i with hbit | hbit
  · rw [if_pos hbit, sibling_even hbit]
    congr 2 <;> omega
  · rw [if_neg (by omega), sibling_odd hbit]
    congr 2 <;> omega

theorem climb_copath (leaf : ℕ → α) (k : ℕ) : ∀ h i,
    climb pair (copath pair leaf h k i) i (node pair leaf h i) =
      node pair leaf (h + k) (i / 2 ^ k) := by
  induction k with
  | zero => intro h i; simp [copath, climb]
  | succ k ih =>
    intro h i
    rw [copath, climb, node_parent, ih, Nat.div_div_eq_div_mul, ← pow_succ',
      show h + 1 + k = h + (k + 1) by omega]

/-- A proof that reaches the node above `i` is the tree's own, if at no level the pair it hashes
    collides with the tree's. -/
theorem climb_binding {leaf : ℕ → α} {ss : List α} : ∀ {h i : ℕ} {x : α},
    List.Forall₂ (fun p q => pair p.1 p.2 = pair q.1 q.2 → p = q) (climbed pair ss i x)
      (climbed pair (copath pair leaf h ss.length i) i (node pair leaf h i)) →
    climb pair ss i x = node pair leaf (h + ss.length) (i / 2 ^ ss.length) →
    x = node pair leaf h i ∧ ss = copath pair leaf h ss.length i := by
  induction ss with
  | nil =>
    intro h i x _ hroot
    simpa [climb, copath] using hroot
  | cons s ss ih =>
    intro h i x hinj hroot
    have hsplit : i / 2 ^ (ss.length + 1) = i / 2 / 2 ^ ss.length := by
      rw [Nat.div_div_eq_div_mul, ← pow_succ']
    rw [List.length_cons, hsplit, show h + (ss.length + 1) = h + 1 + ss.length by omega,
      climb] at hroot
    rw [List.length_cons, copath, climbed, climbed, node_parent, List.forall₂_cons] at hinj
    obtain ⟨hfirst, habove⟩ := hinj
    -- the levels above are the tree's, so the first pair hashes to the tree's node
    obtain ⟨hnode, hss⟩ := ih habove hroot
    rw [List.length_cons, copath, ← hss]
    rw [← node_parent] at hnode
    split_ifs at hfirst hnode with hbit
    · have heq := hfirst hnode
      simp only [Prod.mk.injEq] at heq
      exact ⟨heq.1, by rw [heq.2]⟩
    · have heq := hfirst hnode
      simp only [Prod.mk.injEq] at heq
      exact ⟨heq.2, by rw [heq.1]⟩

end OpCartesi.Merkle
