import OpCartesi.Chain.Lineage

/-!
# Restarting (`persist.go`, `passertrie.go`)

* `restore`: the newest checkpoint at or below the recorded head is loaded, the withdrawal trie is
  rebuilt from the records, and the blocks above the checkpoint are replayed.
* `replayStored_run`: replaying a stored block on its parent always gives the records it had.
-/

namespace OpCartesi.Node

open Exec
open Function (update update_of_ne update_self)

variable {σ τ : Type} {w : Executed σ} {pool : Option Pool} {h : Hash} {rt : DirSort σ}
  {x : Executed σ} {d : Chain σ τ} {lo : ℕ}

/-! ## The code -/

/-- The errors of `replayStored`. -/
inductive ReplayError
  | unknownParentState
  | forkFailed
  | executing (e : ChainError)
  | rootHashFailed
  | stateRoot (computed : Hash)
  | panicked
  | withdrawalsRoot (computed : Hash)

/-- The errors of `Restore`. -/
inductive RestoreError
  | config (e : ChainError)
  | headMissing (head : Hash)
  | noCheckpoint (number : ℕ)
  | noCanonicalBlock (number : ℕ)
  | loading
  | rootHashFailed
  | checkpointRoot (root recorded : Hash)
  | records (e : StoreError)
  | blockMissing (hash : Hash)
  | noOutputRecords (number : ℕ)
  | rebuiltRoot (root : Hash)
  | unfinished
  | noCanonicalAt (number : ℕ)
  | canonicalMissing (number : ℕ) (hash : Hash)
  | replaying (number : ℕ) (e : ReplayError)

variable (G : Geth τ) (M : Machine σ)

namespace Store

/-- The walk of `rebuildPasser` (`passertrie.go:205-213`), oldest block first. The height goes down in
    every step, so that `fuel` above the height suffices. -/
def lineage (s : Store σ τ) : ℕ → Block → List Block → Except RestoreError (List Block)
  | 0, _, _ => .error .unfinished
  | fuel + 1, b, blocks =>
    if b.number = 0 then .ok blocks
    else do
      let parent ← expect (s.block G b.header.parentHash) (.blockMissing b.header.parentHash)
      s.lineage fuel parent (b :: blocks)

/-- The withdrawals of a stored block (`passertrie.go:217-222`). -/
def withdrawals (s : Store σ τ) (b : Block) : Except RestoreError (List Hash) := do
  let (outputs, _, _) ← (s.records (b.hash G)).mapError fun _ => .noOutputRecords b.number
  pure (withdrawalHashes G outputs)

/-- `rebuildPasser` (`passertrie.go:204-235`). -/
def rebuildPasser (s : Store σ τ) (base : Block) (tree : OutputTree) :
    Except RestoreError PasserTrie := do
  let blocks ← s.lineage G (base.number + 1) base []
  let withdrawals ← blocks.mapM (s.withdrawals G)
  let passer := (withdrawals.flatten.foldl (PasserTrie.insertWithdrawal G) newPasserTrie).setOutputsRoot
    G (tree.root G)
  require (base.header.withdrawalsHash = some (passer.root G)) (.rebuiltRoot (passer.root G))
  pure passer

end Store

namespace Chain

/-- `replayStored` (`persist.go:125-165`). Missing entries of the counters and trees read as zero
    values. -/
def replayStored (c : Chain σ τ) (b : Block) : Except ReplayError (Chain σ τ) := do
  let parentMachine ← expect (c.machines b.header.parentHash) .unknownParentState
  let work ← expect (M.fork parentMachine) .forkFailed
  let firstInput := (c.inputs b.header.parentHash).getD 0
  let res ← (replayImport G M c.cfg (c.cfg.inputContextOf b.header firstInput) work
    b.txs).mapError .executing
  let root ← expect (M.rootHash res.machine) .rootHashFailed
  require (root = b.header.root) (.stateRoot root)
  let base := (c.trees b.header.parentHash).getD newOutputTree
  let tree ← expect (base.append G (outputLeaves G res.outputs)) .panicked
  let passer ← (c.extendPasser G b.header.parentHash res.outputs tree).mapError .executing
  require (b.header.withdrawalsHash = some (passer.root G)) (.withdrawalsRoot (passer.root G))
  let c := c.commit G ⟨b, res.machine, res.outputs, tree, passer, firstInput⟩
  pure { c with
    canonical := update c.canonical b.number (some (b.hash G))
    head := b.hash G }

/-- The replay loop of `Restore` (`persist.go:92-104`): `left` blocks from height `n` on. -/
def replayFrom (s : Store σ τ) : ℕ → ℕ → Chain σ τ → Except RestoreError (Chain σ τ)
  | 0, _, c => .ok c
  | left + 1, n, c => do
    let hash ← expect (s.canonical n) (.noCanonicalAt n)
    let b ← expect (s.block G hash) (.canonicalMissing n hash)
    let c ← (c.replayStored G M b).mapError (.replaying n)
    replayFrom s left (n + 1) c

/-- `adopt` (`persist.go:222-254`): a chain whose earliest block is the checkpoint block. -/
def adoptBase (cfg : Config) (s : Store σ τ) (pool : Option Pool) (base : Block) (m : σ)
    (outputs : List TxOutputs) (tree : OutputTree) (passer : PasserTrie) (inputs : ℕ) : Chain σ τ :=
  { singleton G cfg pool (some s) ⟨base, m, outputs, tree, passer, 0⟩
      (fun h => (outputs.filter fun o => o.txHash ≠ zeroHash ∧ o.txHash = h).map
        fun _ => base.hash G)
      ((s.canonical 0).getD (base.hash G)) with
    inputs := update (fun _ => none) (base.hash G) (some inputs) }

/-- A pointer that is kept if its block is held (`persist.go:110-116`). -/
def keepPointer (c : Chain σ τ) (recorded : Option Hash) (base : Hash) : Hash :=
  match recorded with
  | none => base
  | some h => if (c.blocks h).isSome then h else base

end Chain

/-- What `Restore` adopts of the checkpoint block (`persist.go:70-76`). -/
def Store.baseRecords (s : Store σ τ) (base : Block) :
    Except RestoreError (List TxOutputs × OutputTree × ℕ) :=
  if base.number = 0 then .ok ([], newOutputTree, 0)
  else (s.records (base.hash G)).mapError .records

/-- `Restore` (`persist.go:28-121`); `none` says that the store is empty. -/
def restore (rt : DirSort σ) (cfg : Config) (s : Store σ τ) (pool : Option Pool) :
    Except RestoreError (Option (Chain σ τ)) := do
  let cfg := cfg.withDefaults
  cfg.validate.mapError .config
  match s.headBlock with
  | none => pure none
  | some head => do
    let headBlock ← expect (s.block G head) (.headMissing head)
    let cp ← expect (s.latestCheckpoint rt headBlock.number) (.noCheckpoint headBlock.number)
    let base ← expect ((s.canonical cp.number).bind (s.block G)) (.noCanonicalBlock cp.number)
    let m ← expect cp.content .loading
    let root ← expect (M.rootHash m) .rootHashFailed
    require (root = base.header.root) (.checkpointRoot root base.header.root)
    let (outputs, tree, inputs) ← s.baseRecords G base
    let passer ← s.rebuildPasser G base tree
    let c := Chain.adoptBase G cfg s pool base m outputs tree passer inputs
    let c ← c.replayFrom G M s (headBlock.number - base.number) (base.number + 1)
    pure (some { c with
      safe := c.keepPointer s.safeHead (base.hash G)
      finalized := c.keepPointer s.finalizedBlock (base.hash G) }.prune)

/-- `Close` (`persist.go:339-349`): the pointers are recorded once more. -/
def Chain.close (c : Chain σ τ) : Option (Store σ τ) :=
  c.store.map fun s => s.setHeads c.head c.safe c.finalized

variable {G M} {cfg : Config} {c : Chain σ τ} {L : Ledger σ}

/-! ## When a restart succeeds -/

theorem restore_eq_ok {s : Store σ τ} :
    restore G M rt cfg s pool = .ok (some d) ↔ cfg.withDefaults.validate = .ok () ∧
      ∃ head cp base m records passer c', s.headBlock.bind (s.block G) = some head ∧
        s.latestCheckpoint rt head.number = some cp ∧
        (s.canonical cp.number).bind (s.block G) = some base ∧ cp.content = some m ∧
        M.rootHash m = some base.header.root ∧ s.baseRecords G base = .ok records ∧
        s.rebuildPasser G base records.2.1 = .ok passer ∧
        (Chain.adoptBase G cfg.withDefaults s pool base m records.1 records.2.1 passer
          records.2.2).replayFrom G M s (head.number - base.number) (base.number + 1) = .ok c' ∧
        d = { c' with
          safe := c'.keepPointer s.safeHead (base.hash G)
          finalized := c'.keepPointer s.finalizedBlock (base.hash G) }.prune := by
  unfold restore
  cases hhead : s.headBlock with
  | none => simp [except_bind_eq_ok, pure, Except.pure]
  | some h =>
    simp only [except_bind_eq_ok, mapError_eq_ok, expect_eq_ok, require_eq_ok, Option.bind_some]
    constructor
    · rintro ⟨⟨⟩, hvalid, head, hheld, cp, hcp, base, hbase, m, hm, root, hroot, ⟨⟩, rfl, records,
        hrecords, passer, hpasser, c', hloop, hpure⟩
      cases hpure
      exact ⟨hvalid, head, cp, base, m, records, passer, c', hheld, hcp, hbase, hm, hroot, hrecords,
        hpasser, hloop, rfl⟩
    · rintro ⟨hvalid, head, cp, base, m, records, passer, c', hheld, hcp, hbase, hm, hroot, hrecords,
        hpasser, hloop, rfl⟩
      exact ⟨(), hvalid, head, hheld, cp, hcp, base, hbase, m, hm, _, hroot, (), rfl, records,
        hrecords, passer, hpasser, c', hloop, rfl⟩

theorem replayFrom_succ_eq_ok {s : Store σ τ} {left n : ℕ} :
    c.replayFrom G M s (left + 1) n = .ok d ↔ ∃ hash b c', s.canonical n = some hash ∧
      s.block G hash = some b ∧ c.replayStored G M b = .ok c' ∧
      c'.replayFrom G M s left (n + 1) = .ok d := by
  rw [Chain.replayFrom]
  simp only [except_bind_eq_ok, expect_eq_ok, mapError_eq_ok, exists_and_left]

/-! ## Replaying a block -/

/-- The state after replaying `y`. -/
def Chain.replayed (G : Geth τ) (c : Chain σ τ) (y : Executed σ) : Chain σ τ :=
  { c.commit G y with
    canonical := update c.canonical y.block.number (some (y.block.hash G))
    head := y.block.hash G }

/-- Replaying a block on its parent reaches the records it executes to. -/
theorem replayStored_run (hrec : Recorded G M L c) {x y : Executed σ}
    (hx : L (x.block.hash G) = some x) (hm : c.machines (x.block.hash G) = some x.machine)
    (h : Executes G M c.cfg x y) : c.replayStored G M y.block = .ok (c.replayed G y) := by
  obtain ⟨gas, hran, -⟩ := h.ran
  have hfirst : (c.inputs (x.block.hash G)).getD 0 = y.firstInput := by
    rw [hrec.inputs _ x hx, h.first_eq]
    rfl
  have hpasser : c.extendPasser G (x.block.hash G) y.outputs y.tree = .ok y.passer :=
    Chain.extendPasser_eq_ok.2 ⟨x.passer, hrec.passers _ x hx, h.passer_eq⟩
  unfold Chain.replayStored
  rw [h.parent_eq, hm, hfirst, hrec.trees _ x hx]
  simp only [expect, bind, Except.bind, h.forks, hran, Except.mapError, h.root_eq, require, if_pos,
    Option.getD_some, h.tree_eq, hpasser, h.withdrawals_eq]
  rfl

/-! ## What a store holds -/

/-- The store has written `x` under `h`. -/
structure Archived (G : Geth τ) (s : Store σ τ) (h : Hash) (x : Executed σ) : Prop where
  header : s.headers h = some x.block.header.stored
  body : ∃ txs, x.block.txs.mapM G.unmarshalBinary = some txs ∧ s.bodies h = some txs
  outputs : s.outputs h = some (encodeOutputs x.outputs)
  trees : s.trees h = some x.tree.encode
  inputs : s.inputs h = some x.inputs

/-- What the store has under a hash is what the ledger has. -/
def Archives (G : Geth τ) (L : Ledger σ) (s : Store σ τ) : Prop :=
  ∀ h, (s.headers h = none ∧ s.outputs h = none) ∨ ∃ x, L h = some x ∧ Archived G s h x

theorem Archived.block (hG : G.Reencodes) {s : Store σ τ} (ha : Archived G s h x) :
    s.block G h = some x.stored.block := by
  obtain ⟨txs, htxs, hbody⟩ := ha.body
  simp [Store.block, ha.header, hbody, hG.mapM htxs, Executed.stored]

theorem Archived.records {s : Store σ τ} (ha : Archived G s h x) :
    s.records h = .ok (x.outputs, x.tree, x.inputs) := by
  simp [Store.records, expect, ha.outputs, ha.trees, ha.inputs, decodeOutputs_encodeOutputs,
    OutputTree.encode, StoredTree.decode, bind, Except.bind, pure, Except.pure]

theorem Archives.of_block (hG : G.Reencodes) {s : Store σ τ} (ha : Archives G L s) {b : Block}
    (hb : s.block G h = some b) : ∃ x, L h = some x ∧ Archived G s h x ∧ b = x.stored.block := by
  rcases ha h with ⟨hnone, -⟩ | ⟨x, hx, hax⟩
  · simp [Store.block, hnone] at hb
  · rw [hax.block hG] at hb
    exact ⟨x, hx, hax, (Option.some.inj hb).symm⟩

theorem Archives.of_records {s : Store σ τ} (ha : Archives G L s)
    {r : List TxOutputs × OutputTree × ℕ} (hr : s.records h = .ok r) :
    ∃ x, L h = some x ∧ r = (x.outputs, x.tree, x.inputs) := by
  rcases ha h with ⟨-, hnone⟩ | ⟨x, hx, hax⟩
  · simp [Store.records, expect, hnone, bind, Except.bind] at hr
  · rw [hax.records] at hr
    exact ⟨x, hx, (Except.ok.inj hr).symm⟩

/-! ## The withdrawal trie of the checkpoint block -/

/-- The blocks above the genesis block that lead to `y`. -/
inductive Path (G : Geth τ) (M : Machine σ) (cfg : Config) (L : Ledger σ) (root : Executed σ) :
    List (Executed σ) → Executed σ → Prop
  | root (h : L (root.block.hash G) = some root) : Path G M cfg L root [] root
  | step {xs : List (Executed σ)} {x y : Executed σ} (hpath : Path G M cfg L root xs x)
    (hy : L (y.block.hash G) = some y) (hexec : Executes G M cfg x y) :
    Path G M cfg L root (xs ++ [y]) y

theorem Lined.path {root : Executed σ} (hlined : Lined G M cfg (Ledger.only G root) L)
    (hkeyed : ∀ h x, L h = some x → x.block.hash G = h) :
    ∀ h y, L h = some y → ∃ xs, Path G M cfg L root xs y := by
  refine Ledger.induct hlined Executes.number_eq (fun h hself => ?_) fun h x y hy hexec ih => ?_
  · exact ⟨[], .root (hkeyed h root hself ▸ hself)⟩
  · obtain ⟨xs, hpath⟩ := ih
    exact ⟨_, .step hpath (hkeyed h y hy ▸ hy) hexec⟩

theorem PasserTrie.ext {p p' : PasserTrie} (h : p.slots = p'.slots) : p = p' := by
  cases p
  cases p'
  exact congrArg PasserTrie.mk h

/-- `y` is a block on `x` that commits to the trie of `x`, extended by its own outputs. -/
structure Extends (G : Geth τ) (x y : Executed σ) : Prop where
  parent_eq : y.block.header.parentHash = x.block.hash G
  number_eq : y.block.number = x.block.number + 1
  passer_eq : y.passer = x.passer.extend G y.outputs y.tree
  withdrawals_eq : y.block.header.withdrawalsHash = some (y.passer.root G)

theorem Executes.extends {x y : Executed σ} (h : Executes G M cfg x y) : Extends G x y :=
  ⟨h.parent_eq, h.number_eq, h.passer_eq, h.withdrawals_eq⟩

/-- The blocks from the one above `root` to `y` extend the trie one after the other. -/
inductive Extended (G : Geth τ) (root : Executed σ) : List (Executed σ) → Executed σ → Prop
  | root : Extended G root [] root
  | step {xs : List (Executed σ)} {x y : Executed σ} (h : Extended G root xs x)
    (hext : Extends G x y) : Extended G root (xs ++ [y]) y

theorem Path.extended {root y : Executed σ} {xs : List (Executed σ)}
    (h : Path G M cfg L root xs y) : Extended G root xs y := by
  induction h with
  | root => exact .root
  | step _ _ hexec ih => exact .step ih hexec.extends

/-- The blocks of a path are in the ledger. -/
theorem Path.mem {root y : Executed σ} {xs : List (Executed σ)} (h : Path G M cfg L root xs y) :
    ∀ x ∈ root :: xs, L (x.block.hash G) = some x := by
  induction h with
  | root h =>
    intro z hz
    rw [List.mem_singleton.1 hz]
    exact h
  | step _ hy _ ih =>
    intro z hz
    rw [← List.cons_append] at hz
    rcases List.mem_append.1 hz with hold | hnew
    · exact ih z hold
    · rw [List.mem_singleton.1 hnew]
      exact hy

namespace Extended

variable {root y : Executed σ} {xs : List (Executed σ)} {m : σ} {s : Store σ τ}

theorem last_mem (h : Extended G root xs y) : y ∈ root :: xs := by
  cases h with
  | root => exact List.mem_cons_self ..
  | step => exact List.mem_cons_of_mem _ (List.mem_append_right _ (List.mem_singleton_self _))

theorem withdrawals_eq (hroot : genesis G M cfg m = .ok root) (h : Extended G root xs y) :
    y.block.header.withdrawalsHash = some (y.passer.root G) := by
  cases h with
  | root =>
    obtain ⟨r, extra, -, -, rfl⟩ := genesis_eq_ok.1 hroot
    rfl
  | step _ hext => exact hext.withdrawals_eq

/-- The trie of a block commits to its outputs root and to the withdrawals of the blocks above the
    genesis block. -/
theorem passer (hroot : genesis G M cfg m = .ok root) (h : Extended G root xs y) :
    y.passer.slots =
      committedSlots G (y.tree.root G) (xs.flatMap fun x => withdrawalHashes G x.outputs) := by
  induction h with
  | root => exact (Exact.genesis hroot).passer
  | step _ hext ih =>
    rw [hext.passer_eq, extend_slots _ _ ih, List.flatMap_append, List.flatMap_singleton]

/-- The walk over a store gives the blocks of the path. -/
theorem lineage_sound (hG : G.Reencodes) (ha : Archives G L s) (hnumber : root.block.number = 0)
    (h : Extended G root xs y) : (∀ x ∈ root :: xs, L (x.block.hash G) = some x) →
      ∀ {fuel : ℕ} {acc blocks : List Block}, s.lineage G fuel y.stored.block acc = .ok blocks →
      blocks = xs.map (fun x => x.stored.block) ++ acc := by
  induction h with
  | root =>
    intro _ fuel acc blocks hrun
    cases fuel with
    | zero => cases hrun
    | succ fuel =>
      rw [Store.lineage, if_pos (show root.stored.block.number = 0 from hnumber)] at hrun
      cases hrun
      rfl
  | @step xs x y hxs hext ih =>
    intro hmem fuel acc blocks hrun
    rw [← List.cons_append] at hmem
    cases fuel with
    | zero => cases hrun
    | succ fuel =>
      have hpos : y.stored.block.number ≠ 0 := by
        have heq : y.stored.block.number = x.block.number + 1 := hext.number_eq
        omega
      rw [Store.lineage, if_neg hpos] at hrun
      obtain ⟨parent, hparent, hrun⟩ := except_bind_eq_ok.1 hrun
      rw [expect_eq_ok, show y.stored.block.header.parentHash = x.block.hash G from
        hext.parent_eq] at hparent
      obtain ⟨x', hx', -, rfl⟩ := ha.of_block hG hparent
      have hx := hmem x (List.mem_append_left _ hxs.last_mem)
      obtain rfl := Option.some.inj (hx.symm.trans hx')
      rw [ih (fun z hz => hmem z (List.mem_append_left _ hz)) hrun, List.map_append,
        List.append_assoc]
      rfl

theorem lineage_complete (hG : G.Reencodes) (hnumber : root.block.number = 0)
    (h : Extended G root xs y) : (∀ x ∈ root :: xs, Archived G s (x.block.hash G) x) →
      ∀ {fuel : ℕ} {acc : List Block}, y.block.number < fuel →
      s.lineage G fuel y.stored.block acc = .ok (xs.map (fun x => x.stored.block) ++ acc) := by
  induction h with
  | root =>
    intro _ fuel acc hfuel
    obtain ⟨fuel, rfl⟩ := Nat.exists_eq_succ_of_ne_zero (Nat.ne_zero_of_lt hfuel)
    rw [Store.lineage, if_pos (show root.stored.block.number = 0 from hnumber)]
    rfl
  | @step xs x y hxs hext ih =>
    intro ha fuel acc hfuel
    rw [← List.cons_append] at ha
    obtain ⟨fuel, rfl⟩ := Nat.exists_eq_succ_of_ne_zero (Nat.ne_zero_of_lt hfuel)
    have heq := hext.number_eq
    have hpos : y.stored.block.number ≠ 0 := by
      rw [show y.stored.block.number = y.block.number from rfl]
      omega
    have hparent : s.block G y.stored.block.header.parentHash = some x.stored.block := by
      rw [show y.stored.block.header.parentHash = x.block.hash G from hext.parent_eq]
      exact (ha x (List.mem_append_left _ hxs.last_mem)).block hG
    rw [Store.lineage, if_neg hpos, hparent, expect_some, List.map_append, List.append_assoc]
    exact ih (fun z hz => ha z (List.mem_append_left _ hz)) (by omega)

/-- The trie rebuilt from the withdrawals of a path is the trie of its last block. -/
theorem rebuilt (hroot : genesis G M cfg m = .ok root) (h : Extended G root xs y) :
    ((xs.map fun x => withdrawalHashes G x.outputs).flatten.foldl (PasserTrie.insertWithdrawal G)
      newPasserTrie).setOutputsRoot G (y.tree.root G) = y.passer := by
  apply PasserTrie.ext
  rw [h.passer hroot, ← List.flatMap_def]
  funext key
  show update _ (G.keccak256 (outputsRootSlot G)) _ key = _
  rw [committedSlots]
  split_ifs with hkey hmem
  · rw [hkey, update_self]
  · rw [update_of_ne hkey, insertWithdrawals_slots, if_pos hmem]
  · rw [update_of_ne hkey, insertWithdrawals_slots, if_neg hmem]
    rfl

end Extended

theorem withdrawals_sound {s : Store σ τ} (ha : Archives G L s) (xs : List (Executed σ)) :
    ∀ {ws : List (List Hash)}, (∀ x ∈ xs, L (x.block.hash G) = some x) →
      (xs.map fun x => x.stored.block).mapM (s.withdrawals G) = .ok ws →
      ws = xs.map fun x => withdrawalHashes G x.outputs := by
  induction xs with
  | nil =>
    intro ws _ h
    cases h
    rfl
  | cons x xs ih =>
    intro ws hmem h
    rw [List.map_cons, List.mapM_cons] at h
    obtain ⟨w, hw, h⟩ := except_bind_eq_ok.1 h
    obtain ⟨ws', hws', hpure⟩ := except_bind_eq_ok.1 h
    cases hpure
    unfold Store.withdrawals at hw
    obtain ⟨r, hr, hw⟩ := except_bind_eq_ok.1 hw
    obtain ⟨x', hx', rfl⟩ := ha.of_records (mapError_eq_ok.1 hr)
    obtain rfl : x = x' := Option.some.inj ((hmem x (List.mem_cons_self ..)).symm.trans hx')
    cases hw
    rw [List.map_cons, ih (fun z hz => hmem z (List.mem_cons_of_mem _ hz)) hws']

theorem withdrawals_complete {s : Store σ τ} (xs : List (Executed σ))
    (ha : ∀ x ∈ xs, Archived G s (x.block.hash G) x) :
    (xs.map fun x => x.stored.block).mapM (s.withdrawals G) =
      .ok (xs.map fun x => withdrawalHashes G x.outputs) := by
  induction xs with
  | nil => rfl
  | cons x xs ih =>
    have hx : s.withdrawals G x.stored.block = .ok (withdrawalHashes G x.outputs) := by
      unfold Store.withdrawals
      rw [show x.stored.block.hash G = x.block.hash G from rfl,
        (ha x (List.mem_cons_self ..)).records]
      rfl
    rw [List.map_cons, List.mapM_cons, hx, ih fun z hz => ha z (List.mem_cons_of_mem _ hz)]
    rfl

theorem Path.rebuildPasser_sound (hG : G.Reencodes) {s : Store σ τ} (ha : Archives G L s)
    {root y : Executed σ} {xs : List (Executed σ)} {m : σ} (hroot : genesis G M cfg m = .ok root)
    (h : Path G M cfg L root xs y) {p : PasserTrie}
    (hrun : s.rebuildPasser G y.stored.block y.tree = .ok p) : p = y.passer := by
  unfold Store.rebuildPasser at hrun
  obtain ⟨blocks, hblocks, hrun⟩ := except_bind_eq_ok.1 hrun
  obtain ⟨ws, hws, hrun⟩ := except_bind_eq_ok.1 hrun
  obtain ⟨-, -, hpure⟩ := except_bind_eq_ok.1 hrun
  cases hpure
  obtain rfl := h.extended.lineage_sound hG ha (genesis_number hroot) h.mem hblocks
  rw [List.append_nil] at hws
  obtain rfl := withdrawals_sound ha xs (fun x hx => h.mem x (List.mem_cons_of_mem _ hx)) hws
  exact h.extended.rebuilt hroot

/-- From a store that has the blocks of a path, the trie of the last one is rebuilt. -/
theorem Extended.rebuildPasser_complete (hG : G.Reencodes) {s : Store σ τ}
    {root y : Executed σ} {xs : List (Executed σ)} {m : σ} (hroot : genesis G M cfg m = .ok root)
    (h : Extended G root xs y) (ha : ∀ x ∈ root :: xs, Archived G s (x.block.hash G) x) :
    s.rebuildPasser G y.stored.block y.tree = .ok y.passer := by
  have hwith : y.stored.block.header.withdrawalsHash = some (y.passer.root G) := by
    show y.block.header.withdrawalsHash = _
    exact h.withdrawals_eq hroot
  unfold Store.rebuildPasser
  rw [show y.stored.block.number = y.block.number from rfl,
    h.lineage_complete hG (genesis_number hroot) ha (Nat.lt_succ_self _), List.append_nil]
  simp only [bind, Except.bind, withdrawals_complete xs fun x hx => ha x (List.mem_cons_of_mem _ hx),
    h.rebuilt hroot, hwith, require, if_pos]
  rfl

/-- The store has every block of the ledger. -/
def Complete (G : Geth τ) (L : Ledger σ) (s : Store σ τ) : Prop :=
  ∀ h x, L h = some x → Archived G s h x

/-! ## Replaying from the checkpoint block -/

/-- Machines with one root are one. -/
def Machine.RootsDiffer (M : Machine σ) : Prop :=
  ∀ m m' root, M.rootHash m = some root → M.rootHash m' = some root → m = m'

/-- What a store says about the ledger it was written from: the blocks it has, and a canonical
    numbering of linked blocks that ends with the recorded head. -/
structure Durable (G : Geth τ) (M : Machine σ) (cfg : Config) (root : Executed σ) (L : Ledger σ)
    (s : Store σ τ) (top : Executed σ) : Prop where
  genesis : ∃ m, genesis G M cfg m = .ok root
  lined : Lined G M cfg (Ledger.only G root) L
  keyed : ∀ h x, L h = some x → x.block.hash G = h
  archives : Archives G L s
  numbered : ∀ n h, s.canonical n = some h → ∃ x, L h = some x ∧ x.block.number = n
  linked : ∀ n h h' x, s.canonical n = some h → s.canonical (n + 1) = some h' → L h' = some x →
    x.block.header.parentHash = h
  top_eq : L (top.block.hash G) = some top
  head_eq : s.headBlock = some (top.block.hash G)
  top_canonical : s.canonical top.block.number = some (top.block.hash G)

/-- The canonical blocks of some heights, as a store returns them. -/
def window (L : Ledger σ) (s : Store σ τ) (lo hi : ℕ) : Ledger σ := fun h =>
  (L h).bind fun x =>
    if lo ≤ x.block.number ∧ x.block.number ≤ hi ∧ s.canonical x.block.number = some h then
      some x.stored
    else none

theorem window_eq_some {s : Store σ τ} {lo hi : ℕ} {z : Executed σ} :
    window L s lo hi h = some z ↔ ∃ x, L h = some x ∧ lo ≤ x.block.number ∧
      x.block.number ≤ hi ∧ s.canonical x.block.number = some h ∧ z = x.stored := by
  unfold window
  rw [Option.bind_eq_some_iff]
  constructor
  · rintro ⟨x, hx, hif⟩
    split_ifs at hif with hcond
    exact ⟨x, hx, hcond.1, hcond.2.1, hcond.2.2, (Option.some.inj hif).symm⟩
  · rintro ⟨x, hx, hlo, hhi, hcan, rfl⟩
    exact ⟨x, hx, if_pos ⟨hlo, hhi, hcan⟩⟩

theorem window_only {s : Store σ τ} (hw : L (w.block.hash G) = some w)
    (hcan : s.canonical w.block.number = some (w.block.hash G)) :
    window L s w.block.number w.block.number = Ledger.only G w.stored := by
  funext h
  by_cases heq : h = w.block.hash G
  · subst heq
    rw [window_eq_some.2 ⟨w, hw, le_refl _, le_refl _, hcan, rfl⟩]
    exact (Ledger.only_self w.stored).symm
  · rw [Ledger.only, update_of_ne (show h ≠ w.stored.block.hash G from heq),
      Option.eq_none_iff_forall_ne_some]
    intro z hz
    obtain ⟨x, hx, hlo, hhi, hcan', rfl⟩ := window_eq_some.1 hz
    rw [show x.block.number = w.block.number by omega, hcan] at hcan'
    exact heq (Option.some.inj hcan').symm

theorem window_succ {s : Store σ τ} {lo hi : ℕ} (hw : L (w.block.hash G) = some w)
    (hcan : s.canonical w.block.number = some (w.block.hash G)) (hlo : lo ≤ w.block.number)
    (hnumber : w.block.number = hi + 1) :
    window L s lo (hi + 1) = update (window L s lo hi) (w.block.hash G) (some w.stored) := by
  funext h
  by_cases heq : h = w.block.hash G
  · subst heq
    rw [update_self]
    exact window_eq_some.2 ⟨w, hw, hlo, hnumber.le, hcan, rfl⟩
  · rw [update_of_ne heq]
    apply Option.ext
    intro z
    rw [window_eq_some, window_eq_some]
    constructor
    · rintro ⟨x, hx, hxlo, hxhi, hxcan, rfl⟩
      refine ⟨x, hx, hxlo, ?_, hxcan, rfl⟩
      by_contra hnot
      rw [show x.block.number = w.block.number by omega, hcan] at hxcan
      exact heq (Option.some.inj hxcan).symm
    · rintro ⟨x, hx, hxlo, hxhi, hxcan, rfl⟩
      exact ⟨x, hx, hxlo, by omega, hxcan, rfl⟩

/-- The loop has replayed the canonical blocks from height `lo` to `x`'s. -/
structure Replaying (G : Geth τ) (M : Machine σ) (cfg : Config) (L : Ledger σ) (s : Store σ τ)
    (lo : ℕ) (x : Executed σ) (c : Chain σ τ) : Prop where
  recorded : Recorded G M (window L s lo x.block.number) c
  self : L (x.block.hash G) = some x
  canonical : s.canonical x.block.number = some (x.block.hash G)
  above : lo ≤ x.block.number
  machines : ∀ h z, window L s lo x.block.number h = some z → c.machines h = some z.machine
  head : c.head = x.block.hash G
  cfg_eq : c.cfg = cfg
  store : c.store = some s
  spelled : c.Spelled G

section Loop

variable {root top : Executed σ} {s : Store σ τ} (hd : Durable G M cfg root L s top)

include hd

theorem Replaying.step {x w : Executed σ} {c : Chain σ τ} (hr : Replaying G M cfg L s lo x c)
    (hw : L (w.block.hash G) = some w)
    (hcan : s.canonical (x.block.number + 1) = some (w.block.hash G)) :
    c.replayStored G M w.stored.block = .ok (c.replayed G w.stored) ∧
      Replaying G M cfg L s lo w (c.replayed G w.stored) ∧
      w.block.number = x.block.number + 1 := by
  obtain ⟨w', hw', hnumber⟩ := hd.numbered _ _ hcan
  obtain rfl := Option.some.inj (hw.symm.trans hw')
  have hparent := hd.linked _ _ _ w hr.canonical hcan hw
  have hexec : Executes G M cfg x w := by
    rcases hd.lined _ w hw with hbase | ⟨x', hx', hexec⟩
    · obtain ⟨-, rfl⟩ := Ledger.only_eq_some hbase
      obtain ⟨m, hm⟩ := hd.genesis
      obtain ⟨r, extra, -, -, rfl⟩ := genesis_eq_ok.1 hm
      cases hnumber
    · rw [← hexec.parent_eq, hparent, hr.self] at hx'
      rwa [Option.some.inj hx']
  have hx : window L s lo x.block.number (x.stored.block.hash G) = some x.stored :=
    window_eq_some.2 ⟨x, hr.self, hr.above, le_refl _, hr.canonical, rfl⟩
  have hfresh : window L s lo x.block.number (w.stored.block.hash G) = none := by
    rw [Option.eq_none_iff_forall_ne_some]
    intro z hz
    obtain ⟨w', hw', -, hle, -⟩ := window_eq_some.1 hz
    rw [show w.stored.block.hash G = w.block.hash G from rfl, hw] at hw'
    cases hw'
    omega
  have hwindow : window L s lo w.block.number =
      update (window L s lo x.block.number) (w.block.hash G) (some w.stored) := by
    have hlo : lo ≤ w.block.number := by
      have := hr.above
      omega
    rw [hnumber, window_succ hw (hnumber.symm ▸ hcan) hlo hnumber]
  refine ⟨?_, ⟨?_, hw, ?_, ?_, ?_, rfl, hr.cfg_eq, hr.store, ?_⟩, hnumber⟩
  · refine replayStored_run hr.recorded hx (hr.machines _ _ hx) ?_
    rw [hr.cfg_eq]
    exact hexec.stored
  · rw [hwindow]
    exact (hr.recorded.commit hfresh).trims (.of_eq rfl rfl rfl rfl rfl rfl rfl rfl rfl rfl rfl)
  · rw [hnumber, hcan]
  · have := hr.above
    omega
  · intro h z hz
    rw [hwindow] at hz
    show update c.machines (w.block.hash G) (some w.machine) h = some z.machine
    by_cases heq : h = w.block.hash G
    · subst heq
      rw [update_self] at hz ⊢
      cases hz
      rfl
    · rw [update_of_ne heq] at hz ⊢
      exact hr.machines h z hz
  · exact ⟨hr.spelled.pending, (hr.spelled.trims (Chain.trims_forget _)).pool⟩

/-- Whatever the loop replays is what the ledger has. -/
theorem Replaying.replayFrom_sound (hG : G.Reencodes) (left : ℕ) :
    ∀ {x : Executed σ} {c d : Chain σ τ}, Replaying G M cfg L s lo x c →
      c.replayFrom G M s left (x.block.number + 1) = .ok d →
      ∃ w, Replaying G M cfg L s lo w d ∧ w.block.number = x.block.number + left := by
  induction left with
  | zero =>
    intro x c d hr hrun
    cases hrun
    exact ⟨x, hr, rfl⟩
  | succ left ih =>
    intro x c d hr hrun
    obtain ⟨hash, b, c₁, hhash, hb, hc₁, hrun⟩ := replayFrom_succ_eq_ok.1 hrun
    obtain ⟨w, hw, -, rfl⟩ := hd.archives.of_block hG hb
    obtain rfl := hd.keyed _ w hw
    obtain ⟨hstep, hr₁, hnumber⟩ := hr.step hd hw hhash
    cases hc₁.symm.trans hstep
    rw [← hnumber] at hrun
    obtain ⟨v, hv, hvnumber⟩ := ih hr₁ hrun
    exact ⟨v, hv, by omega⟩

/-- The loop runs through if the store has every block and the numbering no gaps. -/
theorem Replaying.replayFrom_complete (hG : G.Reencodes) (ha : Complete G L s) (left : ℕ) :
    ∀ {x : Executed σ} {c : Chain σ τ}, Replaying G M cfg L s lo x c →
      (∀ n ≤ x.block.number + left, ∃ h, s.canonical n = some h) →
      ∃ d, c.replayFrom G M s left (x.block.number + 1) = .ok d := by
  induction left with
  | zero =>
    intro x c _ _
    exact ⟨c, rfl⟩
  | succ left ih =>
    intro x c hr hall
    obtain ⟨h, hcan⟩ := hall (x.block.number + 1) (by omega)
    obtain ⟨w, hw, -⟩ := hd.numbered _ _ hcan
    obtain rfl := hd.keyed _ w hw
    obtain ⟨hstep, hr₁, hnumber⟩ := hr.step hd hw hcan
    obtain ⟨d, hrun⟩ := ih hr₁ fun n hn => hall n (by omega)
    rw [hnumber] at hrun
    exact ⟨d, replayFrom_succ_eq_ok.2 ⟨_, _, _, hcan, (ha _ w hw).block hG, hstep, hrun⟩⟩

end Loop

theorem recorded_adoptBase {s : Store σ τ} (x : Executed σ) :
    Recorded G M (Ledger.only G x) (Chain.adoptBase G cfg s pool x.block x.machine x.outputs x.tree
      x.passer x.inputs) := by
  have hrec : Recorded G M (Ledger.only G x) (singleton G cfg pool (some s) x (fun h =>
      (x.outputs.filter fun o => o.txHash ≠ zeroHash ∧ o.txHash = h).map fun _ => x.block.hash G)
      ((s.canonical 0).getD (x.block.hash G))) :=
    recorded_singleton pool (some s) x _ _
  exact ⟨hrec.keyed, hrec.blocks, hrec.outputs, hrec.trees, hrec.passers, hrec.inputs, hrec.machines,
    hrec.pending⟩

/-- The chain that holds the checkpoint block only. -/
theorem replaying_adoptBase {s : Store σ τ} (hpool : ∀ p, pool = some p → p.Decodes G)
    (hw : L (w.block.hash G) = some w) (hcan : s.canonical w.block.number = some (w.block.hash G)) :
    Replaying G M cfg L s w.block.number w (Chain.adoptBase G cfg s pool w.stored.block w.machine
      w.outputs w.tree w.passer w.inputs) := by
  refine ⟨?_, hw, hcan, le_refl _, ?_, rfl, rfl, rfl, ⟨fun q hq => (nomatch hq), hpool⟩⟩
  · rw [window_only hw hcan]
    exact recorded_adoptBase w.stored
  · intro h z hz
    rw [window_only hw hcan] at hz
    obtain ⟨rfl, rfl⟩ := Ledger.only_eq_some hz
    exact update_self (w.block.hash G) (some w.machine) fun _ => none

/-! ## Restarting -/

section Restart

variable {root top : Executed σ} {s : Store σ τ} (hd : Durable G M cfg root L s top)

include hd

theorem Durable.root_eq (hw : L h = some w) : M.rootHash w.machine = some w.block.header.root := by
  rcases hd.lined _ w hw with hbase | ⟨x, -, hexec⟩
  · obtain ⟨-, rfl⟩ := Ledger.only_eq_some hbase
    obtain ⟨m, hm⟩ := hd.genesis
    obtain ⟨r, extra, hr, -, rfl⟩ := genesis_eq_ok.1 hm
    exact hr
  · exact hexec.root_eq

/-- The records of a genesis block are not read. -/
theorem Durable.genesis_records (hw : L h = some w) (hzero : w.block.number = 0) :
    w.outputs = [] ∧ w.tree = newOutputTree ∧ w.inputs = 0 := by
  rcases hd.lined _ w hw with hbase | ⟨x, -, hexec⟩
  · obtain ⟨-, rfl⟩ := Ledger.only_eq_some hbase
    obtain ⟨m, hm⟩ := hd.genesis
    obtain ⟨r, extra, hr, -, rfl⟩ := genesis_eq_ok.1 hm
    exact ⟨rfl, rfl, rfl⟩
  · have := hexec.number_eq
    omega

theorem Durable.baseRecords_sound (hw : L (w.block.hash G) = some w)
    {r : List TxOutputs × OutputTree × ℕ} (h : s.baseRecords G w.stored.block = .ok r) :
    r = (w.outputs, w.tree, w.inputs) := by
  unfold Store.baseRecords at h
  split_ifs at h with hzero
  · obtain ⟨houtputs, htree, hinputs⟩ := hd.genesis_records hw hzero
    rw [houtputs, htree, hinputs]
    exact (Except.ok.inj h).symm
  · obtain ⟨w', hw', rfl⟩ := hd.archives.of_records (mapError_eq_ok.1 h)
    obtain rfl := Option.some.inj (hw.symm.trans hw')
    rfl

omit hd in
theorem latestCheckpoint_le {number : ℕ} {cp : CheckpointDir σ}
    (h : s.latestCheckpoint rt number = some cp) : cp.number ≤ number := by
  have := List.find?_some h
  simpa using this

end Restart

/-- The directory a restart loads: the newest one at or below the head, if its machine has the state
    root of the canonical block `w` of that height. -/
structure Loads (G : Geth τ) (M : Machine σ) (L : Ledger σ) (rt : DirSort σ) (s : Store σ τ)
    (top w : Executed σ) (m : σ) : Prop where
  self : L (w.block.hash G) = some w
  canonical : s.canonical w.block.number = some (w.block.hash G)
  le : w.block.number ≤ top.block.number
  latest : ∃ cp, s.latestCheckpoint rt top.block.number = some cp ∧ cp.number = w.block.number ∧
    cp.content = some m
  root_eq : M.rootHash m = some w.block.header.root

/-- The chain holds the canonical blocks from height `lo` to the head. -/
structure Restored (G : Geth τ) (M : Machine σ) (cfg : Config) (L : Ledger σ) (s : Store σ τ)
    (top : Executed σ) (lo : ℕ) (d : Chain σ τ) : Prop where
  recorded : Recorded G M (window L s lo top.block.number) d
  machines : ∀ h z, window L s lo top.block.number h = some z →
    top.block.number ≤ z.block.number + cfg.maxSnapshots.toNat → d.machines h = some z.machine
  head : d.head = top.block.hash G
  cfg_eq : d.cfg = cfg
  store : d.store = some s
  spelled : d.Spelled G

/-- The end of `Restore` keeps the machines of the newest blocks. -/
theorem Replaying.restored {s : Store σ τ} (hr : Replaying G M cfg L s lo x c)
    (safe finalized : Hash) :
    Restored G M cfg L s x lo { c with safe := safe, finalized := finalized }.prune := by
  have hpointers : Chain.Trims c { c with safe := safe, finalized := finalized } :=
    .of_eq rfl rfl rfl rfl rfl rfl rfl rfl rfl rfl rfl
  have htrims := hpointers.trans Chain.trims_prune
  refine ⟨hr.recorded.trims htrims, fun h z hz hnumber => ?_, hr.head, hr.cfg_eq, hr.store,
    hr.spelled.trims htrims⟩
  have hnumberOf : ∀ {h : Hash} {z : Executed σ}, window L s lo x.block.number h = some z →
      c.numberOf h = z.block.number := by
    intro h z hz
    rw [Chain.numberOf, hr.recorded.blocks, hz]
    rfl
  have hx : window L s lo x.block.number (x.block.hash G) = some x.stored :=
    window_eq_some.2 ⟨x, hr.self, hr.above, le_refl _, hr.canonical, rfl⟩
  have hkeep : c.numberOf c.head - c.cfg.maxSnapshots.toNat ≤ c.numberOf h := by
    rw [hr.head, hnumberOf hx, hnumberOf hz, hr.cfg_eq]
    exact Nat.sub_le_of_le_add hnumber
  exact (if_pos (.inr (.inr (.inr hkeep)))).trans (hr.machines h z hz)

/-- What `Restore` returns holds the canonical blocks from the checkpoint's to the head, with the
    records and machines they had. -/
theorem restore_sound (hG : G.Reencodes) (hM : M.RootsDiffer) {cfg₀ : Config}
    {root top : Executed σ} {s : Store σ τ} (hd : Durable G M cfg₀.withDefaults root L s top)
    (hpool : ∀ p, pool = some p → p.Decodes G) (hrun : restore G M rt cfg₀ s pool = .ok (some d)) :
    ∃ w m, Loads G M L rt s top w m ∧ Archived G s (top.block.hash G) top ∧
      Restored G M cfg₀.withDefaults L s top w.block.number d := by
  obtain ⟨-, head, cp, base, m, ⟨outputs, tree, inputs⟩, passer, c, hhead, hcp, hbase, hm, hroot,
    hrecords, hpasser, hloop, rfl⟩ := restore_eq_ok.1 hrun
  rw [hd.head_eq, Option.bind_some] at hhead
  obtain ⟨top', htop', harch, rfl⟩ := hd.archives.of_block hG hhead
  obtain rfl := Option.some.inj (hd.top_eq.symm.trans htop')
  obtain ⟨a, hcan, hblock⟩ := Option.bind_eq_some_iff.1 hbase
  obtain ⟨w, hw, -, rfl⟩ := hd.archives.of_block hG hblock
  obtain rfl := hd.keyed _ w hw
  obtain ⟨w', hw', hnumber⟩ := hd.numbered _ _ hcan
  obtain rfl := Option.some.inj (hw.symm.trans hw')
  have hle : w.block.number ≤ top.block.number := hnumber ▸ latestCheckpoint_le hcp
  obtain rfl := hM m w.machine _ hroot (hd.root_eq hw)
  rw [← hnumber] at hcan
  obtain ⟨⟨⟩⟩ := hd.baseRecords_sound hw hrecords
  obtain ⟨m₀, hm₀⟩ := hd.genesis
  obtain ⟨xs, hpath⟩ := hd.lined.path hd.keyed _ w hw
  obtain rfl := hpath.rebuildPasser_sound hG hd.archives hm₀ hpasser
  obtain ⟨v, hv, hvnumber⟩ := (replaying_adoptBase hpool hw hcan).replayFrom_sound hd hG _ hloop
  have hvnumber' : v.block.number = top.block.number := by
    have heq : v.block.number = w.block.number + (top.block.number - w.block.number) := hvnumber
    omega
  obtain rfl : v = top := by
    have hsame : v.block.hash G = top.block.hash G := by
      have hvcan := hv.canonical
      rw [hvnumber', hd.top_canonical] at hvcan
      exact (Option.some.inj hvcan).symm
    have hself := hv.self
    rw [hsame, hd.top_eq] at hself
    exact (Option.some.inj hself).symm
  exact ⟨w, _, ⟨hw, hcan, hle, ⟨cp, hcp, hnumber.symm, hm⟩, hroot⟩, harch, hv.restored _ _⟩

/-- `Restore` of a store that has every block succeeds if the directory it picks fits. -/
theorem restore_complete (hG : G.Reencodes) (hM : M.RootsDiffer) {cfg₀ : Config}
    (hvalid : cfg₀.withDefaults.validate = .ok ()) {root top : Executed σ} {s : Store σ τ}
    (hd : Durable G M cfg₀.withDefaults root L s top) (ha : Complete G L s)
    (hcontig : ∀ n ≤ top.block.number, ∃ h, s.canonical n = some h)
    (hpool : ∀ p, pool = some p → p.Decodes G) {m : σ} (hload : Loads G M L rt s top w m) :
    ∃ d, restore G M rt cfg₀ s pool = .ok (some d) := by
  obtain ⟨cp, hcp, hnumber, hm⟩ := hload.latest
  obtain rfl := hM _ _ _ hload.root_eq (hd.root_eq hload.self)
  obtain ⟨m₀, hm₀⟩ := hd.genesis
  obtain ⟨xs, hpath⟩ := hd.lined.path hd.keyed _ w hload.self
  have hrecords : s.baseRecords G w.stored.block = .ok (w.outputs, w.tree, w.inputs) := by
    unfold Store.baseRecords
    split_ifs with hzero
    · obtain ⟨houtputs, htree, hinputs⟩ := hd.genesis_records hload.self hzero
      rw [houtputs, htree, hinputs]
    · rw [show w.stored.block.hash G = w.block.hash G from rfl, (ha _ w hload.self).records]
      rfl
  have hbase : Replaying G M cfg₀.withDefaults L s w.block.number w (Chain.adoptBase G
      cfg₀.withDefaults s pool w.stored.block w.machine w.outputs w.tree w.passer w.inputs) :=
    replaying_adoptBase hpool hload.self hload.canonical
  obtain ⟨c, hloop⟩ := hbase.replayFrom_complete hd hG ha (top.block.number - w.block.number)
    fun n hn => hcontig n (by have := hload.le; omega)
  have hhead : s.headBlock.bind (s.block G) = some top.stored.block := by
    rw [hd.head_eq]
    exact (ha _ top hd.top_eq).block hG
  have hheld : (s.canonical cp.number).bind (s.block G) = some w.stored.block := by
    rw [hnumber, hload.canonical]
    exact (ha _ w hload.self).block hG
  have hpasser := hpath.extended.rebuildPasser_complete hG hm₀ fun x hx => ha _ x (hpath.mem x hx)
  exact ⟨_, restore_eq_ok.2 ⟨hvalid, _, cp, _, _, _, _, c, hhead, hcp, hheld, hm, hload.root_eq,
    hrecords, hpasser, hloop, rfl⟩⟩

end OpCartesi.Node
