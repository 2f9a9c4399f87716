import OpCartesi.Chain.Restart
import OpCartesi.Chain.Withdrawals

/-!
# Rebuilding the withdrawal commitment (`passertrie.go`)

A running chain extends the withdrawal trie of the parent for every block (`extendPasser`); after a
restart the trie is rebuilt from the records of the whole lineage (`rebuildPasser`).

* `archives_exec`: the store of a running chain has records of its ledger only.
* `Grown.descendants`: the blocks of a stored lineage extend the trie one after the other, also those
  that were adopted.
* `rebuildPasser_eq_extendPasser`: over every stored lineage, rebuilding gives the trie of the running
  chain.
-/

namespace OpCartesi.Node

open Exec

variable {σ τ : Type} {G : Geth τ} {M : Machine σ} {cfg : Config} {c c₀ : Chain σ τ} {L : Ledger σ}

/-! ## The store along a run -/

/-- What a call writes to the store is what it adds to the ledger. -/
theorem archives_exec (hrec : Recorded G M L c) (k : Call σ)
    (h : ∃ s, c.store = some s ∧ Archives G L s) :
    ∃ s, (k.exec G M c).store = some s ∧ Archives G (k.grow G M c L) s := by
  obtain ⟨s, hs, ha⟩ := h
  cases k with
  | forkchoiceUpdated rt fc attrs =>
    rcases forkchoice_store (G := G) (M := M) rt fc attrs hs with
      ⟨-, hstore⟩ | ⟨b, safe, finalized, dirs, -, -, hstore⟩
    · exact ⟨s, hstore, ha⟩
    · have hsame : ∀ h, History.SameRecords s
          { (s.setCanonical G b c.blocks).setHeads (b.hash G) safe finalized with dirs := dirs } h :=
        fun h => ⟨rfl, rfl, rfl, rfl, rfl⟩
      exact ⟨_, hstore, History.SameRecords.archives hsame ha⟩
  | importPayload rt data beaconRoot =>
    rcases hrec.import_cases rt data beaconRoot with
      ⟨hstate, hgrow⟩ | ⟨x, y, adopted, -, hstate, hgrow, -, -, hfresh, -⟩
    · rw [hstate, hgrow]
      exact ⟨s, hs, ha⟩
    · obtain ⟨s', hs', hstores⟩ := persist_stores (G := G) (M := M) (c := c) rt y hs
      have hnew : (∃ txs, y.block.txs.mapM G.unmarshalBinary = some txs) →
          Archived G s' (y.block.hash G) y := by
        intro htxs
        obtain ⟨hheader, hbody, houtputs, htrees, hinputs⟩ := hstores.new htxs
        exact ⟨hheader, hbody, houtputs, htrees, hinputs⟩
      have hstores' : History.Stores G y s s' :=
        ⟨hnew, hstores.old, hstores.others, hstores.canonical, hstores.headBlock⟩
      rw [hstate, hgrow]
      refine ⟨s', hs', hstores'.archives (fun z hz => ?_) ha⟩
      rw [hfresh] at hz
      cases hz
  | setMaxDASize limits => exact ⟨s, hs, ha⟩
  | queue pool => exact ⟨s, hs, ha⟩

/-! ## Lineages -/

theorem RanAs.extends {x ran y : Executed σ} (h : RanAs G M cfg x ran y) : Extends G x y := by
  have hfield : ∀ {α : Type} (f : Header → α), (∀ b : Header, f b.stored = f b) →
      f y.block.header = f ran.block.header := by
    intro α f hf
    rw [← hf, h.header, hf]
  have hrec := h.records
  have hpasser : y.passer = ran.passer := by rw [hrec]
  have houtputs : y.outputs = ran.outputs := by rw [hrec]
  have htree : y.tree = ran.tree := by rw [hrec]
  refine ⟨(hfield Header.parentHash fun _ => rfl).trans h.executes.parent_eq, h.number_eq, ?_, ?_⟩
  · rw [hpasser, houtputs, htree]
    exact h.executes.passer_eq
  · rw [hpasser]
    exact (hfield Header.withdrawalsHash fun _ => rfl).trans h.executes.withdrawals_eq

/-- A stored lineage: blocks from a block of height zero on, each with its records, and each the
    parent of the next one. -/
structure Store.Lineage (G : Geth τ) (s : Store σ τ) (blocks : List Block) : Prop where
  starts : ∀ b, blocks.head? = some b → b.number = 0
  linked : blocks.IsChain fun b b' => b'.number ≠ 0 ∧ b'.header.parentHash = b.hash G
  stored : ∀ b ∈ blocks, s.block G (b.hash G) = some b ∧ ∃ r, s.records (b.hash G) = .ok r

/-- `y` is the block `b` of the ledger, and the store has it and the blocks it extends. -/
structure Grown (G : Geth τ) (L : Ledger σ) (s : Store σ τ) (root : Executed σ) (b : Block)
    (y : Executed σ) : Prop where
  block_eq : b = y.stored.block
  extended : ∃ xs, Extended G root xs y ∧
    ∀ x ∈ root :: xs, L (x.block.hash G) = some x ∧ Archived G s (x.block.hash G) x

namespace Grown

variable {s : Store σ τ} {root x : Executed σ} {b b' : Block} {m : σ}

theorem self {y : Executed σ} (h : Grown G L s root b y) :
    L (y.block.hash G) = some y ∧ Archived G s (y.block.hash G) y := by
  obtain ⟨xs, hext, hmem⟩ := h.extended
  exact hmem y hext.last_mem

/-- The block of height zero. -/
theorem genesis (hroot : genesis G M cfg m = .ok root) (hR : G.Reencodes)
    (htraced : Traced G M cfg (Ledger.only G root) L) (ha : Archives G L s)
    (hb : s.block G (b.hash G) = some b) (hzero : b.number = 0) : Grown G L s root b root := by
  obtain ⟨y, hy, hay, hbeq⟩ := ha.of_block hR hb
  rcases htraced _ y hy with hbase | ⟨x, ran, -, hran⟩
  · obtain ⟨hhash, rfl⟩ := Ledger.only_eq_some hbase
    rw [hhash] at hy hay
    refine ⟨hbeq, [], .root, fun x hx => ?_⟩
    rw [List.mem_singleton.1 hx]
    exact ⟨hy, hay⟩
  · have hnumber := hran.number_eq
    have hzero' : y.block.number = 0 := by
      rw [hbeq] at hzero
      exact hzero
    omega

/-- A block on a stored lineage. -/
theorem step (hroot : Node.genesis G M cfg m = .ok root) (hR : G.Reencodes)
    (htraced : Traced G M cfg (Ledger.only G root) L) (ha : Archives G L s)
    (hkeyed : ∀ h x, L h = some x → x.block.hash G = h) (hx : Grown G L s root b x)
    (hb' : s.block G (b'.hash G) = some b') (hpos : b'.number ≠ 0)
    (hparent : b'.header.parentHash = b.hash G) :
    ∃ y, Grown G L s root b' y ∧ Extends G x y := by
  obtain ⟨y, hy, hay, hbeq⟩ := ha.of_block hR hb'
  have hhash := hkeyed _ y hy
  rw [← hhash] at hy hay
  rcases htraced _ y hy with hbase | ⟨x', ran, hx', hran⟩
  · obtain ⟨-, rfl⟩ := Ledger.only_eq_some hbase
    refine absurd ?_ hpos
    rw [hbeq]
    show y.block.number = 0
    exact genesis_number hroot
  · have hext := hran.extends
    -- the parent by its hash is the last block so far
    have hsame : x'.block.hash G = x.block.hash G := by
      rw [← hext.parent_eq, show y.block.header.parentHash = y.stored.block.header.parentHash from rfl,
        ← hbeq, hparent, hx.block_eq]
      rfl
    rw [hsame, hx.self.1] at hx'
    cases hx'
    obtain ⟨xs, hxs, hmem⟩ := hx.extended
    refine ⟨y, ⟨hbeq, xs ++ [y], .step hxs hext, fun z hz => ?_⟩, hext⟩
    rw [← List.cons_append] at hz
    rcases List.mem_append.1 hz with hold | hnew
    · exact hmem z hold
    · rw [List.mem_singleton.1 hnew]
      exact ⟨hy, hay⟩

/-- From a block of a lineage on, block by block. -/
theorem descendants (hroot : Node.genesis G M cfg m = .ok root) (hR : G.Reencodes)
    (htraced : Traced G M cfg (Ledger.only G root) L) (ha : Archives G L s)
    (hkeyed : ∀ h x, L h = some x → x.block.hash G = h) (blocks : List Block) :
    ∀ {b : Block} {x : Executed σ}, Grown G L s root b x →
      ((b :: blocks).IsChain fun b b' => b'.number ≠ 0 ∧ b'.header.parentHash = b.hash G) →
      (∀ b' ∈ blocks, s.block G (b'.hash G) = some b') →
      ∀ b' ∈ blocks, ∃ x y, L (x.block.hash G) = some x ∧ Extends G x y ∧ Grown G L s root b' y := by
  induction blocks with
  | nil => exact fun _ _ _ _ hb' => absurd hb' List.not_mem_nil
  | cons b₁ blocks ih =>
    intro b x hx hlinked hstored b' hb'
    obtain ⟨⟨hpos, hparent⟩, hlinked⟩ := List.isChain_cons_cons.1 hlinked
    obtain ⟨y, hy, hext⟩ := hx.step hroot hR htraced ha hkeyed
      (hstored b₁ (List.mem_cons_self ..)) hpos hparent
    rcases List.mem_cons.1 hb' with rfl | hrest
    · exact ⟨x, y, hx.self.1, hext, hy⟩
    · exact ih hy hlinked (fun z hz => hstored z (List.mem_cons_of_mem _ hz)) b' hrest

end Grown

/-! ## Rebuilding and extending -/

/-- At a block `b` with records in the store, rebuilding gives the trie that the chain has for it, with
    the root that its header commits to; above the genesis block it is what extending the trie that
    the chain has for the parent gives. -/
def RebuildsAt (G : Geth τ) (c : Chain σ τ) (s : Store σ τ) (b : Block) : Prop :=
  ∃ outputs tree inputs p, s.records (b.hash G) = .ok (outputs, tree, inputs) ∧
    c.passers (b.hash G) = some p ∧ s.rebuildPasser G b tree = .ok p ∧
    b.header.withdrawalsHash = some (p.root G) ∧
    (b.number ≠ 0 → c.extendPasser G b.header.parentHash outputs tree = .ok p)

theorem Grown.rebuildsAt {s : Store σ τ} {root y : Executed σ} {b : Block} {m : σ}
    (hroot : Node.genesis G M cfg m = .ok root) (hR : G.Reencodes) (hrec : Recorded G M L c)
    (hy : Grown G L s root b y)
    (hparent : b.number ≠ 0 → ∃ x, L (x.block.hash G) = some x ∧ Extends G x y) :
    RebuildsAt G c s b := by
  obtain ⟨xs, hxs, hmem⟩ := hy.extended
  obtain ⟨hself, harch⟩ := hy.self
  have hwith := hxs.withdrawals_eq hroot
  rw [hy.block_eq] at hparent ⊢
  refine ⟨y.outputs, y.tree, y.inputs, y.passer, harch.records, hrec.passers _ y hself,
    hxs.rebuildPasser_complete hR hroot fun x hx => (hmem x hx).2, hwith, ?_⟩
  intro hpos
  obtain ⟨x, hx, hext⟩ := hparent hpos
  show c.extendPasser G y.block.header.parentHash y.outputs y.tree = .ok y.passer
  rw [Chain.extendPasser, hext.parent_eq, hrec.passers _ x hx, expect_some, hext.passer_eq]
  rfl

/-- In every run of a chain that started with an empty store, over every stored lineage: at each block
    `rebuildPasser` succeeds, with the trie that the chain made by extending block by block. -/
theorem rebuildPasser_eq_extendPasser (hG : G.HeadersDiffer) (hR : G.Reencodes)
    {ok : Call σ → Prop} {m : σ} {pool : Option Pool} {cₙ : Chain σ τ}
    (hnew : new G M cfg m pool = .ok cₙ) (hadopt : cₙ.adopt G M Store.empty = .ok c₀)
    (hreach : Reach G M ok c₀ c) {s : Store σ τ} (hs : c.store = some s) {blocks : List Block}
    (hlin : s.Lineage G blocks) : ∀ b ∈ blocks, RebuildsAt G c s b := by
  obtain ⟨root, dirs, -, hroot, rfl⟩ := adopt_fresh hnew hadopt
  have hrec₀ : Recorded G M (Ledger.only G root) (singleton G cfg.withDefaults pool
      (some (genesisStore G root dirs)) root (fun _ => []) (root.block.hash G)) :=
    recorded_singleton pool _ root _ _
  have hhist := history_fresh (P := fun _ => True) (τ := τ) hroot trivial dirs
  obtain ⟨L, hrec, ⟨-, htraced⟩, s', hs', ha⟩ := hreach.ledger
    (fun L c => (c.cfg = cfg.withDefaults ∧ Traced G M cfg.withDefaults (Ledger.only G root) L) ∧
      ∃ s, c.store = some s ∧ Archives G L s)
    hrec₀ ⟨⟨rfl, fun _ _ h => .inl h⟩, _, rfl, hhist.archives⟩
    fun _ _ k _ hrec hI => ⟨Traced.exec_cfg hG hrec hI.1 k, archives_exec hrec k hI.2⟩
  obtain rfl := Option.some.inj (hs.symm.trans hs')
  obtain ⟨hstarts, hlinked, hstored⟩ := hlin
  cases blocks with
  | nil => exact fun b hb => absurd hb List.not_mem_nil
  | cons b₀ rest =>
    have hzero := hstarts b₀ rfl
    have hgrown := Grown.genesis hroot hR htraced ha (hstored b₀ (List.mem_cons_self ..)).1 hzero
    intro b hb
    rcases List.mem_cons.1 hb with rfl | hrest
    · exact hgrown.rebuildsAt hroot hR hrec fun hpos => absurd hzero hpos
    · obtain ⟨x, y, hx, hext, hy⟩ := hgrown.descendants hroot hR htraced ha hrec.keyed rest hlinked
        (fun z hz => (hstored z (List.mem_cons_of_mem _ hz)).1) b hrest
      exact hy.rebuildsAt hroot hR hrec fun _ => ⟨x, hx, hext⟩

namespace Sample

/-- The store of a chain with the genesis block and the empty block on it, if it has both. -/
def storedPair (c : Chain ℕ Bytes) : Option (Store ℕ Bytes × Block × Block) := do
  let s ← c.store
  let g ← s.block exact ((genesisBlock exact).block.hash exact)
  let b ← s.block exact hollow.blockHash
  if g.number = 0 ∧ b.number ≠ 0 ∧ g.hash exact = (genesisBlock exact).block.hash exact ∧
      b.hash exact = hollow.blockHash ∧ b.header.parentHash = g.hash exact ∧
      (s.records (g.hash exact)).isOk ∧ (s.records (b.hash exact)).isOk then some (s, g, b)
  else none

theorem storedPair_lineage {c : Chain ℕ Bytes} {s : Store ℕ Bytes} {g b : Block}
    (h : storedPair c = some (s, g, b)) : c.store = some s ∧ s.Lineage exact [g, b] := by
  simp only [storedPair, Option.bind_eq_bind, Option.bind_eq_some_iff,
    Option.ite_none_right_eq_some, Option.some.injEq, Prod.mk.injEq] at h
  obtain ⟨s', hs, g', hg, b', hb, ⟨hzero, hpos, hghash, hbhash, hparent, hgrec, hbrec⟩, rfl, rfl,
    rfl⟩ := h
  have hok : ∀ {h : Hash}, (s'.records h).isOk = true → ∃ r, s'.records h = .ok r := by
    intro h hr
    cases hrec : s'.records h with
    | ok r => exact ⟨r, rfl⟩
    | error e =>
      rw [hrec] at hr
      cases hr
  refine ⟨hs, fun z hz => ?_, ?_, fun z hz => ?_⟩
  · cases hz
    exact hzero
  · exact List.isChain_cons_cons.2 ⟨⟨hpos, hparent⟩, List.isChain_singleton _⟩
  · rcases List.mem_cons.1 hz with rfl | hz
    · exact ⟨hghash.symm ▸ hg, hok hgrec⟩
    · obtain rfl := List.mem_singleton.1 hz
      exact ⟨hbhash.symm ▸ hb, hok hbrec⟩

end Sample

open Sample in
theorem rebuildPasser_eq_extendPasser_sample : ∃ s g b,
    (imports (opened refuser config)).store = some s ∧ s.Lineage exact [g, b] ∧
    RebuildsAt exact (imports (opened refuser config)) s b := by
  have hsome : (storedPair (imports (opened refuser config))).isSome = true := by decide +kernel
  obtain ⟨⟨s, g, b⟩, hpair⟩ := Option.isSome_iff_exists.1 hsome
  obtain ⟨hs, hlin⟩ := storedPair_lineage hpair
  have hreach : Reach exact refuser (fun _ => True) (opened refuser config)
      (imports (opened refuser config)) :=
    .call (.call .start (.importPayload runtime hollow none) trivial)
      (.forkchoiceUpdated runtime ⟨hollow.blockHash, zeroHash, zeroHash⟩ none) trivial
  exact ⟨s, g, b, hs, hlin, rebuildPasser_eq_extendPasser exact_headersDiffer exact_reencodes
    (new_refuser exact) (adopt_opened (new_refuser exact)) hreach hs hlin b
    (List.mem_cons_of_mem _ (List.mem_singleton_self b))⟩

end OpCartesi.Node
