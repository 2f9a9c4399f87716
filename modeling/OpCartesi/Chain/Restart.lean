import OpCartesi.Chain.Life

/-!
# What a restart brings back

* `restore_faithful`: a restored chain has the blocks from the checkpoint to the recorded head as the
  process before it had them, and goes on as that one would have.
* `restart_succeeds_iff`: a restart succeeds exactly if the newest checkpoint at or below the head was
  taken from a canonical state.
-/

namespace OpCartesi.Node

open Exec

variable {σ τ : Type} {G : Geth τ} {M : Machine σ} {cfg : Config} {c d : Chain σ τ}
  {beaconRoot : Option Hash} {data : ExecutableData} {P : Block → Prop} {x : Executed σ} {h : Hash}

/-! ## Two nodes -/

/-- Both blob gas fields are present. -/
def Block.Whole (b : Block) : Prop := b.header.blobGasUsed ≠ none ∧ b.header.excessBlobGas ≠ none

/-- On every block that both nodes hold they agree: on the block, its records and its machine. -/
def Chain.Agrees (c d : Chain σ τ) : Prop :=
  ∀ h b b', c.blocks h = some b → d.blocks h = some b' →
    b' = b ∧ d.outputs h = c.outputs h ∧ d.trees h = c.trees h ∧ d.passers h = c.passers h ∧
      d.inputs h = c.inputs h ∧ ∀ m m', c.machines h = some m → d.machines h = some m' → m' = m

/-- Whatever the first node accepts, the second one accepts, if it has the parent's machine, and they
    still agree. -/
def Chain.Accepts (G : Geth τ) (M : Machine σ) (c d : Chain σ τ) : Prop :=
  ∀ (rt rt' : Runtime σ) (data : ExecutableData) (beaconRoot : Option Hash) (h : Hash)
    (c' : Chain σ τ), [] ∉ data.transactions →
    Block.Whole ⟨payloadHeader G data beaconRoot, data.transactions⟩ → data.number ≠ 0 →
    d.machines data.parentHash ≠ none →
    (Chain.importPayload G M rt data beaconRoot).run c = .ok (.valid h) c' →
    ∃ d', (Chain.importPayload G M rt' data beaconRoot).run d = .ok (.valid h) d' ∧
      d'.blocks h ≠ none ∧ c'.Agrees d'

/-- Whatever the first node builds, the second one builds, if it has the parent's machine, and the
    same pool and limits. -/
def Chain.BuildsAlike (G : Geth τ) (M : Machine σ) (c d : Chain σ τ) : Prop :=
  ∀ (parent : Block) (attrs : PayloadAttributes) (p : PendingPayload σ) (dropped : List Hash),
    d.machines (parent.hash G) ≠ none → d.pool = c.pool → d.da = c.da →
    c.Builds G M parent attrs p dropped → d.Builds G M parent attrs p dropped

theorem whole_stored (b : Block) (_ : b.Whole) : Block.Whole ⟨b.header.stored, b.txs⟩ :=
  ⟨Option.some_ne_none _, Option.some_ne_none _⟩

theorem Executed.stored_eq (h : x.block.Whole) : x.stored = x := by
  have hheader : x.block.header.stored = x.block.header := Header.stored_eq_iff.2 h
  rw [Executed.stored, hheader]

section Pair

variable {m : σ} {root root' base base' : Executed σ} {A L A' L' : Ledger σ} {s s' : Store σ τ}
  (hk : Kept G M cfg Block.Whole m root A L base s c)
  (hk' : Kept G M cfg Block.Whole m root' A' L' base' s' d)

include hk in
theorem Kept.whole (hx : L h = some x) : A h = some x := by
  rw [hk.sub h x hx, Executed.stored_eq (hk.accepted h x hx)]

variable (hG : G.HeadersDiffer) (hG' : G.TxsDiffer)

include hk hk' hG hG'

/-- The ledgers of two nodes do not contradict each other. -/
theorem Kept.same {x y : Executed σ} (hx : A h = some x) (hy : A' h = some y) : x = y := by
  obtain rfl : root = root' :=
    Except.ok.inj (hk.history.genesis.symm.trans hk'.history.genesis)
  exact hk.history.agree hG hG' hk'.history _ h x y rfl hx hy

theorem Kept.agrees : c.Agrees d := by
  intro h b b' hb hb'
  obtain ⟨x, hx, rfl⟩ := hk.sound.recorded.of_block hb
  obtain ⟨y, hy, rfl⟩ := hk'.sound.recorded.of_block hb'
  obtain rfl := hk.same hk' hG hG' (hk.whole hx) (hk'.whole hy)
  have hrec := hk.sound.recorded
  have hrec' := hk'.sound.recorded
  refine ⟨rfl, ?_, ?_, ?_, ?_, fun m₁ m₂ hm₁ hm₂ => ?_⟩
  · rw [hrec.outputs h x hx, hrec'.outputs h x hy]
  · rw [hrec.trees h x hx, hrec'.trees h x hy]
  · rw [hrec.passers h x hx, hrec'.passers h x hy]
  · rw [hrec.inputs h x hx, hrec'.inputs h x hy]
  · obtain ⟨x₁, hx₁, rfl⟩ := hrec.machines h m₁ hm₁
    obtain ⟨x₂, hx₂, rfl⟩ := hrec'.machines h m₂ hm₂
    obtain rfl := Option.some.inj (hx.symm.trans hx₁)
    rw [Option.some.inj (hx₂.symm.trans hy)]

theorem Kept.buildsAlike : c.BuildsAlike G M d := by
  intro parent attrs p dropped hmachine hpool hda hbuilds
  obtain ⟨m₁, exec, hm₁, hrun, hassemble⟩ := hbuilds
  obtain ⟨m₂, hm₂⟩ := Option.ne_none_iff_exists'.1 hmachine
  have hrec := hk.sound.recorded
  have hrec' := hk'.sound.recorded
  obtain ⟨x, hx, rfl⟩ := hrec.machines _ m₁ hm₁
  obtain ⟨y, hy, rfl⟩ := hrec'.machines _ m₂ hm₂
  obtain rfl := hk.same hk' hG hG' (hk.whole hx) (hk'.whole hy)
  have hcfg : d.cfg = c.cfg := hk'.cfg_eq.trans hk.cfg_eq.symm
  have hinputs : d.inputs (parent.hash G) = c.inputs (parent.hash G) := by
    rw [hrec.inputs _ x hx, hrec'.inputs _ x hy]
  have htrees : d.trees (parent.hash G) = c.trees (parent.hash G) := by
    rw [hrec.trees _ x hx, hrec'.trees _ x hy]
  have hpassers : d.passers (parent.hash G) = c.passers (parent.hash G) := by
    rw [hrec.passers _ x hx, hrec'.passers _ x hy]
  refine ⟨x.machine, exec, hm₂, ?_, ?_⟩
  · rw [← hrun, Chain.runBuild, Chain.runBuild, Chain.poolTxs, Chain.poolTxs, hcfg, hinputs, hpool,
      hda]
  · have hextend : ∀ outputs tree, d.extendPasser G (parent.hash G) outputs tree =
        c.extendPasser G (parent.hash G) outputs tree := by
      intro outputs tree
      rw [Chain.extendPasser, Chain.extendPasser, hpassers]
    rw [← hassemble]
    simp only [Chain.assemble, hcfg, htrees, hextend]

end Pair

/-- A node that has the parent's machine re-executes a block to the records it has elsewhere. -/
theorem Executes.reexecuted {L : Ledger σ} (hrec : Recorded G M L c) {x y : Executed σ}
    (hx : L (x.block.hash G) = some x) (hm : c.machines (x.block.hash G) = some x.machine)
    (hblock : y.block = ⟨payloadHeader G data beaconRoot, data.transactions⟩)
    (h : Executes G M c.cfg x y) : c.Reexecuted G M (payloadHeader G data beaconRoot) data y := by
  have hparent : data.parentHash = x.block.hash G := by
    rw [← h.parent_eq, hblock]
    rfl
  obtain ⟨gas, hran, hgas⟩ := h.ran
  rw [hblock] at hran hgas
  refine ⟨hblock, ⟨x.machine, x.machine, gas, hparent ▸ hm, h.forks, hran, hgas⟩, ?_, ?_,
    ⟨x.tree, ?_, h.tree_eq⟩, ⟨x.passer, ?_, h.passer_eq⟩, ?_⟩
  · rw [hparent, hrec.inputs _ x hx, h.first_eq]
  · rw [h.root_eq, hblock]
    rfl
  · rw [hparent, hrec.trees _ x hx]
  · rw [hparent, hrec.passers _ x hx]
  · rw [← h.withdrawals_eq, hblock]
    rfl

/-- A payload that is answered VALID has the hash it claims, and its block is held afterwards. -/
theorem import_held {rt : Runtime σ} {c' : Chain σ τ} (hkeyed : c.Keyed G)
    (hrun : (Chain.importPayload G M rt data beaconRoot).run c = .ok (.valid h) c') :
    checkPayload data = .ok () ∧ (payloadHeader G data beaconRoot).hash G = data.blockHash ∧
      h = data.blockHash ∧ ∃ b, c'.blocks h = some b ∧ b.hash G = h := by
  by_cases hnew : c.blocks h = none
  · obtain ⟨y, adopted, hverify, rfl, hholds, -⟩ := import_valid hrun hnew
    obtain ⟨parent, hadm, -⟩ := Chain.verify_eq_ok.1 hverify
    refine ⟨hadm.checked, hadm.hash_eq, ?_, y.block, hholds.block, rfl⟩
    rw [verify_block hverify]
    exact hadm.hash_eq
  · rw [Chain.importPayload_run] at hrun
    cases hv : c.verify G M rt data beaconRoot with
    | error answer =>
      rw [hv] at hrun
      cases answer with
      | error e => cases hrun
      | ok status =>
        cases hrun
        obtain ⟨hcheck, hhash, hh, hheld⟩ := Chain.verify_eq_valid hv
        obtain ⟨b, hb⟩ := Option.ne_none_iff_exists'.1 hheld
        exact ⟨hcheck, hhash, hh, b, hb, hkeyed _ b hb⟩
    | ok ya =>
      rw [hv] at hrun
      cases hrun
      obtain ⟨parent, hadm, -⟩ := Chain.verify_eq_ok.1 hv
      refine absurd ?_ hnew
      rw [verify_block hv]
      exact (congrArg c.blocks hadm.hash_eq).trans hadm.fresh

theorem exec_importPayload {rt : Runtime σ} {status : PayloadStatus} {c' : Chain σ τ}
    (hrun : (Chain.importPayload G M rt data beaconRoot).run c = .ok status c') :
    (Call.importPayload rt data beaconRoot).exec G M c = c' := by
  unfold Call.exec
  simp only
  rw [hrun]
  rfl

section Accepts

variable {m : σ} {root root' base base' : Executed σ} {A L A' L' : Ledger σ} {s s' : Store σ τ}
  (hk : Kept G M cfg Block.Whole m root A L base s c)
  (hk' : Kept G M cfg Block.Whole m root' A' L' base' s' d)
  (hG : G.HeadersDiffer) (hG' : G.TxsDiffer) (hempty : G.unmarshalBinary [] = none)

include hk hG hG'

/-- The block a payload names, with its parent, in the history of a node that holds it. -/
theorem Kept.imported {b : Block} (htxs : [] ∉ data.transactions)
    (hwhole : Block.Whole ⟨payloadHeader G data beaconRoot, data.transactions⟩)
    (hnumber : data.number ≠ 0) (hb : c.blocks (b.hash G) = some b)
    (hhash : b.hash G = (payloadHeader G data beaconRoot).hash G) :
    ∃ p y, A data.parentHash = some p ∧ Executes G M cfg p y ∧
      y.block = ⟨payloadHeader G data beaconRoot, data.transactions⟩ := by
  obtain ⟨y, hy, rfl⟩ := hk.sound.recorded.of_block hb
  have hfield : ∀ {α : Type} (f : Header → α), (∀ h : Header, f h.stored = f h) →
      f y.block.header = f (payloadHeader G data beaconRoot) := fun f hf => hG.field hhash f hf
  have hheader : y.block.header = payloadHeader G data beaconRoot := by
    rw [← Header.stored_eq_iff.2 (hk.accepted _ y hy), hG _ _ hhash, Header.stored_eq_iff.2 hwhole]
  have hynumber : y.block.number = data.number := hfield Header.number fun _ => rfl
  obtain ⟨p, hp, hexec⟩ := hk.history.executes (hk.whole hy) (hynumber.trans_ne hnumber)
  have htransactions : y.block.txs = data.transactions := by
    refine hG' _ _ (hk.history.filled _ y (hk.whole hy)) htxs (hexec.txHash_eq.symm.trans ?_)
    rw [hheader]
    rfl
  refine ⟨p, y, ?_, hexec, ?_⟩
  · rw [show data.parentHash = y.block.header.parentHash by rw [hheader]; rfl]
    exact hp
  · rw [← hheader, ← htransactions]

include hk' hempty

theorem Kept.accepts : c.Accepts G M d := by
  intro rt rt' data beaconRoot h c' htxs hwhole hnumber hmachine hrun
  obtain ⟨hcheck, hhash, rfl, b, hb, hbhash⟩ := import_held hk.sound.recorded.block_keyed hrun
  obtain ⟨A₁, s₁, hk₁, -⟩ := hk.exec hG hG' hempty whole_stored
    (k := Call.importPayload rt data beaconRoot) htxs hwhole
  rw [exec_importPayload hrun] at hk₁
  obtain ⟨p, y, hp, hexec, hblock⟩ := hk₁.imported hG hG' htxs hwhole hnumber (hbhash.symm ▸ hb)
    (hbhash.trans hhash.symm)
  -- the second node has the same parent
  have hrec' := hk'.sound.recorded
  obtain ⟨m', hm'⟩ := Option.ne_none_iff_exists'.1 hmachine
  obtain ⟨x, hx, rfl⟩ := hrec'.machines _ m' hm'
  obtain rfl := hk₁.same hk' hG hG' hp (hk'.whole hx)
  have hphash : p.block.hash G = data.parentHash := hrec'.keyed _ p hx
  have hanswer : ∃ d', (Chain.importPayload G M rt' data beaconRoot).run d =
      .ok (.valid data.blockHash) d' ∧ d'.blocks data.blockHash ≠ none := by
    rw [Chain.importPayload_run]
    by_cases hheld : d.blocks data.blockHash = none
    · have hadm : d.Admissible G data beaconRoot p.block := by
        refine ⟨hcheck, hhash, hheld, ?_, ?_, ?_⟩
        · rw [hrec'.blocks, hx]
          rfl
        · rw [← hexec.number_eq, hblock]
          rfl
        · have := hexec.time_lt
          rwa [hblock] at this
      obtain ⟨z, adopted, hverify⟩ : ∃ z adopted,
          d.verify G M rt' data beaconRoot = .ok (z, adopted) := by
        cases hfind : (rt'.order d.pending).find? fun q => q.2.data.blockHash == data.blockHash with
        | some q => exact ⟨_, _, Chain.verify_eq_ok.2 ⟨_, hadm, .inl ⟨q.1, q.2, hfind, rfl, rfl⟩⟩⟩
        | none =>
          rw [← hk'.cfg_eq] at hexec
          exact ⟨y, none, Chain.verify_eq_ok.2 ⟨_, hadm, .inr ⟨hfind, rfl,
            hexec.reexecuted hrec' (hphash.symm ▸ hx) (hphash.symm ▸ hm') hblock⟩⟩⟩
      have hz : z.block.hash G = data.blockHash := by
        rw [verify_block hverify]
        exact hhash
      rw [hverify]
      refine ⟨_, by rw [← hz], ?_⟩
      rw [← hz, (holds_commit z _).block]
      exact Option.some_ne_none _
    · rw [Chain.verify_held hcheck hhash hheld]
      exact ⟨d, rfl, hheld⟩
  obtain ⟨d', hrun', hheld⟩ := hanswer
  obtain ⟨A₂, s₂, hk₂, -⟩ := hk'.exec hG hG' hempty whole_stored
    (k := Call.importPayload rt' data beaconRoot) htxs hwhole
  rw [exec_importPayload hrun'] at hk₂
  exact ⟨d', hrun', hheld, hk₁.agrees hk₂ hG hG'⟩

end Accepts

/-! ## Soundness -/

theorem genesis_whole {m : σ} (hx : genesis G M cfg m = .ok x) : x.block.Whole := by
  obtain ⟨r, extra, -, -, rfl⟩ := genesis_eq_ok.1 hx
  exact ⟨Option.some_ne_none _, Option.some_ne_none _⟩

theorem Lives.reach {m : σ} {c₁ : Chain σ τ} (h : Lives G M cfg m P c)
    (hreach : Reach G M (fun k => k.NoEmpty G ∧ k.Imports G P) c c₁) : Lives G M cfg m P c₁ := by
  induction hreach with
  | start => exact h
  | call _ k hk ih => exact .call ih k hk.1 hk.2

/-- In a life without empty transactions, and of blocks with both blob gas fields: what `Restore`
    returns has the recorded head and the canonical blocks from the checkpoint on, agrees with every
    process of the node on all of them, keeps agreeing with the process that was not stopped, and
    accepts and builds what that one does. -/
theorem restore_faithful (hG : G.HeadersDiffer) (hG' : G.TxsDiffer) (hR : G.Reencodes)
    (hM : M.RootsDiffer) (hempty : G.unmarshalBinary [] = none) {m : σ}
    (hlife : Lives G M cfg m Block.Whole c) {s : Store σ τ} (hs : c.Leaves s) {rt : DirSort σ}
    {pool : Option Pool} (hpool : ∀ p, pool = some p → p.Decodes G)
    (hd : restore G M rt cfg s pool = .ok (some d)) :
    s.headBlock = some d.head ∧ d.head = c.head ∧
    (∃ head cp, s.block G d.head = some head ∧
      s.latestCheckpoint rt head.number = some cp ∧
      (∀ h, d.blocks h ≠ none ↔ ∃ n, cp.number ≤ n ∧ s.canonical n = some h) ∧
      ∀ h b, d.blocks h = some b → head.number ≤ b.number + d.cfg.maxSnapshots.toNat →
        d.machines h ≠ none) ∧
    (∀ h b m', d.blocks h = some b → d.machines h = some m' →
      M.rootHash m' = some b.header.root) ∧
    (∀ c', Lives G M cfg m Block.Whole c' → c'.Agrees d) ∧
    ∀ c₁ d₁, Reach G M (fun k => k.NoEmpty G ∧ k.Imports G Block.Whole) c c₁ →
      Reach G M (fun k => k.NoEmpty G ∧ k.Imports G Block.Whole) d d₁ →
      c₁.Agrees d₁ ∧ c₁.Accepts G M d₁ ∧ c₁.BuildsAlike G M d₁ := by
  have hkept : ∀ {c' : Chain σ τ}, Lives G M cfg m Block.Whole c' →
      ∃ root A L base s, Kept G M cfg.withDefaults Block.Whole m root A L base s c' :=
    fun h => h.kept hG hG' hR hM hempty (fun _ => genesis_whole) whole_stored
  obtain ⟨root, A, L, base, s₀, hk⟩ := hkept hlife
  obtain ⟨top, w, m', htop, hload, harch, hres, hk'⟩ := kept_restart hR hM hk hs hpool hd
  obtain ⟨cp, hcp, hcpnumber, -⟩ := hload.latest
  have hH := hk'.history
  have hhash := hk.history.keyed _ top htop
  have hheads : d.head = c.head := hres.head.trans hhash
  have hstored : s.block G d.head = some top.block := by
    rw [hheads, harch.block hR, hk.history.settled _ top htop]
  have hrec := hk'.sound.recorded
  refine ⟨hH.head_eq, hheads, ⟨top.block, cp, hstored, hcp, fun h => ?_, fun h b hb hle => ?_⟩, ?_,
    fun c' hc' => ?_, fun c₁ d₁ hc₁ hd₁ => ?_⟩
  · rw [hrec.blocks, Ne, Option.map_eq_none_iff, ← Ne, Option.ne_none_iff_exists', hcpnumber]
    constructor
    · rintro ⟨z, hz⟩
      obtain ⟨x, hx, hlo, -, hcan, -⟩ := window_eq_some.1 hz
      exact ⟨_, hlo, hcan⟩
    · rintro ⟨n, hlo, hcan⟩
      obtain ⟨x, hx, rfl, hanc⟩ := (hH.canonical n h).1 hcan
      have hle := hanc.height_le hH.blocks_rooted (History.block_eq hx)
        (History.block_eq (hheads ▸ htop))
      exact ⟨_, window_eq_some.2 ⟨x, hx, hlo, hle, hcan, rfl⟩⟩
  · obtain ⟨z, hz, rfl⟩ := hrec.of_block hb
    rw [hres.cfg_eq] at hle
    rw [hres.machines h z hz hle]
    exact Option.some_ne_none _
  · intro h b m₁ hb hm₁
    obtain ⟨z, hz, rfl⟩ := hrec.of_block hb
    obtain ⟨z', hz', rfl⟩ := hrec.machines h m₁ hm₁
    obtain rfl := Option.some.inj (hz.symm.trans hz')
    exact (hH.durable (hheads ▸ htop)).root_eq (hk'.whole hz)
  · obtain ⟨root₁, A₁, L₁, base₁, s₁, hk₁⟩ := hkept hc'
    exact hk₁.agrees hk' hG hG'
  · obtain ⟨root₁, A₁, L₁, base₁, s₁, hk₁⟩ := hkept (hlife.reach hc₁)
    obtain ⟨root₂, A₂, L₂, base₂, s₂, hk₂⟩ := hkept ((hlife.restart hs rt hpool hd).reach hd₁)
    exact ⟨hk₁.agrees hk₂ hG hG', hk₁.accepts hk₂ hG hG' hempty, hk₁.buildsAlike hk₂ hG hG'⟩

/-- A fresh chain takes an empty store. -/
theorem adopt_exists {m : σ} {pool : Option Pool} (h : new G M cfg m pool = .ok c) :
    ∃ c', c.adopt G M Store.empty = .ok c' := by
  obtain ⟨-, x, hx, rfl⟩ := new_eq_ok.1 h
  obtain ⟨r, extra, -, -, hxeq⟩ := genesis_eq_ok.1 hx
  have hblock : (singleton G cfg.withDefaults pool (none : Option (Store σ τ)) x (fun _ => [])
      (x.block.hash G)).blocks (x.block.hash G) = some x.block := by simp [singleton]
  have hput : (Store.empty : Store σ τ).putBlock G x.block [] newOutputTree 0 = .ok _ :=
    putBlock_eq_ok.2 ⟨[], by rw [hxeq]; rfl, rfl⟩
  unfold Chain.adopt
  rw [show (singleton G cfg.withDefaults pool (none : Option (Store σ τ)) x (fun _ => [])
    (x.block.hash G)).genesisHash = x.block.hash G from rfl, hblock, expect_some]
  simp only [bind, Except.bind, hput]
  exact ⟨_, rfl⟩

namespace Sample

/-- A machine of one state that rejects every input, at no cost. -/
def refuser : Machine ℕ where
  advanceInput s _ _ := some (⟨false, 0, []⟩, s)
  rootHash s := if s = 0 then some (hashOf 0) else none
  fork s := some s
  store s := some s
  fork_eq := @machine.fork_eq

theorem refuser_rootsDiffer : refuser.RootsDiffer := by
  intro m m' root hm hm'
  simp only [refuser, Option.ite_none_right_eq_some] at hm hm'
  rw [hm.1, hm'.1]

theorem exact_reencodes : exact.Reencodes := geth_reencodes

/-- A fresh chain, and the same with an empty store attached. -/
def unopened (G : Geth Bytes) (cfg : Config) : Chain ℕ Bytes :=
  singleton G cfg.withDefaults none none (genesisBlock G) (fun _ => [])
    ((genesisBlock G).block.hash G)

def opened (M : Machine ℕ) (cfg : Config) : Chain ℕ Bytes :=
  match (unopened exact cfg).adopt exact M Store.empty with
  | .ok c => c
  | .error _ => unopened exact cfg

theorem adopt_opened {M : Machine ℕ} {cfg : Config}
    (h : new exact M cfg 0 none = .ok (unopened exact cfg)) :
    (unopened exact cfg).adopt exact M Store.empty = .ok (opened M cfg) := by
  obtain ⟨c', hc'⟩ := adopt_exists h
  unfold opened
  rw [hc']

theorem new_refuser (G : Geth Bytes) : new G refuser config 0 none = .ok (unopened G config) := rfl

theorem no_pool (p : Pool) (h : (none : Option Pool) = some p) : p.Decodes exact := by
  cases h

/-- An empty block on the genesis block, and a node that imports it and makes it its head. -/
def hollow : ExecutableData :=
  executableData exact (child exact (genesisBlock exact).block.header 1 (hashOf 0) []) []

def imports (c : Chain ℕ Bytes) : Chain ℕ Bytes :=
  (Call.forkchoiceUpdated runtime ⟨hollow.blockHash, zeroHash, zeroHash⟩ none).exec exact refuser
    ((Call.importPayload runtime hollow none).exec exact refuser c)

theorem lives_imports (hP : P ⟨payloadHeader exact hollow none, hollow.transactions⟩) :
    Lives exact refuser config 0 P (imports (opened refuser config)) := by
  have hfresh : Lives exact refuser config 0 P (opened refuser config) :=
    .fresh no_pool (new_refuser exact) (adopt_opened (new_refuser exact))
  exact (hfresh.call (.importPayload runtime hollow none) List.not_mem_nil hP).call
    (.forkchoiceUpdated runtime ⟨hollow.blockHash, zeroHash, zeroHash⟩ none) trivial trivial

/-- The outputs a restarted node has of a block, if it restarts with the head it had. -/
def restartedOutputs (M : Machine ℕ) (cfg : Config) (c : Chain ℕ Bytes) (h : Hash) :
    Option (List TxOutputs) :=
  match c.store with
  | none => none
  | some s =>
    match restore exact M runtime.toDirSort cfg s none with
    | .ok (some d) => if d.head = c.head then some (d.outputs h) else none
    | _ => none

theorem restartedOutputs_eq_some {M : Machine ℕ} {cfg : Config} {c : Chain ℕ Bytes}
    {outputs : List TxOutputs} (heq : restartedOutputs M cfg c h = some outputs) :
    ∃ s d, c.store = some s ∧ restore exact M runtime.toDirSort cfg s none = .ok (some d) ∧
      d.head = c.head ∧ d.outputs h = outputs := by
  unfold restartedOutputs at heq
  split at heq
  · cases heq
  · rename_i s hs
    split at heq
    · rename_i d hd
      split_ifs at heq with hhead
      exact ⟨s, d, hs, hd, hhead, Option.some.inj heq⟩
    · cases heq

theorem restarts_imports : (restartedOutputs refuser config (imports (opened refuser config))
    hollow.blockHash).isSome = true := by decide +kernel

end Sample

open Sample in
theorem restore_faithful_sample : ∃ s d, (imports (opened refuser config)).store = some s ∧
    restore exact refuser runtime.toDirSort config s none = .ok (some d) ∧
    s.headBlock = some d.head ∧ (imports (opened refuser config)).Agrees d := by
  obtain ⟨outputs, houtputs⟩ := Option.isSome_iff_exists.1 restarts_imports
  obtain ⟨s, d, hs, hd, -, -⟩ := restartedOutputs_eq_some houtputs
  have hlife := lives_imports (P := Block.Whole) ⟨by decide, by decide⟩
  obtain ⟨hhead, -, -, -, hagrees, -⟩ := restore_faithful exact_headersDiffer exact_txsDiffer
    exact_reencodes refuser_rootsDiffer rfl hlife (.inl hs) no_pool hd
  exact ⟨s, d, hs, hd, hhead, hagrees _ hlife⟩

namespace Sample

/-- The same block is built first, with an empty transaction that the machine rejects. -/
def swallowing : Chain ℕ Bytes :=
  imports ((Call.forkchoiceUpdated runtime
    ⟨(genesisBlock exact).block.hash exact, zeroHash, zeroHash⟩
    (some (attributes (genesisBlock exact).block.header 1 [[]]))).exec exact refuser
      (opened refuser config))

end Sample

open Sample in
/-- The payload comes back without its empty transaction and is adopted by its hash, with the record
    of the rejected input; a restart replays the block and has no record. -/
theorem restored_without_record : ∃ s d,
    Fresh exact refuser (opened refuser config) ∧
    Reach exact refuser (fun _ => True) (opened refuser config) swallowing ∧
    swallowing.store = some s ∧
    restore exact refuser runtime.toDirSort config s none = .ok (some d) ∧
    d.head = swallowing.head ∧ swallowing.head = hollow.blockHash ∧
    (swallowing.outputs hollow.blockHash).length = 1 ∧ d.outputs hollow.blockHash = [] := by
  have hall : (swallowing.outputs hollow.blockHash).length = 1 ∧
      swallowing.head = hollow.blockHash ∧
      (restartedOutputs refuser config swallowing hollow.blockHash).map List.length = some 0 := by
    decide +kernel
  obtain ⟨hlength, hhead, hrestart⟩ := hall
  obtain ⟨outputs, houtputs, hnone⟩ := Option.map_eq_some_iff.1 hrestart
  obtain ⟨s, d, hs, hd, hheads, rfl⟩ := restartedOutputs_eq_some houtputs
  refine ⟨s, d, .adopted (new_refuser exact) (adopt_opened (new_refuser exact)), ?_, hs, hd, hheads,
    hhead, hlength, List.eq_nil_of_length_eq_zero hnone⟩
  unfold swallowing imports
  exact .call (.call (.call .start _ trivial) _ trivial) _ trivial

/-! ## Completeness -/

/-- Every transaction decodes. -/
def Block.Decodes (G : Geth τ) (b : Block) : Prop := ∀ raw ∈ b.txs, G.unmarshalBinary raw ≠ none

theorem Lives.valid {m : σ} (h : Lives G M cfg m P c) : cfg.withDefaults.validate = .ok () := by
  induction h with
  | fresh _ h => exact (new_eq_ok.1 h).1
  | call _ _ _ _ ih => exact ih
  | restart _ _ _ _ _ ih => exact ih

/-- In a life in which every transaction decodes, a restart succeeds, with the recorded head, exactly
    if the newest checkpoint at or below the head holds the state of the canonical block of its
    height. -/
theorem restart_succeeds_iff (hG : G.HeadersDiffer) (hG' : G.TxsDiffer) (hR : G.Reencodes)
    (hM : M.RootsDiffer) (hempty : G.unmarshalBinary [] = none) {m : σ}
    (hlife : Lives G M cfg m (Block.Decodes G) c) {s : Store σ τ} (hs : c.Leaves s) {rt : DirSort σ}
    {pool : Option Pool} (hpool : ∀ p, pool = some p → p.Decodes G) :
    (∃ d, restore G M rt cfg s pool = .ok (some d) ∧ s.headBlock = some d.head) ↔
      ∃ head cp a b m', s.block G c.head = some head ∧
        s.latestCheckpoint rt head.number = some cp ∧ s.canonical cp.number = some a ∧
        s.block G a = some b ∧ cp.content = some m' ∧ M.rootHash m' = some b.header.root := by
  obtain ⟨root, A, L, base, s₀, hk⟩ := hlife.kept hG hG' hR hM hempty
    (fun x hx => by
      obtain ⟨r, extra, -, -, rfl⟩ := genesis_eq_ok.1 hx
      exact fun raw hraw => (nomatch hraw))
    (fun b hb => hb)
  have hH := hk.leaves hs
  have hcomplete : Complete G A s := by
    intro h x hx
    exact hH.archived h x hx ((mapM_eq_some_iff _).2 (hH.known h x hx))
  constructor
  · rintro ⟨d, hd, -⟩
    obtain ⟨top, w, m', htop, hload, harch, -⟩ := kept_restart hR hM hk hs hpool hd
    obtain ⟨cp, hcp, hnumber, hcontent⟩ := hload.latest
    exact ⟨top.stored.block, cp, _, w.stored.block, m', harch.block hR, hcp, hnumber ▸ hload.canonical,
      (hcomplete _ w hload.self).block hR, hcontent, hload.root_eq⟩
  · rintro ⟨head, cp, a, b, m', hhead, hcp, hcan, hb, hcontent, hroot⟩
    obtain ⟨top, htop, -, rfl⟩ := hH.archives.of_block hR hhead
    obtain ⟨w, hw, -, rfl⟩ := hH.archives.of_block hR hb
    obtain ⟨w', hw', hnumber, -⟩ := (hH.canonical _ _).1 hcan
    obtain rfl := Option.some.inj (hw.symm.trans hw')
    obtain rfl := hH.keyed _ w hw
    have hload : Loads G M A rt s top w m' := ⟨hw, hnumber ▸ hcan, hnumber ▸ latestCheckpoint_le hcp,
      ⟨cp, hcp, hnumber.symm, hcontent⟩, hroot⟩
    obtain ⟨d, hd⟩ := restore_complete hR hM hlife.valid (hH.durable htop) hcomplete
      (fun n hn => hH.contiguous htop hn) hpool hload
    obtain ⟨top', w', -, htop', -, -, hres, -⟩ := kept_restart hR hM hk hs hpool hd
    refine ⟨d, hd, ?_⟩
    rw [hres.head, hH.keyed _ top' htop']
    exact hH.head_eq

open Sample in
theorem restart_succeeds_iff_sample : ∃ (s : Store ℕ Bytes) (head : Block) (cp : CheckpointDir ℕ)
    (a : Hash) (b : Block) (m' : ℕ),
    (imports (opened refuser config)).store = some s ∧
    s.block exact (imports (opened refuser config)).head = some head ∧
    s.latestCheckpoint runtime.toDirSort head.number = some cp ∧ s.canonical cp.number = some a ∧
    s.block exact a = some b ∧ cp.content = some m' ∧
    refuser.rootHash m' = some b.header.root := by
  obtain ⟨outputs, houtputs⟩ := Option.isSome_iff_exists.1 restarts_imports
  obtain ⟨s, d, hs, hd, hhead, -⟩ := restartedOutputs_eq_some houtputs
  have hlife := lives_imports (P := Block.Decodes exact) fun raw hraw => (nomatch hraw)
  have hkept := hlife.kept exact_headersDiffer exact_txsDiffer exact_reencodes refuser_rootsDiffer rfl
    (fun x hx => by
      obtain ⟨r, extra, -, -, rfl⟩ := genesis_eq_ok.1 hx
      exact fun raw hraw => (nomatch hraw))
    (fun b hb => hb)
  obtain ⟨root, A, L, base, s₀, hk⟩ := hkept
  have hrecorded : s.headBlock = some d.head := by
    rw [hhead]
    exact (hk.leaves (.inl hs)).head_eq
  obtain ⟨head, cp, a, b, m', hblock⟩ := (restart_succeeds_iff exact_headersDiffer exact_txsDiffer
    exact_reencodes refuser_rootsDiffer rfl hlife (.inl hs) no_pool).1
      ⟨d, hd, hrecorded⟩
  exact ⟨s, head, cp, a, b, m', hs, hblock⟩

namespace Sample

def checkpointing : Config := { config with checkpointInterval := 1 }

/-- Two blocks on the genesis block, one of which moves the machine. -/
def busy : ExecutableData :=
  executableData exact (child exact (genesisBlock exact).block.header 1 (hashOf 1) [[5]]) [[5]]

def idle : ExecutableData :=
  executableData exact (child exact (genesisBlock exact).block.header 2 (hashOf 0) []) []

def crossing : Chain ℕ Bytes :=
  (Call.forkchoiceUpdated runtime ⟨idle.blockHash, zeroHash, zeroHash⟩ none).exec exact machine
    ((Call.importPayload runtime idle none).exec exact machine
      ((Call.importPayload runtime busy none).exec exact machine (opened machine checkpointing)))

theorem new_checkpointing (G : Geth Bytes) :
    new G machine checkpointing 0 none = .ok (unopened G checkpointing) := rfl

/-- The roots a restart complains about. -/
def rootMismatch (c : Chain ℕ Bytes) : Option (Hash × Hash) :=
  match c.store with
  | none => none
  | some s =>
    match restore exact machine runtime.toDirSort checkpointing s none with
    | .error (.checkpointRoot root recorded) => some (root, recorded)
    | _ => none

end Sample

open Sample in
/-- Both blocks cross a checkpoint height; the head is on one branch, and the directory of the other
    one is picked, so that the restart fails. -/
theorem restart_on_other_branch : ∃ s,
    Fresh exact machine (opened machine checkpointing) ∧
    Reach exact machine (Call.Imports exact (Block.Decodes exact)) (opened machine checkpointing)
      crossing ∧ crossing.store = some s ∧ crossing.head = idle.blockHash ∧
    restore exact machine runtime.toDirSort checkpointing s none =
      .error (.checkpointRoot (hashOf 1) (hashOf 0)) := by
  have hall : crossing.head = idle.blockHash ∧
      rootMismatch crossing = some (hashOf 1, hashOf 0) := by decide +kernel
  obtain ⟨hhead, hmismatch⟩ := hall
  have hdecodes : Block.Decodes exact ⟨payloadHeader exact busy none, busy.transactions⟩ := by
    intro raw hraw
    obtain rfl := List.mem_singleton.1 hraw
    decide
  unfold rootMismatch at hmismatch
  split at hmismatch
  · cases hmismatch
  rename_i s hs
  split at hmismatch
  · rename_i root recorded hrestore
    cases hmismatch
    refine ⟨s, .adopted (new_checkpointing exact) (adopt_opened (new_checkpointing exact)), ?_, hs,
      hhead, hrestore⟩
    unfold crossing
    exact .call (.call (.call .start _ hdecodes) _ fun raw hraw => (nomatch hraw)) _ trivial
  · cases hmismatch

end OpCartesi.Node
