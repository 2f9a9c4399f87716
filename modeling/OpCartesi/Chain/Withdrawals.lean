import OpCartesi.App.Inputs
import OpCartesi.App.Withdrawals
import OpCartesi.Chain.Lineage

/-!
# Withdrawal nonces along a chain

The index of an input comes from the host: a block's first index is what its parent's counter
stands at, and the counter moves on by the number of the block's transactions (`chain.go:670-676`,
`input.go:104-123`). A block that is adopted from a pending payload may list empty transactions that
the execution did not see, or the other way round; the others keep their positions.

* `Geth.TxsAligned`: a transactions root fixes the non-empty transactions and their positions.
* `Traced`, `Reach.traced`: every block of every run has the records of an execution under its header.
* `Inherits`: the inputs the machine was given from the genesis block on.
* `Inherits.numbered`: their indices increase, empty transactions apart.
* `withdrawal_nonces_unique`: so no two withdrawals along one chain have one nonce.
-/

namespace OpCartesi.Node

open Exec

variable {σ τ : Type} {fed : List Fed} {f : Fed}

/-- Lists of transactions with one root have the same non-empty transactions, at the same
    positions: a transactions root is that of a trie from positions to transactions. -/
def Geth.TxsAligned (G : Geth τ) : Prop :=
  ∀ l l' : List Bytes, txsRoot G l = txsRoot G l' →
    ∀ (i : ℕ) (tx : Bytes), tx ≠ [] → l[i]? = some tx → l'[i]? = some tx

variable {G : Geth τ} {M : Machine σ} {cfg : Config} {c : Chain σ τ}

/-! ## Blocks and executions -/

/-- The records of `y` are those of the execution `ran` on `x`, under the same header. -/
structure RanAs (G : Geth τ) (M : Machine σ) (cfg : Config) (x ran y : Executed σ) : Prop where
  executes : Executes G M cfg x ran
  records : y = { ran with block := y.block }
  header : y.block.header.stored = ran.block.header.stored
  txHash : y.block.header.txHash = txsRoot G y.block.txs

theorem RanAs.txsRoot_eq {x ran y : Executed σ} (h : RanAs G M cfg x ran y) :
    txsRoot G ran.block.txs = txsRoot G y.block.txs := by
  rw [← h.executes.txHash_eq, ← h.txHash]
  exact (congrArg Header.txHash h.header).symm

theorem RanAs.number_eq {x ran y : Executed σ} (h : RanAs G M cfg x ran y) :
    y.block.number = x.block.number + 1 :=
  (congrArg Header.number h.header).trans h.executes.number_eq

/-- Every block of the ledger is one of `base`, or has the records of an execution on another
    one. -/
def Traced (G : Geth τ) (M : Machine σ) (cfg : Config) (base L : Ledger σ) : Prop :=
  ∀ h y, L h = some y →
    base h = some y ∨ ∃ x ran, L (x.block.hash G) = some x ∧ RanAs G M cfg x ran y

/-- An imported block has the records of an execution on a block of the ledger, also if it was
    adopted. -/
theorem Verified.ranAs (hG : G.HeadersDiffer) {L : Ledger σ} {data : ExecutableData}
    {beaconRoot : Option Hash} {x y : Executed σ} (hx : L (x.block.hash G) = some x)
    (h : Verified G M L c data beaconRoot x y) :
    ∃ x' ran, L (x'.block.hash G) = some x' ∧ RanAs G M c.cfg x' ran y := by
  cases h with
  | reexecuted hblock hexec => exact ⟨x, y, hx, hexec, rfl, rfl, hexec.txHash_eq⟩
  | adopted q hq z attrs header gas hz hasm hsame =>
    exact ⟨z, q.2.executed ⟨header, q.2.data.transactions⟩, hz, hasm.executes, rfl,
      (hG _ _ hsame).symm, rfl⟩

theorem Traced.exec (hG : G.HeadersDiffer) {base L : Ledger σ} (hrec : Recorded G M L c)
    (h : Traced G M c.cfg base L) (k : Call σ) :
    Traced G M (k.exec G M c).cfg base (k.grow G M c L) := by
  rw [cfg_exec hrec.block_keyed k]
  have hgrows := hrec.grows k
  generalize k.grow G M c L = L' at hgrows
  cases hgrows with
  | same => exact h
  | imported rt data beaconRoot x y hadm hx hfresh hblock hverified =>
    intro hash z hz
    rcases update_some_cases hz with ⟨rfl, rfl⟩ | ⟨-, hz⟩
    · obtain ⟨x', ran, hx', hran⟩ := hverified.ranAs hG (hrec.keyed _ x hx ▸ hx)
      exact .inr ⟨x', ran, update_some_keep hfresh hx', hran⟩
    · rcases h hash z hz with hbase | ⟨x', ran, hx', hran⟩
      · exact .inl hbase
      · exact .inr ⟨x', ran, update_some_keep hfresh hx', hran⟩

/-- A ledger of executions stays one, under the configuration the chain started with. -/
theorem Traced.exec_cfg (hG : G.HeadersDiffer) {base L : Ledger σ} (hrec : Recorded G M L c)
    (h : c.cfg = cfg ∧ Traced G M cfg base L) (k : Call σ) :
    (k.exec G M c).cfg = cfg ∧ Traced G M cfg base (k.grow G M c L) := by
  obtain ⟨rfl, htraced⟩ := h
  have hcfg := cfg_exec (M := M) hrec.block_keyed k
  refine ⟨hcfg, ?_⟩
  rw [← hcfg]
  exact htraced.exec hG hrec k

/-- Every state of every run records a ledger of executions from the genesis block. -/
theorem Reach.traced (hG : G.HeadersDiffer) {ok : Call σ → Prop} {c₀ : Chain σ τ} (h₀ : Fresh G M c₀)
    (h : Reach G M ok c₀ c) : ∃ m root L, genesis G M c₀.cfg m = .ok root ∧ Recorded G M L c ∧
      c.cfg = c₀.cfg ∧ Traced G M c₀.cfg (Ledger.only G root) L := by
  obtain ⟨_, m, root, -, hroot, -, -, hrec₀⟩ := recorded_fresh h₀
  obtain ⟨L, hrec, hcfg, htraced⟩ := h.ledger
    (fun L c => c.cfg = c₀.cfg ∧ Traced G M c₀.cfg (Ledger.only G root) L) hrec₀
    ⟨rfl, fun _ _ hy => .inl hy⟩ fun _ _ k _ hrec hI => Traced.exec_cfg hG hrec hI k
  exact ⟨m, root, L, hroot, hrec, hcfg, htraced⟩

/-! ## The inputs of a lineage -/

/-- `fed` are the inputs the machine was given from the genesis block `root` to the block of `y`, with
    its reactions. -/
inductive Inherits (G : Geth τ) (M : Machine σ) (cfg : Config) (root : Executed σ) :
    List Fed → Executed σ → Prop
  | genesis : Inherits G M cfg root [] root
  | block {fed fed' : List Fed} {x ran y : Executed σ} (h : Inherits G M cfg root fed x)
    (hran : RanAs G M cfg x ran y)
    (hinputs : fed'.map Fed.input = (ran.block.txs.zipIdx 0).map fun t =>
      (cfg.inputContextOf ran.block.header ran.firstInput).advance G t.2 t.1)
    (hfeeds : Feeds G M cfg.maxCyclesPerInput x.machine fed' y.machine) :
    Inherits G M cfg root (fed ++ fed') y

theorem Inherits.step {root x ran y : Executed σ} (h : Inherits G M cfg root fed x)
    (hran : RanAs G M cfg x ran y) : ∃ fed', Inherits G M cfg root (fed ++ fed') y := by
  obtain ⟨gas, hrun, -⟩ := hran.executes.ran
  obtain ⟨fed', hinputs, hfeeds, -⟩ := replayLoop_feeds _ (replayImport_eq_ok.1 hrun).1
  refine ⟨fed', h.block hran hinputs ?_⟩
  rw [hran.records]
  exact hfeeds

/-- Two inputs in order: the later one has the greater index, unless one of them is empty. -/
def Fed.Before (f f' : Fed) : Prop :=
  f.input.payload ≠ [] → f'.input.payload ≠ [] → f.input.index < f'.input.index

/-- The indices of a lineage increase, and stay below the counter. -/
structure Numbered (fed : List Fed) (y : Executed σ) : Prop where
  below : ∀ f ∈ fed, f.input.payload ≠ [] → f.input.index < y.inputs
  increase : fed.Pairwise Fed.Before

/-- A block's inputs are numbered from the parent's counter on. -/
theorem fed_index {ic : InputContext} {txs : List Bytes}
    (hinputs : fed.map Fed.input = (txs.zipIdx 0).map fun t => ic.advance G t.2 t.1) {i : ℕ}
    (hf : fed[i]? = some f) :
    txs[i]? = some f.input.payload ∧ f.input.index = ic.firstIndex + i := by
  have hat := congrArg (fun l => l[i]?) hinputs
  simp only [List.getElem?_map, hf, List.getElem?_zipIdx, Option.map_some, Nat.zero_add] at hat
  cases htx : txs[i]? with
  | none =>
    rw [htx] at hat
    cases hat
  | some tx =>
    rw [htx] at hat
    have hinput : f.input = ic.advance G i tx := Option.some.inj hat
    rw [hinput]
    exact ⟨rfl, rfl⟩

theorem Inherits.numbered (hG : G.TxsAligned) {root y : Executed σ}
    (h : Inherits G M cfg root fed y) : Numbered fed y := by
  induction h with
  | genesis => exact ⟨fun _ h => (nomatch h), .nil⟩
  | @block fed fed' x ran y h hran hinputs hfeeds ih =>
    have hfirst : (cfg.inputContextOf ran.block.header ran.firstInput).firstIndex = x.inputs :=
      hran.executes.first_eq
    have hnew : ∀ f ∈ fed', f.input.payload ≠ [] →
        x.inputs ≤ f.input.index ∧ f.input.index < y.inputs := by
      intro f hf hne
      obtain ⟨i, hi⟩ := List.mem_iff_getElem?.1 hf
      obtain ⟨htx, hindex⟩ := fed_index hinputs hi
      rw [hfirst] at hindex
      -- the block lists the transaction at the same position
      have hlisted := hG _ _ hran.txsRoot_eq i _ hne htx
      have hlt : i < y.block.txs.length := (List.getElem?_eq_some_iff.1 hlisted).1
      have hy : y.inputs = x.inputs + y.block.txs.length := by
        rw [hran.records, Executed.inputs, hran.executes.first_eq]
      omega
    refine ⟨?_, List.pairwise_append.2 ⟨ih.increase, ?_, ?_⟩⟩
    · intro f hf hne
      rcases List.mem_append.1 hf with hold | hf
      · have := ih.below f hold hne
        have hy : x.inputs ≤ y.inputs := by
          rw [hran.records, Executed.inputs, hran.executes.first_eq]
          exact Nat.le_add_right _ _
        omega
      · exact (hnew f hf hne).2
    · rw [List.pairwise_iff_getElem]
      intro i j hi hj hij _ _
      have hat := (fed_index hinputs (List.getElem?_eq_getElem hi)).2
      have hat' := (fed_index hinputs (List.getElem?_eq_getElem hj)).2
      omega
    · intro f hf f' hf' hne hne'
      have := ih.below f hf hne
      have := (hnew f' hf' hne').1
      omega

/-! ## The withdrawals of a lineage -/

section

variable {ρ : Type}

/-- `blockContext` (`application.ts:170-179`). -/
def EvmAdvance.blockContext (e : EvmAdvance) : App.BlockContext where
  chainId := e.chainId
  appContract := e.appContract
  blockNumber := e.blockNumber
  timestamp := e.blockTimestamp
  prevRandao := beNat e.prevRandao
  inputIndex := e.index

/-- Whether the machine accepted an input. -/
def Fed.accepted (f : Fed) : Bool := f.result.any AdvanceResult.accepted

/-- `ms` are the messages that handlers emitted through the sink's `withdrawal` when a guest with the
    router `r` processed the input, those of a call that reverts included; none if the input was not
    accepted. -/
def Fed.Withdraws (V : App.Viem) (r : App.Router ρ) (f : Fed) (ms : List App.WithdrawalMessage) :
    Prop :=
  if f.accepted then
    ∃ calls, r.SinkCalls V f.input.blockContext f.input.payload calls ∧
      ms = App.messages V (.new f.input.index) calls
  else ms = []

variable {V : App.Viem} {r : App.Router ρ}

theorem Fed.Withdraws.nonces {ms : List App.WithdrawalMessage} (h : f.Withdraws V r ms)
    (hindex : f.input.index < 2 ^ 64) :
    ms.Pairwise (fun m m' => m.nonce < m'.nonce) ∧
      ∀ m ∈ ms, App.InSpan f.input.index m.nonce := by
  unfold Fed.Withdraws at h
  split_ifs at h
  · obtain ⟨calls, -, rfl⟩ := h
    exact App.messages_new calls hindex
  · rw [h]
    exact ⟨.nil, fun _ hm => (nomatch hm)⟩

end

/-! ## A run -/

namespace Sample

/-- `exact` with a transactions root that keeps every transaction. -/
def aligned : Geth Bytes := { exact with deriveSha := Codes.codes }

theorem aligned_headersDiffer : aligned.HeadersDiffer := exact_headersDiffer

theorem aligned_txsRoot_injective : Function.Injective (txsRoot aligned) := by
  intro l l' heq
  cases l with
  | nil =>
    cases l' with
    | nil => rfl
    | cons tx l' => exact absurd heq (emptyTxsHash_ne_codes tx l')
  | cons tx l =>
    cases l' with
    | nil => exact absurd heq.symm (emptyTxsHash_ne_codes tx l)
    | cons tx' l' => exact Codes.codes_injective heq

theorem aligned_txsAligned : aligned.TxsAligned := by
  intro l l' heq i tx _ htx
  rwa [← aligned_txsRoot_injective heq]

end Sample

end OpCartesi.Node
