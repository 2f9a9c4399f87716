import OpCartesi.Chain.Provable
import OpCartesi.Chain.Forkchoice
import OpCartesi.Common.Relational

/-!
# Reports are not committed

A machine emits outputs, which the chain commits to, and reports, which it only records. Two chains
over machines that differ in what they report run alike.

* `SameOutputs`: records that differ in their reports at most.
* `Machine.Agrees`: machines that agree on all but the reports, along a relation of their states.
* `Chain.Alike`: chains that differ in machines, reports and checkpoints at most.
* `Chain.Alike.forkchoiceUpdated`, `Chain.Alike.importPayload`: the calls keep chains alike and
  answer alike.
* `Twins`: two nodes that take the same calls.
* `reports_uncommitted`: the runs of two such machines make the same blocks, trees, withdrawal
  commitments and output proofs.
-/

namespace OpCartesi.Node

open Drive Exec

variable {σ σ' τ : Type} {G : Geth τ} {M : Machine σ} {M' : Machine σ'} {R : σ → σ' → Prop}
  {l' : List (PayloadID × PendingPayload σ')} {l : List (PayloadID × PendingPayload σ)}
  {r r' : AdvanceResult} {rt' : Runtime σ'} {rt : Runtime σ} {m' : σ'} {m : σ}

/-! ## Records -/

/-- A record without its reports. -/
def TxOutputs.silent (o : TxOutputs) : TxOutputs := { o with reports := [] }

/-- The records differ in their reports at most. -/
def SameOutputs (os os' : List TxOutputs) : Prop :=
  os.map TxOutputs.silent = os'.map TxOutputs.silent

namespace SameOutputs

variable {os os' : List TxOutputs}

theorem refl (os : List TxOutputs) : SameOutputs os os := rfl

section

variable (h : SameOutputs os os')
include h

theorem append {l l' : List TxOutputs} (hl : SameOutputs l l') :
    SameOutputs (os ++ l) (os' ++ l') := by
  rw [SameOutputs, List.map_append, List.map_append, h, hl]

/-- What is read off the records without their reports. -/
theorem flatMap {β : Type} {f : TxOutputs → List β} (hf : ∀ o : TxOutputs, f o.silent = f o)
    : os.flatMap f = os'.flatMap f := by
  have hsilent : ∀ l : List TxOutputs, l.flatMap f = (l.map TxOutputs.silent).flatMap f := by
    intro l
    rw [List.flatMap_map]
    exact List.flatMap_congr fun o _ => (hf o).symm
  rw [hsilent os, hsilent os', h]

theorem outputLeaves : outputLeaves G os = outputLeaves G os' :=
  h.flatMap fun _ => rfl

theorem withdrawalHashes : withdrawalHashes G os = withdrawalHashes G os' :=
  h.flatMap fun _ => rfl

theorem emitted (b : Block) : b.emitted G os = b.emitted G os' :=
  h.flatMap fun _ => rfl

theorem extend (p : PasserTrie) (tree : OutputTree) :
    p.extend G os tree = p.extend G os' tree := by
  rw [PasserTrie.extend, PasserTrie.extend, h.withdrawalHashes]

/-- The entries a commit makes for a transaction. -/
theorem indexed (txHash blockHash : Hash) :
    ((os.filter fun o => o.txHash ≠ zeroHash ∧ o.txHash = txHash).map fun _ => blockHash) =
      (os'.filter fun o => o.txHash ≠ zeroHash ∧ o.txHash = txHash).map fun _ => blockHash := by
  have hflat : ∀ l : List TxOutputs,
      ((l.filter fun o => o.txHash ≠ zeroHash ∧ o.txHash = txHash).map fun _ => blockHash) =
        l.flatMap fun o => if o.txHash ≠ zeroHash ∧ o.txHash = txHash then [blockHash] else [] := by
    intro l
    induction l with
    | nil => rfl
    | cons o l ih =>
      rw [List.flatMap_cons, ← ih, List.filter_cons]
      split_ifs <;> simp_all
  rw [hflat, hflat]
  exact h.flatMap fun _ => rfl

end

end SameOutputs

/-! ## Machines -/

/-- The answers differ in what is no output at most. -/
structure AdvanceResult.Agrees (r r' : AdvanceResult) : Prop where
  accepted : r.accepted = r'.accepted
  cycles : r.cycles = r'.cycles
  outputs : r.outputs.filter Output.isProvable = r'.outputs.filter Output.isProvable

/-- Machines that agree on acceptance, cycles, state roots and outputs in related states, and fail
    alike. -/
structure Machine.Agrees (M : Machine σ) (M' : Machine σ') (R : σ → σ' → Prop) : Prop where
  advanceInput : ∀ {s s'}, R s s' → ∀ input maxCycles,
    Option.Rel (fun p p' => p.1.Agrees p'.1 ∧ R p.2 p'.2) (M.advanceInput s input maxCycles)
      (M'.advanceInput s' input maxCycles)
  rootHash : ∀ {s s'}, R s s' → M.rootHash s = M'.rootHash s'
  fork : ∀ {s s'}, R s s' → (M.fork s).isSome = (M'.fork s').isSome

theorem Machine.Agrees.forks (h : M.Agrees M' R) {s : σ} {s' : σ'} (hs : R s s') :
    Option.Rel R (M.fork s) (M'.fork s') := by
  have hsome := h.fork hs
  cases hf : M.fork s with
  | none =>
    rw [hf] at hsome
    rw [Option.isSome_eq_false_iff.1 hsome.symm |> Option.isNone_iff_eq_none.1]
    exact .none
  | some t =>
    rw [hf] at hsome
    obtain ⟨t', hf'⟩ := Option.isSome_iff_exists.1 hsome.symm
    rw [hf']
    refine .some ?_
    rw [M.fork_eq hf, M'.fork_eq hf']
    exact hs

theorem collectOutputs_agrees (h : r.Agrees r') (i : ℕ) (tx : Bytes) :
    SameOutputs [collectOutputs G i tx r] [collectOutputs G i tx r'] := by
  simp only [SameOutputs, List.map_cons, List.map_nil, TxOutputs.silent, collectOutputs, h.accepted,
    h.cycles, h.outputs]

/-! ## The two loops -/

/-- Two runs of inputs so far. -/
structure Trace.Alike (R : σ → σ' → Prop) (t : Trace σ) (t' : Trace σ') : Prop where
  gasUsed : t.gasUsed = t'.gasUsed
  outputs : SameOutputs t.outputs t'.outputs
  machine : R t.machine t'.machine

structure ExecResult.Alike (R : σ → σ' → Prop) (r : ExecResult σ) (r' : ExecResult σ') : Prop where
  trace : r.toTrace.Alike R r'.toTrace
  included : r.included = r'.included

theorem Trace.Alike.record {t : Trace σ} {t' : Trace σ'} (ht : t.Alike R t') {n : σ} {n' : σ'}
    (hr : r.Agrees r') (hn : R n n') (i : ℕ) (tx : Bytes) :
    (t.record G i tx r n).Alike R (t'.record G i tx r' n') := by
  refine ⟨?_, ht.outputs.append (collectOutputs_agrees hr i tx), ?_⟩
  · show (t.gasUsed + r.cycles / CyclesPerGas) % 2 ^ 64 = (t'.gasUsed + r'.cycles / CyclesPerGas) % 2 ^ 64
    rw [ht.gasUsed, hr.cycles]
  · show R (if r.accepted then n else t.machine) (if r'.accepted then n' else t'.machine)
    rw [hr.accepted]
    split_ifs
    · exact hn
    · exact ht.machine

theorem ExecResult.Alike.record {t : ExecResult σ} {t' : ExecResult σ'} (ht : t.Alike R t') {n : σ}
    {n' : σ'} (hr : r.Agrees r') (hn : R n n') (tx : Bytes) :
    (t.record G tx r n).Alike R (t'.record G tx r' n') := by
  refine ⟨?_, ?_⟩
  · show (t.toTrace.record G t.included.length tx r n).Alike R
      (t'.toTrace.record G t'.included.length tx r' n')
    rw [ht.included]
    exact ht.trace.record hr hn _ tx
  · show t.included ++ [tx] = t'.included ++ [tx]
    rw [ht.included]

section Loops

variable {cfg : Config} {ic : InputContext} (hM : M.Agrees M' R)

include hM

theorem depositLoop_alike (txs : List Bytes) : ∀ {t : ExecResult σ} {t' : ExecResult σ'},
    t.Alike R t' → ExceptRel (ExecResult.Alike R) (depositLoop G M cfg ic t txs)
      (depositLoop G M' cfg ic t' txs) := by
  induction txs with
  | nil =>
    intro t t' ht
    exact .ok ht
  | cons tx txs ih =>
    intro t t' ht
    unfold depositLoop
    rw [← ht.included]
    refine ExceptRel.bind_same fun envelope _ => ?_
    refine (ExceptRel.expect (hM.forks ht.trace.machine) _).bind fun cand cand' hcand => ?_
    have hadvance := hM.advanceInput hcand envelope cfg.maxCyclesPerInput
    generalize M.advanceInput cand envelope cfg.maxCyclesPerInput = r at hadvance
    generalize M'.advanceInput cand' envelope cfg.maxCyclesPerInput = r' at hadvance
    cases hadvance with
    | none => exact .error _
    | some h => exact ih (ht.record h.1 h.2 tx)

theorem poolLoop_alike {da : DALimits} {gasLimit : ℕ} (txs : List Bytes) :
    ∀ {t : ExecResult σ} {t' : ExecResult σ'} {daUsed : ℕ} {dropped : List Hash}, t.Alike R t' →
      ExceptRel (fun r r' => r.1.Alike R r'.1 ∧ r.2 = r'.2)
        (poolLoop G M cfg ic da gasLimit t daUsed dropped txs)
        (poolLoop G M' cfg ic da gasLimit t' daUsed dropped txs) := by
  induction txs with
  | nil =>
    intro t t' daUsed dropped ht
    exact .ok ⟨ht, rfl⟩
  | cons tx txs ih =>
    intro t t' daUsed dropped ht
    unfold poolLoop
    rw [← ht.included, ← ht.trace.gasUsed]
    split_ifs with hgas hadmit
    · exact .ok ⟨ht, rfl⟩
    · exact ih ht
    refine ExceptRel.bind_same fun envelope _ => ?_
    refine (ExceptRel.expect (hM.forks ht.trace.machine) _).bind fun cand cand' hcand => ?_
    have hadvance := hM.advanceInput hcand envelope cfg.maxCyclesPerInput
    generalize M.advanceInput cand envelope cfg.maxCyclesPerInput = r at hadvance
    generalize M'.advanceInput cand' envelope cfg.maxCyclesPerInput = r' at hadvance
    cases hadvance with
    | none => exact ih ht
    | @some p p' h =>
      obtain ⟨res, next⟩ := p
      obtain ⟨res', next'⟩ := p'
      simp only
      rw [← h.1.accepted]
      split_ifs
      · exact ih (ht.record h.1 h.2 tx)
      · exact ih ht

theorem applyBuild_alike {da : DALimits} {work : σ} {work' : σ'} (hwork : R work work')
    (deposits poolTxs : List Bytes) (gasLimit : ℕ) :
    ExceptRel (fun r r' => r.1.Alike R r'.1 ∧ r.2 = r'.2)
      (applyBuild G M cfg ic da work deposits poolTxs gasLimit)
      (applyBuild G M' cfg ic da work' deposits poolTxs gasLimit) := by
  have hstart : ExecResult.Alike R ⟨⟨0, [], work⟩, []⟩ ⟨⟨0, [], work'⟩, []⟩ :=
    ⟨⟨rfl, rfl, hwork⟩, rfl⟩
  refine (depositLoop_alike hM deposits hstart).bind fun t t' ht => ?_
  rw [← ht.included]
  exact poolLoop_alike hM poolTxs ht

theorem replayLoop_alike (txs : List Bytes) : ∀ {i : ℕ} {t : Trace σ} {t' : Trace σ'},
    t.Alike R t' → ExceptRel (Trace.Alike R) (replayLoop G M cfg ic i t txs)
      (replayLoop G M' cfg ic i t' txs) := by
  induction txs with
  | nil =>
    intro i t t' ht
    exact .ok ht
  | cons tx txs ih =>
    intro i t t' ht
    unfold replayLoop
    refine ExceptRel.bind_same fun envelope _ => ?_
    refine (ExceptRel.expect (hM.forks ht.machine) _).bind fun cand cand' hcand => ?_
    have hadvance := hM.advanceInput hcand envelope cfg.maxCyclesPerInput
    generalize M.advanceInput cand envelope cfg.maxCyclesPerInput = r at hadvance
    generalize M'.advanceInput cand' envelope cfg.maxCyclesPerInput = r' at hadvance
    cases hadvance with
    | none => exact ih ht
    | some h => exact ih (ht.record h.1 h.2 i tx)

theorem replayImport_alike {work : σ} {work' : σ'} (hwork : R work work') (txs : List Bytes) :
    ExceptRel (ExecResult.Alike R) (replayImport G M cfg ic work txs)
      (replayImport G M' cfg ic work' txs) :=
  (replayLoop_alike hM txs ⟨rfl, SameOutputs.refl _, hwork⟩).bind fun _ _ ht => .ok ⟨ht, rfl⟩

end Loops

/-! ## Chains -/

/-- Payloads that differ in their machine and their reports at most. -/
structure PendingPayload.Alike (R : σ → σ' → Prop) (p : PendingPayload σ) (p' : PendingPayload σ') :
    Prop where
  data : p.data = p'.data
  beaconRoot : p.beaconRoot = p'.beaconRoot
  machine : R p.machine p'.machine
  outputs : SameOutputs p.outputs p'.outputs
  tree : p.tree = p'.tree
  passer : p.passer = p'.passer
  firstInput : p.firstInput = p'.firstInput

/-- Entries of the pending maps. -/
structure PendingAlike (R : σ → σ' → Prop) (e : PayloadID × PendingPayload σ)
    (e' : PayloadID × PendingPayload σ') : Prop where
  id : e.1 = e'.1
  payload : e.2.Alike R e'.2

structure Executed.Alike (R : σ → σ' → Prop) (x : Executed σ) (x' : Executed σ') : Prop where
  block : x.block = x'.block
  machine : R x.machine x'.machine
  outputs : SameOutputs x.outputs x'.outputs
  tree : x.tree = x'.tree
  passer : x.passer = x'.passer
  firstInput : x.firstInput = x'.firstInput

/-- Stores that differ in stored reports and in checkpoints at most. -/
structure Store.Alike (s : Store σ τ) (s' : Store σ' τ) : Prop where
  headers : s.headers = s'.headers
  bodies : s.bodies = s'.bodies
  canonical : s.canonical = s'.canonical
  headBlock : s.headBlock = s'.headBlock
  safeHead : s.safeHead = s'.safeHead
  finalizedBlock : s.finalizedBlock = s'.finalizedBlock
  outputs : ∀ h, Option.Rel (fun o o' => SameOutputs (decodeOutputs o) (decodeOutputs o'))
    (s.outputs h) (s'.outputs h)
  trees : s.trees = s'.trees
  inputs : s.inputs = s'.inputs

/-- Chains that differ in machines, reports and checkpoints at most. The ids of pending payloads are
    different, as keys of a map are. -/
structure Chain.Alike (R : σ → σ' → Prop) (c : Chain σ τ) (c' : Chain σ' τ) : Prop where
  cfg : c.cfg = c'.cfg
  pool : c.pool = c'.pool
  blocks : c.blocks = c'.blocks
  canonical : c.canonical = c'.canonical
  machines : ∀ h, Option.Rel R (c.machines h) (c'.machines h)
  outputs : ∀ h, SameOutputs (c.outputs h) (c'.outputs h)
  trees : c.trees = c'.trees
  passers : c.passers = c'.passers
  inputs : c.inputs = c'.inputs
  txBlocks : c.txBlocks = c'.txBlocks
  pending : List.Forall₂ (PendingAlike R) c.pending c'.pending
  ids : (c.pending.map Prod.fst).Nodup
  store : Option.Rel Store.Alike c.store c'.store
  da : c.da = c'.da
  genesisHash : c.genesisHash = c'.genesisHash
  head : c.head = c'.head
  safe : c.safe = c'.safe
  finalized : c.finalized = c'.finalized

/-- Maps that are changed alike. -/
theorem rel_update {β β' : Type} {P : β → β' → Prop} {f : Hash → β} {f' : Hash → β'}
    (h : ∀ k, P (f k) (f' k)) (k : Hash) {b : β} {b' : β'} (hb : P b b') :
    ∀ a, P (Function.update f k b a) (Function.update f' k b' a) := by
  intro a
  rw [Function.update_apply, Function.update_apply]
  split_ifs
  · exact hb
  · exact h a

theorem pending_ids (h : List.Forall₂ (PendingAlike R) l l') :
    l.map Prod.fst = l'.map Prod.fst := by
  induction h with
  | nil => rfl
  | cons he _ ih => rw [List.map_cons, List.map_cons, he.id, ih]

theorem pending_partner (h : List.Forall₂ (PendingAlike R) l l') {e : PayloadID × PendingPayload σ}
    (he : e ∈ l) : ∃ e' ∈ l', PendingAlike R e e' := by
  induction h with
  | nil => cases he
  | @cons a a' l l' ha _ ih =>
    rcases List.mem_cons.1 he with rfl | hl
    · exact ⟨a', List.mem_cons_self .., ha⟩
    · obtain ⟨e', he', halike⟩ := ih hl
      exact ⟨e', List.mem_cons_of_mem _ he', halike⟩

/-! ## Stores -/

namespace Store.Alike

variable {s : Store σ τ} {s' : Store σ' τ}

theorem block (h : s.Alike s') (hash : Hash) : s.block G hash = s'.block G hash := by
  rw [Store.block, Store.block, h.headers, h.bodies]

theorem withDirs (h : s.Alike s') (dirs : List (CheckpointDir σ)) (dirs' : List (CheckpointDir σ')) :
    Store.Alike { s with dirs := dirs } { s' with dirs := dirs' } :=
  ⟨h.headers, h.bodies, h.canonical, h.headBlock, h.safeHead, h.finalizedBlock, h.outputs, h.trees,
    h.inputs⟩

theorem setCanonical (h : s.Alike s') (head : Block) (walk : Hash → Option Block) :
    (s.setCanonical G head walk).Alike (s'.setCanonical G head walk) := by
  refine ⟨h.headers, h.bodies, ?_, rfl, h.safeHead, h.finalizedBlock, h.outputs, h.trees, h.inputs⟩
  simp only [Store.setCanonical, h.canonical]

theorem setHeads (h : s.Alike s') (head safe finalized : Hash) :
    (s.setHeads head safe finalized).Alike (s'.setHeads head safe finalized) := by
  refine ⟨h.headers, h.bodies, h.canonical, rfl, ?_, ?_, h.outputs, h.trees, h.inputs⟩
  · simp only [Store.setHeads, h.safeHead]
  · simp only [Store.setHeads, h.finalizedBlock]

theorem putBlock (h : s.Alike s') (b : Block) {os os' : List TxOutputs} (hos : SameOutputs os os')
    (tree : OutputTree) (n : ℕ) :
    ExceptRel Store.Alike (s.putBlock G b os tree n) (s'.putBlock G b os' tree n) := by
  refine ExceptRel.bind_same fun txs _ => .ok ⟨?_, ?_, h.canonical, h.headBlock, h.safeHead,
    h.finalizedBlock, ?_, ?_, ?_⟩
  · simp only [h.headers]
  · simp only [h.bodies]
  · refine rel_update h.outputs _ (.some ?_)
    rwa [decodeOutputs_encodeOutputs, decodeOutputs_encodeOutputs]
  · simp only [h.trees]
  · simp only [h.inputs]

/-- The records of a stored block, of which only the outputs are compared. -/
theorem records (h : s.Alike s') (hash : Hash) :
    ExceptRel (fun r r' => SameOutputs r.1 r'.1) (s.records hash) (s'.records hash) := by
  unfold Store.records
  rw [h.trees, h.inputs]
  refine (ExceptRel.expect (h.outputs hash) _).bind fun o o' ho => ?_
  refine ExceptRel.bind_same fun tree _ => ExceptRel.bind_same fun n _ => .ok ho

end Store.Alike

/-! ## Forkchoice -/

namespace Chain.Alike

variable {c : Chain σ τ} {c' : Chain σ' τ} (h : c.Alike R c')
include h

theorem numberOf (hash : Hash) : c.numberOf hash = c'.numberOf hash := by
  rw [Chain.numberOf, Chain.numberOf, h.blocks]

theorem isCanonical (hash : Hash) :
    c.isCanonical G hash = c'.isCanonical G hash := by
  unfold Chain.isCanonical
  rw [h.blocks, h.canonical]
  have hstore := h.store
  generalize c.store = s at hstore
  generalize c'.store = s' at hstore
  cases hstore with
  | none => rfl
  | some hs => simp only [hs.block, hs.canonical]

theorem reorgTo (head : Block) :
    (c.reorgTo G head).Alike R (c'.reorgTo G head) := by
  refine { h with canonical := ?_ }
  simp only [Chain.reorgTo, h.blocks, h.canonical]

theorem prune : c.prune.Alike R c'.prune := by
  have hfilter : ∀ (e : PayloadID × PendingPayload σ) (e' : PayloadID × PendingPayload σ'),
      PendingAlike R e e' → (decide (c.numberOf c.head < e.2.data.number) = true ↔
        decide (c'.numberOf c'.head < e'.2.data.number) = true) := by
    intro e e' he
    rw [h.head, h.numberOf, he.payload.data]
  refine { h with machines := fun hash => ?_, pending := ?_, ids := ?_ }
  · simp only [Chain.prune, h.head, h.safe, h.finalized, h.numberOf, h.cfg]
    split_ifs
    · exact h.machines hash
    · exact .none
  · exact List.rel_filter hfilter h.pending
  · exact h.ids.sublist ((List.filter_sublist ..).map _)

theorem recordForkchoice (rt : Runtime σ) (rt' : Runtime σ') (head : Block) :
    (c.recordForkchoice G M rt head).Alike R (c'.recordForkchoice G M' rt' head) := by
  refine { h with store := ?_ }
  have hstore := h.store
  unfold Chain.recordForkchoice
  simp only [h.head, h.safe, h.finalized, h.blocks]
  generalize c.store = s at hstore
  generalize c'.store = s' at hstore
  cases hstore with
  | none => exact .none
  | @some s s' hs =>
    refine .some ?_
    obtain ⟨dirs, hdirs⟩ := Chain.checkpointIfFinalized_eq (G := G) (M := M) (c := c) rt
      ((s.setCanonical G head c'.blocks).setHeads c'.head c'.safe c'.finalized)
    obtain ⟨dirs', hdirs'⟩ := Chain.checkpointIfFinalized_eq (G := G) (M := M') (c := c') rt'
      ((s'.setCanonical G head c'.blocks).setHeads c'.head c'.safe c'.finalized)
    simp only [hdirs, hdirs']
    exact ((hs.setCanonical head _).setHeads _ _ _).withDirs _ _

theorem forget (hashes : List Hash) :
    (c.forget hashes).Alike R (c'.forget hashes) := by
  refine { h with pool := ?_ }
  simp only [Chain.forget, h.pool]

theorem updateRef (hash : Hash) {put : Hash → Chain σ τ → Chain σ τ}
    {put' : Hash → Chain σ' τ → Chain σ' τ}
    (hput : ∀ {d d'}, Chain.Alike R d d' → (put hash d).Alike R (put' hash d')) :
    ResultRel (Chain.Alike R) Eq ((Chain.updateRef G hash put).run c)
      ((Chain.updateRef G hash put').run c') := by
  unfold Chain.updateRef
  rw [bind_ok (get_run c), bind_ok (get_run c'), h.isCanonical]
  split_ifs
  · exact .ok rfl h
  · exact .ok rfl (hput h)
  · exact .error _ h

/-! ## Building -/

theorem extendPasser (parent : Hash) {os os' : List TxOutputs}
    (hos : SameOutputs os os') (tree : OutputTree) :
    c.extendPasser G parent os tree = c'.extendPasser G parent os' tree := by
  simp only [Chain.extendPasser, h.passers, hos.extend]

theorem runBuild (hM : M.Agrees M' R) (parent : Block)
    (attrs : PayloadAttributes) (hm : R m m') :
    ExceptRel (fun r r' => r.1 = r'.1 ∧ r.2.1.Alike R r'.2.1 ∧ r.2.2 = r'.2.2)
      (c.runBuild G M parent attrs m) (c'.runBuild G M' parent attrs m') := by
  unfold Chain.runBuild
  rw [h.inputs, h.cfg, h.da, Chain.poolTxs, h.pool]
  refine (ExceptRel.expect (hM.forks hm) _).bind fun work work' hwork => ?_
  refine ExceptRel.bind_same fun first _ => ?_
  refine (applyBuild_alike hM hwork _ _ _).bind fun r r' hr => ?_
  exact .ok ⟨rfl, hr.1, hr.2⟩

theorem assemble (hM : M.Agrees M' R) (parent : Block)
    (attrs : PayloadAttributes) (first : ℕ) {e : ExecResult σ} {e' : ExecResult σ'}
    (he : e.Alike R e') :
    ExceptRel (PendingPayload.Alike R) (c.assemble G M parent attrs first e)
      (c'.assemble G M' parent attrs first e') := by
  unfold Chain.assemble
  rw [hM.rootHash he.trace.machine, h.cfg, h.trees, he.trace.outputs.outputLeaves, he.included,
    he.trace.gasUsed]
  refine ExceptRel.bind_same fun root _ => ExceptRel.bind_same fun extra _ => ?_
  refine ExceptRel.bind_same fun base _ => ExceptRel.bind_same fun tree _ => ?_
  rw [h.extendPasser _ he.trace.outputs]
  refine ExceptRel.bind_same fun passer _ => .ok ?_
  exact ⟨rfl, rfl, he.trace.machine, he.trace.outputs, rfl, rfl, rfl⟩

theorem addPending {id : PayloadID} (hid : id ∉ c.pending.map Prod.fst)
    {p : PendingPayload σ} {p' : PendingPayload σ'} (hp : p.Alike R p') :
    Chain.Alike R { c with pending := c.pending ++ [(id, p)] }
      { c' with pending := c'.pending ++ [(id, p')] } := by
  refine { h with pending := ?_, ids := ?_ }
  · exact List.rel_append h.pending (.cons ⟨rfl, hp⟩ .nil)
  · show ((c.pending ++ [(id, p)]).map Prod.fst).Nodup
    rw [List.map_append]
    refine List.nodup_append.2 ⟨h.ids, List.nodup_singleton _, ?_⟩
    rintro a ha b hb rfl
    rw [List.map_singleton, List.mem_singleton] at hb
    exact hid (by rwa [hb] at ha)

theorem any_pending (id : PayloadID) :
    (c.pending.any fun p => p.1 == id) = c'.pending.any fun p => p.1 == id := by
  have hany : ∀ {β : Type} (l : List (PayloadID × β)),
      (l.any fun p => p.1 == id) = (l.map Prod.fst).any fun i => i == id := by
    intro β l
    rw [List.any_map]
    rfl
  rw [hany, hany, pending_ids h.pending]

theorem buildPayload (hM : M.Agrees M' R) (parent : Block)
    (attrs : PayloadAttributes) :
    ResultRel (Chain.Alike R) Eq ((Chain.buildPayload G M parent attrs).run c)
      ((Chain.buildPayload G M' parent attrs).run c') := by
  unfold Chain.buildPayload
  rw [bind_ok (get_run c), bind_ok (get_run c')]
  refine ResultRel.check_bind (ExceptRel.expect (h.machines _) _) h fun m m' hm => ?_
  refine ResultRel.check_bind (ExceptRel.refl _) h fun id id' hid => ?_
  subst hid
  simp only [← h.any_pending]
  split_ifs with hany
  · exact .ok rfl h
  refine ResultRel.check_bind (h.runBuild hM parent attrs hm) h fun r r' hr => ?_
  obtain ⟨first, exec, dropped⟩ := r
  obtain ⟨first', exec', dropped'⟩ := r'
  obtain ⟨rfl, hexec, rfl⟩ := hr
  refine ResultRel.modify_bind ?_
  have hforget := h.forget dropped
  refine ResultRel.check_bind (h.assemble hM parent attrs first hexec) hforget fun p p' hp => ?_
  refine ResultRel.modify_bind (.ok rfl (hforget.addPending ?_ hp))
  intro hin
  obtain ⟨q, hq, heq⟩ := List.mem_map.1 hin
  exact hany (List.any_eq_true.2 ⟨q, hq, beq_iff_eq.2 heq⟩)

theorem forkchoiceUpdated (hM : M.Agrees M' R) (rt : Runtime σ)
    (rt' : Runtime σ') (fc : ForkchoiceState) (attrs : Option PayloadAttributes) :
    ResultRel (Chain.Alike R) Eq ((Chain.forkchoiceUpdated G M rt fc attrs).run c)
      ((Chain.forkchoiceUpdated G M' rt' fc attrs).run c') := by
  unfold Chain.forkchoiceUpdated
  rw [bind_ok (get_run c), bind_ok (get_run c'), ← h.blocks]
  cases c.blocks fc.headBlockHash with
  | none => exact .ok rfl h
  | some head =>
    refine ResultRel.modify_bind ?_
    refine ((h.reorgTo head).updateRef _ fun hd => { hd with safe := rfl }).bind
      fun _ _ c₁ c₁' _ h₁ => ?_
    refine (h₁.updateRef _ fun hd => { hd with finalized := rfl }).bind fun _ _ c₂ c₂' _ h₂ => ?_
    refine ResultRel.modify_bind ?_
    have hhead : Chain.Alike R { c₂ with head := head.hash G } { c₂' with head := head.hash G } :=
      { h₂ with head := rfl }
    have h₃ : ({ c₂ with head := head.hash G }.prune.recordForkchoice G M rt head).Alike R
        ({ c₂' with head := head.hash G }.prune.recordForkchoice G M' rt' head) :=
      hhead.prune.recordForkchoice rt rt' head
    cases attrs with
    | none => exact .ok rfl h₃
    | some attrs =>
      simp only
      split_ifs
      · exact .error _ h₃
      · refine ((h₃.buildPayload hM head attrs).rethrow .buildingPayload).bind
          fun id id' d d' hid hd => ?_
        subst hid
        exact .ok rfl hd

/-! ## Importing -/

theorem reexecute (hM : M.Agrees M' R) (header : Header) (data : ExecutableData)
    (parentHash : Hash) :
    ExceptRel (Executed.Alike R) (c.reexecute G M header data parentHash)
      (c'.reexecute G M' header data parentHash) := by
  unfold Chain.reexecute
  rw [h.inputs, h.cfg, h.trees]
  refine (ExceptRel.expect (h.machines _) _).bind fun m m' hm => ?_
  refine (ExceptRel.expect (hM.forks hm) _).bind fun work work' hwork => ?_
  refine ExceptRel.bind_same fun first _ => ?_
  refine ((replayImport_alike hM hwork _).mapError _).bind fun e e' he => ?_
  rw [hM.rootHash he.trace.machine, he.trace.gasUsed, he.trace.outputs.outputLeaves]
  refine ExceptRel.bind_same fun root _ => ExceptRel.bind_same fun _ _ => ?_
  refine ExceptRel.bind_same fun _ _ => ExceptRel.bind_same fun base _ => ?_
  refine ExceptRel.bind_same fun tree _ => ?_
  rw [h.extendPasser _ he.trace.outputs]
  refine ExceptRel.bind_same fun passer _ => ExceptRel.bind_same fun _ _ => .ok ?_
  exact ⟨rfl, he.trace.machine, he.trace.outputs, rfl, rfl, rfl⟩

omit h in
/-- The pending maps are ranged over in the same order of ids. -/
def SameOrder (rt : Runtime σ) (rt' : Runtime σ') (c : Chain σ τ) (c' : Chain σ' τ) : Prop :=
  (rt.order c.pending).map Prod.fst = (rt'.order c'.pending).map Prod.fst

/-- Lists with the entries of alike maps in the same order. -/
theorem order (ho : SameOrder rt rt' c c') :
    List.Forall₂ (PendingAlike R) (rt.order c.pending) (rt'.order c'.pending) := by
  have hkeys : List.Forall₂ (fun e e' => e.1 = e'.1) (rt.order c.pending) (rt'.order c'.pending) := by
    rw [← List.forall₂_map_right_iff, ← List.forall₂_map_left_iff, List.forall₂_eq_eq_eq]
    exact ho
  have hids' : (c'.pending.map Prod.fst).Nodup := pending_ids h.pending ▸ h.ids
  rw [List.forall₂_iff_zip] at hkeys ⊢
  refine ⟨hkeys.1, fun {e e'} hmem => ?_⟩
  have he : e ∈ c.pending := (rt.order_perm _).mem_iff.1 (List.of_mem_zip hmem).1
  have he' : e' ∈ c'.pending := (rt'.order_perm _).mem_iff.1 (List.of_mem_zip hmem).2
  -- the partner of `e` has the id of `e'`
  obtain ⟨q, hq, halike⟩ := pending_partner h.pending he
  obtain rfl := List.inj_on_of_nodup_map hids' hq he' (halike.id.symm.trans (hkeys.2 hmem))
  exact halike

omit h in
theorem find_pending (h : List.Forall₂ (PendingAlike R) l l') (hash : Hash) :
    Option.Rel (PendingAlike R) (l.find? fun p => p.2.data.blockHash == hash)
      (l'.find? fun p => p.2.data.blockHash == hash) := by
  induction h with
  | nil => exact .none
  | @cons e e' l l' he _ ih =>
    rw [List.find?_cons, List.find?_cons, he.payload.data]
    cases e'.2.data.blockHash == hash with
    | true => exact .some he
    | false => exact ih

theorem verify (hM : M.Agrees M' R) (ho : SameOrder rt rt' c c')
    (data : ExecutableData) (beaconRoot : Option Hash) :
    ExceptRel (fun r r' => r.1.Alike R r'.1 ∧ r.2 = r'.2) (c.verify G M rt data beaconRoot)
      (c'.verify G M' rt' data beaconRoot) := by
  unfold Chain.verify
  rw [h.blocks]
  refine ExceptRel.bind_same fun header _ => ExceptRel.bind_same fun _ _ => ?_
  refine ExceptRel.bind_same fun _ _ => ExceptRel.bind_same fun parent _ => ?_
  refine ExceptRel.bind_same fun _ _ => ExceptRel.bind_same fun _ _ => ?_
  have hfind := find_pending (h.order ho) (header.hash G)
  generalize (rt.order c.pending).find? _ = found at hfind
  generalize (rt'.order c'.pending).find? _ = found' at hfind
  cases hfind with
  | none => exact (h.reexecute hM header data _).bind fun x x' hx => .ok ⟨hx, rfl⟩
  | @some e e' he =>
    obtain ⟨hid, hp⟩ := he
    exact .ok ⟨⟨rfl, hp.machine, hp.outputs, hp.tree, hp.passer, hp.firstInput⟩, congrArg some hid⟩

theorem commit {x : Executed σ} {x' : Executed σ'} (hx : x.Alike R x') :
    (c.commit G x).Alike R (c'.commit G x') := by
  have hinputs : x.inputs = x'.inputs := by
    rw [Executed.inputs, Executed.inputs, hx.firstInput, hx.block]
  have hblock := hx.block
  refine { h with
    pool := ?_, blocks := ?_, machines := ?_, outputs := ?_, trees := ?_, passers := ?_, inputs := ?_
    txBlocks := ?_ }
  · simp only [Chain.commit, Chain.forget, h.pool, hblock]
  · simp only [Chain.commit, h.blocks, hblock]
  · simp only [Chain.commit, hblock]
    exact rel_update h.machines _ (.some hx.machine)
  · simp only [Chain.commit, hblock]
    exact rel_update h.outputs _ hx.outputs
  · simp only [Chain.commit, h.trees, hblock, hx.tree]
  · simp only [Chain.commit, h.passers, hblock, hx.passer]
  · simp only [Chain.commit, h.inputs, hblock, hinputs]
  · funext hash
    simp only [Chain.commit, h.txBlocks, hblock]
    rw [hx.outputs.indexed]

theorem persist (rt : Runtime σ) (rt' : Runtime σ') {x : Executed σ}
    {x' : Executed σ'} (hx : x.Alike R x') :
    (c.persist G M rt x).Alike R (c'.persist G M' rt' x') := by
  have hinputs : x.inputs = x'.inputs := by
    rw [Executed.inputs, Executed.inputs, hx.firstInput, hx.block]
  refine { h with store := ?_ }
  have hstore := h.store
  unfold Chain.persist
  simp only [hx.block, hx.tree, hinputs, h.cfg]
  generalize c.store = s at hstore
  generalize c'.store = s' at hstore
  cases hstore with
  | none => exact .none
  | @some s s' hs =>
    refine .some ?_
    have hput := hs.putBlock (G := G) x'.block hx.outputs x'.tree x'.inputs
    simp only
    generalize s.putBlock G x'.block x.outputs x'.tree x'.inputs = r at hput
    generalize s'.putBlock G x'.block x'.outputs x'.tree x'.inputs = r' at hput
    cases hput with
    | error e => exact hs
    | @ok t t' ht =>
      simp only
      split_ifs
      · exact ht
      · obtain ⟨dirs, hdirs⟩ := Chain.checkpoint_eq (G := G) (M := M) (c := c) rt t x'.block
        obtain ⟨dirs', hdirs'⟩ := Chain.checkpoint_eq (G := G) (M := M') (c := c') rt' t' x'.block
        rw [hdirs, hdirs']
        exact ht.withDirs _ _

theorem dropPending (adopted : Option PayloadID) :
    Chain.Alike R { c with pending := c.pending.filter fun p => some p.1 ≠ adopted }
      { c' with pending := c'.pending.filter fun p => some p.1 ≠ adopted } := by
  refine { h with pending := ?_, ids := ?_ }
  · refine List.rel_filter (fun e e' he => ?_) h.pending
    simp only [he.id]
  · exact h.ids.sublist ((List.filter_sublist ..).map _)

theorem importPayload (hM : M.Agrees M' R) (ho : SameOrder rt rt' c c')
    (data : ExecutableData) (beaconRoot : Option Hash) :
    ResultRel (Chain.Alike R) Eq ((Chain.importPayload G M rt data beaconRoot).run c)
      ((Chain.importPayload G M' rt' data beaconRoot).run c') := by
  rw [Chain.importPayload_run, Chain.importPayload_run]
  have hverify := h.verify hM ho data beaconRoot (G := G)
  generalize c.verify G M rt data beaconRoot = r at hverify
  generalize c'.verify G M' rt' data beaconRoot = r' at hverify
  cases hverify with
  | error e =>
    cases e with
    | ok status => exact .ok rfl h
    | error e => exact .error e h
  | @ok r r' hr =>
    obtain ⟨x, adopted⟩ := r
    obtain ⟨x', adopted'⟩ := r'
    obtain ⟨hx, rfl⟩ := hr
    refine .ok (by rw [hx.block]) ?_
    exact ((h.commit hx).persist rt rt' hx).dropPending adopted

/-! ## Output proofs -/

theorem below (b : Block) : c.below G b = c'.below G b := by
  unfold Chain.below
  rw [h.blocks]
  have hstore := h.store
  generalize c.store = s at hstore
  generalize c'.store = s' at hstore
  cases hstore with
  | none => rfl
  | some hs => simp only [hs.block]

theorem walk (height : ℕ) : ∀ b, c.walk G height b = c'.walk G height b := by
  induction height with
  | zero =>
    intro b
    rfl
  | succ height ih =>
    intro b
    rw [Chain.walk, Chain.walk, h.below]
    simp only [ih]

theorem outputsOf (b : Block) :
    ExceptRel SameOutputs (c.outputsOf G b) (c'.outputsOf G b) := by
  unfold Chain.outputsOf
  rw [h.blocks]
  by_cases hheld : (c'.blocks (b.hash G)).isSome = true
  · rw [if_pos hheld, if_pos hheld]
    exact .ok (h.outputs _)
  rw [if_neg hheld, if_neg hheld]
  have hstore := h.store
  generalize c.store = s at hstore
  generalize c'.store = s' at hstore
  cases hstore with
  | none => exact .ok (SameOutputs.refl [])
  | @some s s' hs =>
    have hrecords := hs.records (b.hash G)
    simp only
    generalize s.records (b.hash G) = r at hrecords
    generalize s'.records (b.hash G) = r' at hrecords
    cases hrecords with
    | ok hr => exact .ok hr
    | error e =>
      simp only
      split_ifs
      · exact .error _
      · exact .ok (SameOutputs.refl [])

theorem leavesThrough (b : Block) :
    c.leavesThrough G b = c'.leavesThrough G b := by
  have hemitted : ∀ b : Block, (c.outputsOf G b).map (b.emitted G) =
      (c'.outputsOf G b).map (b.emitted G) := by
    intro b
    have hout := h.outputsOf (G := G) b
    generalize c.outputsOf G b = r at hout
    generalize c'.outputsOf G b = r' at hout
    cases hout with
    | ok ho => exact congrArg Except.ok (ho.emitted b)
    | error e => rfl
  simp only [Chain.leavesThrough, h.walk, hemitted]

theorem outputProofAt (index : ℕ) (blockHash : Hash) :
    c.outputProofAt G index blockHash = c'.outputProofAt G index blockHash := by
  simp only [Chain.outputProofAt, h.blocks, h.leavesThrough, h.trees]

end Chain.Alike

/-! ## Runs -/

/-- A fresh chain, with an empty store attached or without one. -/
inductive Opens (G : Geth τ) (M : Machine σ) (cfg : Config) (m : σ) (pool : Option Pool) :
    Bool → Chain σ τ → Prop
  | inMemory {c : Chain σ τ} (h : new G M cfg m pool = .ok c) : Opens G M cfg m pool false c
  | stored {c c' : Chain σ τ} (h : new G M cfg m pool = .ok c)
      (h' : c.adopt G M Store.empty = .ok c') : Opens G M cfg m pool true c'

/-- Two nodes that take the same calls, and range over their pending maps in the same order. -/
inductive Twins (G : Geth τ) (M : Machine σ) (M' : Machine σ') (c₀ : Chain σ τ) (c₀' : Chain σ' τ) :
    Chain σ τ → Chain σ' τ → Prop
  | start : Twins G M M' c₀ c₀' c₀ c₀'
  | forkchoiceUpdated {c : Chain σ τ} {c' : Chain σ' τ} (h : Twins G M M' c₀ c₀' c c')
      (rt : Runtime σ) (rt' : Runtime σ') (fc : ForkchoiceState)
      (attrs : Option PayloadAttributes) :
      Twins G M M' c₀ c₀' ((Call.forkchoiceUpdated rt fc attrs).exec G M c)
        ((Call.forkchoiceUpdated rt' fc attrs).exec G M' c')
  | importPayload {c : Chain σ τ} {c' : Chain σ' τ} (h : Twins G M M' c₀ c₀' c c')
      (rt : Runtime σ) (rt' : Runtime σ') (data : ExecutableData) (beaconRoot : Option Hash)
      (ho : Chain.Alike.SameOrder rt rt' c c') :
      Twins G M M' c₀ c₀' ((Call.importPayload rt data beaconRoot).exec G M c)
        ((Call.importPayload rt' data beaconRoot).exec G M' c')
  | setMaxDASize {c : Chain σ τ} {c' : Chain σ' τ} (h : Twins G M M' c₀ c₀' c c')
      (limits : DALimits) :
      Twins G M M' c₀ c₀' (c.setMaxDASize limits) (c'.setMaxDASize limits)
  | queue {c : Chain σ τ} {c' : Chain σ' τ} (h : Twins G M M' c₀ c₀' c c') (pool : Pool) :
      Twins G M M' c₀ c₀' ((Call.queue pool).exec G M c) ((Call.queue pool).exec G M' c')

theorem genesis_alike (hM : M.Agrees M' R) (hm : R m m') (cfg : Config) :
    ExceptRel (Executed.Alike R) (genesis G M cfg m) (genesis G M' cfg m') := by
  unfold genesis
  rw [hM.rootHash hm]
  refine ExceptRel.bind_same fun root _ => ExceptRel.bind_same fun extra _ => .ok ?_
  exact ⟨rfl, hm, SameOutputs.refl [], rfl, rfl, rfl⟩

theorem new_alike (hM : M.Agrees M' R) (hm : R m m') (cfg : Config) (pool : Option Pool) :
    ExceptRel (Chain.Alike (τ := τ) R) (new G M cfg m pool) (new G M' cfg m' pool) := by
  refine ExceptRel.bind_same fun _ _ => (genesis_alike hM hm _).bind fun x x' hx => .ok ?_
  have hinputs : x.inputs = x'.inputs := by
    rw [Executed.inputs, Executed.inputs, hx.firstInput, hx.block]
  unfold singleton
  rw [hx.block, hx.tree, hx.passer, hinputs]
  exact ⟨rfl, rfl, rfl, rfl, rel_update (fun _ => .none) _ (.some hx.machine),
    rel_update (fun _ => SameOutputs.refl []) _ hx.outputs, rfl, rfl, rfl, rfl, .nil, List.nodup_nil,
    .none, rfl, rfl, rfl, rfl, rfl⟩

theorem Chain.Alike.adopt {c : Chain σ τ} {c' : Chain σ' τ} (h : c.Alike R c') :
    ExceptRel (Chain.Alike R) (c.adopt G M Store.empty) (c'.adopt G M' Store.empty) := by
  have hempty : Store.Alike (Store.empty : Store σ τ) (Store.empty : Store σ' τ) :=
    ⟨rfl, rfl, rfl, rfl, rfl, rfl, fun _ => .none, rfl, rfl⟩
  unfold Chain.adopt
  rw [h.blocks, h.genesisHash]
  refine ExceptRel.bind_same fun b _ => ?_
  refine (hempty.putBlock b (SameOutputs.refl []) _ _).bind fun s s' hs => .ok ?_
  refine { h with blocks := rfl, genesisHash := rfl, store := .some ?_ }
  obtain ⟨dirs, hdirs⟩ := Chain.checkpointGenesis_eq (G := G) (M := M) (c := c)
    (s.setCanonical G b c'.blocks)
  obtain ⟨dirs', hdirs'⟩ := Chain.checkpointGenesis_eq (G := G) (M := M') (c := c')
    (s'.setCanonical G b c'.blocks)
  rw [hdirs, hdirs']
  exact (hs.setCanonical b _).withDirs _ _

theorem Opens.alike (hM : M.Agrees M' R) {cfg : Config} (hm : R m m') {pool : Option Pool}
    {stored : Bool} {c : Chain σ τ} (h : Opens G M cfg m pool stored c) :
    ∃ c', Opens G M' cfg m' pool stored c' ∧ c.Alike R c' := by
  cases h with
  | inMemory h =>
    obtain ⟨c', hc', halike⟩ := (new_alike hM hm cfg pool).of_ok h
    exact ⟨c', .inMemory hc', halike⟩
  | stored h h' =>
    obtain ⟨d, hd, halike⟩ := (new_alike hM hm cfg pool).of_ok h
    obtain ⟨c', hc', halike'⟩ := halike.adopt.of_ok h'
    exact ⟨c', .stored hd hc', halike'⟩

section Twins

variable {c₀ c : Chain σ τ} {c₀' c' : Chain σ' τ} (hM : M.Agrees M' R) (h₀ : c₀.Alike R c₀')

include hM h₀

theorem Twins.alike (h : Twins G M M' c₀ c₀' c c') : c.Alike R c' := by
  induction h with
  | start => exact h₀
  | forkchoiceUpdated _ rt rt' fc attrs ih => exact (ih.forkchoiceUpdated hM rt rt' fc attrs).endState
  | importPayload _ rt rt' data beaconRoot ho ih =>
    exact (ih.importPayload hM ho data beaconRoot).endState
  | setMaxDASize _ limits ih => exact { ih with da := rfl }
  | queue _ pool ih =>
    refine { ih with pool := ?_ }
    simp only [Call.exec, ih.pool]

/-- Whatever order the first node ranges over its map in, the second one may as well. -/
theorem Twins.exists_order (h : Twins G M M' c₀ c₀' c c') (rt : Runtime σ) :
    ∃ rt' : Runtime σ', Chain.Alike.SameOrder rt rt' c c' := by
  classical
  obtain ⟨l, hl, hperm⟩ := List.perm_comp_forall₂ (rt.order_perm c.pending)
    (h.alike hM h₀).pending
  refine ⟨{ stableSort with
    order := fun l' => if l' = c'.pending then l else l'
    order_perm := fun l' => ?_ }, ?_⟩
  · split_ifs with heq
    · rw [heq]
      exact hperm
    · exact List.Perm.refl l'
  · show _ = List.map Prod.fst (if c'.pending = c'.pending then l else c'.pending)
    rw [if_pos rfl]
    exact pending_ids hl

theorem Reach.twin (h : Reach G M (fun _ => True) c₀ c) : ∃ c', Twins G M M' c₀ c₀' c c' := by
  induction h with
  | start => exact ⟨c₀', .start⟩
  | call _ k _ ih =>
    obtain ⟨c', htwins⟩ := ih
    cases k with
    | forkchoiceUpdated rt fc attrs =>
      obtain ⟨rt', -⟩ := htwins.exists_order hM h₀ rt
      exact ⟨_, htwins.forkchoiceUpdated rt rt' fc attrs⟩
    | importPayload rt data beaconRoot =>
      obtain ⟨rt', ho⟩ := htwins.exists_order hM h₀ rt
      exact ⟨_, htwins.importPayload rt rt' data beaconRoot ho⟩
    | setMaxDASize limits => exact ⟨_, htwins.setMaxDASize limits⟩
    | queue pool => exact ⟨_, htwins.queue pool⟩

end Twins

/-- What two nodes with the same commitments share: the blocks with their headers, the payloads they
    have built, output trees, withdrawal commitments and output proofs. -/
structure Chain.SameCommitments (G : Geth τ) (c : Chain σ τ) (c' : Chain σ' τ) : Prop where
  blocks : c.blocks = c'.blocks
  payloads : c.pending.map (fun p => (p.1, p.2.data)) = c'.pending.map fun p => (p.1, p.2.data)
  trees : c.trees = c'.trees
  passers : c.passers = c'.passers
  proofs : ∀ index blockHash, c.outputProofAt G index blockHash = c'.outputProofAt G index blockHash

theorem Chain.Alike.sameCommitments {c : Chain σ τ} {c' : Chain σ' τ} (h : c.Alike R c') :
    c.SameCommitments G c' := by
  refine ⟨h.blocks, ?_, h.trees, h.passers, h.outputProofAt⟩
  have hpending := h.pending
  generalize c.pending = l at hpending
  generalize c'.pending = l' at hpending
  induction hpending with
  | nil => rfl
  | cons he _ ih => rw [List.map_cons, List.map_cons, ih, he.id, he.payload.data]

/-- Reports reach no commitment. Let two machines agree on everything but what they report, and open
    a chain over each. Every run of the first chain has a twin: the other chain takes the same calls,
    and ranges over its pending map in the same order. Twins have the same blocks, payloads, output
    trees, withdrawal commitments and output proofs, and answer every further call alike. -/
theorem reports_uncommitted (hM : M.Agrees M' R) {cfg : Config} {m : σ} {m' : σ'} (hm : R m m')
    {pool : Option Pool} {stored : Bool} {c₀ : Chain σ τ} (h₀ : Opens G M cfg m pool stored c₀) :
    ∃ c₀', Opens G M' cfg m' pool stored c₀' ∧
      (∀ c, Reach G M (fun _ => True) c₀ c → ∃ c', Twins G M M' c₀ c₀' c c') ∧
      ∀ c c', Twins G M M' c₀ c₀' c c' → c.SameCommitments G c' ∧
        (∀ rt rt' fc attrs, answer ((Chain.forkchoiceUpdated G M rt fc attrs).run c) =
          answer ((Chain.forkchoiceUpdated G M' rt' fc attrs).run c')) ∧
        ∀ rt rt' data beaconRoot, Chain.Alike.SameOrder rt rt' c c' →
          answer ((Chain.importPayload G M rt data beaconRoot).run c) =
            answer ((Chain.importPayload G M' rt' data beaconRoot).run c') := by
  obtain ⟨c₀', hopens, halike⟩ := h₀.alike hM hm
  refine ⟨c₀', hopens, fun c hreach => hreach.twin hM halike, fun c c' htwins => ?_⟩
  have h := htwins.alike hM halike
  exact ⟨h.sameCommitments, fun rt rt' fc attrs => (h.forkchoiceUpdated hM rt rt' fc attrs).answer,
    fun rt rt' data beaconRoot ho => (h.importPayload hM ho data beaconRoot).answer⟩

namespace Sample

/-- The machine that echoes its inputs, and reports them as well. -/
def chatty : Machine ℕ :=
  { machine with
    advanceInput := fun s input _ => some (⟨true, 1000, [⟨4, input⟩, ⟨2, input⟩]⟩, s + 1) }

theorem machine_agrees_chatty : machine.Agrees chatty Eq where
  advanceInput := by
    rintro s _ rfl input maxCycles
    exact .some ⟨⟨rfl, rfl, rfl⟩, rfl⟩
  rootHash := by
    rintro s _ rfl
    rfl
  fork := by
    rintro s _ rfl
    rfl

/-- A block with one transaction, and the call that imports it. -/
def echoed : ExecutableData :=
  executableData geth (child geth (genesisBlock geth).block.header 1 (hashOf 1) [[5]]) [[5]]

def importEchoed : Call ℕ := .importPayload runtime echoed none

end Sample

open Sample in
/-- The two nodes have recorded different reports of the block, and the same block. -/
theorem reports_uncommitted_sample :
    let c := importEchoed.exec geth machine (start geth none)
    let c' := importEchoed.exec geth chatty (start geth none)
    (c.blocks echoed.blockHash).isSome = true ∧
      (c.outputs echoed.blockHash).map TxOutputs.reports = [[]] ∧
      ((c'.outputs echoed.blockHash).map fun o => o.reports.length) = [1] ∧
      c.SameCommitments geth c' := by
  intro c c'
  obtain ⟨c₀', hopens, -, htwins⟩ := reports_uncommitted machine_agrees_chatty rfl
    (.inMemory (new_start geth none))
  have hstart : c₀' = start geth none := by
    cases hopens with
    | inMemory h => exact (Except.ok.inj h).symm
  subst hstart
  have hrun : Twins geth machine chatty (start geth none) (start geth none) c c' :=
    Twins.start.importPayload runtime runtime echoed none rfl
  exact ⟨by decide +kernel, by decide +kernel, by decide +kernel, (htwins c c' hrun).1⟩

end OpCartesi.Node
