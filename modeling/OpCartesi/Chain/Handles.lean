import OpCartesi.Chain.Steps
import OpCartesi.Common.Handles

/-!
# Machine handles

A machine is a process of the emulator, which `Fork` starts and `Close` stops. The calls of a chain
without a store, with every handle they open, use and close (`chain.go:285-699`). What an emulator
answers may change from one request to the next, so that any request may fail at any time.

* `World`: a chain of handles, the log of what was done with them, and the states they stand for.
* `fork`, `advanceInput`, `rootHash`, `close`: the requests.
* `depositLoop`, `poolLoop`, `replayLoop`, `buildPayload`, `importPayload`, `prune`,
  `forkchoiceUpdated`: the code, with its early returns.
* `Runs`: the worlds that calls lead to.
-/

namespace OpCartesi.Node.Handles

open Drive Exec OpCartesi.Handles

/-- A handle of the emulator. -/
abbrev Handle := ℕ

/-- A chain whose machines are handles. -/
structure World (σ τ : Type) where
  chain : Chain Handle τ
  /-- The keys of the machines map. -/
  held : List Hash
  log : List (Event Handle)
  /-- The machine states the handles stand for. -/
  state : Handle → σ

/-- The order in which the two maps are ranged over. -/
structure Ranges where
  machines : List Hash → List Hash
  machines_perm : ∀ l, (machines l).Perm l
  pending : List (PayloadID × PendingPayload Handle) → List (PayloadID × PendingPayload Handle)
  pending_perm : ∀ l, (pending l).Perm l

abbrev HandleM (ε σ τ : Type) := EStateM ε (World σ τ)

variable {ε σ τ α : Type}

/-! ## Requests (`machine.go:93-131`) -/

section Requests

-- how the emulator answers depends on all that happened before
variable (E : List (Event Handle) → Machine σ)

/-- `Close`. -/
def close (h : Handle) : HandleM ε σ τ Unit :=
  modify fun w => { w with log := w.log ++ [.closes h] }

/-- `Fork`. -/
def fork (h : Handle) : HandleM ε σ τ (Option Handle) := fun w =>
  match (E w.log).fork (w.state h) with
  | none => .ok none { w with log := w.log ++ [.uses h] }
  | some s =>
    .ok (some w.log.length) { w with
      log := w.log ++ [.uses h] ++ [.opens w.log.length]
      state := Function.update w.state w.log.length s }

/-- `AdvanceInput`. -/
def advanceInput (h : Handle) (input : Bytes) (maxCycles : ℕ) :
    HandleM ε σ τ (Option AdvanceResult) := fun w =>
  match (E w.log).advanceInput (w.state h) input maxCycles with
  | none => .ok none { w with log := w.log ++ [.uses h] }
  | some (res, next) =>
    .ok (some res) { w with
      log := w.log ++ [.uses h]
      state := Function.update w.state h next }

/-- `RootHash`. -/
def rootHash (h : Handle) : HandleM ε σ τ (Option Hash) := fun w =>
  .ok ((E w.log).rootHash (w.state h)) { w with log := w.log ++ [.uses h] }

variable {E} {w : World σ τ} {h : Handle}

theorem fork_none (hf : (E w.log).fork (w.state h) = none) :
    (fork E h : HandleM ε σ τ (Option Handle)).run w =
      .ok none { w with log := w.log ++ [.uses h] } := by
  simp only [fork, EStateM.run, hf]

theorem fork_some {s : σ} (hf : (E w.log).fork (w.state h) = some s) :
    (fork E h : HandleM ε σ τ (Option Handle)).run w = .ok (some w.log.length) { w with
      log := w.log ++ [.uses h] ++ [.opens w.log.length]
      state := Function.update w.state w.log.length s } := by
  simp only [fork, EStateM.run, hf]

theorem advanceInput_none {input : Bytes} {maxCycles : ℕ}
    (ha : (E w.log).advanceInput (w.state h) input maxCycles = none) :
    (advanceInput E h input maxCycles : HandleM ε σ τ (Option AdvanceResult)).run w =
      .ok none { w with log := w.log ++ [.uses h] } := by
  simp only [advanceInput, EStateM.run, ha]

theorem advanceInput_some {input : Bytes} {maxCycles : ℕ} {res : AdvanceResult} {next : σ}
    (ha : (E w.log).advanceInput (w.state h) input maxCycles = some (res, next)) :
    (advanceInput E h input maxCycles : HandleM ε σ τ (Option AdvanceResult)).run w =
      .ok (some res) { w with
        log := w.log ++ [.uses h]
        state := Function.update w.state h next } := by
  simp only [advanceInput, EStateM.run, ha]

end Requests

/-- An early return that closes a machine first. -/
def orClose (h : Handle) (x : Except ε α) : HandleM ε σ τ α :=
  match x with
  | .ok a => pure a
  | .error e => do
    close h
    throw e

def closeAll : List Handle → HandleM ε σ τ Unit
  | [] => pure ()
  | h :: hs => do
    close h
    closeAll hs

/-- Running on the chain alone. -/
def onChain (x : EStateM ε (Chain Handle τ) α) : HandleM ε σ τ α :=
  zoom World.chain (fun c w => { w with chain := c }) id x

variable (G : Geth τ) (E : List (Event Handle) → Machine σ)

/-! ## The two loops (`chain.go:429-546`) -/

section Loops

variable (cfg : Config) (ic : InputContext)

/-- The candidate an input runs on (`chain.go:451-454`). -/
def candidate (cur : Handle) : HandleM ChainError σ τ Handle := do
  match ← fork E cur with
  | some cand => pure cand
  | none => do
    close cur
    throw .forkFailed

/-- The deposit loop of `applyBuild` (`chain.go:446-467`). -/
def depositLoop : ExecResult Handle → List Bytes → HandleM ChainError σ τ (ExecResult Handle)
  | out, [] => pure out
  | out, tx :: txs => do
    let envelope ← orClose out.machine (ic.encodeInput G out.included.length tx)
    let cand ← candidate E out.machine
    match ← advanceInput E cand envelope cfg.maxCyclesPerInput with
    | none => do
      close cand
      close out.machine
      throw .depositFailed
    | some res => do
      close (if res.accepted then out.machine else cand)
      depositLoop (out.record G tx res cand) txs

/-- The pool loop of `applyBuild` (`chain.go:475-504`). -/
def poolLoop (da : DALimits) (gasLimit : ℕ) : ExecResult Handle → ℕ → List Hash → List Bytes →
    HandleM ChainError σ τ (ExecResult Handle × List Hash)
  | out, _, dropped, [] => pure (out, dropped)
  | out, daUsed, dropped, tx :: txs =>
    if gasLimit ≤ out.gasUsed then pure (out, dropped)
    else if da.admits daUsed tx.length = false then poolLoop da gasLimit out daUsed dropped txs
    else do
      let envelope ← orClose out.machine (ic.encodeInput G out.included.length tx)
      let cand ← candidate E out.machine
      match ← advanceInput E cand envelope cfg.maxCyclesPerInput with
      | none => do
        close cand
        poolLoop da gasLimit out daUsed (dropped ++ (txHash G tx).toList) txs
      | some res =>
        if res.accepted then do
          close out.machine
          poolLoop da gasLimit (out.record G tx res cand) (daUsed + tx.length) dropped txs
        else do
          close cand
          poolLoop da gasLimit out daUsed (dropped ++ (txHash G tx).toList) txs

/-- `applyBuild` (`chain.go:434-510`), with the hashes it makes the pool forget. -/
def applyBuild (da : DALimits) (work : Handle) (deposits poolTxs : List Bytes) (gasLimit : ℕ) :
    HandleM ChainError σ τ (ExecResult Handle × List Hash) := do
  let out ← depositLoop G E cfg ic ⟨⟨0, [], work⟩, []⟩ deposits
  poolLoop G E cfg ic da gasLimit out (out.included.map List.length).sum [] poolTxs

/-- The loop of `replayImport` (`chain.go:519-543`). -/
def replayLoop : ℕ → Trace Handle → List Bytes → HandleM ChainError σ τ (Trace Handle)
  | _, out, [] => pure out
  | i, out, tx :: txs => do
    let envelope ← orClose out.machine (ic.encodeInput G i tx)
    let cand ← candidate E out.machine
    match ← advanceInput E cand envelope cfg.maxCyclesPerInput with
    | none => do
      close cand
      replayLoop (i + 1) out txs
    | some res => do
      close (if res.accepted then out.machine else cand)
      replayLoop (i + 1) (out.record G i tx res cand) txs

end Loops

/-! ## Building (`chain.go:328-399`) -/

/-- `buildPayload` after the fork of the parent's machine (`chain.go:354-398`). A full output tree
    panics, which closes nothing. -/
def buildOn (parent : Block) (attrs : PayloadAttributes) (id : PayloadID) (work : Handle) :
    HandleM ChainError σ τ PayloadID := do
  let c := (← get).chain
  let firstInput ← orClose work
    (expect (c.inputs (parent.hash G)) (.noInputCounter (parent.hash G)))
  let gasLimit := Chain.gasLimitFor parent attrs
  let ic := c.cfg.inputContextFor parent.header attrs.timestamp attrs.random firstInput
  let (exec, dropped) ← applyBuild G E c.cfg ic c.da work attrs.transactions (c.poolTxs attrs)
    gasLimit
  modify fun w => { w with chain := w.chain.forget dropped }
  let root ← rootHash E exec.machine
  let root ← orClose exec.machine (expect root .rootHashFailed)
  let extra ← orClose exec.machine (c.cfg.extraData attrs.eip1559Params)
  let base ← orClose exec.machine
    (expect (c.trees (parent.hash G)) (.noAccumulator (parent.hash G)))
  let tree ← check (expect (base.append G (outputLeaves G exec.outputs)) .panicked)
  let passer ← orClose exec.machine (c.extendPasser G (parent.hash G) exec.outputs tree)
  let header := buildHeader G parent.header attrs root exec.included (min exec.gasUsed gasLimit)
    gasLimit c.cfg.baseFee extra (passer.root G)
  let p : PendingPayload Handle := ⟨executableData G header exec.included, header.parentBeaconRoot,
    exec.machine, exec.outputs, tree, passer, firstInput⟩
  modify fun w => { w with chain := { w.chain with pending := w.chain.pending ++ [(id, p)] } }
  pure id

/-- `buildPayload` (`chain.go:328-399`). -/
def buildPayload (parent : Block) (attrs : PayloadAttributes) : HandleM ChainError σ τ PayloadID := do
  let c := (← get).chain
  let parentMachine ← check (expect (c.machines (parent.hash G))
    (.unknownParentState (parent.hash G)))
  let id ← check (Chain.payloadID G (parent.hash G) attrs)
  if c.pending.any fun p => p.1 == id then pure id
  else
    match ← fork E parentMachine with
    | none => throw .forkFailed
    | some work => buildOn G E parent attrs id work

/-! ## Forkchoice (`chain.go:205-312`) -/

/-- What `prune` keeps the machine of. -/
def retained (c : Chain Handle τ) (h : Hash) : Bool :=
  decide (h = c.head ∨ h = c.safe ∨ h = c.finalized ∨
    c.numberOf c.head - c.cfg.maxSnapshots.toNat ≤ c.numberOf h)

/-- A pending payload that can no longer become the next block. -/
def stale (c : Chain Handle τ) (p : PayloadID × PendingPayload Handle) : Bool :=
  decide (p.2.data.number ≤ c.numberOf c.head)

/-- `prune` (`chain.go:285-312`). -/
def prune (rg : Ranges) : HandleM ε σ τ Unit := do
  let w ← get
  let c := w.chain
  closeAll (((rg.machines w.held).filter fun h => !retained c h).filterMap c.machines)
  closeAll (((rg.pending c.pending).filter (stale c)).map fun p => p.2.machine)
  modify fun w => { w with chain := w.chain.prune, held := w.held.filter (retained c) }

/-- `ForkchoiceUpdated` (`chain.go:208-257`). -/
def forkchoiceUpdated (rg : Ranges) (fc : ForkchoiceState) (attrs : Option PayloadAttributes) :
    HandleM ChainError σ τ ForkChoiceResponse := do
  let c := (← get).chain
  match c.blocks fc.headBlockHash with
  | none => pure .syncing
  | some head => do
    onChain (modify fun c => c.reorgTo G head)
    onChain (Chain.updateRef G fc.safeBlockHash fun h c => { c with safe := h })
    onChain (Chain.updateRef G fc.finalizedBlockHash fun h c => { c with finalized := h })
    onChain (modify fun c => { c with head := head.hash G })
    prune rg
    match attrs with
    | none => pure (.valid (head.hash G) none)
    | some attrs =>
      if attrs.timestamp ≤ head.time then throw .invalidPayloadAttributes
      else do
        let id ← tryCatch (buildPayload G E head attrs) fun e => throw (.buildingPayload e)
        pure (.valid (head.hash G) (some id))

/-! ## Importing (`chain.go:569-691`) -/

/-- Re-executing a payload after the fork of its parent's machine (`chain.go:618-662`). -/
def replayOn (header : Header) (data : ExecutableData) (parentHash : Hash) (work : Handle) :
    HandleM (Except ChainError PayloadStatus) σ τ (Executed Handle) := do
  let c := (← get).chain
  let firstInput ← orClose work (expect (c.inputs data.parentHash) (.ok .syncing))
  let exec ← zoom id (fun w _ => w) .error (replayLoop G E c.cfg
    (c.cfg.inputContextOf header firstInput) 0 ⟨0, [], work⟩ data.transactions)
  let root ← rootHash E exec.machine
  let root ← orClose exec.machine (expect root (.error .rootHashFailed))
  orClose exec.machine (require (root = data.stateRoot)
    (.ok (.invalid (some parentHash) (.stateRootMismatch root data.stateRoot))))
  orClose exec.machine (require (min exec.gasUsed data.gasLimit = data.gasUsed)
    (.ok (.invalid (some parentHash)
      (.gasUsedMismatch (min exec.gasUsed data.gasLimit) data.gasUsed))))
  let base ← orClose exec.machine (expect (c.trees data.parentHash) (.ok .syncing))
  let tree ← check (expect (base.append G (outputLeaves G exec.outputs)) (.error .panicked))
  let passer ← orClose exec.machine
    ((c.extendPasser G data.parentHash exec.outputs tree).mapError fun _ => .ok .syncing)
  orClose exec.machine (require (some (passer.root G) = data.withdrawalsRoot)
    (.ok (.invalid (some parentHash)
      (.withdrawalsRootMismatch (passer.root G) data.withdrawalsRoot))))
  pure ⟨⟨header, data.transactions⟩, exec.machine, exec.outputs, tree, passer, firstInput⟩

/-- Re-executing a payload on its parent (`chain.go:609-662`). -/
def reexecute (header : Header) (data : ExecutableData) (parentHash : Hash) :
    HandleM (Except ChainError PayloadStatus) σ τ (Executed Handle) := do
  let c := (← get).chain
  let parentMachine ← check (expect (c.machines data.parentHash) (.ok .syncing))
  match ← fork E parentMachine with
  | none => throw (.error .forkFailed)
  | some work => replayOn G E header data parentHash work

/-- The checks of `ImportPayload` before it needs a machine (`chain.go:573-599`): the header and the
    parent's hash. -/
def admitPayload (c : Chain Handle τ) (data : ExecutableData) (beaconRoot : Option Hash) :
    Except (Except ChainError PayloadStatus) (Header × Hash) := do
  let header ← (headerFromPayload G data beaconRoot).mapError fun e =>
    .ok (.invalid none (.payload e))
  require (header.hash G = data.blockHash)
    (.ok (.invalid none (.blockHashMismatch (header.hash G) data.blockHash)))
  require (c.blocks (header.hash G) = none) (.ok (.valid (header.hash G)))
  let parent ← expect (c.blocks data.parentHash) (.ok .syncing)
  require (data.number = parent.number + 1)
    (.ok (.invalid (some (parent.hash G)) .notParentNumberPlusOne))
  require (parent.time < data.timestamp)
    (.ok (.invalid (some (parent.hash G)) .timestampNotAfterParent))
  pure (header, parent.hash G)

/-- `commit` (`chain.go:670-691`), of a block that adopts a pending payload or of none. -/
def commit (x : Executed Handle) (adopted : Option PayloadID) (w : World σ τ) : World σ τ :=
  let c := w.chain.commit G x
  { w with
    chain := { c with pending := c.pending.filter fun p => some p.1 ≠ adopted }
    held := List.insert (x.block.hash G) w.held }

/-- `ImportPayload` up to its commit: an early return is an exception here. -/
def verify (rg : Ranges) (data : ExecutableData) (beaconRoot : Option Hash) :
    HandleM (Except ChainError PayloadStatus) σ τ (Executed Handle × Option PayloadID) := do
  let c := (← get).chain
  let (header, parentHash) ← check (admitPayload G c data beaconRoot)
  match (rg.pending c.pending).find? fun p => p.2.data.blockHash == header.hash G with
  | some (id, p) =>
    pure (⟨⟨header, data.transactions⟩, p.machine, p.outputs, p.tree, p.passer, p.firstInput⟩,
      some id)
  | none => do
    let x ← reexecute G E header data parentHash
    pure (x, none)

/-- `ImportPayload` (`chain.go:572-665`). -/
def importPayload (rg : Ranges) (data : ExecutableData) (beaconRoot : Option Hash) :
    HandleM ChainError σ τ PayloadStatus := fun w =>
  match (verify G E rg data beaconRoot).run w with
  | .error (.ok status) w' => .ok status w'
  | .error (.error e) w' => .error e w'
  | .ok (x, adopted) w' => .ok (.valid (x.block.hash G)) (commit G x adopted w')

section

variable {G E} {rg : Ranges} {data : ExecutableData} {beaconRoot : Option Hash} {w w' : World σ τ}

theorem importPayload_commits {r : Executed Handle × Option PayloadID}
    (h : (verify G E rg data beaconRoot).run w = .ok r w') :
    (importPayload G E rg data beaconRoot).run w =
      .ok (.valid (r.1.block.hash G)) (commit G r.1 r.2 w') := by
  show importPayload G E rg data beaconRoot w = _
  rw [importPayload, h]

theorem importPayload_answers {status : PayloadStatus}
    (h : (verify G E rg data beaconRoot).run w = .error (.ok status) w') :
    (importPayload G E rg data beaconRoot).run w = .ok status w' := by
  show importPayload G E rg data beaconRoot w = _
  rw [importPayload, h]

theorem importPayload_fails {e : ChainError}
    (h : (verify G E rg data beaconRoot).run w = .error (.error e) w') :
    (importPayload G E rg data beaconRoot).run w = .error e w' := by
  show importPayload G E rg data beaconRoot w = _
  rw [importPayload, h]

end

/-! ## Runs -/

/-- The part of the emulator that `New` asks. -/
def genesisMachine (state : Handle → σ) : Machine Handle where
  advanceInput _ _ _ := none
  rootHash h := (E [.opens h]).rootHash (state h)
  fork _ := none
  store _ := none
  fork_eq h := by cases h

/-- The call panicked. -/
def Panicked (r : EStateM.Result ChainError (World σ τ) α) : Prop :=
  answer r = .error .panicked ∨ answer r = .error (.buildingPayload .panicked)

/-- The worlds that calls lead to, from a fresh chain without a store that owns the machine it was
    given. A call ends when it returns, with an error or without. In between the pool and the
    batcher's limits may change in any way. -/
inductive Runs : World σ τ → Prop
  | fresh {cfg : Config} {pool : Option Pool} {c : Chain Handle τ} (state : Handle → σ)
      (hnew : new G (genesisMachine E state) cfg 0 pool = .ok c) :
      Runs ⟨c, [c.genesisHash], [.opens 0, .uses 0], state⟩
  | forkchoice {w : World σ τ} (h : Runs w) (rg : Ranges) (fc : ForkchoiceState)
      (attrs : Option PayloadAttributes)
      (hend : ¬Panicked ((forkchoiceUpdated G E rg fc attrs).run w)) :
      Runs (endState ((forkchoiceUpdated G E rg fc attrs).run w))
  | imported {w : World σ τ} (h : Runs w) (rg : Ranges) (data : ExecutableData)
      (beaconRoot : Option Hash) (hend : ¬Panicked ((importPayload G E rg data beaconRoot).run w)) :
      Runs (endState ((importPayload G E rg data beaconRoot).run w))
  | elsewhere {w : World σ τ} (h : Runs w) (pool : Option Pool) (da : DALimits) :
      Runs { w with chain := { w.chain with pool := pool, da := da } }

end OpCartesi.Node.Handles
