import OpCartesi.Chain.State

/-!
# What the calls do

One lemma for each call that says everything the call can do to the state, so that no later proof
unfolds it.

* `verify_eq_ok`, `reexecute_eq_ok`: when an import commits, and what.
* `buildPayload_cases`: a build changes nothing, or the pool, or adds one payload to `pending`.
* `forkchoice_cases`: everything a forkchoice call can do.
* `Trims`: a change that adds no block and no payload. `Call`, `Call.exec`: the calls a run is made of.
  `Call.step`: a call trims the chain, and then builds or commits at most once.
* `Fresh`, `Reach`: where runs start, and the states of the runs whose calls meet a condition.
* `Sample`: a machine that counts, for concrete runs.
-/

namespace OpCartesi.Node

open Exec

variable {σ τ : Type} {G : Geth τ} {M : Machine σ} {rt : Runtime σ} {c c' : Chain σ τ}
  {cfg : Config} {m : σ}

namespace Chain

/-! ## Importing -/

/-- What a re-execution that succeeded found. -/
structure Reexecuted (G : Geth τ) (M : Machine σ) (c : Chain σ τ) (header : Header)
    (data : ExecutableData) (y : Executed σ) : Prop where
  block_eq : y.block = ⟨header, data.transactions⟩
  ran : ∃ m work gas, c.machines data.parentHash = some m ∧ M.fork m = some work ∧
    replayImport G M c.cfg (c.cfg.inputContextOf header y.firstInput) work data.transactions =
      .ok ⟨⟨gas, y.outputs, y.machine⟩, data.transactions⟩ ∧
    min gas data.gasLimit = data.gasUsed
  inputs_eq : c.inputs data.parentHash = some y.firstInput
  root_eq : M.rootHash y.machine = some data.stateRoot
  tree_eq : ∃ base, c.trees data.parentHash = some base ∧
    base.append G (outputLeaves G y.outputs) = some y.tree
  passer_eq : ∃ base, c.passers data.parentHash = some base ∧
    y.passer = base.extend G y.outputs y.tree
  withdrawals_eq : some (y.passer.root G) = data.withdrawalsRoot

theorem extendPasser_eq_ok {parent : Hash} {outputs : List TxOutputs} {tree : OutputTree}
    {p : PasserTrie} : c.extendPasser G parent outputs tree = .ok p ↔
      ∃ base, c.passers parent = some base ∧ p = base.extend G outputs tree := by
  unfold extendPasser
  simp only [except_bind_eq_ok, expect_eq_ok, pure, Except.pure, Except.ok.injEq, eq_comm (b := p)]

theorem reexecute_eq_ok {header : Header} {data : ExecutableData} {parentHash : Hash}
    {y : Executed σ} : c.reexecute G M header data parentHash = .ok y ↔
      c.Reexecuted G M header data y := by
  unfold reexecute
  simp only [except_bind_eq_ok, expect_eq_ok, require_eq_ok, mapError_eq_ok, extendPasser_eq_ok,
    exists_const, pure, Except.pure, Except.ok.injEq]
  constructor
  · rintro ⟨m, hm, work, hwork, first, hfirst, exec, hexec, root, hroot, rfl, hgas, base, hbase, tree,
      htree, passer, ⟨pbase, hpbase, rfl⟩, hwith, rfl⟩
    have hincluded : exec.included = data.transactions := (replayImport_eq_ok.1 hexec).2
    refine ⟨rfl, ⟨m, work, exec.gasUsed, hm, hwork, ?_, hgas⟩, hfirst, hroot, ⟨base, hbase, htree⟩,
      ⟨pbase, hpbase, rfl⟩, hwith⟩
    rw [hexec, ← hincluded]
  · rintro ⟨hblock, ⟨m, work, gas, hm, hwork, hexec, hgas⟩, hfirst, hroot, ⟨base, hbase, htree⟩,
      ⟨pbase, hpbase, hpasser⟩, hwith⟩
    refine ⟨m, hm, work, hwork, y.firstInput, hfirst, _, hexec, _, hroot, rfl, hgas, base, hbase,
      y.tree, htree, y.passer, ⟨pbase, hpbase, hpasser⟩, hwith, ?_⟩
    rw [← hblock]

/-- The checks an import makes before it adopts or re-executes a payload. -/
structure Admissible (G : Geth τ) (c : Chain σ τ) (data : ExecutableData)
    (beaconRoot : Option Hash) (parent : Block) : Prop where
  checked : checkPayload data = .ok ()
  hash_eq : (payloadHeader G data beaconRoot).hash G = data.blockHash
  fresh : c.blocks data.blockHash = none
  held : c.blocks data.parentHash = some parent
  number_eq : data.number = parent.number + 1
  time_lt : parent.time < data.timestamp

theorem verify_eq_ok {data : ExecutableData} {beaconRoot : Option Hash} {y : Executed σ}
    {adopted : Option PayloadID} : c.verify G M rt data beaconRoot = .ok (y, adopted) ↔
      ∃ parent, c.Admissible G data beaconRoot parent ∧
        ((∃ id p, (rt.order c.pending).find? (fun q => q.2.data.blockHash == data.blockHash) =
            some (id, p) ∧ adopted = some id ∧
            y = ⟨⟨payloadHeader G data beaconRoot, data.transactions⟩, p.machine, p.outputs, p.tree,
              p.passer, p.firstInput⟩) ∨
          ((rt.order c.pending).find? (fun q => q.2.data.blockHash == data.blockHash) = none ∧
            adopted = none ∧ c.Reexecuted G M (payloadHeader G data beaconRoot) data y)) := by
  unfold verify
  simp only [except_bind_eq_ok, expect_eq_ok, require_eq_ok, mapError_eq_ok, exists_const,
    headerFromPayload_eq_ok]
  constructor
  · rintro ⟨header, ⟨hcheck, rfl⟩, hhash, hfresh, parent, hparent, hnumber, htime, hrest⟩
    rw [hhash] at hfresh hrest
    refine ⟨parent, ⟨hcheck, hhash, hfresh, hparent, hnumber, htime⟩, ?_⟩
    split at hrest
    · rename_i id p hfind
      cases hrest
      exact .inl ⟨id, p, hfind, rfl, rfl⟩
    · rename_i hfind
      obtain ⟨x, hx, hpure⟩ := except_bind_eq_ok.1 hrest
      cases hpure
      exact .inr ⟨hfind, rfl, reexecute_eq_ok.1 hx⟩
  · rintro ⟨parent, ⟨hcheck, hhash, hfresh, hparent, hnumber, htime⟩, hrest⟩
    refine ⟨_, ⟨hcheck, rfl⟩, hhash, ?_, parent, hparent, hnumber, htime, ?_⟩
    · rwa [hhash]
    · rw [hhash]
      rcases hrest with ⟨id, p, hfind, rfl, rfl⟩ | ⟨hfind, rfl, hre⟩
      · rw [hfind]
        rfl
      · rw [hfind]
        exact except_bind_eq_ok.2 ⟨y, reexecute_eq_ok.2 hre, rfl⟩

/-- The two ends of an import: an answer that leaves the chain alone, or a commit. -/
theorem importPayload_run (data : ExecutableData) (beaconRoot : Option Hash) :
    (importPayload G M rt data beaconRoot).run c =
      match c.verify G M rt data beaconRoot with
      | .error (.ok status) => .ok status c
      | .error (.error e) => .error e c
      | .ok (x, adopted) => .ok (.valid (x.block.hash G))
          { c.commitAndPersist G M rt x with
            pending := c.pending.filter fun p => some p.1 ≠ adopted } := by
  unfold importPayload
  rw [bind_ok (get_run c)]
  cases hv : c.verify G M rt data beaconRoot with
  | error answer => cases answer <;> rfl
  | ok xa => rfl

/-! ## Building -/

/-- A build on `parent` runs and assembles `p`. -/
def Builds (G : Geth τ) (M : Machine σ) (c : Chain σ τ) (parent : Block)
    (attrs : PayloadAttributes) (p : PendingPayload σ) (dropped : List Hash) : Prop :=
  ∃ m exec, c.machines (parent.hash G) = some m ∧
    c.runBuild G M parent attrs m = .ok (p.firstInput, exec, dropped) ∧
    c.assemble G M parent attrs p.firstInput exec = .ok p

theorem assemble_firstInput {parent : Block} {attrs : PayloadAttributes} {first : ℕ}
    {exec : ExecResult σ} {p : PendingPayload σ}
    (h : c.assemble G M parent attrs first exec = .ok p) : p.firstInput = first := by
  unfold assemble at h
  simp only [except_bind_eq_ok] at h
  obtain ⟨_, -, _, -, _, -, _, -, _, -, hpure⟩ := h
  cases hpure
  rfl

/-- A build that fails changes at most the pool; one that returns found the payload pending or adds
    it. -/
theorem buildPayload_cases (parent : Block) (attrs : PayloadAttributes) :
    (∃ e, (buildPayload G M parent attrs).run c = .error e c) ∨
    (∃ e dropped, (buildPayload G M parent attrs).run c = .error e (c.forget dropped)) ∨
    (∃ id p, payloadID G (parent.hash G) attrs = .ok id ∧ (id, p) ∈ c.pending ∧
      (buildPayload G M parent attrs).run c = .ok id c) ∨
    (∃ id p dropped, payloadID G (parent.hash G) attrs = .ok id ∧ (∀ q ∈ c.pending, q.1 ≠ id) ∧
      c.Builds G M parent attrs p dropped ∧ (buildPayload G M parent attrs).run c =
        .ok id { c.forget dropped with pending := c.pending ++ [(id, p)] }) := by
  generalize hr : (buildPayload G M parent attrs).run c = r
  unfold buildPayload at hr
  rw [bind_ok (get_run c)] at hr
  cases hm : c.machines (parent.hash G) with
  | none =>
    rw [hm, expect_none, bind_error (check_error _ c)] at hr
    exact .inl ⟨_, hr.symm⟩
  | some m =>
    rw [hm, expect_some, bind_ok (check_ok m c)] at hr
    cases hid : payloadID G (parent.hash G) attrs with
    | error e =>
      rw [hid, bind_error (check_error e c)] at hr
      exact .inl ⟨_, hr.symm⟩
    | ok id =>
      rw [hid, bind_ok (check_ok id c)] at hr
      split_ifs at hr with hany
      · obtain ⟨q, hq, hqid⟩ := List.any_eq_true.1 hany
        obtain rfl : q.1 = id := by simpa using hqid
        exact .inr (.inr (.inl ⟨q.1, q.2, rfl, hq, hr.symm⟩))
      · have hnew : ∀ q ∈ c.pending, q.1 ≠ id := by
          intro q hq heq
          exact hany (List.any_eq_true.2 ⟨q, hq, by simp [heq]⟩)
        cases hrun : c.runBuild G M parent attrs m with
        | error e =>
          rw [hrun, bind_error (check_error e c)] at hr
          exact .inl ⟨_, hr.symm⟩
        | ok fed =>
          obtain ⟨first, exec, dropped⟩ := fed
          rw [hrun, bind_ok (check_ok _ c), bind_ok (modify_run _ c)] at hr
          cases hasm : c.assemble G M parent attrs first exec with
          | error e =>
            rw [hasm, bind_error (check_error e _)] at hr
            exact .inr (.inl ⟨_, _, hr.symm⟩)
          | ok p =>
            rw [hasm, bind_ok (check_ok p _)] at hr
            have hfirst := assemble_firstInput hasm
            subst hfirst
            exact .inr (.inr (.inr ⟨id, p, dropped, rfl, hnew, ⟨m, exec, hm, hrun, hasm⟩, hr.symm⟩))

/-! ## Forkchoice -/

/-- A pointer of a request that is not on the canonical chain. -/
def Refuses (G : Geth τ) (c : Chain σ τ) (hash : Hash) : Prop :=
  hash ≠ zeroHash ∧ c.isCanonical G hash = false

/-- Taking the safe pointer of a request over. -/
def withSafe (c : Chain σ τ) (hash : Hash) : Chain σ τ :=
  if hash = zeroHash then c else { c with safe := hash }

/-- Taking the finalized pointer of a request over. -/
def withFinalized (c : Chain σ τ) (hash : Hash) : Chain σ τ :=
  if hash = zeroHash then c else { c with finalized := hash }

/-- The chain after the pointers of a request are taken over (`chain.go:218-243`). -/
def pointed (G : Geth τ) (M : Machine σ) (rt : Runtime σ) (c : Chain σ τ) (head : Block)
    (fc : ForkchoiceState) : Chain σ τ :=
  { ((c.reorgTo G head).withSafe fc.safeBlockHash).withFinalized fc.finalizedBlockHash with
    head := head.hash G }.prune.recordForkchoice G M rt head

/-- Everything a forkchoice call can do. -/
inductive Forkchoice (G : Geth τ) (M : Machine σ) (rt : Runtime σ) (c : Chain σ τ)
    (fc : ForkchoiceState) : Option PayloadAttributes →
    EStateM.Result ChainError (Chain σ τ) ForkChoiceResponse → Prop
  | unknownHead {attrs} (hhead : c.blocks fc.headBlockHash = none) :
    Forkchoice G M rt c fc attrs (.ok .syncing c)
  | badSafe {attrs} (head : Block) (hhead : c.blocks fc.headBlockHash = some head)
    (hsafe : (c.reorgTo G head).Refuses G fc.safeBlockHash) :
    Forkchoice G M rt c fc attrs (.error .invalidForkChoiceState (c.reorgTo G head))
  | badFinalized {attrs} (head : Block) (hhead : c.blocks fc.headBlockHash = some head)
    (hsafe : ¬(c.reorgTo G head).Refuses G fc.safeBlockHash)
    (hfin : (c.reorgTo G head).Refuses G fc.finalizedBlockHash) :
    Forkchoice G M rt c fc attrs
      (.error .invalidForkChoiceState ((c.reorgTo G head).withSafe fc.safeBlockHash))
  | noBuild (head : Block) (hhead : c.blocks fc.headBlockHash = some head)
    (hsafe : ¬(c.reorgTo G head).Refuses G fc.safeBlockHash)
    (hfin : ¬(c.reorgTo G head).Refuses G fc.finalizedBlockHash) :
    Forkchoice G M rt c fc none (.ok (.valid (head.hash G) none) (c.pointed G M rt head fc))
  | badTime {attrs} (head : Block) (hhead : c.blocks fc.headBlockHash = some head)
    (hsafe : ¬(c.reorgTo G head).Refuses G fc.safeBlockHash)
    (hfin : ¬(c.reorgTo G head).Refuses G fc.finalizedBlockHash)
    (htime : attrs.timestamp ≤ head.time) :
    Forkchoice G M rt c fc (some attrs)
      (.error .invalidPayloadAttributes (c.pointed G M rt head fc))
  | buildFailed {attrs} (head : Block) (e : ChainError) (c' : Chain σ τ)
    (hhead : c.blocks fc.headBlockHash = some head)
    (hsafe : ¬(c.reorgTo G head).Refuses G fc.safeBlockHash)
    (hfin : ¬(c.reorgTo G head).Refuses G fc.finalizedBlockHash)
    (hc' : c' = c.pointed G M rt head fc ∨ ∃ dropped, c' = (c.pointed G M rt head fc).forget dropped) :
    Forkchoice G M rt c fc (some attrs) (.error (.buildingPayload e) c')
  | found {attrs} (head : Block) (id : PayloadID) (p : PendingPayload σ)
    (hhead : c.blocks fc.headBlockHash = some head)
    (hsafe : ¬(c.reorgTo G head).Refuses G fc.safeBlockHash)
    (hfin : ¬(c.reorgTo G head).Refuses G fc.finalizedBlockHash)
    (hp : (id, p) ∈ (c.pointed G M rt head fc).pending) :
    Forkchoice G M rt c fc (some attrs)
      (.ok (.valid (head.hash G) (some id)) (c.pointed G M rt head fc))
  | built {attrs} (head : Block) (id : PayloadID) (p : PendingPayload σ) (dropped : List Hash)
    (hhead : c.blocks fc.headBlockHash = some head)
    (hsafe : ¬(c.reorgTo G head).Refuses G fc.safeBlockHash)
    (hfin : ¬(c.reorgTo G head).Refuses G fc.finalizedBlockHash)
    (htime : head.time < attrs.timestamp)
    (hid : payloadID G (head.hash G) attrs = .ok id)
    (hnew : ∀ q ∈ (c.pointed G M rt head fc).pending, q.1 ≠ id)
    (hbuilds : (c.pointed G M rt head fc).Builds G M head attrs p dropped) :
    Forkchoice G M rt c fc (some attrs)
      (.ok (.valid (head.hash G) (some id))
        { (c.pointed G M rt head fc).forget dropped with
          pending := (c.pointed G M rt head fc).pending ++ [(id, p)] })

theorem updateRef_run (hash : Hash) (put : Hash → Chain σ τ → Chain σ τ) (c : Chain σ τ) :
    (updateRef G hash put).run c =
      if hash = zeroHash then .ok () c
      else if c.isCanonical G hash then .ok () (put hash c)
      else .error .invalidForkChoiceState c := by
  unfold updateRef
  rw [bind_ok (get_run c)]
  split_ifs <;> rfl

/-- The pointers do not enter into what is canonical. -/
theorem refuses_withSafe (hash h : Hash) : (c.withSafe h).Refuses G hash ↔ c.Refuses G hash := by
  unfold withSafe
  split_ifs <;> rfl

theorem safe_run (hash : Hash) (c : Chain σ τ) :
    (c.Refuses G hash ∧ (updateRef G hash fun h c => { c with safe := h }).run c =
      .error .invalidForkChoiceState c) ∨
    (¬c.Refuses G hash ∧ (updateRef G hash fun h c => { c with safe := h }).run c =
      .ok () (c.withSafe hash)) := by
  rw [updateRef_run]
  unfold withSafe Refuses
  split_ifs with hzero hcan <;> simp_all

theorem finalized_run (hash : Hash) (c : Chain σ τ) :
    (c.Refuses G hash ∧ (updateRef G hash fun h c => { c with finalized := h }).run c =
      .error .invalidForkChoiceState c) ∨
    (¬c.Refuses G hash ∧ (updateRef G hash fun h c => { c with finalized := h }).run c =
      .ok () (c.withFinalized hash)) := by
  rw [updateRef_run]
  unfold withFinalized Refuses
  split_ifs with hzero hcan <;> simp_all

variable (rt) in
theorem forkchoice_cases (fc : ForkchoiceState) (attrs : Option PayloadAttributes) :
    Forkchoice G M rt c fc attrs ((forkchoiceUpdated G M rt fc attrs).run c) := by
  generalize hr : (forkchoiceUpdated G M rt fc attrs).run c = r
  unfold forkchoiceUpdated at hr
  rw [bind_ok (get_run c)] at hr
  cases hhead : c.blocks fc.headBlockHash with
  | none =>
    rw [hhead] at hr
    cases hr
    exact .unknownHead hhead
  | some head =>
    rw [hhead] at hr
    simp only at hr
    rw [bind_ok (modify_run _ c)] at hr
    rcases safe_run (G := G) fc.safeBlockHash (c.reorgTo G head) with ⟨hsafe, hrun⟩ | ⟨hsafe, hrun⟩
    · rw [bind_error hrun] at hr
      cases hr
      exact .badSafe head hhead hsafe
    rw [bind_ok hrun] at hr
    rcases finalized_run (G := G) fc.finalizedBlockHash
      ((c.reorgTo G head).withSafe fc.safeBlockHash) with ⟨hfin, hrun⟩ | ⟨hfin, hrun⟩
    · rw [bind_error hrun] at hr
      cases hr
      exact .badFinalized head hhead hsafe ((refuses_withSafe _ _).1 hfin)
    rw [bind_ok hrun, bind_ok (modify_run _ _)] at hr
    rw [refuses_withSafe] at hfin
    change EStateM.run _ (c.pointed G M rt head fc) = r at hr
    cases attrs with
    | none =>
      cases hr
      exact .noBuild head hhead hsafe hfin
    | some attrs =>
      simp only at hr
      split_ifs at hr with htime
      · cases hr
        exact .badTime head hhead hsafe hfin htime
      · rcases buildPayload_cases (G := G) (M := M) (c := c.pointed G M rt head fc) head attrs with
          ⟨e, hb⟩ | ⟨e, dropped, hb⟩ | ⟨id, p, hid, hp, hb⟩ | ⟨id, p, dropped, hid, hnew, hbuilds, hb⟩
        · have hwrap := tryCatch_error (h := fun e => throw (.buildingPayload e)) hb
          rw [bind_error (hwrap.trans (throw_run _ _))] at hr
          cases hr
          exact .buildFailed head e _ hhead hsafe hfin (.inl rfl)
        · have hwrap := tryCatch_error (h := fun e => throw (.buildingPayload e)) hb
          rw [bind_error (hwrap.trans (throw_run _ _))] at hr
          cases hr
          exact .buildFailed head e _ hhead hsafe hfin (.inr ⟨dropped, rfl⟩)
        · rw [bind_ok (tryCatch_ok hb)] at hr
          cases hr
          exact .found head id p hhead hsafe hfin hp
        · rw [bind_ok (tryCatch_ok hb)] at hr
          cases hr
          exact .built head id p dropped hhead hsafe hfin (not_le.1 htime) hid hnew hbuilds

/-! ## Changes that add nothing -/

/-- A change of the pointers, the canonical numbering, the pool, the limits or the store, that may
    forget machines and pending payloads. -/
structure Trims (c c' : Chain σ τ) : Prop where
  cfg : c'.cfg = c.cfg
  blocks : c'.blocks = c.blocks
  outputs : c'.outputs = c.outputs
  trees : c'.trees = c.trees
  passers : c'.passers = c.passers
  inputs : c'.inputs = c.inputs
  txBlocks : c'.txBlocks = c.txBlocks
  genesisHash : c'.genesisHash = c.genesisHash
  machines : ∀ h, c'.machines h = c.machines h ∨ c'.machines h = none
  pending : c'.pending.Sublist c.pending
  pool : ∀ p', c'.pool = some p' → ∃ p, c.pool = some p ∧ p'.txs.Sublist p.txs

theorem Trims.refl (c : Chain σ τ) : Trims c c :=
  ⟨rfl, rfl, rfl, rfl, rfl, rfl, rfl, rfl, fun _ => .inl rfl, List.Sublist.refl _,
    fun p hp => ⟨p, hp, List.Sublist.refl _⟩⟩

theorem Trims.trans {c₁ c₂ c₃ : Chain σ τ} (h : Trims c₁ c₂) (h' : Trims c₂ c₃) : Trims c₁ c₃ where
  cfg := h'.cfg.trans h.cfg
  blocks := h'.blocks.trans h.blocks
  outputs := h'.outputs.trans h.outputs
  trees := h'.trees.trans h.trees
  passers := h'.passers.trans h.passers
  inputs := h'.inputs.trans h.inputs
  txBlocks := h'.txBlocks.trans h.txBlocks
  genesisHash := h'.genesisHash.trans h.genesisHash
  machines hash := by
    rcases h'.machines hash with heq | hnone
    · rw [heq]
      exact h.machines hash
    · exact .inr hnone
  pending := h'.pending.trans h.pending
  pool p'' hp'' := by
    obtain ⟨p', hp', hsub'⟩ := h'.pool p'' hp''
    obtain ⟨p, hp, hsub⟩ := h.pool p' hp'
    exact ⟨p, hp, hsub'.trans hsub⟩

/-- A change of the pointers, the canonical numbering, the limits or the store. -/
theorem Trims.of_eq (hcfg : c'.cfg = c.cfg) (hblocks : c'.blocks = c.blocks)
    (houtputs : c'.outputs = c.outputs) (htrees : c'.trees = c.trees)
    (hpassers : c'.passers = c.passers) (hinputs : c'.inputs = c.inputs)
    (htxBlocks : c'.txBlocks = c.txBlocks) (hgenesis : c'.genesisHash = c.genesisHash)
    (hmachines : c'.machines = c.machines) (hpending : c'.pending = c.pending)
    (hpool : c'.pool = c.pool) : Trims c c' where
  cfg := hcfg
  blocks := hblocks
  outputs := houtputs
  trees := htrees
  passers := hpassers
  inputs := hinputs
  txBlocks := htxBlocks
  genesisHash := hgenesis
  machines _ := .inl (by rw [hmachines])
  pending := by rw [hpending]
  pool p hp := ⟨p, hpool ▸ hp, List.Sublist.refl _⟩

theorem trims_reorgTo (head : Block) : Trims c (c.reorgTo G head) :=
  .of_eq rfl rfl rfl rfl rfl rfl rfl rfl rfl rfl rfl

theorem trims_withSafe (hash : Hash) : Trims c (c.withSafe hash) := by
  unfold withSafe
  split_ifs
  · exact .refl c
  · exact .of_eq rfl rfl rfl rfl rfl rfl rfl rfl rfl rfl rfl

theorem trims_withFinalized (hash : Hash) : Trims c (c.withFinalized hash) := by
  unfold withFinalized
  split_ifs
  · exact .refl c
  · exact .of_eq rfl rfl rfl rfl rfl rfl rfl rfl rfl rfl rfl

theorem trims_forget (hashes : List Hash) : Trims c (c.forget hashes) := by
  refine ⟨rfl, rfl, rfl, rfl, rfl, rfl, rfl, rfl, fun _ => .inl rfl, List.Sublist.refl _, ?_⟩
  intro p' hp'
  obtain ⟨p, hp, rfl⟩ := Option.map_eq_some_iff.1 hp'
  exact ⟨p, hp, List.filter_sublist⟩

theorem trims_prune : Trims c c.prune := by
  refine ⟨rfl, rfl, rfl, rfl, rfl, rfl, rfl, rfl, fun h => ?_, List.filter_sublist,
    fun p hp => ⟨p, hp, List.Sublist.refl _⟩⟩
  unfold prune
  simp only
  split_ifs
  · exact .inl rfl
  · exact .inr rfl

theorem trims_pointed (head : Block) (fc : ForkchoiceState) :
    Trims c (c.pointed G M rt head fc) := by
  have hptr : Trims c
      ((c.reorgTo G head).withSafe fc.safeBlockHash |>.withFinalized fc.finalizedBlockHash) :=
    (trims_reorgTo head).trans ((trims_withSafe _).trans (trims_withFinalized _))
  have hhead : ∀ c₁ : Chain σ τ, Trims c₁ { c₁ with head := head.hash G } := fun c₁ =>
    .of_eq rfl rfl rfl rfl rfl rfl rfl rfl rfl rfl rfl
  have hstore : ∀ c₁ : Chain σ τ, Trims c₁ (c₁.recordForkchoice G M rt head) := fun c₁ =>
    .of_eq rfl rfl rfl rfl rfl rfl rfl rfl rfl rfl rfl
  exact hptr.trans ((hhead _).trans (trims_prune.trans (hstore _)))

end Chain

/-! ## Calls -/

/-- The calls that change a chain: the engine's, the batcher's limits, and the pool's own. -/
inductive Call (σ : Type)
  | forkchoiceUpdated (rt : Runtime σ) (fc : ForkchoiceState) (attrs : Option PayloadAttributes)
  | importPayload (rt : Runtime σ) (data : ExecutableData) (beaconRoot : Option Hash)
  | setMaxDASize (limits : DALimits)
  | queue (pool : Pool)

/-- The state a call leaves, whether it answers or fails. -/
def Call.exec (G : Geth τ) (M : Machine σ) (k : Call σ) (c : Chain σ τ) : Chain σ τ :=
  match k with
  | .forkchoiceUpdated rt fc attrs => endState ((Chain.forkchoiceUpdated G M rt fc attrs).run c)
  | .importPayload rt data beaconRoot => endState ((Chain.importPayload G M rt data beaconRoot).run c)
  | .setMaxDASize limits => c.setMaxDASize limits
  | .queue pool => { c with pool := c.pool.map fun _ => pool }

/-- Blocks are held under their hashes. -/
def Chain.Keyed (G : Geth τ) (c : Chain σ τ) : Prop := ∀ h b, c.blocks h = some b → b.hash G = h

open Chain in
/-- What a call does to the part of the chain that `Trims` fixes. -/
inductive Step (G : Geth τ) (M : Machine σ) (c : Chain σ τ) : Call σ → Chain σ τ → Prop
  | trims {k : Call σ} {c' : Chain σ τ} (h : Trims c c') : Step G M c k c'
  | built {c₁ : Chain σ τ} (h : Trims c c₁) (rt : Runtime σ) (fc : ForkchoiceState) (head : Block)
    (attrs : PayloadAttributes) (id : PayloadID) (p : PendingPayload σ) (dropped : List Hash)
    (hhead : c.blocks (head.hash G) = some head) (htime : head.time < attrs.timestamp)
    (hnew : ∀ q ∈ c₁.pending, q.1 ≠ id) (hbuilds : c₁.Builds G M head attrs p dropped) :
    Step G M c (.forkchoiceUpdated rt fc (some attrs))
      { c₁.forget dropped with pending := c₁.pending ++ [(id, p)] }
  | imported (rt : Runtime σ) (data : ExecutableData) (beaconRoot : Option Hash) (y : Executed σ)
    (adopted : Option PayloadID) (hverify : c.verify G M rt data beaconRoot = .ok (y, adopted)) :
    Step G M c (.importPayload rt data beaconRoot)
      { c.commitAndPersist G M rt y with
        pending := c.pending.filter fun p => some p.1 ≠ adopted }
  | queued (pool : Pool) : Step G M c (.queue pool) { c with pool := c.pool.map fun _ => pool }

open Chain in
/-- Everything a call does. -/
theorem Call.step (hkeyed : c.Keyed G) (k : Call σ) : Step G M c k (k.exec G M c) := by
  cases k with
  | forkchoiceUpdated rt fc attrs =>
    have hfc := forkchoice_cases (G := G) (M := M) (c := c) rt fc attrs
    unfold Call.exec
    simp only
    generalize (Chain.forkchoiceUpdated G M rt fc attrs).run c = r at hfc
    cases hfc with
    | unknownHead => exact .trims (.refl c)
    | badSafe head => exact .trims (trims_reorgTo head)
    | badFinalized head => exact .trims ((trims_reorgTo head).trans (trims_withSafe _))
    | noBuild head => exact .trims (trims_pointed head fc)
    | badTime head => exact .trims (trims_pointed head fc)
    | buildFailed head e c' hhead hsafe hfin hc' =>
      rcases hc' with rfl | ⟨dropped, rfl⟩
      · exact .trims (trims_pointed head fc)
      · exact .trims ((trims_pointed head fc).trans (trims_forget dropped))
    | found head => exact .trims (trims_pointed head fc)
    | built head id p dropped hhead hsafe hfin htime hid hnew hbuilds =>
      have hheld : c.blocks (head.hash G) = some head := by
        rw [hkeyed _ _ hhead]
        exact hhead
      exact .built (trims_pointed head fc) rt fc head _ id p dropped hheld htime hnew hbuilds
  | importPayload rt data beaconRoot =>
    unfold Call.exec
    simp only
    rw [importPayload_run]
    cases hv : c.verify G M rt data beaconRoot with
    | error answer => cases answer <;> exact .trims (.refl c)
    | ok xa => exact .imported rt data beaconRoot xa.1 xa.2 hv
  | setMaxDASize limits =>
    exact .trims (.of_eq rfl rfl rfl rfl rfl rfl rfl rfl rfl rfl rfl)
  | queue pool => exact .queued pool

/-! ## Runs -/

/-- A fresh chain, without a store or with one that was empty when it was attached. -/
inductive Fresh (G : Geth τ) (M : Machine σ) : Chain σ τ → Prop
  | inMemory {cfg : Config} {m : σ} {pool : Option Pool} {c : Chain σ τ}
    (h : new G M cfg m pool = .ok c) : Fresh G M c
  | adopted {cfg : Config} {m : σ} {pool : Option Pool} {c c' : Chain σ τ}
    (h : new G M cfg m pool = .ok c) (h' : c.adopt G M Store.empty = .ok c') : Fresh G M c'

section Update

variable {α β : Type} [DecidableEq α] {f : α → Option β} {k a : α} {v b : β}

/-- A map with one more entry has that entry, and otherwise what it had. -/
theorem update_some_cases (h : Function.update f k (some v) a = some b) :
    a = k ∧ b = v ∨ a ≠ k ∧ f a = some b := by
  by_cases hk : a = k
  · subst hk
    rw [Function.update_self] at h
    exact .inl ⟨rfl, (Option.some.inj h).symm⟩
  · rw [Function.update_of_ne hk] at h
    exact .inr ⟨hk, h⟩

theorem update_some_keep (hfresh : f k = none) (h : f a = some b) :
    Function.update f k (some v) a = some b := by
  rw [Function.update_of_ne, h]
  rintro rfl
  rw [hfresh] at h
  cases h

theorem update_none_eq_some (h : Function.update (fun _ => none) k (some v) a = some b) :
    a = k ∧ b = v := by
  rcases update_some_cases h with hnew | ⟨-, hold⟩
  · exact hnew
  · cases hold

end Update

/-- The chain of `new`, with the genesis block it holds. -/
theorem new_eq_ok {pool : Option Pool} :
    new G M cfg m pool = .ok c ↔ cfg.withDefaults.validate = .ok () ∧
      ∃ x, genesis G M cfg.withDefaults m = .ok x ∧
        c = singleton G cfg.withDefaults pool none x (fun _ => []) (x.block.hash G) := by
  unfold new
  simp only [except_bind_eq_ok, pure, Except.pure, Except.ok.injEq, eq_comm (a := c)]
  constructor
  · rintro ⟨⟨⟩, hvalid, hx⟩
    exact ⟨hvalid, hx⟩
  · rintro ⟨hvalid, hx⟩
    exact ⟨(), hvalid, hx⟩

theorem genesis_eq_ok {x : Executed σ} :
    genesis G M cfg m = .ok x ↔ ∃ root extra, M.rootHash m = some root ∧
      cfg.genesisExtraData = .ok extra ∧
      x = ⟨⟨genesisHeader cfg root extra
          ((newPasserTrie.setOutputsRoot G (newOutputTree.root G)).root G), []⟩, m, [],
        newOutputTree, newPasserTrie.setOutputsRoot G (newOutputTree.root G), 0⟩ := by
  unfold genesis
  simp only [except_bind_eq_ok, expect_eq_ok, pure, Except.pure, Except.ok.injEq, eq_comm (a := x)]
  constructor
  · rintro ⟨root, hroot, extra, hextra, rfl⟩
    exact ⟨root, extra, hroot, hextra, rfl⟩
  · rintro ⟨root, extra, hroot, hextra, rfl⟩
    exact ⟨root, hroot, extra, hextra, rfl⟩

theorem genesis_number {x : Executed σ} (h : genesis G M cfg m = .ok x) : x.block.number = 0 := by
  obtain ⟨root, extra, -, -, rfl⟩ := genesis_eq_ok.1 h
  rfl

/-- The states of the runs from `c₀` whose calls meet `ok`. -/
inductive Reach (G : Geth τ) (M : Machine σ) (ok : Call σ → Prop) (c₀ : Chain σ τ) :
    Chain σ τ → Prop
  | start : Reach G M ok c₀ c₀
  | call {c : Chain σ τ} (h : Reach G M ok c₀ c) (k : Call σ) (hk : ok k) :
    Reach G M ok c₀ (k.exec G M c)

/-! ## A small instance, for concrete runs -/

namespace Sample

/-- Every input is accepted, counted and echoed as an output. -/
def machine : Machine ℕ where
  advanceInput s input _ := some (⟨true, 1000, [⟨2, input⟩]⟩, s + 1)
  rootHash s := some (hashOf s)
  fork s := some s
  store s := some s
  fork_eq h := (Option.some.inj h).symm

/-- The pending map in the order of insertion, directories by insertion sort. -/
def runtime : Runtime ℕ where
  sort l := l.insertionSort fun a b => a.number ≤ b.number
  sort_perm l := List.perm_insertionSort _ l
  sort_sorted l := List.pairwise_insertionSort _ l
  order l := l
  order_perm l := List.Perm.refl l

def config : Config where
  chainID := 1
  genesisTimestamp := 0
  gasLimit := 0
  baseFee := none
  maxCyclesPerInput := 0
  appContract := App.ZERO_ADDRESS
  maxSnapshots := 0
  checkpointInterval := 0
  checkpointRetention := 0
  eip1559Denominator := 0
  eip1559Elasticity := 0

section

variable (G : Geth Bytes)

/-- The genesis block and its records. -/
def genesisBlock : Executed ℕ :=
  let passer := newPasserTrie.setOutputsRoot G (newOutputTree.root G)
  ⟨⟨genesisHeader config.withDefaults (hashOf 0) (0 :: (beBytes 4 250 ++ beBytes 4 6))
    (passer.root G), []⟩, 0, [], newOutputTree, passer, 0⟩

/-- A fresh chain. -/
def start (pool : Option Pool) : Chain ℕ Bytes :=
  singleton G config.withDefaults pool none (genesisBlock G) (fun _ => [])
    ((genesisBlock G).block.hash G)

theorem new_start (pool : Option Pool) : new G machine config 0 pool = .ok (start G pool) := rfl

/-- Attributes for a block on `parent` that force the given transactions. -/
def attributes (parent : Header) (random : ℕ) (txs : List Bytes) : PayloadAttributes where
  timestamp := parent.time + 1
  random := [Fin.ofNat 256 random]
  suggestedFeeRecipient := App.ZERO_ADDRESS
  withdrawals := []
  beaconRoot := none
  transactions := txs
  noTxPool := false
  gasLimit := none
  eip1559Params := zeros 8

/-- A block on `parent` with one unit of gas for each transaction. -/
def child (parent : Header) (random : ℕ) (root : Hash) (txs : List Bytes) : Header :=
  buildHeader G parent (attributes parent random txs) root txs txs.length parent.gasLimit
    parent.baseFee parent.extra (hashOf 7)

/-- The call that imports an empty block on `parent`. -/
def importChild (parent : Header) (random : ℕ) : Call ℕ :=
  .importPayload runtime (executableData G (child G parent random parent.root []) []) none

end

end Sample

end OpCartesi.Node
