import OpCartesi.Chain.Steps

/-!
# The ledger behind a chain

A chain spreads what executing a block produced over several maps, and forgets machines. Here the
maps are views of one ledger, which a call extends by at most one block.

* `Executes`: a block and its records are what executing its transactions on the parent gives.
* `Assembled`: a pending payload is a build on a recorded parent. `Assembled.executes`: it executes.
* `Recorded`: the maps of a chain are views of a ledger, and every pending payload was assembled on
  a block of it. `Recorded.exec`, `Reach.recorded`: so it is in every state of every run.
* `verified_cases`: a block that is imported was re-executed, or matches an assembled payload by its
  hash.
-/

namespace OpCartesi.Node

open Exec
open Function (update update_of_ne update_self)

variable {σ τ : Type} {attrs : PayloadAttributes} {beaconRoot : Option Hash} {y : Executed σ}
  {data : ExecutableData} {p : PendingPayload σ}

/-! ## Execution -/

/-- `y` is a block on `x` with what executing its transactions from `x`'s machine gives. -/
structure Executes (G : Geth τ) (M : Machine σ) (cfg : Config) (x y : Executed σ) : Prop where
  parent_eq : y.block.header.parentHash = x.block.hash G
  number_eq : y.block.number = x.block.number + 1
  time_lt : x.block.time < y.block.time
  first_eq : y.firstInput = x.inputs
  forks : M.fork x.machine = some x.machine
  ran : ∃ gas, replayImport G M cfg (cfg.inputContextOf y.block.header y.firstInput) x.machine
      y.block.txs = .ok ⟨⟨gas, y.outputs, y.machine⟩, y.block.txs⟩ ∧
    min gas y.block.header.gasLimit = y.block.header.gasUsed
  root_eq : M.rootHash y.machine = some y.block.header.root
  tree_eq : x.tree.append G (outputLeaves G y.outputs) = some y.tree
  passer_eq : y.passer = x.passer.extend G y.outputs y.tree
  withdrawals_eq : y.block.header.withdrawalsHash = some (y.passer.root G)
  txHash_eq : y.block.header.txHash = txsRoot G y.block.txs

/-- A pending payload as the records of a block. -/
def PendingPayload.executed (p : PendingPayload σ) (b : Block) : Executed σ :=
  ⟨b, p.machine, p.outputs, p.tree, p.passer, p.firstInput⟩

/-- `p` is the payload a build on `x` makes: its header, and the gas its inputs used. -/
structure Assembled (G : Geth τ) (M : Machine σ) (cfg : Config) (x : Executed σ)
    (p : PendingPayload σ) (attrs : PayloadAttributes) (header : Header) (gas : ℕ) : Prop where
  data_eq : p.data = executableData G header p.data.transactions
  beaconRoot_eq : p.beaconRoot = header.parentBeaconRoot
  time_lt : x.block.time < attrs.timestamp
  extra_eq : cfg.extraData attrs.eip1559Params = .ok header.extra
  root_eq : M.rootHash p.machine = some header.root
  header_eq : header = buildHeader G x.block.header attrs header.root p.data.transactions
    (min gas (Chain.gasLimitFor x.block attrs)) (Chain.gasLimitFor x.block attrs) cfg.baseFee
    header.extra (p.passer.root G)
  first_eq : p.firstInput = x.inputs
  forks : M.fork x.machine = some x.machine
  ran : replayImport G M cfg (cfg.inputContextOf header p.firstInput) x.machine
    p.data.transactions = .ok ⟨⟨gas, p.outputs, p.machine⟩, p.data.transactions⟩
  tree_eq : x.tree.append G (outputLeaves G p.outputs) = some p.tree
  passer_eq : p.passer = x.passer.extend G p.outputs p.tree

variable {G : Geth τ} {M : Machine σ} {rt : Runtime σ} {cfg : Config} {c c' : Chain σ τ}

theorem Assembled.executes {x : Executed σ} {header : Header} {gas : ℕ}
    (h : Assembled G M cfg x p attrs header gas) :
    Executes G M cfg x (p.executed ⟨header, p.data.transactions⟩) := by
  have hheader := h.header_eq
  refine ⟨?_, ?_, ?_, h.first_eq, h.forks, ⟨gas, h.ran, ?_⟩, h.root_eq, h.tree_eq, h.passer_eq, ?_,
    ?_⟩
  · exact congrArg Header.parentHash hheader
  · exact congrArg Header.number hheader
  · rw [show (p.executed ⟨header, p.data.transactions⟩).block.time = attrs.timestamp from
      congrArg Header.time hheader]
    exact h.time_lt
  · rw [show (p.executed ⟨header, p.data.transactions⟩).block.header.gasLimit =
      Chain.gasLimitFor x.block attrs from congrArg Header.gasLimit hheader]
    exact (congrArg Header.gasUsed hheader).symm
  · exact congrArg Header.withdrawalsHash hheader
  · exact congrArg Header.txHash hheader

/-- Only what a store keeps of the header enters into the execution. -/
theorem Executes.of_stored {x y : Executed σ} (header : Header)
    (hstored : header.stored = y.block.header.stored) (h : Executes G M cfg x y) :
    Executes G M cfg x { y with block := ⟨header, y.block.txs⟩ } := by
  have hfield : ∀ {α : Type} (f : Header → α), (∀ h : Header, f h.stored = f h) →
      f header = f y.block.header := by
    intro α f hf
    rw [← hf header, hstored, hf]
  have hctx : cfg.inputContextOf header y.firstInput =
      cfg.inputContextOf y.block.header y.firstInput :=
    hfield (fun h => cfg.inputContextOf h y.firstInput) fun _ => rfl
  obtain ⟨gas, hran, hgas⟩ := h.ran
  refine ⟨(hfield Header.parentHash fun _ => rfl).trans h.parent_eq,
    (hfield Header.number fun _ => rfl).trans h.number_eq,
    h.time_lt.trans_eq (hfield Header.time fun _ => rfl).symm, h.first_eq, h.forks, ⟨gas, ?_, ?_⟩,
    h.root_eq.trans (congrArg some (hfield Header.root fun _ => rfl).symm), h.tree_eq, h.passer_eq,
    (hfield Header.withdrawalsHash fun _ => rfl).trans h.withdrawals_eq,
    (hfield Header.txHash fun _ => rfl).trans h.txHash_eq⟩
  · simp only
    rw [hctx]
    exact hran
  · rw [show ({ y with block := ⟨header, y.block.txs⟩ } : Executed σ).block.header.gasLimit =
      y.block.header.gasLimit from hfield Header.gasLimit fun _ => rfl, hgas]
    exact (hfield Header.gasUsed fun _ => rfl).symm

/-- A block with its records as a store returns it. -/
def Executed.stored (x : Executed σ) : Executed σ :=
  { x with block := ⟨x.block.header.stored, x.block.txs⟩ }
/-- What a store returns of two blocks executes as they did. -/
theorem Executes.stored {x y : Executed σ} (h : Executes G M cfg x y) :
    Executes G M cfg x.stored y.stored := by
  have hy : Executes G M cfg x y.stored :=
    h.of_stored y.block.header.stored rfl
  exact ⟨hy.parent_eq, hy.number_eq, hy.time_lt, hy.first_eq, hy.forks, hy.ran, hy.root_eq, hy.tree_eq,
    hy.passer_eq, hy.withdrawals_eq, hy.txHash_eq⟩

/-! ## The ledger -/

/-- Blocks with their records, by hash. -/
abbrev Ledger (σ : Type) := Hash → Option (Executed σ)

/-- The maps of a chain are views of the ledger. -/
structure Recorded (G : Geth τ) (M : Machine σ) (L : Ledger σ) (c : Chain σ τ) : Prop where
  keyed : ∀ h x, L h = some x → x.block.hash G = h
  blocks : ∀ h, c.blocks h = (L h).map Executed.block
  outputs : ∀ h x, L h = some x → c.outputs h = x.outputs
  trees : ∀ h x, L h = some x → c.trees h = some x.tree
  passers : ∀ h x, L h = some x → c.passers h = some x.passer
  inputs : ∀ h x, L h = some x → c.inputs h = some x.inputs
  machines : ∀ h m, c.machines h = some m → ∃ x, L h = some x ∧ x.machine = m
  pending : ∀ q ∈ c.pending, ∃ x attrs header gas, L (x.block.hash G) = some x ∧
    Assembled G M c.cfg x q.2 attrs header gas

namespace Recorded

variable {L : Ledger σ}

section

variable (hrec : Recorded G M L c)
include hrec

theorem block_keyed : c.Keyed G := by
  intro h b hb
  rw [hrec.blocks] at hb
  obtain ⟨x, hx, rfl⟩ := Option.map_eq_some_iff.1 hb
  exact hrec.keyed h x hx

theorem of_block {h : Hash} {b : Block} (hb : c.blocks h = some b) :
    ∃ x, L h = some x ∧ x.block = b := by
  rw [hrec.blocks] at hb
  exact Option.map_eq_some_iff.1 hb

theorem trims (h : Chain.Trims c c') : Recorded G M L c' where
  keyed := hrec.keyed
  blocks := by
    rw [h.blocks]
    exact hrec.blocks
  outputs := by
    rw [h.outputs]
    exact hrec.outputs
  trees := by
    rw [h.trees]
    exact hrec.trees
  passers := by
    rw [h.passers]
    exact hrec.passers
  inputs := by
    rw [h.inputs]
    exact hrec.inputs
  machines hash m hm := by
    rcases h.machines hash with heq | hnone
    · exact hrec.machines hash m (heq ▸ hm)
    · rw [hnone] at hm
      cases hm
  pending := by
    rw [h.cfg]
    intro q hq
    exact hrec.pending q (h.pending.subset hq)

/-- What a build assembles. -/
theorem builds {parent : Block} {dropped : List Hash}
    (hparent : c.blocks (parent.hash G) = some parent) (htime : parent.time < attrs.timestamp)
    (h : c.Builds G M parent attrs p dropped) :
    ∃ x header gas, L (parent.hash G) = some x ∧ x.block = parent ∧
      Assembled G M c.cfg x p attrs header gas := by
  obtain ⟨x, hx, rfl⟩ := hrec.of_block hparent
  obtain ⟨m, exec, hm, hrun, hassemble⟩ := h
  generalize p.firstInput = first at hrun hassemble
  obtain ⟨x', hx', rfl⟩ := hrec.machines _ m hm
  obtain rfl := Option.some.inj (hx.symm.trans hx')
  unfold Chain.runBuild at hrun
  simp only [except_bind_eq_ok, expect_eq_ok] at hrun
  obtain ⟨work, hwork, first, hfirst, ⟨exec', dropped'⟩, happly, hpure⟩ := hrun
  cases hpure
  obtain rfl := M.fork_eq hwork
  unfold Chain.assemble at hassemble
  simp only [except_bind_eq_ok, expect_eq_ok, Chain.extendPasser_eq_ok] at hassemble
  obtain ⟨root, hroot, extra, hextra, base, hbase, tree, htree, passer, ⟨pbase, hpbase, rfl⟩,
    hpure⟩ := hassemble
  cases hpure
  obtain rfl := Option.some.inj ((hrec.trees _ x hx).symm.trans hbase)
  obtain rfl := Option.some.inj ((hrec.passers _ x hx).symm.trans hpbase)
  rw [hrec.inputs _ x hx] at hfirst
  exact ⟨x, _, exec'.gasUsed, hx, rfl, ⟨rfl, rfl, htime, hextra, hroot, rfl,
    (Option.some.inj hfirst).symm, hwork, replayImport_of_applyBuild happly, htree, rfl⟩⟩

/-- A payload that was assembled on a recorded block. -/
theorem pend {x : Executed σ} {header : Header} {gas : ℕ} (hx : L (x.block.hash G) = some x)
    (hasm : Assembled G M c.cfg x p attrs header gas) (dropped : List Hash) (id : PayloadID) :
    Recorded G M L { c.forget dropped with pending := c.pending ++ [(id, p)] } := by
  refine ⟨hrec.keyed, hrec.blocks, hrec.outputs, hrec.trees, hrec.passers, hrec.inputs,
    hrec.machines, ?_⟩
  intro q hq
  rcases List.mem_append.1 hq with hold | hnew
  · exact hrec.pending q hold
  · obtain rfl := List.mem_singleton.1 hnew
    exact ⟨x, attrs, header, gas, hx, hasm⟩

/-- A block under a new hash. -/
theorem commit (hfresh : L (y.block.hash G) = none) :
    Recorded G M (update L (y.block.hash G) (some y)) (c.commit G y) := by
  have hview : ∀ {α : Type} {view new : Hash → α} {f : Executed σ → α},
      new = update view (y.block.hash G) (f y) →
      (∀ h x, L h = some x → view h = f x) →
      ∀ h x, update L (y.block.hash G) (some y) h = some x → new h = f x := by
    rintro α view new f rfl hold h x hx
    rcases update_some_cases hx with ⟨rfl, rfl⟩ | ⟨hne, hx⟩
    · rw [update_self]
    · rw [update_of_ne hne, hold h x hx]
  refine ⟨?_, ?_, hview rfl hrec.outputs, hview rfl hrec.trees, hview rfl hrec.passers,
    hview rfl hrec.inputs, ?_, ?_⟩
  · intro h x hx
    rcases update_some_cases hx with ⟨rfl, rfl⟩ | ⟨-, hx⟩
    · rfl
    · exact hrec.keyed h x hx
  · intro h
    show update c.blocks (y.block.hash G) (some y.block) h = _
    by_cases heq : h = y.block.hash G
    · subst heq
      rw [update_self, update_self]
      rfl
    · rw [update_of_ne heq, update_of_ne heq, hrec.blocks]
  · intro h m hm
    replace hm : update c.machines (y.block.hash G) (some y.machine) h = some m := hm
    rcases update_some_cases hm with ⟨rfl, rfl⟩ | ⟨-, hm⟩
    · exact ⟨y, update_self _ _ _, rfl⟩
    · obtain ⟨x, hx, hxm⟩ := hrec.machines h m hm
      exact ⟨x, update_some_keep hfresh hx, hxm⟩
  · intro q hq
    obtain ⟨x, attrs, header, gas, hx, hasm⟩ := hrec.pending q hq
    exact ⟨x, attrs, header, gas, update_some_keep hfresh hx, hasm⟩

theorem commitAndPersist (hfresh : L (y.block.hash G) = none) (adopted : Option PayloadID) :
    Recorded G M (update L (y.block.hash G) (some y))
      { c.commitAndPersist G M rt y with
        pending := c.pending.filter fun p => some p.1 ≠ adopted } :=
  (hrec.commit hfresh).trims ⟨rfl, rfl, rfl, rfl, rfl, rfl, rfl, rfl, fun _ => .inl rfl,
    List.filter_sublist, fun p hp => ⟨p, hp, List.Sublist.refl _⟩⟩

end

end Recorded

/-! ## What an import commits -/

/-- A block that is imported was re-executed on its parent, or has the hash of a payload that was
    assembled and takes over what that one recorded. -/
inductive Verified (G : Geth τ) (M : Machine σ) (L : Ledger σ) (c : Chain σ τ)
    (data : ExecutableData) (beaconRoot : Option Hash) (x : Executed σ) : Executed σ → Prop
  | reexecuted {y : Executed σ} (hblock : y.block = ⟨payloadHeader G data beaconRoot, data.transactions⟩)
    (h : Executes G M c.cfg x y) : Verified G M L c data beaconRoot x y
  | adopted (q : PayloadID × PendingPayload σ) (hq : q ∈ c.pending) (z : Executed σ)
    (attrs : PayloadAttributes) (header : Header) (gas : ℕ) (hz : L (z.block.hash G) = some z)
    (hasm : Assembled G M c.cfg z q.2 attrs header gas)
    (hhash : header.hash G = (payloadHeader G data beaconRoot).hash G) :
    Verified G M L c data beaconRoot x
      (q.2.executed ⟨payloadHeader G data beaconRoot, data.transactions⟩)

theorem verified_cases {L : Ledger σ} (hrec : Recorded G M L c) {adopted : Option PayloadID}
    (h : c.verify G M rt data beaconRoot = .ok (y, adopted)) :
    ∃ x, c.Admissible G data beaconRoot x.block ∧ L data.parentHash = some x ∧
      L data.blockHash = none ∧
      y.block = ⟨payloadHeader G data beaconRoot, data.transactions⟩ ∧
      y.block.hash G = data.blockHash ∧ Verified G M L c data beaconRoot x y := by
  obtain ⟨parent, hadm, hrest⟩ := Chain.verify_eq_ok.1 h
  obtain ⟨x, hx, rfl⟩ := hrec.of_block hadm.held
  have hfresh : L data.blockHash = none := by
    have := hrec.blocks data.blockHash
    rw [hadm.fresh] at this
    exact Option.map_eq_none_iff.1 this.symm
  refine ⟨x, hadm, hx, hfresh, ?_⟩
  rcases hrest with ⟨id, p, hfind, -, rfl⟩ | ⟨-, -, hre⟩
  · refine ⟨rfl, hadm.hash_eq, ?_⟩
    have hmem : (id, p) ∈ c.pending := (rt.order_perm _).mem_iff.1 (List.mem_of_find?_eq_some hfind)
    have hfound : p.data.blockHash = data.blockHash := by
      have := List.find?_some hfind
      simpa using this
    obtain ⟨z, attrs, header, gas, hz, hasm⟩ := hrec.pending _ hmem
    refine Verified.adopted (id, p) hmem z attrs header gas hz hasm ?_
    rw [hadm.hash_eq, ← hfound, hasm.data_eq]
    rfl
  · refine ⟨hre.block_eq, ?_, .reexecuted hre.block_eq ?_⟩
    · rw [hre.block_eq]
      exact hadm.hash_eq
    · obtain ⟨m, work, gas, hm, hwork, hrun, hgas⟩ := hre.ran
      obtain ⟨x', hx', rfl⟩ := hrec.machines _ m hm
      obtain rfl := Option.some.inj (hx.symm.trans hx')
      obtain rfl := M.fork_eq hwork
      obtain ⟨base, hbase, htree⟩ := hre.tree_eq
      obtain ⟨pbase, hpbase, hpasser⟩ := hre.passer_eq
      have hinputs := hre.inputs_eq
      rw [hrec.inputs _ x hx] at hinputs
      rw [hrec.trees _ x hx] at hbase
      rw [hrec.passers _ x hx] at hpbase
      cases hbase
      cases hpbase
      refine ⟨?_, ?_, ?_, (Option.some.inj hinputs).symm, hwork, ⟨gas, ?_, ?_⟩, ?_, htree, hpasser, ?_,
        ?_⟩
      · rw [hre.block_eq, hrec.keyed _ x hx]
        rfl
      · rw [hre.block_eq]
        exact hadm.number_eq
      · rw [hre.block_eq]
        exact hadm.time_lt
      · rw [hre.block_eq]
        exact hrun
      · rw [hre.block_eq]
        exact hgas
      · rw [hre.block_eq]
        exact hre.root_eq
      · rw [hre.block_eq]
        exact hre.withdrawals_eq.symm
      · rw [hre.block_eq]
        rfl

/-! ## Runs -/

/-- What a call adds to the ledger. -/
inductive Grows (G : Geth τ) (M : Machine σ) (L : Ledger σ) (c : Chain σ τ) :
    Call σ → Ledger σ → Prop
  | same {k : Call σ} : Grows G M L c k L
  | imported (rt : Runtime σ) (data : ExecutableData) (beaconRoot : Option Hash) (x y : Executed σ)
    (hadm : c.Admissible G data beaconRoot x.block) (hx : L data.parentHash = some x)
    (hfresh : L (y.block.hash G) = none)
    (hblock : y.block = ⟨payloadHeader G data beaconRoot, data.transactions⟩)
    (hverified : Verified G M L c data beaconRoot x y) :
    Grows G M L c (.importPayload rt data beaconRoot) (update L (y.block.hash G) (some y))

/-- The ledger after a call. -/
def Call.grow (G : Geth τ) (M : Machine σ) (k : Call σ) (c : Chain σ τ) (L : Ledger σ) : Ledger σ :=
  match k with
  | .importPayload rt data beaconRoot =>
    match c.verify G M rt data beaconRoot with
    | .ok (y, _) => update L (y.block.hash G) (some y)
    | .error _ => L
  | _ => L

/-- An import that does not verify leaves the chain and the ledger alone. -/
theorem Call.importPayload_error {answer : Except ChainError PayloadStatus}
    (hv : c.verify G M rt data beaconRoot = .error answer) (L : Ledger σ) :
    (Call.importPayload rt data beaconRoot).exec G M c = c ∧
      (Call.importPayload rt data beaconRoot).grow G M c L = L := by
  unfold Call.exec Call.grow
  simp only
  rw [Chain.importPayload_run, hv]
  cases answer <;> exact ⟨rfl, rfl⟩

/-- An import that verifies commits the block. -/
theorem Call.importPayload_ok {adopted : Option PayloadID}
    (hv : c.verify G M rt data beaconRoot = .ok (y, adopted)) (L : Ledger σ) :
    (Call.importPayload rt data beaconRoot).exec G M c =
        { c.commitAndPersist G M rt y with
          pending := c.pending.filter fun p => some p.1 ≠ adopted } ∧
      (Call.importPayload rt data beaconRoot).grow G M c L =
        update L (y.block.hash G) (some y) := by
  unfold Call.exec Call.grow
  simp only
  rw [Chain.importPayload_run, hv]
  exact ⟨rfl, rfl⟩

/-- An import changes nothing, or commits a block that was verified on one of the ledger. -/
theorem Recorded.import_cases {L : Ledger σ} (hrec : Recorded G M L c) (rt : Runtime σ)
    (data : ExecutableData) (beaconRoot : Option Hash) :
    ((Call.importPayload rt data beaconRoot).exec G M c = c ∧
      (Call.importPayload rt data beaconRoot).grow G M c L = L) ∨
    ∃ x y adopted, c.verify G M rt data beaconRoot = .ok (y, adopted) ∧
      (Call.importPayload rt data beaconRoot).exec G M c =
        { c.commitAndPersist G M rt y with
          pending := c.pending.filter fun p => some p.1 ≠ adopted } ∧
      (Call.importPayload rt data beaconRoot).grow G M c L =
        update L (y.block.hash G) (some y) ∧
      c.Admissible G data beaconRoot x.block ∧ L data.parentHash = some x ∧
      L (y.block.hash G) = none ∧ y.block = ⟨payloadHeader G data beaconRoot, data.transactions⟩ ∧
      Verified G M L c data beaconRoot x y := by
  cases hv : c.verify G M rt data beaconRoot with
  | error answer => exact .inl (Call.importPayload_error hv L)
  | ok ya =>
    obtain ⟨y, adopted⟩ := ya
    obtain ⟨hexec, hgrow⟩ := Call.importPayload_ok hv L
    obtain ⟨x, hadm, hx, hfresh, hblock, hhash, hverified⟩ := verified_cases hrec hv
    exact .inr ⟨x, y, adopted, rfl, hexec, hgrow, hadm, hx, hhash ▸ hfresh, hblock, hverified⟩

theorem Recorded.grows {L : Ledger σ} (hrec : Recorded G M L c) (k : Call σ) :
    Grows G M L c k (k.grow G M c L) := by
  cases k with
  | importPayload rt data beaconRoot =>
    rcases hrec.import_cases rt data beaconRoot with
      ⟨-, hgrow⟩ | ⟨x, y, -, -, -, hgrow, hadm, hx, hfresh, hblock, hverified⟩
    · rw [hgrow]
      exact .same
    · rw [hgrow]
      exact .imported rt data beaconRoot x y hadm hx hfresh hblock hverified
  | forkchoiceUpdated => exact .same
  | setMaxDASize => exact .same
  | queue => exact .same

/-- A call keeps the maps views of one ledger. -/
theorem Recorded.exec {L : Ledger σ} (hrec : Recorded G M L c) (k : Call σ) :
    Recorded G M (k.grow G M c L) (k.exec G M c) := by
  cases k with
  | importPayload rt data beaconRoot =>
    rcases hrec.import_cases rt data beaconRoot with
      ⟨hexec, hgrow⟩ | ⟨x, y, adopted, -, hexec, hgrow, -, -, hfresh, -⟩
    · rw [hexec, hgrow]
      exact hrec
    · rw [hexec, hgrow]
      exact hrec.commitAndPersist hfresh adopted
  | forkchoiceUpdated rt fc attrs =>
    have hstep := (Call.forkchoiceUpdated rt fc attrs).step (G := G) (M := M) hrec.block_keyed
    unfold Call.grow
    simp only
    generalize (Call.forkchoiceUpdated rt fc attrs).exec G M c = c' at hstep
    cases hstep with
    | trims h => exact hrec.trims h
    | @built c₁ h rt fc head attrs id p dropped hhead htime hnew hbuilds =>
      have hrec₁ := hrec.trims h
      obtain ⟨x, header, gas, hx, hblock, hasm⟩ := hrec₁.builds (h.blocks ▸ hhead) htime hbuilds
      exact hrec₁.pend (hblock ▸ hx) hasm dropped id
  | setMaxDASize limits => exact hrec.trims (.of_eq rfl rfl rfl rfl rfl rfl rfl rfl rfl rfl rfl)
  | queue pool =>
    exact ⟨hrec.keyed, hrec.blocks, hrec.outputs, hrec.trees, hrec.passers, hrec.inputs,
      hrec.machines, hrec.pending⟩

theorem cfg_exec (hkeyed : c.Keyed G) (k : Call σ) : (k.exec G M c).cfg = c.cfg := by
  have hstep := k.step (G := G) (M := M) hkeyed
  generalize k.exec G M c = c' at hstep
  cases hstep with
  | trims h => exact h.cfg
  | built h => exact h.cfg
  | imported => rfl
  | queued => rfl

theorem recorded_singleton (pool : Option Pool) (store : Option (Store σ τ)) (x : Executed σ)
    (txBlocks : Hash → List Hash) (genesisHash : Hash) :
    Recorded G M (update (fun _ => none) (x.block.hash G) (some x))
      (singleton G cfg pool store x txBlocks genesisHash) := by
  have hview : ∀ {α : Type} {dflt : α} (f : Executed σ → α) (h : Hash) (y : Executed σ),
      update (fun _ => none) (x.block.hash G) (some x) h = some y →
      update (fun _ => dflt) (x.block.hash G) (f x) h = f y := by
    intro α dflt f h y hy
    obtain ⟨rfl, rfl⟩ := update_none_eq_some hy
    exact update_self ..
  refine ⟨fun h y hy => ?_, fun h => ?_, hview Executed.outputs, hview fun y => some y.tree,
    hview fun y => some y.passer, hview fun y => some y.inputs, fun h m hm => ?_,
    fun q hq => nomatch hq⟩
  · obtain ⟨rfl, rfl⟩ := update_none_eq_some hy
    rfl
  · by_cases heq : h = x.block.hash G
    · subst heq
      simp [singleton]
    · simp [singleton, update_of_ne heq]
  · obtain ⟨rfl, rfl⟩ := update_none_eq_some hm
    exact ⟨x, update_self _ _ _, rfl⟩

/-- A fresh chain records its genesis block. -/
theorem recorded_fresh (h : Fresh G M c) : ∃ (cfg : Config) (m : σ) (x : Executed σ),
    c.cfg = cfg.withDefaults ∧
    genesis G M c.cfg m = .ok x ∧ c.genesisHash = x.block.hash G ∧ c.pending = [] ∧
    Recorded G M (update (fun _ => none) (x.block.hash G) (some x)) c := by
  cases h with
  | @inMemory cfg m pool c h =>
    obtain ⟨-, x, hx, rfl⟩ := new_eq_ok.1 h
    exact ⟨cfg, m, x, rfl, hx, rfl, rfl, recorded_singleton pool none x _ _⟩
  | @adopted cfg m pool c₀ c' h h' =>
    obtain ⟨-, x, hx, rfl⟩ := new_eq_ok.1 h
    unfold Chain.adopt at h'
    simp only [except_bind_eq_ok, expect_eq_ok] at h'
    obtain ⟨b, hb, s, hput, hpure⟩ := h'
    cases hpure
    exact ⟨cfg, m, x, rfl, hx, rfl, rfl,
      (recorded_singleton pool none x _ _).trims (.of_eq rfl rfl rfl rfl rfl rfl rfl rfl rfl rfl rfl)⟩

/-- A property of a chain and its ledger that every call keeps holds along a run. -/
theorem Reach.ledger {ok : Call σ → Prop} {c₀ : Chain σ τ} {L₀ : Ledger σ}
    (I : Ledger σ → Chain σ τ → Prop) (hrec₀ : Recorded G M L₀ c₀) (h₀ : I L₀ c₀)
    (hstep : ∀ (L : Ledger σ) (c : Chain σ τ) (k : Call σ), ok k → Recorded G M L c → I L c →
      I (k.grow G M c L) (k.exec G M c))
    (h : Reach G M ok c₀ c) : ∃ L, Recorded G M L c ∧ I L c := by
  induction h with
  | start => exact ⟨L₀, hrec₀, h₀⟩
  | call _ k hk ih =>
    obtain ⟨L, hrec, hI⟩ := ih
    exact ⟨_, hrec.exec k, hstep L _ k hk hrec hI⟩

/-- Every state of a run records a ledger. -/
theorem Reach.recorded {ok : Call σ → Prop} {c₀ : Chain σ τ} (h₀ : Fresh G M c₀)
    (h : Reach G M ok c₀ c) : ∃ L, Recorded G M L c ∧ ∃ cfg : Config, c.cfg = cfg.withDefaults := by
  obtain ⟨cfg, m, x, hcfg, -, -, -, hrec₀⟩ := recorded_fresh h₀
  refine h.ledger (fun _ c => ∃ cfg : Config, c.cfg = cfg.withDefaults) hrec₀ ⟨cfg, hcfg⟩ ?_
  rintro L c k - hrec ⟨cfg, hcfg⟩
  exact ⟨cfg, (cfg_exec hrec.block_keyed k).trans hcfg⟩

end OpCartesi.Node
