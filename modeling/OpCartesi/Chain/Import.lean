import OpCartesi.Chain.Collisions
import OpCartesi.Chain.Ledger

/-!
# What an import accepts

`ImportPayload` hashes some fields of a payload without looking at them, takes transactions as
opaque bytes, and adopts a pending payload by its hash.

* `import_valid`: a new block that is answered VALID was verified and committed.
* `stored_alike_iff`: which accepted blocks a store returns as they were committed.
* `imported_header_iff`: which accepted headers are such as this chain builds.
* `build_import_agree`: what a node built is accepted by it and by every node that holds the same
  parent, with the same records.
-/

namespace OpCartesi.Node

open Exec

variable {σ τ : Type} {G : Geth τ} {M : Machine σ} {rt : Runtime σ} {cfg : Config} {c c' : Chain σ τ}
  {attrs : PayloadAttributes} {data : ExecutableData} {p : PendingPayload σ}
  {beaconRoot : Option Hash} {header : Header} {x : Executed σ} {parent : Block} {L : Ledger σ}
  {gas : ℕ} {h : Hash}

/-! ## The answers -/

namespace Chain

/-- A re-execution never answers VALID by itself. -/
theorem reexecute_ne_valid {parentHash h : Hash} :
    c.reexecute G M header data parentHash ≠ .error (.ok (.valid h)) := by
  unfold reexecute
  intro herr
  simp only [except_bind_eq_error, expect_eq_error, require_eq_error, mapError_eq_error,
    Except.ok.injEq, reduceCtorEq, and_false, exists_const, exists_false, or_false, pure,
    Except.pure] at herr

/-- Without a commit, only a block that is held is answered VALID. -/
theorem verify_eq_valid (herr : c.verify G M rt data beaconRoot = .error (.ok (.valid h))) :
    checkPayload data = .ok () ∧ (payloadHeader G data beaconRoot).hash G = data.blockHash ∧
      h = data.blockHash ∧ c.blocks h ≠ none := by
  unfold verify at herr
  simp only [except_bind_eq_error, expect_eq_error, require_eq_error, mapError_eq_error,
    Except.ok.injEq, reduceCtorEq, and_false, false_or, exists_false,
    PayloadStatus.valid.injEq] at herr
  obtain ⟨header, hread, ⟨⟩, hhash, hrest⟩ := herr
  rcases hrest with ⟨hheld, rfl⟩ | hrest
  · obtain ⟨hcheck, rfl⟩ := headerFromPayload_eq_ok.1 (mapError_eq_ok.1 hread)
    rw [require_eq_ok] at hhash
    exact ⟨hcheck, hhash, hhash, hheld⟩
  · obtain ⟨-, -, parent, -, -, -, -, -, hrest⟩ := hrest
    split at hrest
    · cases hrest
    · simp only [except_bind_eq_error] at hrest
      rcases hrest with hre | ⟨x, -, hpure⟩
      · exact absurd hre reexecute_ne_valid
      · cases hpure

end Chain

/-- The chain holds a block with these records, and the machine too. -/
structure Chain.Holds (G : Geth τ) (c : Chain σ τ) (y : Executed σ) : Prop where
  block : c.blocks (y.block.hash G) = some y.block
  outputs : c.outputs (y.block.hash G) = y.outputs
  tree : c.trees (y.block.hash G) = some y.tree
  passer : c.passers (y.block.hash G) = some y.passer
  inputs : c.inputs (y.block.hash G) = some y.inputs
  machine : c.machines (y.block.hash G) = some y.machine

theorem holds_commit (y : Executed σ) (pending : List (PayloadID × PendingPayload σ)) :
    ({ c.commitAndPersist G M rt y with pending := pending } : Chain σ τ).Holds G y := by
  constructor <;>
    simp only [Chain.commitAndPersist, Chain.persist, Chain.commit, Function.update_self]

theorem verify_block {y : Executed σ} {adopted : Option PayloadID}
    (h : c.verify G M rt data beaconRoot = .ok (y, adopted)) :
    y.block = ⟨payloadHeader G data beaconRoot, data.transactions⟩ := by
  obtain ⟨parent, -, hrest⟩ := Chain.verify_eq_ok.1 h
  rcases hrest with ⟨id, p, -, -, rfl⟩ | ⟨-, -, hre⟩
  · rfl
  · exact hre.block_eq

/-- A block that is new and answered VALID was verified, and is committed. -/
theorem import_valid (hrun : (Chain.importPayload G M rt data beaconRoot).run c = .ok (.valid h) c')
    (hnew : c.blocks h = none) :
    ∃ y adopted, c.verify G M rt data beaconRoot = .ok (y, adopted) ∧ y.block.hash G = h ∧
      c'.Holds G y ∧
      c' = { c.commitAndPersist G M rt y with
        pending := c.pending.filter fun p => some p.1 ≠ adopted } := by
  rw [Chain.importPayload_run] at hrun
  cases hv : c.verify G M rt data beaconRoot with
  | error answer =>
    rw [hv] at hrun
    cases answer with
    | error e => cases hrun
    | ok status =>
      cases hrun
      exact absurd hnew (Chain.verify_eq_valid hv).2.2.2
  | ok xa =>
    rw [hv] at hrun
    cases hrun
    exact ⟨xa.1, xa.2, rfl, rfl, holds_commit _ _, rfl⟩

/-! ## Storing what was accepted -/

theorem Header.stored_eq_iff {h : Header} :
    h.stored = h ↔ h.blobGasUsed ≠ none ∧ h.excessBlobGas ≠ none := by
  constructor
  · intro heq
    rw [← heq]
    exact ⟨by simp [Header.stored], by simp [Header.stored]⟩
  · rintro ⟨hused, hexcess⟩
    obtain ⟨used, hused⟩ := Option.ne_none_iff_exists'.1 hused
    obtain ⟨excess, hexcess⟩ := Option.ne_none_iff_exists'.1 hexcess
    rw [Header.stored, hused, hexcess, Option.getD_some, Option.getD_some, ← hused, ← hexcess]

theorem mapM_eq_some_iff {α β : Type} {f : α → Option β} (l : List α) :
    (∃ l', l.mapM f = some l') ↔ ∀ a ∈ l, f a ≠ none := by
  induction l with
  | nil => simp
  | cons a l ih =>
    rw [List.forall_mem_cons, ← ih]
    cases hf : f a <;> simp [hf, Option.bind_eq_some_iff]

/-- A store returns an accepted block as it was committed exactly if every transaction decodes and
    neither blob gas field is absent. -/
theorem stored_alike_iff (hG : G.Reencodes) (s : Store σ τ) {data : ExecutableData}
    {beaconRoot : Option Hash} {h : Hash}
    (hrun : (Chain.importPayload G M rt data beaconRoot).run c = .ok (.valid h) c')
    (hnew : c.blocks h = none) :
    (∃ b tree n s', c'.blocks h = some b ∧ c'.trees h = some tree ∧ c'.inputs h = some n ∧
        s.putBlock G b (c'.outputs h) tree n = .ok s' ∧ s'.block G h = some b ∧
        s'.records h = .ok (c'.outputs h, tree, n)) ↔
      (∀ tx ∈ data.transactions, G.unmarshalBinary tx ≠ none) ∧
        data.blobGasUsed ≠ none ∧ data.excessBlobGas ≠ none := by
  obtain ⟨y, adopted, hverify, rfl, hholds, -⟩ := import_valid hrun hnew
  have hblock := verify_block hverify
  have hstored : y.block.header.stored = y.block.header ↔
      data.blobGasUsed ≠ none ∧ data.excessBlobGas ≠ none := by
    rw [hblock]
    exact Header.stored_eq_iff
  have htxs : y.block.txs = data.transactions := by rw [hblock]
  rw [← hstored, ← mapM_eq_some_iff, ← htxs, hholds.block, hholds.tree, hholds.inputs,
    hholds.outputs]
  constructor
  · rintro ⟨b, tree, n, s', hb, htree, hn, hput, hread, -⟩
    cases hb
    obtain ⟨txs, htxs, -⟩ := putBlock_eq_ok.1 hput
    rw [block_putBlock hG hput] at hread
    exact ⟨⟨txs, htxs⟩, congrArg Block.header (Option.some.inj hread)⟩
  · rintro ⟨⟨txs, htxs⟩, hheader⟩
    obtain ⟨s', hput⟩ : ∃ s', s.putBlock G y.block y.outputs y.tree y.inputs = .ok s' :=
      ⟨_, putBlock_eq_ok.2 ⟨txs, htxs, rfl⟩⟩
    refine ⟨y.block, y.tree, y.inputs, s', rfl, rfl, rfl, hput, ?_, records_putBlock hput⟩
    rw [block_putBlock hG hput, hheader]

namespace Sample

theorem geth_reencodes : geth.Reencodes := by
  intro raw tx h
  simp only [geth] at h
  split_ifs at h
  exact h.symm

/-- An empty block, and a block with a transaction that does not decode. -/
def plain : ExecutableData :=
  executableData geth (child geth (genesisBlock geth).block.header 1 (hashOf 0) []) []

def undecodable : ExecutableData :=
  executableData geth (child geth (genesisBlock geth).block.header 1 (hashOf 1) [[0xff]]) [[0xff]]

end Sample

open Sample in
theorem stored_alike_iff_sample : ∃ c',
    (Chain.importPayload geth machine runtime plain none).run (start geth none) =
      .ok (.valid plain.blockHash) c' ∧
    ∃ b tree n s', c'.blocks plain.blockHash = some b ∧ c'.trees plain.blockHash = some tree ∧
      c'.inputs plain.blockHash = some n ∧
      (Store.empty : Store ℕ Bytes).putBlock geth b (c'.outputs plain.blockHash) tree n = .ok s' ∧
      s'.block geth plain.blockHash = some b ∧
      s'.records plain.blockHash = .ok (c'.outputs plain.blockHash, tree, n) := by
  have hrun := eq_of_answer_ok (show answer ((Chain.importPayload geth machine runtime plain
    none).run (start geth none)) = .ok (.valid plain.blockHash) by decide +kernel)
  exact ⟨_, hrun, (stored_alike_iff geth_reencodes Store.empty hrun (by decide +kernel)).2
    ⟨by decide, by decide, by decide⟩⟩

open Sample in
/-- A payload with a transaction that does not decode is answered VALID, and no store takes it. -/
theorem accepted_not_stored : ∃ c' y,
    (Chain.importPayload geth machine runtime undecodable none).run (start geth none) =
      .ok (.valid undecodable.blockHash) c' ∧ c'.Holds geth y ∧
    y.block.txs = undecodable.transactions ∧
    ∀ s : Store ℕ Bytes, s.putBlock geth y.block y.outputs y.tree y.inputs =
      .error (.doesNotDecode (y.block.hash geth) 0) := by
  have hrun := eq_of_answer_ok (show answer ((Chain.importPayload geth machine runtime undecodable
    none).run (start geth none)) = .ok (.valid undecodable.blockHash) by decide +kernel)
  obtain ⟨y, adopted, hverify, -, hholds, -⟩ := import_valid hrun (by decide +kernel)
  have htxs : y.block.txs = [[0xff]] := by rw [verify_block hverify]; rfl
  refine ⟨_, y, hrun, hholds, htxs, fun s => ?_⟩
  rw [Store.putBlock, htxs]
  rfl

/-! ## Headers that are accepted -/

/-- The header of `y` is one that a build on `x` makes, for some attributes, from what executing the
    block gave. -/
def Buildable (G : Geth τ) (M : Machine σ) (cfg : Config) (x y : Executed σ) : Prop :=
  ∃ attrs gas txs extra root,
    replayImport G M cfg
      (cfg.inputContextFor x.block.header attrs.timestamp attrs.random y.firstInput) x.machine txs =
        .ok ⟨⟨gas, y.outputs, y.machine⟩, txs⟩ ∧
    M.rootHash y.machine = some root ∧ cfg.extraData attrs.eip1559Params = .ok extra ∧
    y.block.header = buildHeader G x.block.header attrs root txs
      (min gas (Chain.gasLimitFor x.block attrs)) (Chain.gasLimitFor x.block attrs) cfg.baseFee extra
      (y.passer.root G)

/-- The fields of a payload that an import hashes and nothing else. -/
structure ExecutableData.Plain (cfg : Config) (data : ExecutableData) : Prop where
  receiptsRoot : data.receiptsRoot = EmptyReceiptsHash
  logsBloom : data.logsBloom = zeros BloomByteLength
  baseFeePerGas : data.baseFeePerGas = cfg.baseFee
  blobGasUsed : data.blobGasUsed = some 0
  excessBlobGas : data.excessBlobGas = some 0

theorem Buildable.plain {x y : Executed σ} (h : Buildable G M cfg x y)
    (hblock : y.block = ⟨payloadHeader G data beaconRoot, data.transactions⟩) : data.Plain cfg := by
  obtain ⟨attrs, gas, txs, extra, root, -, -, -, hheader⟩ := h
  rw [hblock] at hheader
  exact ⟨congrArg Header.receiptHash hheader, congrArg Header.bloom hheader,
    congrArg Header.baseFee hheader, congrArg Header.blobGasUsed hheader,
    congrArg Header.excessBlobGas hheader⟩

theorem Executes.buildable {x y : Executed σ} (h : Executes G M cfg x y)
    (hblock : y.block = ⟨payloadHeader G data beaconRoot, data.transactions⟩)
    (hextra : validateHoloceneExtraData data.extraData = .ok ()) (hplain : data.Plain cfg) :
    Buildable G M cfg x y := by
  obtain ⟨gas, hran, hgas⟩ := h.ran
  have hparent := h.parent_eq
  have hnumber := h.number_eq
  have hwithdrawals := h.withdrawals_eq
  have hroot := h.root_eq
  rw [hblock] at hran hgas hparent hnumber hwithdrawals hroot
  -- attributes that lead to the fields the payload has
  refine ⟨⟨data.timestamp, data.random, data.feeRecipient, [], beaconRoot, [], true,
    some data.gasLimit, data.extraData.drop 1⟩, gas, data.transactions, data.extraData,
    data.stateRoot, ?_, hroot, extraData_surjective cfg hextra, ?_⟩
  · rw [← hran]
    congr 1
    rw [Config.inputContextFor, Config.inputContextOf, InputContext.mk.injEq]
    exact ⟨rfl, rfl, hnumber.symm, rfl, rfl, rfl⟩
  · rw [hblock, payloadHeader, buildHeader, Header.mk.injEq]
    exact ⟨hparent, rfl, rfl, rfl, rfl, hplain.receiptsRoot, hplain.logsBloom, rfl, hnumber, rfl,
      hgas.symm, rfl, rfl, rfl, rfl, hplain.baseFeePerGas, hwithdrawals, hplain.blobGasUsed,
      hplain.excessBlobGas, rfl, rfl⟩

theorem Assembled.context (h : Assembled G M cfg x p attrs header gas) :
    cfg.inputContextFor x.block.header attrs.timestamp attrs.random p.firstInput =
      cfg.inputContextOf header p.firstInput := by
  rw [h.header_eq]
  rfl

/-- An accepted header is one this chain could have built exactly if the fields that are only hashed
    are the ones a build writes. -/
theorem imported_header_iff (hG : G.HeadersDiffer) {c₀ : Chain σ τ} (h₀ : Fresh G M c₀)
    (hreach : Reach G M (fun _ => True) c₀ c) {data : ExecutableData} {beaconRoot : Option Hash}
    {h : Hash} (hrun : (Chain.importPayload G M rt data beaconRoot).run c = .ok (.valid h) c')
    (hnew : c.blocks h = none) :
    ∃ L x y, Recorded G M L c ∧ L data.parentHash = some x ∧ y.block.hash G = h ∧ c'.Holds G y ∧
      (Buildable G M c.cfg x y ↔ data.Plain c.cfg) := by
  obtain ⟨L, hrec, -⟩ := hreach.recorded h₀
  obtain ⟨y, adopted, hverify, hhash, hholds, -⟩ := import_valid hrun hnew
  obtain ⟨x, hadm, hx, -, hblock, -, hverified⟩ := verified_cases hrec hverify
  have hextra := (checkPayload_eq_ok.1 hadm.checked).2.2.2.1
  refine ⟨L, x, y, hrec, hx, hhash, hholds, fun hbuild => hbuild.plain hblock, fun hplain => ?_⟩
  cases hverified with
  | reexecuted _ hexec => exact hexec.buildable hblock hextra hplain
  | adopted q hq z attrs header gas hz hasm hsame =>
    have hstored := hG _ _ hsame
    have hheader : payloadHeader G data beaconRoot = header := by
      have hdata : (payloadHeader G data beaconRoot).stored = payloadHeader G data beaconRoot :=
        Header.stored_eq_iff.2 ⟨by simp [payloadHeader, hplain.blobGasUsed],
          by simp [payloadHeader, hplain.excessBlobGas]⟩
      have hbuilt : header.stored = header := by
        rw [hasm.header_eq]
        exact Header.stored_eq_iff.2 ⟨by simp [buildHeader], by simp [buildHeader]⟩
      rw [← hdata, ← hstored, hbuilt]
    obtain rfl : z = x := by
      have hparent : z.block.hash G = data.parentHash := by
        rw [← hasm.executes.parent_eq]
        exact (congrArg Header.parentHash hheader).symm
      rw [hparent, hx] at hz
      exact (Option.some.inj hz).symm
    refine ⟨attrs, gas, q.2.data.transactions, header.extra, header.root, ?_, hasm.root_eq,
      hasm.extra_eq, hheader.trans hasm.header_eq⟩
    show replayImport G M c.cfg (c.cfg.inputContextFor _ _ _ q.2.firstInput) _ _ = _
    rw [hasm.context]
    exact hasm.ran

namespace Sample

/-- An empty block, and one with a receipts root of its own. -/
def built : ExecutableData :=
  executableData exact (child exact (genesisBlock exact).block.header 1 (hashOf 0) []) []

def receipted : ExecutableData :=
  executableData exact
    { child exact (genesisBlock exact).block.header 1 (hashOf 0) [] with receiptHash := hashOf 5 } []

end Sample

open Sample in
theorem imported_header_iff_sample : ∃ c',
    (Chain.importPayload exact machine runtime built none).run (start exact none) =
      .ok (.valid built.blockHash) c' ∧
    ∃ L x y, Recorded exact machine L (start exact none) ∧ L built.parentHash = some x ∧
      c'.Holds exact y ∧ Buildable exact machine (start exact none).cfg x y := by
  have hrun := eq_of_answer_ok (show answer ((Chain.importPayload exact machine runtime built
    none).run (start exact none)) = .ok (.valid built.blockHash) by decide +kernel)
  obtain ⟨L, x, y, hrec, hx, -, hholds, hiff⟩ := imported_header_iff exact_headersDiffer
    (.inMemory (new_start exact none)) .start hrun (by decide +kernel)
  exact ⟨_, hrun, L, x, y, hrec, hx, hholds, hiff.2 ⟨rfl, rfl, rfl, rfl, rfl⟩⟩

open Sample in
/-- A payload with a receipts root that no build writes is answered VALID. -/
theorem accepted_not_buildable : ∃ c' y,
    (Chain.importPayload exact machine runtime receipted none).run (start exact none) =
      .ok (.valid receipted.blockHash) c' ∧ c'.Holds exact y ∧
    y.block.header.receiptHash ≠ EmptyReceiptsHash ∧
    ∀ x, ¬Buildable exact machine (start exact none).cfg x y := by
  have hrun := eq_of_answer_ok (show answer ((Chain.importPayload exact machine runtime receipted
    none).run (start exact none)) = .ok (.valid receipted.blockHash) by decide +kernel)
  obtain ⟨y, adopted, hverify, -, hholds, -⟩ := import_valid hrun (by decide +kernel)
  have hblock := verify_block hverify
  have hreceipts : receipted.receiptsRoot ≠ EmptyReceiptsHash := by decide +kernel
  refine ⟨_, y, hrun, hholds, ?_, fun x hbuild => hreceipts (hbuild.plain hblock).receiptsRoot⟩
  rw [hblock]
  exact hreceipts

/-! ## Builder and verifier agree -/

/-- No forced transaction is empty, and what is queued decodes. -/
def Call.WellFormed (G : Geth τ) : Call σ → Prop
  | .forkchoiceUpdated _ _ (some attrs) => [] ∉ attrs.transactions
  | .queue pool => pool.Decodes G
  | _ => True

/-- No pending payload carries an empty transaction, and the pool's transactions decode. -/
structure Chain.Spelled (G : Geth τ) (c : Chain σ τ) : Prop where
  pending : ∀ q ∈ c.pending, [] ∉ q.2.data.transactions
  pool : ∀ p, c.pool = some p → p.Decodes G

theorem Chain.Spelled.trims (h : c.Spelled G) (ht : Chain.Trims c c') : c'.Spelled G where
  pending q hq := h.pending q (ht.pending.subset hq)
  pool p' hp' e he := by
    obtain ⟨p, hp, hsub⟩ := ht.pool p' hp'
    exact h.pool p hp e (hsub.subset he)

/-- The transactions of a build come from the attributes and the pool. -/
theorem builds_transactions {dropped : List Hash} (h : c.Builds G M parent attrs p dropped) :
    ∀ tx ∈ p.data.transactions, tx ∈ attrs.transactions ∨ tx ∈ c.poolTxs attrs := by
  obtain ⟨m, exec, -, hrun, hassemble⟩ := h
  generalize p.firstInput = first at hrun hassemble
  unfold Chain.runBuild at hrun
  simp only [except_bind_eq_ok, expect_eq_ok] at hrun
  obtain ⟨work, -, first', -, ⟨exec', dropped'⟩, happly, hpure⟩ := hrun
  cases hpure
  unfold Chain.assemble at hassemble
  simp only [except_bind_eq_ok] at hassemble
  obtain ⟨root, -, extra, -, base, -, tree, -, passer, -, hpure⟩ := hassemble
  cases hpure
  exact mem_included_of_applyBuild happly

theorem Chain.Spelled.builds (hempty : G.unmarshalBinary [] = none) (h : c.Spelled G)
    {dropped : List Hash} (hattrs : [] ∉ attrs.transactions)
    (hbuilds : c.Builds G M parent attrs p dropped) : [] ∉ p.data.transactions := by
  intro hmem
  rcases builds_transactions hbuilds [] hmem with hforced | hpool
  · exact hattrs hforced
  · unfold Chain.poolTxs at hpool
    split_ifs at hpool
    · cases hpool
    · cases hp : c.pool with
      | none =>
        rw [hp] at hpool
        cases hpool
      | some pool =>
        rw [hp] at hpool
        obtain ⟨e, he, heq⟩ := List.mem_map.1 hpool
        obtain ⟨tx, htx⟩ := h.pool pool hp e he
        rw [heq, hempty] at htx
        cases htx

theorem Chain.Spelled.pend (h : c.Spelled G) (hp : [] ∉ p.data.transactions) (dropped : List Hash)
    (id : PayloadID) :
    ({ c.forget dropped with pending := c.pending ++ [(id, p)] } : Chain σ τ).Spelled G := by
  refine ⟨fun q hq => ?_, (h.trims (Chain.trims_forget dropped)).pool⟩
  rcases List.mem_append.1 hq with hold | hnew
  · exact h.pending q hold
  · obtain rfl := List.mem_singleton.1 hnew
    exact hp

theorem Chain.Spelled.exec (hempty : G.unmarshalBinary [] = none) (h : c.Spelled G)
    (hkeyed : c.Keyed G) (k : Call σ) (hk : k.WellFormed G) : (k.exec G M c).Spelled G := by
  have hstep := k.step (G := G) (M := M) hkeyed
  generalize k.exec G M c = c' at hstep
  cases hstep with
  | trims ht => exact h.trims ht
  | built ht rt fc head attrs id p dropped _ _ _ hbuilds =>
    have h₁ := h.trims ht
    exact h₁.pend (h₁.builds hempty hk hbuilds) dropped id
  | imported rt data beaconRoot y adopted =>
    exact ⟨fun q hq => h.pending q (List.mem_of_mem_filter hq),
      (h.trims (Chain.trims_forget _)).pool⟩
  | queued pool =>
    refine ⟨h.pending, fun p hp => ?_⟩
    obtain ⟨-, -, rfl⟩ := Option.map_eq_some_iff.1 hp
    exact hk

/-- On one parent, blocks without empty transactions that have one hash recorded the same. -/
theorem Executes.unique (hG : G.HeadersDiffer) (hG' : G.TxsDiffer) {x x' y y' : Executed σ}
    (h : Executes G M cfg x y) (h' : Executes G M cfg x' y') (hparent : x.stored = x'.stored)
    (htxs : [] ∉ y.block.txs) (htxs' : [] ∉ y'.block.txs)
    (hhash : y.block.hash G = y'.block.hash G) : y.stored = y'.stored := by
  have hstored : y.block.header.stored = y'.block.header.stored := hG _ _ hhash
  have hfield : ∀ {α : Type} (f : Header → α), (∀ h : Header, f h.stored = f h) →
      f y.block.header = f y'.block.header := by
    intro α f hf
    rw [← hf y.block.header, hstored, hf]
  have hrecord : ∀ {α : Type} (f : Executed σ → α), (∀ z : Executed σ, f z.stored = f z) →
      f x = f x' := by
    intro α f hf
    rw [← hf x, hparent, hf]
  have htx : y.block.txs = y'.block.txs := by
    refine hG' _ _ htxs htxs' (h.txHash_eq.symm.trans ?_)
    exact (hfield Header.txHash fun _ => rfl).trans h'.txHash_eq
  have hfirst : y.firstInput = y'.firstInput := by
    rw [h.first_eq, h'.first_eq]
    exact hrecord Executed.inputs fun _ => rfl
  obtain ⟨gas, hran, -⟩ := h.ran
  obtain ⟨gas', hran', -⟩ := h'.ran
  rw [hfield (fun h => cfg.inputContextOf h y.firstInput) fun _ => rfl, hfirst, htx,
    hrecord Executed.machine fun _ => rfl, hran'] at hran
  simp only [Except.ok.injEq, ExecResult.mk.injEq, Trace.mk.injEq, and_true] at hran
  obtain ⟨-, houtputs, hmachine⟩ := hran
  have htree : y.tree = y'.tree := by
    have heq := h.tree_eq
    rw [hrecord Executed.tree fun _ => rfl, ← houtputs, h'.tree_eq] at heq
    exact (Option.some.inj heq).symm
  have hpasser : y.passer = y'.passer := by
    rw [h.passer_eq, h'.passer_eq, hrecord Executed.passer fun _ => rfl, houtputs, htree]
  rw [Executed.stored, Executed.stored, Executed.mk.injEq]
  exact ⟨by rw [hstored, htx], hmachine.symm, houtputs.symm, htree, hpasser, hfirst⟩

/-- Two payloads assembled under one hash recorded the same. -/
theorem Assembled.unique (hG : G.HeadersDiffer) (hG' : G.TxsDiffer) {x x' : Executed σ}
    {p p' : PendingPayload σ} {attrs attrs' : PayloadAttributes} {header header' : Header}
    {gas gas' : ℕ} (hx : L (x.block.hash G) = some x) (hx' : L (x'.block.hash G) = some x')
    (h : Assembled G M cfg x p attrs header gas) (h' : Assembled G M cfg x' p' attrs' header' gas')
    (htxs : [] ∉ p.data.transactions) (htxs' : [] ∉ p'.data.transactions)
    (hhash : header.hash G = header'.hash G) (b : Block) : p.executed b = p'.executed b := by
  obtain rfl : x = x' := by
    have hparent : x.block.hash G = x'.block.hash G := by
      rw [← h.executes.parent_eq, ← h'.executes.parent_eq]
      exact (congrArg Header.parentHash (hG _ _ hhash) : header.stored.parentHash = _)
    rw [hparent, hx'] at hx
    exact (Option.some.inj hx).symm
  have hsame := h.executes.unique hG hG' h'.executes rfl htxs htxs' hhash
  have hfield : ∀ {α : Type} (f : Executed σ → α), (∀ z : Executed σ, f z.stored = f z) →
      f (p.executed ⟨header, p.data.transactions⟩) =
        f (p'.executed ⟨header', p'.data.transactions⟩) := by
    intro α f hf
    rw [← hf, hsame, hf]
  rw [PendingPayload.executed, PendingPayload.executed, Executed.mk.injEq]
  exact ⟨rfl, hfield Executed.machine fun _ => rfl, hfield Executed.outputs fun _ => rfl,
    hfield Executed.tree fun _ => rfl, hfield Executed.passer fun _ => rfl,
    hfield Executed.firstInput fun _ => rfl⟩

/-- Two nodes of one configuration hold a block with the same records and the same machine. -/
structure SameAt (c d : Chain σ τ) (h : Hash) : Prop where
  cfg : d.cfg = c.cfg
  block : d.blocks h = c.blocks h
  machine : ∃ m, c.machines h = some m ∧ d.machines h = some m
  tree : d.trees h = c.trees h
  passer : d.passers h = c.passers h
  inputs : d.inputs h = c.inputs h

/-- Reading an assembled payload back. -/
theorem Assembled.header_payload (h : Assembled G M cfg x p attrs header gas)
    (hcfg : ∃ cfg₀ : Config, cfg = cfg₀.withDefaults) :
    checkPayload p.data = .ok () ∧ payloadHeader G p.data (some p.beaconRoot) = header := by
  obtain ⟨cfg₀, rfl⟩ := hcfg
  have hextra := extraData_valid (Config.withDefaults_denominator cfg₀) h.extra_eq
  have hheader : header = buildHeader G x.block.header attrs header.root p.data.transactions
    (min gas (Chain.gasLimitFor x.block attrs)) (Chain.gasLimitFor x.block attrs)
    (some (cfg₀.baseFee.getD 1000000000)) header.extra (p.passer.root G) := h.header_eq
  have hbeacon : p.beaconRoot = attrs.beaconRoot.getD zeroHash := by
    rw [h.beaconRoot_eq]
    exact congrArg Header.parentBeaconRoot hheader
  have hread : headerFromPayload G p.data (some p.beaconRoot) = .ok header := by
    rw [h.data_eq, hbeacon, hheader]
    exact headerFromPayload_executableData hextra
  obtain ⟨hcheck, heq⟩ := headerFromPayload_eq_ok.1 hread
  exact ⟨hcheck, heq.symm⟩

theorem Assembled.admissible (h : Assembled G M cfg x p attrs header gas)
    (hcfg : ∃ cfg₀ : Config, cfg = cfg₀.withDefaults)
    (hheld : c.blocks p.data.parentHash = some x.block) (hfresh : c.blocks p.data.blockHash = none) :
    c.Admissible G p.data (some p.beaconRoot) x.block where
  checked := (h.header_payload hcfg).1
  hash_eq := by
    rw [(h.header_payload hcfg).2]
    exact (congrArg ExecutableData.blockHash h.data_eq).symm
  fresh := hfresh
  held := hheld
  number_eq := (congrArg ExecutableData.number h.data_eq).trans h.executes.number_eq
  time_lt := h.executes.time_lt.trans_eq (congrArg ExecutableData.timestamp h.data_eq).symm

/-- The node that holds a payload pending adopts what it recorded. -/
theorem Assembled.adopted (hG : G.HeadersDiffer) (hG' : G.TxsDiffer) (hrec : Recorded G M L c)
    (hspelled : c.Spelled G) (hcfg : ∃ cfg₀ : Config, c.cfg = cfg₀.withDefaults)
    {q : PayloadID × PendingPayload σ} (hq : q ∈ c.pending) (hx : L (x.block.hash G) = some x)
    (h : Assembled G M c.cfg x q.2 attrs header gas) (hfresh : c.blocks q.2.data.blockHash = none)
    (rt : Runtime σ) :
    ∃ adopted, c.verify G M rt q.2.data (some q.2.beaconRoot) =
      .ok (q.2.executed ⟨header, q.2.data.transactions⟩, adopted) := by
  have hheld : c.blocks q.2.data.parentHash = some x.block := by
    rw [(congrArg ExecutableData.parentHash h.data_eq).trans h.executes.parent_eq, hrec.blocks, hx]
    rfl
  have hadm := h.admissible hcfg hheld hfresh
  have hread := (h.header_payload hcfg).2
  -- some pending payload of this hash is found, and it has the same records
  obtain ⟨q', hfind⟩ : ∃ q', (rt.order c.pending).find?
      (fun q' => q'.2.data.blockHash == q.2.data.blockHash) = some q' := by
    rw [← Option.isSome_iff_exists, List.find?_isSome]
    exact ⟨q, (rt.order_perm _).mem_iff.2 hq, by simp⟩
  have hq' : q' ∈ c.pending := (rt.order_perm _).mem_iff.1 (List.mem_of_find?_eq_some hfind)
  have hhash : q'.2.data.blockHash = q.2.data.blockHash := by
    have := List.find?_some hfind
    simpa using this
  obtain ⟨x', attrs', header', gas', hx', h'⟩ := hrec.pending q' hq'
  have hsame := Assembled.unique hG hG' hx hx' h h' (hspelled.pending q hq)
    (hspelled.pending q' hq')
    ((congrArg ExecutableData.blockHash h.data_eq).symm.trans
      (hhash.symm.trans (congrArg ExecutableData.blockHash h'.data_eq)))
  refine ⟨some q'.1, Chain.verify_eq_ok.2 ⟨x.block, hadm, .inl ⟨q'.1, q'.2, hfind, rfl, ?_⟩⟩⟩
  rw [hsame, hread]
  rfl

/-- A node that holds the same parent reaches the same records by executing the payload. -/
theorem Assembled.reexecuted {d : Chain σ τ} (hrec : Recorded G M L c)
    (hcfg : ∃ cfg₀ : Config, c.cfg = cfg₀.withDefaults) (hx : L (x.block.hash G) = some x)
    (h : Assembled G M c.cfg x p attrs header gas) (hsame : SameAt c d p.data.parentHash)
    (hfresh : d.blocks p.data.blockHash = none)
    (hpending : ∀ q ∈ d.pending, q.2.data.blockHash ≠ p.data.blockHash) (rt : Runtime σ) :
    d.verify G M rt p.data (some p.beaconRoot) =
      .ok (p.executed ⟨header, p.data.transactions⟩, none) := by
  have hparent : p.data.parentHash = x.block.hash G :=
    (congrArg ExecutableData.parentHash h.data_eq).trans h.executes.parent_eq
  have hfield : ∀ {α : Type} (f : ExecutableData → α),
      f p.data = f (executableData G header p.data.transactions) := fun f => congrArg f h.data_eq
  obtain ⟨m, hm, hm'⟩ := hsame.machine
  have hheld : d.blocks p.data.parentHash = some x.block := by
    rw [hsame.block, hparent, hrec.blocks, hx]
    rfl
  obtain rfl : x.machine = m := by
    obtain ⟨x', hx', hmachine⟩ := hrec.machines _ m hm
    rw [hparent, hx] at hx'
    rwa [Option.some.inj hx']
  have hread := (h.header_payload hcfg).2
  have hexec := h.executes
  obtain ⟨gas', hran, hgas⟩ := hexec.ran
  have hnone : (rt.order d.pending).find? (fun q => q.2.data.blockHash == p.data.blockHash) =
      none := by
    rw [List.find?_eq_none]
    intro q hq
    simpa using hpending q ((rt.order_perm _).mem_iff.1 hq)
  refine Chain.verify_eq_ok.2 ⟨x.block, h.admissible hcfg hheld hfresh, .inr ⟨hnone, rfl, ?_⟩⟩
  rw [hread]
  refine ⟨rfl, ⟨x.machine, x.machine, gas', hm', h.forks, ?_, ?_⟩, ?_, ?_, ⟨x.tree, ?_, hexec.tree_eq⟩,
    ⟨x.passer, ?_, hexec.passer_eq⟩, ?_⟩
  · rw [hsame.cfg]
    exact hran
  · rw [hfield ExecutableData.gasLimit, hfield ExecutableData.gasUsed]
    exact hgas
  · rw [hsame.inputs, hparent, hrec.inputs _ x hx]
    exact congrArg some h.first_eq.symm
  · rw [hfield ExecutableData.stateRoot]
    exact hexec.root_eq
  · rw [hsame.tree, hparent, hrec.trees _ x hx]
  · rw [hsame.passer, hparent, hrec.passers _ x hx]
  · rw [hfield ExecutableData.withdrawalsRoot]
    exact hexec.withdrawals_eq.symm

/-- A block that is held is answered VALID. -/
theorem Chain.verify_held (hcheck : checkPayload data = .ok ())
    (hhash : (payloadHeader G data beaconRoot).hash G = data.blockHash)
    (hheld : c.blocks data.blockHash ≠ none) :
    c.verify G M rt data beaconRoot = .error (.ok (.valid data.blockHash)) := by
  have hread : headerFromPayload G data beaconRoot = .ok (payloadHeader G data beaconRoot) :=
    headerFromPayload_eq_ok.2 ⟨hcheck, rfl⟩
  unfold Chain.verify
  simp only [hread, Except.mapError, bind, Except.bind, hhash, require, if_pos, if_neg hheld]

theorem Reach.spelled (hempty : G.unmarshalBinary [] = none) {c₀ : Chain σ τ} (h₀ : Fresh G M c₀)
    (hpool : ∀ p, c₀.pool = some p → p.Decodes G) (h : Reach G M (Call.WellFormed G) c₀ c) :
    c.Spelled G := by
  induction h with
  | start =>
    obtain ⟨-, -, -, -, -, -, hpending, -⟩ := recorded_fresh h₀
    refine ⟨fun q hq => ?_, hpool⟩
    rw [hpending] at hq
    cases hq
  | call hc k hk ih =>
    obtain ⟨L, hrec, -⟩ := hc.recorded h₀
    exact ih.exec hempty hrec.block_keyed k hk

end OpCartesi.Node
