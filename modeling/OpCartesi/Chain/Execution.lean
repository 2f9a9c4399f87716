import OpCartesi.Chain.Block
import OpCartesi.Chain.OutputTree

/-!
# Executing a block

What a block's transactions do to the machine, and what the chain records of it.

* `collectOutputs`, `outputLeaves`, `withdrawalHashes`, `PasserTrie`: the records
  (`outputs.go`, `withdrawal.go`, `passertrie.go`).
* `InputContext.encodeInput`: the envelope the machine is given (`input.go`).
* `applyBuild`, `replayImport`: the builder's and the verifier's loop (`chain.go:429-546`).
* `replayImport_of_applyBuild`: replaying what a build included gives what the build recorded.
-/

namespace OpCartesi.Node

open Drive Exec

variable {σ τ : Type} (G : Geth τ) (M : Machine σ)

/-! ## Recorded outputs (`outputs.go`) -/

/-- `TxOutputs` (`outputs.go:27-42`). -/
structure TxOutputs where
  txIndex : ℕ
  txHash : Hash
  accepted : Bool
  cycles : ℕ
  outputs : List Bytes
  reports : List Bytes
  deriving DecidableEq

/-- `collectOutputs` (`outputs.go:46-66`): the outputs of a rejected input are dropped. -/
def collectOutputs (index : ℕ) (tx : Bytes) (res : AdvanceResult) : TxOutputs where
  txIndex := index
  txHash := (txHash G tx).getD zeroHash
  accepted := res.accepted
  cycles := res.cycles
  outputs := if res.accepted then (res.outputs.filter Output.isProvable).map Output.data else []
  reports := (res.outputs.filter Output.isReport).map Output.data

/-- `outputLeaves` (`outputs.go:71-79`). -/
def outputLeaves (txs : List TxOutputs) : List Hash :=
  txs.flatMap fun tx => tx.outputs.map (outputLeaf G)

/-! ## Withdrawals (`withdrawal.go`) -/

/-- `unwrapAll` (`withdrawal.go:154-163`): the arguments of a call with the given selector. -/
def unwrapAll {α : Type} (sel : Bytes) (unpack : Bytes → Option α) (data : Bytes) : Option α :=
  if data.length < 4 ∨ data.take 4 ≠ sel then none else unpack (data.drop 4)

/-- `ParseWithdrawalOutput` (`withdrawal.go:113-141`). -/
def parseWithdrawalOutput (output : Bytes) : Option Withdrawal :=
  (unwrapAll (selector G "Notice(bytes)") G.unpackNotice output).bind fun payload =>
    unwrapAll (selector G "Withdrawal(uint256,address,address,uint256,uint256,bytes)")
      G.unpackWithdrawal payload

/-- `Withdrawal.Hash` (`withdrawal.go:76-82`). -/
def Withdrawal.hash (w : Withdrawal) : Option Hash := (G.packWithdrawal w).map G.keccak256

/-- The withdrawal hash of one output, if it is a withdrawal. -/
def withdrawalHash (output : Bytes) : Option Hash :=
  (parseWithdrawalOutput G output).bind (Withdrawal.hash G)

/-- `withdrawalHashes` (`withdrawal.go:170-186`). -/
def withdrawalHashes (txs : List TxOutputs) : List Hash :=
  txs.flatMap fun tx => tx.outputs.filterMap (withdrawalHash G)

/-! ## The withdrawal commitment (`passertrie.go`) -/

/-- `rlp.EncodeToBytes` of a byte string. -/
def rlpString (b : Bytes) : Bytes :=
  if b.length = 1 ∧ (b.headD 0).val < 0x80 then b
  else if b.length ≤ 55 then Fin.ofNat 256 (0x80 + b.length) :: b
  else
    let len := (beBytes 8 b.length).dropWhile (· == 0)
    Fin.ofNat 256 (0xb7 + len.length) :: (len ++ b)

/-- `common.TrimLeftZeroes`. -/
def trimLeftZeroes (b : Bytes) : Bytes := b.dropWhile (· == 0)

/-- `PasserTrie` (`passertrie.go:57-59`): the RLP values by trie key. -/
structure PasserTrie where
  slots : Hash → Option Bytes

/-- `NewPasserTrie` (`passertrie.go:64-66`). -/
def newPasserTrie : PasserTrie := ⟨fun _ => none⟩

/-- `OutputsRootSlot` (`passertrie.go:31`). -/
def outputsRootSlot : Hash := G.keccak256 (App.stringToBytes "op-cartesi.outputsMerkleRoot")

/-- `withdrawalSlot` (`passertrie.go:77-80`). -/
def withdrawalSlot (withdrawalHash : Hash) : Hash := G.keccak256 (withdrawalHash ++ zeroHash)

namespace PasserTrie

/-- `setSlot` (`passertrie.go:98-104`). -/
def setSlot (p : PasserTrie) (slot : Hash) (value : Bytes) : PasserTrie :=
  ⟨Function.update p.slots (G.keccak256 slot) (some (rlpString value))⟩

/-- `InsertWithdrawal` (`passertrie.go:86-88`). -/
def insertWithdrawal (p : PasserTrie) (withdrawalHash : Hash) : PasserTrie :=
  p.setSlot G (withdrawalSlot G withdrawalHash) [1]

/-- `SetOutputsRoot` (`passertrie.go:91-93`). -/
def setOutputsRoot (p : PasserTrie) (root : Hash) : PasserTrie :=
  p.setSlot G (outputsRootSlot G) (trimLeftZeroes root)

/-- `Root` (`passertrie.go:107-109`). -/
def root (p : PasserTrie) : Hash := G.trieHash p.slots

/-- The body of `extendPasser` (`chain.go:409-418`): the block's withdrawals, then the outputs
    root. -/
def extend (p : PasserTrie) (outputs : List TxOutputs) (tree : OutputTree) : PasserTrie :=
  ((withdrawalHashes G outputs).foldl (insertWithdrawal G) p).setOutputsRoot G (tree.root G)

end PasserTrie

/-! ## Inputs (`input.go`) -/

/-- `SystemSenderAddress` (`input.go:129`). -/
def SystemSenderAddress : Address := App.addressOf 0x4200000000000000000000000000000000000cA0

/-- `inputContext` (`input.go:64-76`). -/
structure InputContext where
  chainID : ℕ
  appContract : Address
  blockNumber : ℕ
  timestamp : ℕ
  prevRandao : Hash
  firstIndex : ℕ
  deriving DecidableEq

/-- `inputContextFor` (`input.go:79-88`). -/
def Config.inputContextFor (c : Config) (parent : Header) (timestamp : ℕ) (prevRandao : Hash)
    (firstIndex : ℕ) : InputContext where
  chainID := c.chainID
  appContract := c.appContract
  blockNumber := parent.number + 1
  timestamp := timestamp
  prevRandao := prevRandao
  firstIndex := firstIndex

/-- `inputContextOf` (`input.go:92-101`). -/
def Config.inputContextOf (c : Config) (header : Header) (firstIndex : ℕ) : InputContext where
  chainID := c.chainID
  appContract := c.appContract
  blockNumber := header.number
  timestamp := header.time
  prevRandao := header.mixDigest
  firstIndex := firstIndex

namespace InputContext

/-- `msgSenderOf` (`input.go:139-153`). -/
def msgSenderOf (ic : InputContext) (rawTx : Bytes) : Address :=
  ((G.unmarshalBinary rawTx).bind (G.sender ic.chainID)).getD SystemSenderAddress

/-- The arguments `encodeInput` packs. -/
def advance (ic : InputContext) (offset : ℕ) (rawTx : Bytes) : EvmAdvance where
  chainId := ic.chainID
  appContract := ic.appContract
  msgSender := ic.msgSenderOf G rawTx
  blockNumber := ic.blockNumber
  blockTimestamp := ic.timestamp
  prevRandao := ic.prevRandao
  index := ic.firstIndex + offset
  payload := rawTx

end InputContext

/-- The envelope of packed arguments (`input.go:119-122`). -/
def EvmAdvance.encode (e : EvmAdvance) : Except ChainError Bytes :=
  expect ((G.packEvmAdvance e).map fun packed =>
    selector G "EvmAdvance(uint256,address,address,uint256,uint256,uint256,uint256,bytes)" ++ packed)
    .encodingEvmAdvance

/-- `encodeInput` (`input.go:106-123`). -/
def InputContext.encodeInput (ic : InputContext) (offset : ℕ) (rawTx : Bytes) :
    Except ChainError Bytes :=
  (ic.advance G offset rawTx).encode G

/-! ## The two loops (`chain.go:421-546`) -/

/-- `CyclesPerGas` (`config.go:13`). -/
def CyclesPerGas : ℕ := 1000

/-- What running inputs has led to: the part of `execResult` both loops write. -/
structure Trace (σ : Type) where
  gasUsed : ℕ
  outputs : List TxOutputs
  machine : σ

/-- `execResult` (`chain.go:422-427`). -/
structure ExecResult (σ : Type) extends Trace σ where
  included : List Bytes

/-- Recording one input: the machine moves on only if it accepted. -/
def Trace.record (t : Trace σ) (i : ℕ) (tx : Bytes) (res : AdvanceResult) (next : σ) : Trace σ where
  gasUsed := (t.gasUsed + res.cycles / CyclesPerGas) % 2 ^ 64
  outputs := t.outputs ++ [collectOutputs G i tx res]
  machine := if res.accepted then next else t.machine

/-- `record` in `applyBuild` (`chain.go:441-445`), and the machine the input leads to. -/
def ExecResult.record (out : ExecResult σ) (tx : Bytes) (res : AdvanceResult) (next : σ) :
    ExecResult σ where
  toTrace := out.toTrace.record G out.included.length tx res next
  included := out.included ++ [tx]

/-- `daLimits` (`dalimit.go:20-25`). -/
structure DALimits where
  maxTxSize : ℕ
  maxBlockSize : ℕ

/-- `admits` (`dalimit.go:50-58`). -/
def DALimits.admits (d : DALimits) (used size : ℕ) : Bool :=
  !(d.maxTxSize != 0 && decide (d.maxTxSize < size)) &&
    !(d.maxBlockSize != 0 && decide (d.maxBlockSize < used + size))

section Loops

variable (cfg : Config) (ic : InputContext)

/-- The deposit loop of `applyBuild` (`chain.go:446-467`). -/
def depositLoop : ExecResult σ → List Bytes → Except ChainError (ExecResult σ)
  | out, [] => .ok out
  | out, tx :: txs => do
    let envelope ← ic.encodeInput G out.included.length tx
    let cand ← expect (M.fork out.machine) .forkFailed
    match M.advanceInput cand envelope cfg.maxCyclesPerInput with
    | none => .error .depositFailed
    | some (res, next) => depositLoop (out.record G tx res next) txs

/-- The pool loop of `applyBuild` (`chain.go:475-504`), with the hashes to forget. -/
def poolLoop (da : DALimits) (gasLimit : ℕ) : ExecResult σ → ℕ → List Hash → List Bytes →
    Except ChainError (ExecResult σ × List Hash)
  | out, _, dropped, [] => .ok (out, dropped)
  | out, daUsed, dropped, tx :: txs =>
    if gasLimit ≤ out.gasUsed then .ok (out, dropped)
    else if da.admits daUsed tx.length = false then poolLoop da gasLimit out daUsed dropped txs
    else do
      let envelope ← ic.encodeInput G out.included.length tx
      let cand ← expect (M.fork out.machine) .forkFailed
      match M.advanceInput cand envelope cfg.maxCyclesPerInput with
      | none => poolLoop da gasLimit out daUsed (dropped ++ (txHash G tx).toList) txs
      | some (res, next) =>
        if res.accepted then
          poolLoop da gasLimit (out.record G tx res next) (daUsed + tx.length) dropped txs
        else poolLoop da gasLimit out daUsed (dropped ++ (txHash G tx).toList) txs

/-- `applyBuild` (`chain.go:434-510`), with the hashes it makes the pool forget. -/
def applyBuild (da : DALimits) (work : σ) (deposits poolTxs : List Bytes) (gasLimit : ℕ) :
    Except ChainError (ExecResult σ × List Hash) := do
  let out ← depositLoop G M cfg ic ⟨⟨0, [], work⟩, []⟩ deposits
  poolLoop G M cfg ic da gasLimit out (out.included.map List.length).sum [] poolTxs

/-- The loop of `replayImport` (`chain.go:519-543`). -/
def replayLoop : ℕ → Trace σ → List Bytes → Except ChainError (Trace σ)
  | _, out, [] => .ok out
  | i, out, tx :: txs => do
    let envelope ← ic.encodeInput G i tx
    let cand ← expect (M.fork out.machine) .forkFailed
    match M.advanceInput cand envelope cfg.maxCyclesPerInput with
    | none => replayLoop (i + 1) out txs
    | some (res, next) => replayLoop (i + 1) (out.record G i tx res next) txs

/-- `replayImport` (`chain.go:516-546`). -/
def replayImport (work : σ) (txs : List Bytes) : Except ChainError (ExecResult σ) := do
  let out ← replayLoop G M cfg ic 0 ⟨0, [], work⟩ txs
  pure ⟨out, txs⟩

end Loops

/-! ## Builder and verifier agree -/

variable {G M} {cfg : Config} {ic : InputContext} {out : ExecResult σ}
  {deposits poolTxs : List Bytes} {P : ExecResult σ → Prop} {da : DALimits} {gasLimit : ℕ}
  {dropped : List Hash} {work : σ}

theorem replayImport_eq_ok {txs : List Bytes} :
    replayImport G M cfg ic work txs = .ok out ↔
      replayLoop G M cfg ic 0 ⟨0, [], work⟩ txs = .ok out.toTrace ∧ out.included = txs := by
  unfold replayImport
  rw [except_bind_eq_ok]
  constructor
  · rintro ⟨t, ht, hpure⟩
    cases hpure
    exact ⟨ht, rfl⟩
  · rintro ⟨ht, rfl⟩
    exact ⟨_, ht, rfl⟩

theorem replayLoop_append (l l' : List Bytes) : ∀ (i : ℕ) (t : Trace σ),
    replayLoop G M cfg ic i t (l ++ l') =
      replayLoop G M cfg ic i t l >>= fun t' => replayLoop G M cfg ic (i + l.length) t' l' := by
  induction l with
  | nil =>
    intro i t
    rfl
  | cons tx l ih =>
    intro i t
    have hlen : i + (tx :: l).length = i + 1 + l.length := by simp; omega
    rw [List.cons_append, replayLoop, replayLoop, hlen]
    cases ic.encodeInput G i tx with
    | error e => rfl
    | ok envelope =>
      cases M.fork t.machine with
      | none => rfl
      | some cand =>
        simp only [expect, bind, Except.bind]
        cases M.advanceInput cand envelope cfg.maxCyclesPerInput with
        | none => exact ih (i + 1) t
        | some rn => exact ih (i + 1) _

/-- The machine reacted to `tx`, given as the next input of `out`, with `res` and `next`. -/
def Ran (G : Geth τ) (M : Machine σ) (cfg : Config) (ic : InputContext) (out : ExecResult σ)
    (tx : Bytes) (res : AdvanceResult) (next : σ) : Prop :=
  ∃ envelope cand, ic.encodeInput G out.included.length tx = .ok envelope ∧
    M.fork out.machine = some cand ∧
    M.advanceInput cand envelope cfg.maxCyclesPerInput = some (res, next)

/-- A property that recording a deposit keeps holds after the deposit loop. -/
theorem depositLoop_rule (deposits : List Bytes)
    (hrecord : ∀ out tx res next, tx ∈ deposits → P out → Ran G M cfg ic out tx res next →
      P (out.record G tx res next)) :
    ∀ {out out' : ExecResult σ}, P out → depositLoop G M cfg ic out deposits = .ok out' →
      P out' := by
  induction deposits with
  | nil =>
    intro out out' hout hrun
    cases hrun
    exact hout
  | cons tx deposits ih =>
    intro out out' hout hrun
    unfold depositLoop at hrun
    obtain ⟨envelope, hencode, hrun⟩ := except_bind_eq_ok.1 hrun
    obtain ⟨cand, hfork, hrun⟩ := except_bind_eq_ok.1 hrun
    cases hadvance : M.advanceInput cand envelope cfg.maxCyclesPerInput with
    | none =>
      rw [hadvance] at hrun
      cases hrun
    | some rn =>
      rw [hadvance] at hrun
      have hran : Ran G M cfg ic out tx rn.1 rn.2 :=
        ⟨envelope, cand, hencode, expect_eq_ok.1 hfork, hadvance⟩
      refine ih ?_ (hrecord out tx _ _ (List.mem_cons_self ..) hout hran) hrun
      intro out₁ tx₁ res₁ next₁ hmem
      exact hrecord out₁ tx₁ res₁ next₁ (List.mem_cons_of_mem _ hmem)

/-- A property that recording an accepted transaction keeps holds after the pool loop. -/
theorem poolLoop_rule
    (poolTxs : List Bytes)
    (hrecord : ∀ out tx res next, tx ∈ poolTxs → P out → Ran G M cfg ic out tx res next →
      P (out.record G tx res next)) :
    ∀ {out out' : ExecResult σ} {daUsed : ℕ} {dropped dropped' : List Hash}, P out →
      poolLoop G M cfg ic da gasLimit out daUsed dropped poolTxs = .ok (out', dropped') →
      P out' := by
  induction poolTxs with
  | nil =>
    intro out out' daUsed dropped dropped' hout hrun
    cases hrun
    exact hout
  | cons tx poolTxs ih =>
    intro out out' daUsed dropped dropped' hout hrun
    have ih := @ih fun out₁ tx₁ res₁ next₁ hmem =>
      hrecord out₁ tx₁ res₁ next₁ (List.mem_cons_of_mem _ hmem)
    unfold poolLoop at hrun
    split_ifs at hrun with hgas hadmit
    · cases hrun
      exact hout
    · exact ih hout hrun
    · obtain ⟨envelope, hencode, hrun⟩ := except_bind_eq_ok.1 hrun
      obtain ⟨cand, hfork, hrun⟩ := except_bind_eq_ok.1 hrun
      cases hadvance : M.advanceInput cand envelope cfg.maxCyclesPerInput with
      | none =>
        rw [hadvance] at hrun
        exact ih hout hrun
      | some rn =>
        obtain ⟨res, next⟩ := rn
        rw [hadvance] at hrun
        have hran : Ran G M cfg ic out tx res next :=
          ⟨envelope, cand, hencode, expect_eq_ok.1 hfork, hadvance⟩
        simp only at hrun
        split_ifs at hrun with hacc
        · exact ih (hrecord out tx res next (List.mem_cons_self ..) hout hran) hrun
        · exact ih hout hrun

/-- A property that recording keeps holds of what a build returns. -/
theorem applyBuild_rule
    (h : applyBuild G M cfg ic da work deposits poolTxs gasLimit = .ok (out, dropped))
    (hstart : P ⟨⟨0, [], work⟩, []⟩)
    (hrecord : ∀ out tx res next, tx ∈ deposits ∨ tx ∈ poolTxs → P out →
      Ran G M cfg ic out tx res next → P (out.record G tx res next)) : P out := by
  unfold applyBuild at h
  obtain ⟨mid, hdeposits, hpool⟩ := except_bind_eq_ok.1 h
  have hmid : P mid := depositLoop_rule deposits
    (fun out tx res next hmem => hrecord out tx res next (.inl hmem)) hstart hdeposits
  exact poolLoop_rule poolTxs
    (fun out tx res next hmem => hrecord out tx res next (.inr hmem)) hmid hpool

/-- The verifier's step on a transaction the builder has just recorded. -/
theorem replayImport_record {work next : σ} {tx : Bytes} {res : AdvanceResult}
    (h : replayImport G M cfg ic work out.included = .ok out)
    (hran : Ran G M cfg ic out tx res next) :
    replayImport G M cfg ic work (out.record G tx res next).included =
      .ok (out.record G tx res next) := by
  obtain ⟨envelope, cand, hencode, hfork, hadvance⟩ := hran
  rw [replayImport_eq_ok] at h ⊢
  refine ⟨?_, rfl⟩
  change replayLoop G M cfg ic 0 ⟨0, [], work⟩ (out.included ++ [tx]) = _
  rw [replayLoop_append, h.1, except_bind_eq_ok]
  refine ⟨_, rfl, ?_⟩
  unfold replayLoop
  rw [Nat.zero_add, hencode, hfork]
  simp only [expect, bind, Except.bind, hadvance]
  rfl

/-- A verifier that replays what a build included reaches what the build recorded: the same gas,
    the same outputs and the same machine. -/
theorem replayImport_of_applyBuild
    (h : applyBuild G M cfg ic da work deposits poolTxs gasLimit = .ok (out, dropped)) :
    replayImport G M cfg ic work out.included = .ok out := by
  refine applyBuild_rule (P := fun out => replayImport G M cfg ic work out.included = .ok out) h
    rfl ?_
  intro out tx res next _ hout hran
  exact replayImport_record hout hran

/-- What a build includes comes from the deposits and the pool. -/
theorem mem_included_of_applyBuild
    (h : applyBuild G M cfg ic da work deposits poolTxs gasLimit = .ok (out, dropped)) :
    ∀ tx ∈ out.included, tx ∈ deposits ∨ tx ∈ poolTxs := by
  refine applyBuild_rule (P := fun out => ∀ tx ∈ out.included, tx ∈ deposits ∨ tx ∈ poolTxs) h
    (by simp) ?_
  intro out tx res next hmem hout _ tx' htx'
  rcases List.mem_append.1 htx' with hold | hnew
  · exact hout tx' hold
  · rwa [List.mem_singleton.1 hnew]

end OpCartesi.Node
