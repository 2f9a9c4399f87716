import OpCartesi.Chain.Steps

/-!
# Block assembly

`applyBuild` (`chain.go:434-510`) takes every deposit and then goes through the queue of the
mempool once. At each transaction it stops, skips, drops or includes, depending on everything it
has included so far. Here the loop is read as a list of attempts, one for each queued transaction,
each with the block as it was before it and a verdict.

* `Tried`: the block still has gas and the transaction fits the data limits.
* `Attempt`, `Picks`: the attempts of a pool loop, in order.
* `poolLoop_picks`: every pool loop that returns makes such a list.
* `block_assembly`: what a build includes, what the pool forgets and what stays in it.
-/

namespace OpCartesi.Node

open Exec

variable {σ τ : Type} {G : Geth τ} {M : Machine σ} {cfg : Config} {ic : InputContext}
  {da : DALimits} {gasLimit : ℕ}

/-! ## Attempts -/

/-- The bytes of a list of transactions, as `applyBuild` counts them (`chain.go:471-474`). -/
def totalBytes (txs : List Bytes) : ℕ := (txs.map List.length).sum

/-- The block has gas left, `tx` is within the limit of a transaction and the block with it within
    the limit of a block; a limit of zero is none. -/
structure Tried (da : DALimits) (gasLimit : ℕ) (out : ExecResult σ) (tx : Bytes) : Prop where
  gas : out.gasUsed < gasLimit
  txSize : da.maxTxSize ≠ 0 → tx.length ≤ da.maxTxSize
  blockSize : da.maxBlockSize ≠ 0 → totalBytes (out.included ++ [tx]) ≤ da.maxBlockSize

/-- The machine did not accept `tx` as the next input of `out`: it failed, or it rejected. -/
def Refused (G : Geth τ) (M : Machine σ) (cfg : Config) (ic : InputContext) (out : ExecResult σ)
    (tx : Bytes) : Prop :=
  ∃ envelope cand, ic.encodeInput G out.included.length tx = .ok envelope ∧
    M.fork out.machine = some cand ∧
    ∀ res next, M.advanceInput cand envelope cfg.maxCyclesPerInput = some (res, next) →
      res.accepted = false

/-- What became of a queued transaction. -/
inductive Verdict
  | included
  | refused
  | passedOver
  deriving DecidableEq

/-- A queued transaction, the block when the loop came to it, and what became of it. -/
structure Attempt (σ : Type) where
  tx : Bytes
  before : ExecResult σ
  verdict : Verdict

/-- The verdict is the right one. -/
def Attempt.Judged (G : Geth τ) (M : Machine σ) (cfg : Config) (ic : InputContext) (da : DALimits)
    (gasLimit : ℕ) (a : Attempt σ) : Prop :=
  match a.verdict with
  | .included => Tried da gasLimit a.before a.tx ∧
      ∃ res next, Ran G M cfg ic a.before a.tx res next ∧ res.accepted = true
  | .refused => Tried da gasLimit a.before a.tx ∧ Refused G M cfg ic a.before a.tx
  | .passedOver => ¬Tried da gasLimit a.before a.tx

/-- The transactions of the attempts with a given verdict, in order. -/
def txsOf (v : Verdict) (attempts : List (Attempt σ)) : List Bytes :=
  (attempts.filter fun a => a.verdict = v).map Attempt.tx

/-- The attempts of a pool loop that goes from one block to another. -/
inductive Picks (G : Geth τ) (M : Machine σ) (cfg : Config) (ic : InputContext) (da : DALimits)
    (gasLimit : ℕ) : ExecResult σ → List (Attempt σ) → ExecResult σ → Prop
  | done (out : ExecResult σ) : Picks G M cfg ic da gasLimit out [] out
  | passOver {out out' : ExecResult σ} {tx : Bytes} {rest : List (Attempt σ)}
      (h : ¬Tried da gasLimit out tx) (hrest : Picks G M cfg ic da gasLimit out rest out') :
      Picks G M cfg ic da gasLimit out (⟨tx, out, .passedOver⟩ :: rest) out'
  | refuse {out out' : ExecResult σ} {tx : Bytes} {rest : List (Attempt σ)}
      (h : Tried da gasLimit out tx) (hrefused : Refused G M cfg ic out tx)
      (hrest : Picks G M cfg ic da gasLimit out rest out') :
      Picks G M cfg ic da gasLimit out (⟨tx, out, .refused⟩ :: rest) out'
  | take {out out' : ExecResult σ} {tx : Bytes} {rest : List (Attempt σ)} {res : AdvanceResult}
      {next : σ} (h : Tried da gasLimit out tx) (hran : Ran G M cfg ic out tx res next)
      (hacc : res.accepted = true)
      (hrest : Picks G M cfg ic da gasLimit (out.record G tx res next) rest out') :
      Picks G M cfg ic da gasLimit out (⟨tx, out, .included⟩ :: rest) out'

/-! ## What a list of attempts amounts to -/

theorem totalBytes_append (l l' : List Bytes) :
    totalBytes (l ++ l') = totalBytes l + totalBytes l' := by
  rw [totalBytes, List.map_append, List.sum_append]
  rfl

/-- `admits` on the bytes of the block so far. -/
theorem admits_iff {out : ExecResult σ} {tx : Bytes} :
    da.admits (totalBytes out.included) tx.length = true ↔
      (da.maxTxSize ≠ 0 → tx.length ≤ da.maxTxSize) ∧
        (da.maxBlockSize ≠ 0 → totalBytes (out.included ++ [tx]) ≤ da.maxBlockSize) := by
  have hsum : totalBytes (out.included ++ [tx]) = totalBytes out.included + tx.length := by
    rw [totalBytes_append]
    simp [totalBytes]
  rw [hsum, ← or_iff_not_imp_left, ← or_iff_not_imp_left]
  simp [DALimits.admits]

theorem txsOf_cons (v : Verdict) (a : Attempt σ) (l : List (Attempt σ)) :
    txsOf v (a :: l) = (if a.verdict = v then [a.tx] else []) ++ txsOf v l := by
  unfold txsOf
  by_cases hv : a.verdict = v
  · simp [hv]
  · simp [hv]

theorem txsOf_sublist (v : Verdict) (l : List (Attempt σ)) :
    (txsOf v l).Sublist (l.map Attempt.tx) :=
  List.filter_sublist.map _

theorem mem_txsOf {v : Verdict} {l : List (Attempt σ)} {tx : Bytes} :
    tx ∈ txsOf v l ↔ ∃ a ∈ l, a.verdict = v ∧ a.tx = tx := by
  simp [txsOf, and_assoc]

namespace Picks

variable {out out' : ExecResult σ} {l : List (Attempt σ)}

/-- Once the gas is used up the rest of the queue is passed over. -/
theorem passOver_all (h : gasLimit ≤ out.gasUsed) (txs : List Bytes) :
    Picks G M cfg ic da gasLimit out (txs.map fun tx => ⟨tx, out, .passedOver⟩) out := by
  induction txs with
  | nil => exact .done out
  | cons tx txs ih => exact .passOver (fun ht => absurd ht.gas (Nat.not_lt.2 h)) ih

theorem included_eq (h : Picks G M cfg ic da gasLimit out l out') :
    out'.included = out.included ++ txsOf .included l := by
  induction h with
  | done out => exact (List.append_nil _).symm
  | passOver _ _ ih => exact ih
  | refuse _ _ _ ih => exact ih
  | take _ _ _ _ ih =>
    rw [ih, txsOf_cons, if_pos rfl, ← List.append_assoc]
    rfl

/-- The list can be cut before any of its attempts. -/
theorem split {pre post : List (Attempt σ)} {a : Attempt σ}
    (h : Picks G M cfg ic da gasLimit out (pre ++ a :: post) out') :
    Picks G M cfg ic da gasLimit out pre a.before ∧ a.Judged G M cfg ic da gasLimit := by
  induction pre generalizing out with
  | nil =>
    cases h with
    | passOver ht _ => exact ⟨.done _, ht⟩
    | refuse ht hrefused _ => exact ⟨.done _, ht, hrefused⟩
    | take ht hran hacc _ => exact ⟨.done _, ht, _, _, hran, hacc⟩
  | cons b pre ih =>
    cases h with
    | passOver ht hrest => exact ⟨.passOver ht (ih hrest).1, (ih hrest).2⟩
    | refuse ht hrefused hrest => exact ⟨.refuse ht hrefused (ih hrest).1, (ih hrest).2⟩
    | take ht hran hacc hrest => exact ⟨.take ht hran hacc (ih hrest).1, (ih hrest).2⟩

/-- A verifier that has replayed the block so far can replay what the attempts add. -/
theorem replayed {work : σ} (h : Picks G M cfg ic da gasLimit out l out')
    (hout : replayImport G M cfg ic work out.included = .ok out) :
    replayImport G M cfg ic work out'.included = .ok out' := by
  induction h with
  | done out => exact hout
  | passOver _ _ ih => exact ih hout
  | refuse _ _ _ ih => exact ih hout
  | take _ hran _ _ ih => exact ih (replayImport_record hout hran)

end Picks

/-! ## The loops -/

theorem depositLoop_included (deposits : List Bytes) : ∀ {out out' : ExecResult σ},
    depositLoop G M cfg ic out deposits = .ok out' →
      out'.included = out.included ++ deposits := by
  induction deposits with
  | nil =>
    intro out out' h
    cases h
    exact (List.append_nil _).symm
  | cons tx deposits ih =>
    intro out out' h
    unfold depositLoop at h
    obtain ⟨envelope, -, h⟩ := except_bind_eq_ok.1 h
    obtain ⟨cand, -, h⟩ := except_bind_eq_ok.1 h
    cases hadvance : M.advanceInput cand envelope cfg.maxCyclesPerInput with
    | none =>
      rw [hadvance] at h
      cases h
    | some rn =>
      rw [hadvance] at h
      rw [ih h, List.append_cons]
      rfl

/-- The attempts behind a pool loop, and the hashes it has added to those to forget. -/
theorem poolLoop_picks (txs : List Bytes) : ∀ {out out' : ExecResult σ}
    {dropped dropped' : List Hash},
    poolLoop G M cfg ic da gasLimit out (totalBytes out.included) dropped txs =
        .ok (out', dropped') →
      ∃ attempts, attempts.map Attempt.tx = txs ∧
        Picks G M cfg ic da gasLimit out attempts out' ∧
        dropped' = dropped ++ (txsOf .refused attempts).filterMap (txHash G) := by
  induction txs with
  | nil =>
    intro out out' dropped dropped' h
    cases h
    exact ⟨[], rfl, .done out, (List.append_nil _).symm⟩
  | cons tx txs ih =>
    intro out out' dropped dropped' h
    unfold poolLoop at h
    split_ifs at h with hgas hadmit
    · cases h
      refine ⟨_, ?_, Picks.passOver_all hgas (tx :: txs), ?_⟩
      · rw [List.map_map]
        exact List.map_id _
      · simp [txsOf]
    · obtain ⟨l, hl, hpicks, hdropped⟩ := ih h
      refine ⟨⟨tx, out, .passedOver⟩ :: l, congrArg (tx :: ·) hl, .passOver ?_ hpicks, hdropped⟩
      intro ht
      rw [admits_iff.2 ⟨ht.txSize, ht.blockSize⟩] at hadmit
      cases hadmit
    · have hfits := admits_iff.1 (Bool.not_eq_false _ ▸ hadmit)
      have ht : Tried da gasLimit out tx := ⟨Nat.not_le.1 hgas, hfits.1, hfits.2⟩
      obtain ⟨envelope, hencode, h⟩ := except_bind_eq_ok.1 h
      obtain ⟨cand, hfork, h⟩ := except_bind_eq_ok.1 h
      rw [expect_eq_ok] at hfork
      -- the machine failed or rejected: the transaction joins those to forget, if it decodes
      have hrefuse : Refused G M cfg ic out tx →
          poolLoop G M cfg ic da gasLimit out (totalBytes out.included)
            (dropped ++ (txHash G tx).toList) txs = .ok (out', dropped') →
          ∃ attempts, attempts.map Attempt.tx = tx :: txs ∧
            Picks G M cfg ic da gasLimit out attempts out' ∧
            dropped' = dropped ++ (txsOf .refused attempts).filterMap (txHash G) := by
        intro hrefused h
        obtain ⟨l, hl, hpicks, hdropped⟩ := ih h
        refine ⟨⟨tx, out, .refused⟩ :: l, congrArg (tx :: ·) hl, .refuse ht hrefused hpicks, ?_⟩
        rw [hdropped, txsOf_cons, if_pos rfl, List.append_assoc, List.filterMap_append]
        cases htx : txHash G tx <;> simp [htx]
      cases hadvance : M.advanceInput cand envelope cfg.maxCyclesPerInput with
      | none =>
        rw [hadvance] at h
        refine hrefuse ⟨envelope, cand, hencode, hfork, ?_⟩ h
        intro res next hres
        rw [hadvance] at hres
        cases hres
      | some rn =>
        obtain ⟨res, next⟩ := rn
        rw [hadvance] at h
        simp only at h
        split_ifs at h with hacc
        · have hran : Ran G M cfg ic out tx res next := ⟨envelope, cand, hencode, hfork, hadvance⟩
          have hbytes : totalBytes out.included + tx.length =
              totalBytes (out.record G tx res next).included := by
            show _ = totalBytes (out.included ++ [tx])
            rw [totalBytes_append]
            simp [totalBytes]
          rw [hbytes] at h
          obtain ⟨l, hl, hpicks, hdropped⟩ := ih h
          exact ⟨⟨tx, out, .included⟩ :: l, congrArg (tx :: ·) hl, .take ht hran hacc hpicks, hdropped⟩
        · refine hrefuse ⟨envelope, cand, hencode, hfork, ?_⟩ h
          intro res' next' hres
          rw [hadvance] at hres
          cases hres
          exact Bool.not_eq_true _ ▸ hacc

/-! ## The pool -/

/-- The queued transactions are distinct: no two entries have the same hash, and the hash of an
    entry is the one of its transaction. -/
structure Pool.Keyed (G : Geth τ) (p : Pool) : Prop where
  distinct : (p.txs.map Entry.hash).Nodup
  hash_eq : ∀ e ∈ p.txs, ∀ h, txHash G e.raw = some h → e.hash = h

/-- The transactions to forget: those that the machine refused and that decode. -/
def forgotten (G : Geth τ) (attempts : List (Attempt σ)) : List Bytes :=
  (txsOf .refused attempts).filter fun tx => (txHash G tx).isSome

/-- Forgetting the hashes of queued transactions takes exactly those transactions out. -/
theorem Pool.Keyed.forget_txs {p : Pool} (hp : p.Keyed G) {attempts : List (Attempt σ)}
    (hqueue : p.pending = attempts.map Attempt.tx) :
    (p.forget ((txsOf .refused attempts).filterMap (txHash G))).txs =
      p.txs.filter fun e => e.raw ∉ forgotten G attempts := by
  refine List.filter_congr fun e he => decide_eq_decide.2 (not_congr ?_)
  constructor
  · intro hdropped
    obtain ⟨tx, htx, hhash⟩ := List.mem_filterMap.1 hdropped
    obtain ⟨a, ha, hrefused, rfl⟩ := mem_txsOf.1 htx
    -- the refused transaction is queued as well, and its entry has the hash of `e`
    have hqueued : a.tx ∈ p.pending := by
      rw [hqueue]
      exact List.mem_map_of_mem ha
    obtain ⟨e', he', hraw⟩ := List.mem_map.1 hqueued
    have hsame : e'.hash = e.hash := hp.hash_eq e' he' _ (by rw [hraw, hhash])
    obtain rfl := List.inj_on_of_nodup_map hp.distinct he' he hsame
    rw [hraw]
    exact List.mem_filter.2 ⟨htx, by rw [hhash]; rfl⟩
  · intro hin
    obtain ⟨htx, hsome⟩ := List.mem_filter.1 hin
    obtain ⟨h, hh⟩ := Option.isSome_iff_exists.1 hsome
    rw [hp.hash_eq e he h hh]
    exact List.mem_filterMap.2 ⟨_, htx, hh⟩

/-! ## The rule -/

/-- What a build that succeeds has done. There is one attempt for each queued transaction, in the
    order of the queue; the block is the deposits and then the transactions included. Before each
    attempt the block held the deposits and what the attempts before it had included, as a verifier
    replays it, and the verdict is the one `Judged` asks for: an included transaction was tried
    (with gas left, within both limits) and accepted, a refused one was tried and rejected or
    failed, one passed over was not tried. A pool with this queue forgets the refused transactions
    that decode and keeps the entries of all others. -/
theorem block_assembly {work : σ} {deposits poolTxs : List Bytes} {out : ExecResult σ}
    {dropped : List Hash}
    (h : applyBuild G M cfg ic da work deposits poolTxs gasLimit = .ok (out, dropped)) :
    ∃ attempts : List (Attempt σ), attempts.map Attempt.tx = poolTxs ∧
      out.included = deposits ++ txsOf .included attempts ∧
      (txsOf .included attempts).Sublist poolTxs ∧
      (∀ pre a post, attempts = pre ++ a :: post →
        a.before.included = deposits ++ txsOf .included pre ∧
        replayImport G M cfg ic work a.before.included = .ok a.before ∧
        a.Judged G M cfg ic da gasLimit) ∧
      ∀ p : Pool, p.Keyed G → p.pending = poolTxs →
        (p.forget dropped).txs = p.txs.filter fun e => e.raw ∉ forgotten G attempts := by
  unfold applyBuild at h
  obtain ⟨mid, hdeposits, hpool⟩ := except_bind_eq_ok.1 h
  have hmid : mid.included = deposits := by simpa using depositLoop_included deposits hdeposits
  have hreplayed : replayImport G M cfg ic work mid.included = .ok mid :=
    depositLoop_rule (P := fun out => replayImport G M cfg ic work out.included = .ok out) deposits
      (fun out tx res next _ hout hran => replayImport_record hout hran) rfl hdeposits
  obtain ⟨attempts, htxs, hpicks, hdropped⟩ := poolLoop_picks poolTxs hpool
  refine ⟨attempts, htxs, ?_, ?_, ?_, ?_⟩
  · rw [hpicks.included_eq, hmid]
  · rw [← htxs]
    exact txsOf_sublist _ _
  · rintro pre a post rfl
    obtain ⟨hpre, hjudged⟩ := hpicks.split
    refine ⟨?_, hpre.replayed hreplayed, hjudged⟩
    rw [hpre.included_eq, hmid]
  · intro p hp hqueue
    rw [hdropped, List.nil_append]
    exact hp.forget_txs (hqueue.trans htxs.symm)

namespace Sample

/-- A machine that fails on payloads that start with 1 and rejects those that start with 2. -/
def pickyMachine : Machine ℕ where
  advanceInput s input _ :=
    match input.drop 5 with
    | 1 :: _ => none
    | 2 :: _ => some (⟨false, 1000, []⟩, s)
    | _ => some (⟨true, 1000, []⟩, s + 1)
  rootHash s := some (hashOf s)
  fork s := some s
  store s := some s
  fork_eq := @machine.fork_eq

/-- A queue with a transaction of each kind: one to include, one that fails, one that is rejected,
    one that is too large, one to include, and one that finds the gas used up. -/
def queue : Pool where
  txs := [[5], [1], [2, 7], [5, 5, 5, 5], [6], [7]].map fun raw =>
    ⟨raw, raw, ⟨App.ZERO_ADDRESS, 0⟩, false⟩
  known := {[5], [1], [2, 7], [5, 5, 5, 5], [6], [7]}
  byNonce := ∅
  max := 8

theorem queue_keyed : queue.Keyed geth where
  distinct := by decide
  hash_eq := by
    intro e he h hh
    fin_cases he <;> exact Option.some.inj hh

/-- A block with one deposit. -/
def assembly : Except ChainError (ExecResult ℕ × List Hash) :=
  applyBuild geth pickyMachine config ⟨1, App.ZERO_ADDRESS, 1, 0, zeroHash, 0⟩ ⟨3, 0⟩ 0 [[9]]
    queue.pending 3

/-- What it has become. -/
def assembled : ExecResult ℕ where
  gasUsed := 3
  outputs := [⟨0, [9], true, 1000, [], []⟩, ⟨1, [5], true, 1000, [], []⟩,
    ⟨2, [6], true, 1000, [], []⟩]
  machine := 3
  included := [[9], [5], [6]]

end Sample

theorem block_assembly_sample : Sample.assembly = .ok (Sample.assembled, [[1], [2, 7]]) ∧
    ∃ attempts : List (Attempt ℕ), attempts.map Attempt.tx = Sample.queue.pending ∧
      Sample.assembled.included = [[9]] ++ txsOf .included attempts ∧
      (Sample.queue.forget [[1], [2, 7]]).txs =
        Sample.queue.txs.filter fun e => e.raw ∉ forgotten Sample.geth attempts := by
  have hrun : Sample.assembly = .ok (Sample.assembled, [[1], [2, 7]]) := by
    with_unfolding_all rfl
  obtain ⟨attempts, htxs, hincluded, -, -, hpool⟩ := block_assembly hrun
  exact ⟨hrun, attempts, htxs, hincluded, hpool Sample.queue Sample.queue_keyed rfl⟩

end OpCartesi.Node
