import OpCartesi.Chain.Types

/-!
# The mempool under concurrent calls (`mempool.go`)

`Add` takes the pool's lock twice: first for the gate, then, after the nonce hook has answered
outside the lock, for the queue (`mempool.go:101-177`). Other calls run between the two. The
system here is a pool with any number of goroutines in an `Add`; an atomic step is one critical
section, or the answer of the hook.

* `Pool.enqueue`: the second critical section, replacement included.
* `Ingress.exec`: one atomic step. `Ingress.run`: any interleaving of steps.
* `Pool.Consistent`: queue, `known` and `byNonce` say the same.
* `mempool_consistent`: in every state of every interleaving the pool is consistent, and every
  step appends one entry, replaces one in its place, drops some, or leaves the queue.
-/

namespace OpCartesi.Node

open Exec

/-! ## Admission -/

/-- The reasons `Add` refuses a transaction (`mempool.go:18-30`). -/
inductive AddError
  | oversized
  | invalid
  | depositType
  | invalidSender
  | readingNonce (sender : Address)
  | nonceTooLow (nonce current : ℕ)
  | knownTx
  | poolFull
  deriving DecidableEq

def maxTxSize : ℕ := 128 * 1024

/-- `types.DepositTxType`. -/
def DepositTxType : ℕ := 0x7e

/-- `Type` and `Nonce` of a decoded transaction. -/
structure TxFields (τ : Type) where
  type : τ → ℕ
  nonce : τ → ℕ

section

variable {τ : Type} (G : Geth τ) (F : TxFields τ)

/-- The checks before the first critical section (`mempool.go:102-112`). -/
def precheck (raw : Bytes) : Except AddError τ := do
  require (raw.length ≤ maxTxSize) .oversized
  let tx ← expect (G.unmarshalBinary raw) .invalid
  require (F.type tx ≠ DepositTxType) .depositType
  return tx

/-- What `Add` does between its critical sections (`mempool.go:123-142`): with the gate of a chain
    id, the sender is recovered and `answer` is what the hook returns for it. -/
def admission (gate : Option ℕ) (raw : Bytes) (tx : τ) (answer : Option ℕ) : Except AddError Entry :=
  match gate with
  | none => .ok ⟨raw, G.txHash tx, ⟨App.ZERO_ADDRESS, 0⟩, false⟩
  | some chainID => do
    let sender ← expect (G.sender chainID tx) .invalidSender
    let current ← expect answer (.readingNonce sender)
    require (current ≤ F.nonce tx) (.nonceTooLow (F.nonce tx) current)
    return ⟨raw, G.txHash tx, ⟨sender, F.nonce tx⟩, true⟩

end

/-! ## The queue -/

/-- `New` (`mempool.go:65-74`). -/
def newPool (max : ℤ) : Pool := ⟨[], ∅, ∅, if max ≤ 0 then 4096 else max⟩

/-- The first gated entry of the slot of `e` gets the bytes and the hash of `e`
    (`mempool.go:155-163`): the hash it had, and the new queue. -/
def replaceSlot (e : Entry) : List Entry → Option (Hash × List Entry)
  | [] => none
  | x :: xs =>
    if x.gated = true ∧ x.sn = e.sn then
      some (x.hash, { x with raw := e.raw, hash := e.hash } :: xs)
    else (replaceSlot e xs).map fun r => (r.1, x :: r.2)

namespace Pool

/-- The plain append (`mempool.go:169-176`). -/
def push (p : Pool) (e : Entry) : Except AddError Hash × Pool :=
  if p.max ≤ p.txs.length then (.error .poolFull, p)
  else (.ok e.hash, { p with
    txs := p.txs ++ [e]
    known := insert e.hash p.known
    byNonce := if e.gated then insert e.sn p.byNonce else p.byNonce })

/-- The second critical section of `Add` (`mempool.go:144-176`). -/
def enqueue (p : Pool) (e : Entry) : Except AddError Hash × Pool :=
  if e.hash ∈ p.known then (.error .knownTx, p)
  else if e.gated = true ∧ e.sn ∈ p.byNonce then
    match replaceSlot e p.txs with
    | some (old, txs) =>
      (.ok e.hash, { p with txs, known := insert e.hash (p.known.erase old) })
    | none => push { p with byNonce := p.byNonce.erase e.sn } e
  else p.push e

/-- `Get` (`mempool.go:182-196`). -/
def get (p : Pool) (hash : Hash) : Option Bytes :=
  if hash ∈ p.known then (p.txs.find? fun e => e.hash = hash).map Entry.raw else none

end Pool

/-! ## Interleavings -/

/-- A goroutine in an `Add`: past the first critical section, or past the gate. -/
inductive AddCall (τ : Type)
  | entered (raw : Bytes) (tx : τ)
  | admitted (e : Entry)

/-- A pool with its gate and the goroutines in an `Add`. -/
structure Ingress (τ : Type) where
  pool : Pool
  /-- The chain id of the signer, when a nonce hook is set. -/
  gate : Option ℕ
  calls : ℕ → Option (AddCall τ)

/-- An atomic step. -/
inductive PoolStep
  | enter (id : ℕ) (raw : Bytes)
  | answer (id : ℕ) (nonce : Option ℕ)
  | finish (id : ℕ)
  | forget (hashes : List Hash)
  | get (hash : Hash)
  | pending

/-- What a call that ends with the step returns. -/
inductive PoolAnswer
  | added (r : Except AddError Hash)
  | got (raw : Option Bytes)
  | queued (raws : List Bytes)
  | none

namespace Ingress

variable {τ : Type} (G : Geth τ) (F : TxFields τ)

/-- The system before the first call. -/
def start (max : ℤ) (gate : Option ℕ) : Ingress τ := ⟨newPool max, gate, fun _ => none⟩

/-- One atomic step. A goroutine makes one call at a time, in the order of `Add`; a step that is
    not the next one of its goroutine does nothing. -/
def exec (s : Ingress τ) : PoolStep → PoolAnswer × Ingress τ
  | .enter id raw =>
    match s.calls id with
    | some _ => (.none, s)
    | none =>
      match precheck G F raw with
      | .error e => (.added (.error e), s)
      | .ok tx => (.none, { s with calls := Function.update s.calls id (some (.entered raw tx)) })
  | .answer id nonce =>
    match s.calls id with
    | some (.entered raw tx) =>
      match admission G F s.gate raw tx nonce with
      | .error e => (.added (.error e), { s with calls := Function.update s.calls id none })
      | .ok e => (.none, { s with calls := Function.update s.calls id (some (.admitted e)) })
    | _ => (.none, s)
  | .finish id =>
    match s.calls id with
    | some (.admitted e) =>
      (.added (s.pool.enqueue e).1,
        { s with pool := (s.pool.enqueue e).2, calls := Function.update s.calls id none })
    | _ => (.none, s)
  | .forget hashes => (.none, { s with pool := s.pool.forget hashes })
  | .get hash => (.got (s.pool.get hash), s)
  | .pending => (.queued s.pool.pending, s)

/-- A sequence of atomic steps. -/
def run (s : Ingress τ) (steps : List PoolStep) : Ingress τ :=
  steps.foldl (fun s step => (s.exec G F step).2) s

end Ingress

/-! ## Consistency -/

/-- The slots of the gated entries of a queue. -/
def gatedSlots (txs : List Entry) : List SenderNonce := (txs.filter Entry.gated).map Entry.sn

/-- Queue, `known` and `byNonce` say the same, and the queue is within its bound. -/
structure Pool.Consistent (p : Pool) : Prop where
  hashes : (p.txs.map Entry.hash).Nodup
  known : p.known = (p.txs.map Entry.hash).toFinset
  byNonce : p.byNonce = (gatedSlots p.txs).toFinset
  slots : (gatedSlots p.txs).Nodup
  bounded : (p.txs.length : ℤ) ≤ p.max

/-- What a step does to a queue: only the end of an `Add` adds to it, only `Forget` takes from it. -/
inductive Change : PoolStep → List Entry → List Entry → Prop
  | same (step : PoolStep) (txs : List Entry) : Change step txs txs
  | append (id : ℕ) (txs : List Entry) (e : Entry) : Change (.finish id) txs (txs ++ [e])
  /-- An entry of the same slot takes the place of another. -/
  | replace (id : ℕ) (before after : List Entry) {x e : Entry} (hx : x.gated = true)
      (he : e.gated = true) (hsn : e.sn = x.sn) :
      Change (.finish id) (before ++ x :: after) (before ++ e :: after)
  | drop (hashes : List Hash) (txs : List Entry) :
      Change (.forget hashes) txs (txs.filter fun e => e.hash ∉ hashes)

theorem gatedSlots_append (txs txs' : List Entry) :
    gatedSlots (txs ++ txs') = gatedSlots txs ++ gatedSlots txs' := by
  rw [gatedSlots, List.filter_append, List.map_append]
  rfl

theorem gatedSlots_cons_of_gated {e : Entry} (h : e.gated = true) (txs : List Entry) :
    gatedSlots (e :: txs) = e.sn :: gatedSlots txs := by
  rw [gatedSlots, List.filter_cons_of_pos h, List.map_cons]
  rfl

theorem gatedSlots_cons_of_not {e : Entry} (h : ¬e.gated = true) (txs : List Entry) :
    gatedSlots (e :: txs) = gatedSlots txs := by
  rw [gatedSlots, List.filter_cons_of_neg h]
  rfl

theorem mem_gatedSlots {txs : List Entry} {sn : SenderNonce} :
    sn ∈ gatedSlots txs ↔ ∃ e ∈ txs, e.gated = true ∧ e.sn = sn := by
  simp only [gatedSlots, List.mem_map, List.mem_filter, and_assoc]

/-- A replacement splits the queue at the entry it replaces. -/
theorem replaceSlot_eq_some {e : Entry} :
    ∀ {txs txs' : List Entry} {old : Hash}, replaceSlot e txs = some (old, txs') →
      ∃ before x after, txs = before ++ x :: after ∧ x.gated = true ∧ x.sn = e.sn ∧ old = x.hash ∧
        txs' = before ++ { x with raw := e.raw, hash := e.hash } :: after := by
  intro txs
  induction txs with
  | nil => intro txs' old h; cases h
  | cons y ys ih =>
    intro txs' old h
    rw [replaceSlot] at h
    split_ifs at h with hy
    · cases h
      exact ⟨[], y, ys, rfl, hy.1, hy.2, rfl, rfl⟩
    · obtain ⟨⟨old', ys'⟩, hr, heq⟩ := Option.map_eq_some_iff.1 h
      cases heq
      obtain ⟨before, x, after, rfl, hg, hsn, rfl, rfl⟩ := ih hr
      exact ⟨y :: before, x, after, rfl, hg, hsn, rfl, rfl⟩

theorem replaceSlot_eq_none {e : Entry} :
    ∀ {txs : List Entry}, replaceSlot e txs = none → e.sn ∉ gatedSlots txs := by
  intro txs
  induction txs with
  | nil => intro _; exact List.not_mem_nil
  | cons y ys ih =>
    intro h hmem
    rw [replaceSlot] at h
    split_ifs at h with hy
    have hrest := ih (Option.map_eq_none_iff.1 h)
    obtain ⟨x, hx, hg, hsn⟩ := mem_gatedSlots.1 hmem
    rcases List.mem_cons.1 hx with rfl | hx
    · exact hy ⟨hg, hsn⟩
    · exact hrest (mem_gatedSlots.2 ⟨x, hx, hg, hsn⟩)

theorem Pool.push_max (p : Pool) (e : Entry) : (p.push e).2.max = p.max := by
  rw [Pool.push]
  by_cases hfull : p.max ≤ p.txs.length
  · rw [if_pos hfull]
  · rw [if_neg hfull]

theorem Pool.enqueue_max (p : Pool) (e : Entry) : (p.enqueue e).2.max = p.max := by
  rw [Pool.enqueue]
  split_ifs
  · rfl
  · split
    · rfl
    · exact Pool.push_max _ e
  · exact Pool.push_max p e

namespace Pool.Consistent

variable {p : Pool}

theorem new (max : ℤ) : (newPool max).Consistent := by
  refine ⟨List.nodup_nil, rfl, rfl, List.nodup_nil, ?_⟩
  show (0 : ℤ) ≤ if max ≤ 0 then 4096 else max
  split_ifs <;> omega

theorem push (h : p.Consistent) {e : Entry} (hhash : e.hash ∉ p.known)
    (hslot : e.gated = true → e.sn ∉ p.byNonce) : (p.push e).2.Consistent := by
  rw [h.known, List.mem_toFinset] at hhash
  rw [h.byNonce] at hslot
  rw [Pool.push]
  by_cases hfull : p.max ≤ p.txs.length
  · rw [if_pos hfull]
    exact h
  rw [if_neg hfull]
  refine ⟨?_, ?_, ?_, ?_, ?_⟩
  · rw [List.map_append, List.map_singleton]
    exact List.nodup_append.2 ⟨h.hashes, List.nodup_singleton _, fun a ha b hb heq =>
      hhash (by rwa [← List.mem_singleton.1 hb, ← heq])⟩
  · simp only [h.known, List.map_append, List.map_singleton, List.toFinset_append]
    rw [Finset.union_comm]
    rfl
  · simp only [h.byNonce, gatedSlots_append]
    by_cases hg : e.gated = true
    · rw [if_pos hg, gatedSlots_cons_of_gated hg, List.toFinset_append, Finset.union_comm]
      rfl
    · rw [if_neg hg, gatedSlots_cons_of_not hg, List.toFinset_append]
      exact (Finset.union_empty _).symm
  · simp only [gatedSlots_append]
    by_cases hg : e.gated = true
    · rw [gatedSlots_cons_of_gated hg]
      exact List.nodup_append.2 ⟨h.slots, List.nodup_singleton _, fun a ha b hb heq =>
        hslot hg (List.mem_toFinset.2 (by rwa [← List.mem_singleton.1 hb, ← heq]))⟩
    · rw [gatedSlots_cons_of_not hg]
      exact List.nodup_append.2 ⟨h.slots, List.nodup_nil, fun a ha b hb => by cases hb⟩
  · simp only [List.length_append, List.length_singleton]
    omega

/-- The newcomer takes over the place, the slot and the hash of the entry it replaces. -/
theorem replace (h : p.Consistent) {e x : Entry} {before after : List Entry}
    (htxs : p.txs = before ++ x :: after) (hhash : e.hash ∉ p.known) (hg : x.gated = true) :
    Consistent { p with
      txs := before ++ { x with raw := e.raw, hash := e.hash } :: after
      known := insert e.hash (p.known.erase x.hash) } := by
  have hslots : gatedSlots (before ++ { x with raw := e.raw, hash := e.hash } :: after) =
      gatedSlots p.txs := by
    rw [htxs, gatedSlots_append, gatedSlots_append, gatedSlots_cons_of_gated hg,
      gatedSlots_cons_of_gated (e := { x with raw := e.raw, hash := e.hash }) hg]
  have hnd := h.hashes
  have hknown := h.known
  rw [htxs, List.map_append, List.map_cons] at hnd hknown
  rw [hknown, List.mem_toFinset, List.mem_append, List.mem_cons] at hhash
  obtain ⟨hx, hrest⟩ := List.nodup_cons.1 (List.nodup_middle.1 hnd)
  have hset : ∀ a : Hash, (before.map Entry.hash ++ a :: after.map Entry.hash).toFinset =
      insert a (before.map Entry.hash ++ after.map Entry.hash).toFinset := by
    intro a
    rw [List.toFinset_append, List.toFinset_cons, Finset.union_insert, ← List.toFinset_append]
  refine ⟨?_, ?_, ?_, ?_, ?_⟩
  · simp only [List.map_append, List.map_cons]
    refine List.nodup_middle.2 (List.nodup_cons.2 ⟨?_, hrest⟩)
    rw [List.mem_append]
    tauto
  · simp only [List.map_append, List.map_cons]
    rw [hknown, hset, hset, Finset.erase_insert (by rwa [List.mem_toFinset])]
  · rw [hslots]
    exact h.byNonce
  · rw [hslots]
    exact h.slots
  · have hb := h.bounded
    rw [htxs] at hb
    simp only [List.length_append, List.length_cons] at hb ⊢
    exact hb

theorem enqueue (h : p.Consistent) (id : ℕ) (e : Entry) :
    (p.enqueue e).2.Consistent ∧ Change (.finish id) p.txs (p.enqueue e).2.txs := by
  have hpush : Change (.finish id) p.txs (p.push e).2.txs := by
    rw [Pool.push]
    by_cases hfull : p.max ≤ p.txs.length
    · rw [if_pos hfull]
      exact .same _ _
    · rw [if_neg hfull]
      exact .append _ _ _
  rw [Pool.enqueue]
  by_cases hhash : e.hash ∈ p.known
  · rw [if_pos hhash]
    exact ⟨h, .same _ _⟩
  rw [if_neg hhash]
  by_cases hslot : e.gated = true ∧ e.sn ∈ p.byNonce
  · rw [if_pos hslot]
    cases hr : replaceSlot e p.txs with
    | some r =>
      obtain ⟨old, txs⟩ := r
      obtain ⟨before, x, after, htxs, hg, hsn, rfl, rfl⟩ := replaceSlot_eq_some hr
      refine ⟨h.replace htxs hhash hg, ?_⟩
      rw [htxs]
      exact .replace id before after hg hg rfl
    | none =>
      -- the index and the queue agree, so this repair is never made
      have := replaceSlot_eq_none hr
      rw [h.byNonce, List.mem_toFinset] at hslot
      exact absurd hslot.2 this
  · rw [if_neg hslot]
    exact ⟨h.push hhash fun hg hin => hslot ⟨hg, hin⟩, hpush⟩

theorem forget (h : p.Consistent) (hashes : List Hash) : (p.forget hashes).Consistent := by
  have hsub : (p.txs.filter fun e => e.hash ∉ hashes).Sublist p.txs := List.filter_sublist
  refine ⟨h.hashes.sublist (hsub.map _), ?_, ?_, ?_, ?_⟩
  · ext a
    simp only [Pool.forget, h.known, Finset.mem_sdiff, List.mem_toFinset, List.mem_map,
      List.mem_filter, decide_eq_true_eq]
    constructor
    · rintro ⟨⟨e, he, rfl⟩, hnot⟩
      exact ⟨e, ⟨he, fun hin => hnot ⟨e, ⟨he, hin⟩, rfl⟩⟩, rfl⟩
    · rintro ⟨e, ⟨he, hnot⟩, rfl⟩
      refine ⟨⟨e, he, rfl⟩, ?_⟩
      rintro ⟨e', ⟨-, hin⟩, heq⟩
      rw [heq] at hin
      exact hnot hin
  · ext sn
    simp only [Pool.forget, h.byNonce, Finset.mem_sdiff, List.mem_toFinset, mem_gatedSlots]
    simp only [List.mem_map, List.mem_filter, decide_eq_true_eq]
    constructor
    · rintro ⟨⟨e, he, hg, rfl⟩, hnot⟩
      exact ⟨e, ⟨he, fun hin => hnot ⟨e, ⟨⟨he, hin⟩, hg⟩, rfl⟩⟩, hg, rfl⟩
    · rintro ⟨e, ⟨he, hnot⟩, hg, rfl⟩
      refine ⟨⟨e, he, hg, rfl⟩, ?_⟩
      -- no other gated entry has the slot of an entry that stays
      rintro ⟨e', ⟨⟨he', hin⟩, hg'⟩, heq⟩
      have hsame : e' = e := List.inj_on_of_nodup_map h.slots (List.mem_filter.2 ⟨he', hg'⟩)
        (List.mem_filter.2 ⟨he, hg⟩) heq
      rw [hsame] at hin
      exact hnot hin
  · exact h.slots.sublist ((hsub.filter _).map _)
  · have hlen := hsub.length_le
    have hb := h.bounded
    simp only [Pool.forget]
    omega

end Pool.Consistent

namespace Ingress

variable {τ : Type} (G : Geth τ) (F : TxFields τ)

/-- What a step can do to the pool. -/
theorem exec_pool (s : Ingress τ) (step : PoolStep) :
    (s.exec G F step).2.pool = s.pool ∨
      (∃ id e, step = .finish id ∧ (s.exec G F step).2.pool = (s.pool.enqueue e).2) ∨
      ∃ hashes, step = .forget hashes ∧ (s.exec G F step).2.pool = s.pool.forget hashes := by
  cases step with
  | enter id raw =>
    simp only [exec]
    split
    · exact .inl rfl
    · split <;> exact .inl rfl
  | answer id nonce =>
    simp only [exec]
    split
    · split <;> exact .inl rfl
    · exact .inl rfl
  | finish id =>
    simp only [exec]
    split
    · exact .inr (.inl ⟨id, _, rfl, rfl⟩)
    · exact .inl rfl
  | forget hashes => exact .inr (.inr ⟨hashes, rfl, rfl⟩)
  | get hash => exact .inl rfl
  | pending => exact .inl rfl

/-- One step keeps the pool consistent, and changes its queue in one place or drops from it. -/
theorem exec_consistent {s : Ingress τ} (h : s.pool.Consistent) (step : PoolStep) :
    (s.exec G F step).2.pool.Consistent ∧
      Change step s.pool.txs (s.exec G F step).2.pool.txs := by
  rcases exec_pool G F s step with heq | ⟨id, e, hstep, heq⟩ | ⟨hashes, hstep, heq⟩
  · rw [heq]
    exact ⟨h, .same _ _⟩
  · rw [heq, hstep]
    exact h.enqueue id e
  · rw [heq, hstep]
    exact ⟨h.forget hashes, .drop _ _⟩

theorem exec_max (s : Ingress τ) (step : PoolStep) :
    (s.exec G F step).2.pool.max = s.pool.max := by
  rcases exec_pool G F s step with heq | ⟨id, e, -, heq⟩ | ⟨hashes, -, heq⟩ <;> rw [heq]
  · exact Pool.enqueue_max s.pool e
  · rfl

theorem run_consistent {s : Ingress τ} (h : s.pool.Consistent) (steps : List PoolStep) :
    (s.run G F steps).pool.Consistent ∧ (s.run G F steps).pool.max = s.pool.max := by
  induction steps generalizing s with
  | nil => exact ⟨h, rfl⟩
  | cons step steps ih =>
    obtain ⟨h₁, h₂⟩ := ih (exec_consistent G F h step).1
    exact ⟨h₁, h₂.trans (exec_max G F s step)⟩

end Ingress

/-- In every state that an interleaving of atomic steps reaches from a new pool under a fixed gate,
    the indexes agree with the queue, hashes and slots are distinct and the queue is within its
    bound; and the next step, whatever it is, appends one entry, puts one in the place of an entry
    of the same slot, drops what it was told to forget, or leaves the queue. -/
theorem mempool_consistent {τ : Type} (G : Geth τ) (F : TxFields τ) (max : ℤ) (gate : Option ℕ)
    (steps : List PoolStep) :
    let s := (Ingress.start max gate : Ingress τ).run G F steps
    s.pool.Consistent ∧ s.pool.max = (newPool max).max ∧
      ∀ step, Change step s.pool.txs (s.exec G F step).2.pool.txs := by
  intro s
  obtain ⟨h, hmax⟩ := Ingress.run_consistent G F
    (s := (Ingress.start max gate : Ingress τ)) (Pool.Consistent.new max) steps
  exact ⟨h, hmax, fun step => (Ingress.exec_consistent G F h step).2⟩

end OpCartesi.Node
