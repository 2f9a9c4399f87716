import OpCartesi.App.Effects
import OpCartesi.App.Frames
import OpCartesi.App.Runs

/-!
# Withdrawal nonces

A withdrawal's nonce packs a version, the input's index and an ordinal that the sink of the input
counts (`withdrawal.ts:133-136`, `router.ts:85-144`). The counter is private to the sink, so
whatever a handler does, the sink sees a sequence of calls of its methods.

* `versionedWithdrawalNonce_eq_ok`: the fields of a nonce do not overlap.
* `SinkCall`, `messages`: calls of the sink's methods, and the messages its `withdrawal` emitted.
* `messages_increase`: one input's nonces increase, within the span of its index.
* `sinkFrame`, `advance_sinkCalls`: an input processed by handlers that use the sink's methods, the
  built-in ones among them, leaves a sink that such calls lead to.
-/

namespace OpCartesi.App

open Drive Exec

/-! ## The packing -/

/-- The first nonce of an input. -/
def nonceBase (inputIndex : ℕ) : ℕ := 2 ^ 240 + inputIndex * 2 ^ 32

theorem versionedWithdrawalNonce_eq_ok {inputIndex ordinal nonce : ℕ} (hindex : inputIndex < 2 ^ 64) :
    versionedWithdrawalNonce inputIndex ordinal = .ok nonce ↔
      ordinal < 2 ^ 32 ∧ nonce = nonceBase inputIndex + ordinal := by
  have hlimit : (1 : ℕ) <<< 32 = 2 ^ 32 := by rw [Nat.shiftLeft_eq, Nat.one_mul]
  unfold versionedWithdrawalNonce
  rw [hlimit]
  split_ifs with hle
  · simp only [false_iff, not_and]
    omega
  · have hord : ordinal < 2 ^ 32 := by omega
    have hlow : inputIndex * 2 ^ 32 + ordinal < 2 ^ 240 := by omega
    have hpack : (1 <<< 240 ||| inputIndex <<< 32 ||| ordinal) = nonceBase inputIndex + ordinal := by
      rw [Nat.or_assoc, ← Nat.shiftLeft_add_eq_or_of_lt hord, Nat.shiftLeft_eq inputIndex,
        ← Nat.shiftLeft_add_eq_or_of_lt hlow, nonceBase, Nat.shiftLeft_eq, Nat.one_mul,
        Nat.add_assoc]
    rw [hpack, Except.ok.injEq]
    constructor
    · intro h
      exact ⟨hord, h.symm⟩
    · rintro ⟨-, h⟩
      exact h.symm

/-- The nonces of the withdrawals of one input. -/
structure InSpan (inputIndex nonce : ℕ) : Prop where
  le : nonceBase inputIndex ≤ nonce
  lt : nonce < nonceBase (inputIndex + 1)

theorem InSpan.version {inputIndex nonce : ℕ} (h : InSpan inputIndex nonce)
    (hindex : inputIndex < 2 ^ 64) : nonceVersion nonce = MESSAGE_VERSION := by
  obtain ⟨hle, hlt⟩ := h
  unfold nonceBase at hle hlt
  rw [nonceVersion, Nat.shiftRight_eq_div_pow, MESSAGE_VERSION]
  have hupper : nonce < 2 * 2 ^ 240 := by omega
  have hlower : 2 ^ 240 ≤ nonce := by omega
  generalize (2 : ℕ) ^ 240 = v at hupper hlower
  have hv : 0 < v := by omega
  rw [Nat.div_eq_iff hv]
  omega

/-- A call of a method of the sink: `notice`, `voucher`, `report` and `log` append an emission. -/
inductive SinkCall
  | emit (e : Emission)
  | withdrawal (sender target : Address) (value gasLimit : ℕ) (data : Calldata)

variable (V : Viem) {block : BlockContext}

/-- The message a call of `withdrawal` emits, unless the ordinals of the input are used up. -/
def SinkCall.message (s : BufferSink) : SinkCall → Option WithdrawalMessage
  | .emit _ => none
  | .withdrawal sender target value gasLimit data =>
    match versionedWithdrawalNonce s.inputIndex s.withdrawals with
    | .ok nonce => some ⟨nonce, sender, target, value, gasLimit, data⟩
    | .error _ => none

/-- The sink after a call. -/
def SinkCall.exec (s : BufferSink) : SinkCall → BufferSink
  | .emit e => { s with emissions := s.emissions ++ [e] }
  | call@(.withdrawal ..) =>
    { s with
      withdrawals := s.withdrawals + 1
      emissions := s.emissions ++ ((call.message s).elim [] (passed V)) }

/-- The sink after calls. -/
def sinkAfter (s : BufferSink) (calls : List SinkCall) : BufferSink := calls.foldl (SinkCall.exec V) s

/-- The messages that calls emit through `withdrawal`, in order. -/
def messages (s : BufferSink) : List SinkCall → List WithdrawalMessage
  | [] => []
  | call :: calls => (call.message s).toList ++ messages (call.exec V s) calls

variable {V}

@[simp] theorem SinkCall.exec_inputIndex (s : BufferSink) (call : SinkCall) :
    (call.exec V s).inputIndex = s.inputIndex := by
  cases call <;> rfl

theorem SinkCall.exec_withdrawals (s : BufferSink) (call : SinkCall) :
    s.withdrawals ≤ (call.exec V s).withdrawals := by
  cases call with
  | emit => exact le_rfl
  | withdrawal => exact Nat.le_succ _

/-- A message takes the ordinal the sink stands at, and moves it on. -/
theorem SinkCall.message_eq_some {s : BufferSink} {call : SinkCall} {m : WithdrawalMessage}
    (hindex : s.inputIndex < 2 ^ 64) (h : call.message s = some m) :
    s.withdrawals < 2 ^ 32 ∧ m.nonce = nonceBase s.inputIndex + s.withdrawals ∧
      (call.exec V s).withdrawals = s.withdrawals + 1 := by
  cases call with
  | emit => cases h
  | withdrawal sender target value gasLimit data =>
    simp only [SinkCall.message] at h
    cases hnonce : versionedWithdrawalNonce s.inputIndex s.withdrawals with
    | error e =>
      rw [hnonce] at h
      cases h
    | ok nonce =>
      rw [hnonce] at h
      cases h
      obtain ⟨hord, heq⟩ := (versionedWithdrawalNonce_eq_ok hindex).1 hnonce
      exact ⟨hord, heq, rfl⟩

/-- Later messages have later ordinals. -/
theorem messages_ge (calls : List SinkCall) : ∀ {s : BufferSink}, s.inputIndex < 2 ^ 64 →
    ∀ m ∈ messages V s calls, nonceBase s.inputIndex + s.withdrawals ≤ m.nonce ∧
      InSpan s.inputIndex m.nonce := by
  induction calls with
  | nil =>
    intro s _ m hm
    cases hm
  | cons call calls ih =>
    intro s hindex m hm
    rcases List.mem_append.1 hm with hm | hm
    · obtain ⟨hord, hnonce, -⟩ := SinkCall.message_eq_some (V := V) hindex (Option.mem_toList.1 hm)
      refine ⟨hnonce.ge, by omega, ?_⟩
      unfold nonceBase at hnonce ⊢
      omega
    · have hrest := ih (s := call.exec V s) (by rwa [SinkCall.exec_inputIndex]) m hm
      have hmono := SinkCall.exec_withdrawals (V := V) s call
      rw [SinkCall.exec_inputIndex] at hrest
      exact ⟨by omega, hrest.2⟩

/-- The nonces of one input increase. -/
theorem messages_increase (calls : List SinkCall) : ∀ {s : BufferSink}, s.inputIndex < 2 ^ 64 →
    (messages V s calls).Pairwise fun m m' => m.nonce < m'.nonce := by
  induction calls with
  | nil =>
    intro s _
    exact .nil
  | cons call calls ih =>
    intro s hindex
    have hindex' : (call.exec V s).inputIndex < 2 ^ 64 := by rwa [SinkCall.exec_inputIndex]
    refine List.pairwise_append.2 ⟨?_, ih hindex', ?_⟩
    · cases call.message s with
      | none => exact .nil
      | some m => exact List.pairwise_singleton _ _
    · intro m hm m' hm'
      obtain ⟨-, hnonce, hnext⟩ := SinkCall.message_eq_some (V := V) hindex (Option.mem_toList.1 hm)
      have hge := (messages_ge calls hindex' m' hm').1
      rw [SinkCall.exec_inputIndex, hnext] at hge
      omega

/-- What one input emits: increasing nonces in the span of its index. -/
theorem messages_new (calls : List SinkCall) {inputIndex : ℕ} (hindex : inputIndex < 2 ^ 64) :
    (messages V (.new inputIndex) calls).Pairwise (fun m m' => m.nonce < m'.nonce) ∧
      ∀ m ∈ messages V (.new inputIndex) calls, InSpan inputIndex m.nonce :=
  ⟨messages_increase calls hindex, fun m hm => (messages_ge calls hindex m hm).2⟩

/-! ## Handlers and the sink -/

theorem sinkAfter_append (s : BufferSink) (calls calls' : List SinkCall) :
    sinkAfter V s (calls ++ calls') = sinkAfter V (sinkAfter V s calls) calls' := List.foldl_append

theorem endState_withdrawal {ρ : Type} (w : World ρ) (sender target : Address) (value gasLimit : ℕ)
    (data : Calldata) :
    endState ((withdrawal V sender target value gasLimit data).run w) =
      { w with sink := (SinkCall.withdrawal sender target value gasLimit data).exec V w.sink } := by
  rw [withdrawal, bind_ok (get_run w), bind_ok (modify_run _ _)]
  unfold SinkCall.exec SinkCall.message
  cases versionedWithdrawalNonce w.sink.inputIndex w.sink.withdrawals with
  | error e =>
    rw [bind_error (check_error _ _), endState_error]
    simp only [Option.elim_none, List.append_nil]
  | ok nonce =>
    rw [bind_ok (check_ok _ _)]
    show _ = ({ w with sink := _ } : World ρ)
    simp only [Option.elim_some, passed, notice, log, emit, bind_ok (modify_run _ _), modify_run,
      endState_ok, List.append_assoc, List.cons_append, List.nil_append]

/-- The sink moves by calls of its methods. -/
def sinkFrame (V : Viem) (ρ : Type) : Frame V ρ where
  R w w' := ∃ calls, w'.sink = sinkAfter V w.sink calls
  refl w := ⟨[], rfl⟩
  trans := by
    rintro w₁ w₂ w₃ ⟨calls, h⟩ ⟨calls', h'⟩
    exact ⟨calls ++ calls', by rw [sinkAfter_append, ← h, h']⟩
  ledger w l := ⟨[], rfl⟩
  emit w e _ := ⟨[.emit e], rfl⟩
  withdrawal w sender target value gasLimit data :=
    ⟨[.withdrawal sender target value gasLimit data], by rw [endState_withdrawal]; rfl⟩

section

variable {ρ : Type}

/-- The handlers of the manifest act on the sink through its methods. -/
def Router.UsesSink (V : Viem) (r : Router ρ) : Prop :=
  ∀ a h f ctx, r.manifest a = some h → h.advance = some f → (sinkFrame V ρ).Keeps (f ctx)

theorem l1Block_usesSink (ctx : TxContext) : (sinkFrame V ρ).Keeps (L1Block.advance V ctx) := by
  intro w
  unfold L1Block.advance
  split_ifs
  · exact ⟨[], rfl⟩
  · simp only
    split_ifs <;> exact ⟨[], rfl⟩

theorem builtins_usesSink (chainId : ℕ) (owner : Address) :
    (Router.new V chainId owner : Router ρ).UsesSink V :=
  fun _ _ _ ctx ha hf => Frame.builtins_keeps _ chainId owner ctx (fun _ => l1Block_usesSink ctx) ha hf

/-- `calls` are the calls an accepted input's handlers made on the input's sink, which the world
    keeps until the next input. An input that is no transaction reaches no handler. -/
def Router.SinkCalls (V : Viem) (r : Router ρ) (block : BlockContext) (raw : Bytes)
    (calls : List SinkCall) : Prop :=
  ∃ w out w', (r.advance V block raw).run w = .ok out w' ∧ out.accept = true ∧
    match V.context block raw with
    | none => calls = []
    | some _ => w'.sink = sinkAfter V (.new block.inputIndex) calls

variable {r : Router ρ}

/-- Executing a transaction leaves the sink its handlers' calls lead to. -/
theorem execute_returns (hr : r.UsesSink V) {ctx : TxContext} {mark : ℕ}
    {chargeable : Option Chargeable} (w : World ρ) :
    Returns (r.execute V ctx mark chargeable) w fun _ w' =>
      ∃ calls, w'.sink = sinkAfter V (.new ctx.block.inputIndex) calls := by
  have hkeeps : (sinkFrame V ρ).Keeps (do
      let outcome ← tryCatch (r.dispatch V ctx) fun e => return Router.thrown chargeable e
      Router.settle V mark chargeable outcome) :=
    ((Frame.dispatch_keeps _ ctx fun h f ha hf => hr _ h f ctx ha hf).catching fun e =>
      Frame.pure _ _).bind fun outcome => Frame.settle_keeps _ mark chargeable outcome
  intro out w' hrun
  rw [Router.execute, bind_ok (modify_run _ _)] at hrun
  obtain ⟨calls, hcalls⟩ := hkeeps { w with sink := .new ctx.block.inputIndex }
  rw [hrun, endState_ok] at hcalls
  exact ⟨calls, hcalls⟩

theorem rejected_returns {reason : String} {w : World ρ} {post : World ρ → Prop} :
    Returns (pure (Router.rejected reason) : GuestM ρ AdvanceResult) w fun out w' =>
      out.accept = true → post w' := by
  refine Returns.pure ?_
  intro hacc
  cases hacc

theorem advanceDeposit_sink (hr : r.UsesSink V) {d : Deposit} {dest : Address}
    (hdest : d.dest = some dest) (w : World ρ) :
    Returns (r.advanceDeposit V block d) w fun out w' => out.accept = true →
      ∃ calls, w'.sink = sinkAfter V (.new block.inputIndex) calls := by
  rw [Router.advanceDeposit, hdest]
  refine (Returns.trivial _ _).bind fun credited w₁ _ => ?_
  split_ifs
  · exact rejected_returns
  · refine (Returns.trivial _ _).bind fun mark w₂ _ => ?_
    exact (execute_returns hr w₂).mono fun _ _ h _ => h

theorem advanceSigned_sink (hr : r.UsesSink V) {tx : SignedTx} (w : World ρ) :
    Returns (r.advanceSigned V block tx) w fun out w' => out.accept = true →
      ∃ calls, w'.sink = sinkAfter V (.new block.inputIndex) calls := by
  unfold Router.advanceSigned
  split
  · exact rejected_returns
  · split_ifs
    · exact rejected_returns
    · split
      · exact rejected_returns
      · refine (Returns.trivial _ _).bind fun account w₁ _ => ?_
        split_ifs
        · exact rejected_returns
        · refine (Returns.trivial _ _).bind fun l w₂ _ => ?_
          split_ifs
          · exact rejected_returns
          · refine (Returns.trivial _ _).bind fun mark w₃ _ => ?_
            exact (execute_returns hr w₃).mono fun _ _ h _ => h

/-- Every accepted input has made calls on its sink, if its handlers use the sink's methods. -/
theorem advance_sinkCalls (hr : r.UsesSink V) {raw : Bytes} {w w' : World ρ} {out : AdvanceResult}
    (hrun : (r.advance V block raw).run w = .ok out w') (hacc : out.accept = true) :
    ∃ calls, r.SinkCalls V block raw calls := by
  cases hctx : V.context block raw with
  | none =>
    refine ⟨[], w, out, w', hrun, hacc, ?_⟩
    rw [hctx]
  | some ctx =>
    have hsink : ∃ calls, w'.sink = sinkAfter V (.new block.inputIndex) calls := by
      rw [Router.advance] at hrun
      cases hparse : V.parseInput raw with
      | unparsed =>
        rw [Viem.context, hparse] at hctx
        cases hctx
      | refused reason =>
        rw [Viem.context, hparse] at hctx
        cases hctx
      | deposit d =>
        rw [hparse] at hrun
        rw [Viem.context, hparse] at hctx
        obtain ⟨dest, hdest, -⟩ := Option.map_eq_some_iff.1 hctx
        exact advanceDeposit_sink hr hdest w out w' hrun hacc
      | signed tx =>
        rw [hparse] at hrun
        exact advanceSigned_sink hr w out w' hrun hacc
    obtain ⟨calls, hcalls⟩ := hsink
    refine ⟨calls, w, out, w', hrun, hacc, ?_⟩
    rw [hctx]
    exact hcalls

end

end OpCartesi.App
