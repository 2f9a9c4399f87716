import OpCartesi.App.Attributes
import OpCartesi.App.Runs

/-!
# What an inspect leaves behind

An inspect runs on the guest itself. Its view calls only read, and its simulations are rolled back
through the journal, which does not cover the attributes of `L1Block`.

* `SameState`: two worlds that differ at most in the sink, which every execution starts afresh.
  `advance_alike`, `inspect_alike`: such worlds answer every request alike.
* `inspect_private`: what an inspect does to the state no journal covers.
* `inspect_unnoticed_iff`: an inspect changes nothing, and is never noticed, unless it simulates a
  call that sets other attributes than those stored. `simulated_setter`: one that does.
-/

namespace OpCartesi.App

open Drive Exec

open Ledger (Idle Genesis)

variable {ρ α : Type} {V : Viem} {w w' : World ρ} {chainId : ℕ} {owner : Address}

/-- The ledger (the drive, the RAM state and its caches), the attributes of `L1Block` and the RAM of
    the applications are the same. The sink is a local variable of one execution. -/
structure SameState (w w' : World ρ) : Prop where
  ledger : w.ledger = w'.ledger
  l1Block : w.l1Block = w'.l1Block
  own : w.own = w'.own

namespace SameState

theorem refl (w : World ρ) : SameState w w := ⟨rfl, rfl, rfl⟩

/-- With a new sink the two are one. -/
theorem with_sink (h : SameState w w') (sink : BufferSink) :
    { w with sink := sink } = { w' with sink := sink } := by
  cases w
  cases w'
  cases h.ledger
  cases h.l1Block
  cases h.own
  rfl

theorem onLedger (x : LedgerM α) : Alike (SameState (ρ := ρ)) (onLedger x) := by
  intro w w' h
  cases hx : x.run w.ledger with
  | ok a l =>
    rw [onLedger_ok hx, onLedger_ok (h.ledger ▸ hx)]
    exact ⟨rfl, rfl, h.l1Block, h.own⟩
  | error e l =>
    rw [onLedger_error hx, onLedger_error (h.ledger ▸ hx)]
    exact ⟨rfl, rfl, h.l1Block, h.own⟩

/-- Reading the ledger. -/
theorem ledger_bind {k : Ledger → GuestM ρ α} (hk : ∀ l, Alike SameState (k l)) :
    Alike SameState (App.ledger >>= k) := by
  refine .bind ?_ hk
  intro w w' h
  exact ⟨congrArg Except.ok h.ledger, h⟩

end SameState

/-! ## The views -/

theorem config_view_alike (owner : Address) (call : CallContext) :
    Alike (SameState (ρ := ρ)) (Config.view V owner call) := by
  unfold Config.view
  split
  · exact .pure _
  · exact SameState.ledger_bind fun l => alike_uintResult _ _
  · exact .pure _
  · exact .pure _

theorem erc20_view_alike (call : CallContext) :
    Alike (SameState (ρ := ρ)) (Erc20Facade.view V call) := by
  refine SameState.ledger_bind fun l => ?_
  split
  · exact .pure _
  split
  · exact .pure _
  · exact (SameState.onLedger _).bind fun b => alike_uintResult _ _
  · exact alike_uintResult _ _
  · exact alike_uintResult _ _
  · exact .pure _
  · exact .pure _
  · exact .pure _

theorem messenger_view_alike (call : CallContext) :
    Alike (SameState (ρ := ρ)) (Messenger.view V call) := by
  refine SameState.ledger_bind fun l => ?_
  split
  · exact .pure _
  · exact alike_uintResult _ _
  · exact .pure _
  · exact .pure _
  · exact .pure _

theorem registry_view_alike (wiring : Wiring) (call : CallContext) :
    Alike (SameState (ρ := ρ)) (Registry.view V wiring call) := by
  refine SameState.ledger_bind fun l => ?_
  split
  · exact .pure _
  · split <;> exact .pure _
  · exact .pure _
  · exact .pure _

namespace Router

theorem resolve_view_alike {dest : Address} {l : Ledger} {handler : Handler ρ}
    {view : Wiring → CallContext → GuestM ρ ViewOutcome}
    (hres : (Router.new V chainId owner).resolve V dest none none l = some handler)
    (hview : handler.view = some view) (wiring : Wiring) (call : CallContext) :
    Alike SameState (view wiring call) := by
  unfold resolve at hres
  split at hres
  · rename_i fixed hfix
    cases hres
    simp only [Router.new, builtins] at hfix
    split_ifs at hfix <;> cases hfix <;> cases hview
    · exact registry_view_alike wiring call
    · exact config_view_alike owner call
    · exact l1Block_view_alike (fun _ _ h => h.l1Block) call
    · exact messenger_view_alike call
  · rw [if_neg (by simp), if_neg (by simp)] at hres
    split_ifs at hres
    cases hres
    cases hview
    exact erc20_view_alike call

theorem inspectView_alike (call : DecodedCall) :
    Alike SameState ((Router.new V chainId owner : Router ρ).inspectView V call) := by
  refine SameState.ledger_bind fun l => ?_
  cases hres : (Router.new V chainId owner : Router ρ).resolve V call.dest none none l with
  | none => exact .pure _
  | some handler =>
    simp only
    cases hview : handler.view with
    | none => exact .pure _
    | some view =>
      refine Alike.catching ?_ fun e => .pure _
      refine (resolve_view_alike hres hview _ _).bind fun outcome => ?_
      cases outcome <;> exact .pure _

/-! ## Requests -/

variable (r : Router ρ)

theorem inspect_alike (chainId : ℕ) (owner : Address) (lastBlock : Option BlockContext) (payload : Bytes) :
    Alike SameState ((Router.new V chainId owner : Router ρ).inspect V lastBlock payload) := by
  unfold inspect
  split
  · exact .pure _
  split_ifs
  · refine (SameState.onLedger _).bind fun mark => ?_
    exact .modify_bind SameState.refl fun _ _ h => h.with_sink _
  · exact inspectView_alike _

theorem execute_alike (ctx : TxContext) (mark : ℕ) (c : Option Chargeable) :
    Alike SameState (r.execute V ctx mark c) :=
  .modify_bind SameState.refl fun _ _ h => h.with_sink _

theorem rollbackAll_alike : Alike (SameState (ρ := ρ)) (rollbackAll V) :=
  (SameState.onLedger _).bind fun _ => SameState.onLedger _

theorem advanceDeposit_alike (block : BlockContext) (d : Deposit) :
    Alike SameState (r.advanceDeposit V block d) := by
  unfold advanceDeposit
  split
  · refine Alike.catching ?_ fun e => rollbackAll_alike.bind fun _ => .pure _
    exact (SameState.onLedger _).bind fun _ => (SameState.onLedger _).bind fun _ => .pure _
  · refine Alike.bind (Alike.catching ?_ fun e => rollbackAll_alike.bind fun _ => .pure _) ?_
    · exact (SameState.onLedger _).bind fun _ => .pure _
    · intro credited
      split_ifs
      · exact .pure _
      · exact (SameState.onLedger _).bind fun mark => execute_alike r _ mark none

theorem advanceSigned_alike (block : BlockContext) (tx : SignedTx) :
    Alike SameState (r.advanceSigned V block tx) := by
  unfold advanceSigned
  split
  · exact .pure _
  split_ifs
  · exact .pure _
  split
  · exact .pure _
  refine (SameState.onLedger _).bind fun account => ?_
  split_ifs
  · exact .pure _
  refine SameState.ledger_bind fun l => ?_
  split_ifs
  · exact .pure _
  · exact (SameState.onLedger _).bind fun mark => execute_alike r _ mark _

/-- An input does not see the sink of the one before. -/
theorem advance_alike (block : BlockContext) (raw : Bytes) :
    Alike SameState (r.advance V block raw) := by
  unfold advance
  split
  · exact .pure _
  · exact .pure _
  · exact advanceDeposit_alike r block _
  · exact advanceSigned_alike r block _

end Router

/-- What the rollup loop hands to the router (`application.ts:133-163`). -/
inductive Request where
  | advance (block : BlockContext) (raw : Bytes)
  | inspect (payload : Bytes)

/-- What it hands back. -/
inductive Answer where
  | advanced (res : Except AppError AdvanceResult)
  | inspected (res : Except AppError InspectResult)

/-- The router between two requests: the guest's state and `lastBlock` (`application.ts:139`). -/
structure Session (ρ : Type) where
  world : World ρ
  lastBlock : Option BlockContext

/-- One turn of the rollup loop. -/
def serve (V : Viem) (r : Router ρ) (s : Session ρ) : Request → Answer × Session ρ
  | .advance block raw =>
    let run := (r.advance V block raw).run s.world
    (.advanced (answer run), ⟨endState run, some block⟩)
  | .inspect payload =>
    let run := (r.inspect V s.lastBlock payload).run s.world
    (.inspected (answer run), ⟨endState run, s.lastBlock⟩)

/-- The answers to a sequence of requests. -/
def answers (V : Viem) (r : Router ρ) : Session ρ → List Request → List Answer
  | _, [] => []
  | s, request :: rest =>
    (serve V r s request).1 :: answers V r (serve V r s request).2 rest

/-- Sessions whose worlds differ at most in the sink answer alike for ever. -/
theorem answers_alike (lastBlock : Option BlockContext) (h : SameState w w')
    (requests : List Request) :
    answers V (Router.new V chainId owner) ⟨w, lastBlock⟩ requests =
      answers V (Router.new V chainId owner) ⟨w', lastBlock⟩ requests := by
  induction requests generalizing w w' lastBlock with
  | nil => rfl
  | cons request rest ih =>
    cases request with
    | advance block raw =>
      obtain ⟨hans, hend⟩ := Router.advance_alike (V := V) (Router.new V chainId owner) block raw
        w w' h
      simp only [answers, serve]
      rw [hans, ih _ hend]
    | inspect payload =>
      obtain ⟨hans, hend⟩ := Router.inspect_alike (V := V) chainId owner lastBlock payload w w' h
      simp only [answers, serve]
      rw [hans, ih _ hend]

/-! ## Inspects -/

/-- The attributes an inspect's simulation sets. -/
def Router.simulatedWrites (V : Viem) (r : Router ρ) (lastBlock : Option BlockContext)
    (payload : Bytes) : Option L1Attributes :=
  match V.decodeEvmCall payload with
  | none => none
  | some call => if call.simulate then V.writes (r.simulateContext lastBlock call) else none

namespace Router

/-- A simulation leaves what it does to the private state. -/
theorem inspectSimulate_private (chainId : ℕ) (owner : Address) (lastBlock : Option BlockContext)
    (call : DecodedCall) (w : World ρ) :
    (endState (((Router.new V chainId owner).inspectSimulate V lastBlock call).run w)).l1Block =
        (V.writes ((Router.new V chainId owner : Router ρ).simulateContext lastBlock call)).or
          w.l1Block ∧
      (endState (((Router.new V chainId owner).inspectSimulate V lastBlock call).run w)).own =
        w.own := by
  set F := privateFrame V ρ with hF
  rw [inspectSimulate, bind_ok (mark_run w), bind_ok (modify_run _ _)]
  refine caught_private chainId owner _ (fun e => revertWith (describe e)) (fun outcome => ?_)
    { w with sink := BufferSink.new _ }
  -- what follows the call acts on the ledger only
  refine (F.call _).bind fun _ => (F.call _).bind fun _ => ?_
  cases outcome <;> exact F.pure _

/-- What an inspect does to the state no journal covers. -/
theorem inspect_private (chainId : ℕ) (owner : Address) (hwf : w.ledger.WF V) (lastBlock : Option BlockContext) (payload : Bytes) :
    (endState (((Router.new V chainId owner).inspect V lastBlock payload).run w)).l1Block =
        ((Router.new V chainId owner : Router ρ).simulatedWrites V lastBlock payload).or
          w.l1Block ∧
      (endState (((Router.new V chainId owner).inspect V lastBlock payload).run w)).own =
        w.own := by
  unfold inspect simulatedWrites
  cases V.decodeEvmCall payload with
  | none => exact ⟨rfl, rfl⟩
  | some call =>
    simp only
    split_ifs
    · exact inspectSimulate_private chainId owner lastBlock call w
    · rw [inspectView_reads chainId owner call w hwf]
      exact ⟨rfl, rfl⟩

end Router

/-- An inspect between inputs leaves the drive, the RAM state and every handler's state as they were,
    and no later request is answered differently, exactly if it does not simulate a call that gives
    `L1Block` other attributes than it has. -/
theorem inspect_unnoticed_iff (chainId : ℕ) (owner : Address) (w : World ρ)
    (hidle : w.ledger.Idle V) (lastBlock : Option BlockContext) (payload : Bytes) :
    (SameState (endState (((Router.new V chainId owner).inspect V lastBlock payload).run w)) w ∧
      ∀ requests, answers V (Router.new V chainId owner)
          (serve V (Router.new V chainId owner) ⟨w, lastBlock⟩ (.inspect payload)).2 requests =
        answers V (Router.new V chainId owner) ⟨w, lastBlock⟩ requests) ↔
    ∀ a, (Router.new V chainId owner : Router ρ).simulatedWrites V lastBlock payload = some a →
      w.l1Block = some a := by
  have hpriv := Router.inspect_private chainId owner hidle.wf lastBlock payload
  have hledger := Router.inspect_ledger chainId owner hidle.wf lastBlock payload
  constructor
  · rintro ⟨hsame, -⟩ a ha
    rw [← hsame.l1Block, hpriv.1, ha]
    rfl
  · intro hset
    have hsame : SameState
        (endState (((Router.new V chainId owner).inspect V lastBlock payload).run w)) w := by
      refine ⟨hledger, ?_, hpriv.2⟩
      rw [hpriv.1]
      cases hw : (Router.new V chainId owner : Router ρ).simulatedWrites V lastBlock payload with
      | none => rfl
      | some a => rw [hset a hw]; rfl
    exact ⟨hsame, fun requests => answers_alike lastBlock hsame requests⟩

namespace Sample

/-- `eth_simulate` of the transaction that sets the attributes. -/
def simulatePayload : Bytes := beBytes 4 0xd69a4ed4 ++ callParams setterData

theorem decode_simulatePayload : l1Viem.decodeEvmCall simulatePayload =
    some ⟨true, alice, L1BLOCK_ADDRESS, 0, setterData⟩ := by
  have htake : simulatePayload.take 4 = beBytes 4 0xd69a4ed4 := rfl
  have hdrop : simulatePayload.drop 4 = callParams setterData := rfl
  have hlen : ¬simulatePayload.length < 4 := by simp [simulatePayload]
  have hparams : callParams setterData ≠ callParams (beBytes 4 0x8381f58a) := by
    intro h
    have := congrArg List.length h
    simp [callParams, setterData] at this
  rw [Viem.decodeEvmCall, if_neg hlen]
  simp only [htake, hdrop, selector_simulate, ne_eq, not_true_eq_false, false_and, if_false]
  simp only [l1Viem, if_neg hparams, if_true, decide_true]

theorem simulatedWrites_simulatePayload (lastBlock : Option BlockContext) :
    l1Router.simulatedWrites l1Viem lastBlock simulatePayload = some setterAttributes := by
  rw [Router.simulatedWrites, decode_simulatePayload]
  simp only [if_true]
  rw [Viem.writes, if_pos ⟨rfl, rfl⟩]
  exact setter_setterData

end Sample

/-- A view call on a fresh chain. -/
theorem inspect_unnoticed_iff_sample : ∃ l : Ledger, Ledger.inMemory Sample.l1Viem = .ok l ∧
    SameState (endState ((Sample.l1Router.inspect Sample.l1Viem none Sample.numberCall).run
      (Sample.world l))) (Sample.world l) := by
  obtain ⟨l, hf⟩ := Ledger.fresh_exists Sample.l1Viem
  refine ⟨l, hf.created, ((inspect_unnoticed_iff 1 Sample.alice (Sample.world l) hf.idle none
    Sample.numberCall).2 fun a ha => ?_).1⟩
  rw [Router.simulatedWrites, Sample.decode_numberCall] at ha
  cases ha

/-- On a fresh chain `number()` reverts. After a simulation of `setL1BlockValuesEcotone` it
    returns the number that was simulated. -/
theorem simulated_setter : ∃ (l : Ledger) (s : Session Unit),
    Ledger.inMemory Sample.l1Viem = .ok l ∧
    (serve Sample.l1Viem Sample.l1Router ⟨Sample.world l, none⟩
      (.inspect Sample.simulatePayload)).2 = s ∧
    s.world.l1Block ≠ (Sample.world l).l1Block ∧
    answers Sample.l1Viem Sample.l1Router ⟨Sample.world l, none⟩ [.inspect Sample.numberCall] =
      [.inspected (.ok ⟨false, [.revert (.errorRevert "no L1 attributes yet")]⟩)] ∧
    answers Sample.l1Viem Sample.l1Router s [.inspect Sample.numberCall] =
      [.inspected (.ok ⟨true, [.returned (.uint 9)]⟩)] := by
  obtain ⟨l, hf⟩ := Ledger.fresh_exists Sample.l1Viem
  have hset := (Router.inspect_private (V := Sample.l1Viem) (w := Sample.world l) 1 Sample.alice
    hf.idle.wf none Sample.simulatePayload).1
  rw [Sample.simulatedWrites_simulatePayload, Option.some_or] at hset
  refine ⟨l, _, hf.created, rfl, ?_, ?_, ?_⟩
  · simp only [serve]
    rw [hset]
    exact Option.some_ne_none _
  · simp only [answers, serve]
    rw [Sample.number_answer (Sample.world l)]
    rfl
  · simp only [answers, serve]
    rw [Sample.number_answer, hset]
    simp only [Sample.setterAttributes_number]
    rw [if_pos (by norm_num)]

end OpCartesi.App
