import OpCartesi.App.Outcome

/-!
# Runs of inputs

A run starts on a ledger that holds nothing and processes inputs one after the other, with
inspects between them.

* `Run`: the runs, with the history of their inputs.
* `Run.base`: the ledger of a run is a step after an idle one; with the built-in handlers it is
  idle itself (`Run.idle`).
* `Effect`, `advance_effect`: what an input does to the view with the built-in handlers.
-/

namespace OpCartesi.App

open Drive Exec

open Ledger (Idle Step Genesis)

variable {ρ : Type} {V : Viem} {r : Router ρ} {w w' : World ρ}

/-! ## Inspects -/

namespace Router

/-- A simulation is rolled back. -/
theorem inspectSimulate_ledger (hr : r.Journaled V) (hwf : w.ledger.WF V)
    (lastBlock : Option BlockContext) (call : DecodedCall) :
    (endState ((r.inspectSimulate V lastBlock call).run w)).ledger = w.ledger := by
  set ctx := r.simulateContext lastBlock call with hctx
  set w₀ : World ρ := { w with sink := BufferSink.new ctx.block.inputIndex } with hw₀
  have hj : App.Journaled V (tryCatch (r.dispatch V ctx) fun e => return revertWith (describe e)) :=
    (dispatch_journaled hr ctx).catching fun e => App.Journaled.pure _
  rw [inspectSimulate, bind_ok (mark_run w), bind_ok (modify_run _ _)]
  cases hrun : (tryCatch (r.dispatch V ctx) fun e => return revertWith (describe e) :
      GuestM ρ AdvanceOutcome).run w₀ with
  | ok outcome w₁ =>
    have hs := hj.step (w := w₀) hwf
    rw [hrun, endState_ok] at hs
    rw [bind_ok hrun, App.Journaled.rollback_bind (w := w) hwf hs]
    cases outcome <;> rfl
  | error e w₁ =>
    -- the handler catches every error
    exfalso
    cases hd : (r.dispatch V ctx).run w₀ with
    | ok outcome w₂ =>
      rw [tryCatch_ok hd] at hrun
      cases hrun
    | error e' w₂ =>
      rw [tryCatch_error hd] at hrun
      cases hrun

/-- An inspect is a step of the ledger. -/
theorem inspect_step (hr : r.Journaled V) (hwf : w.ledger.WF V)
    (lastBlock : Option BlockContext) (payload : Bytes) :
    Step V w.ledger (endState ((r.inspect V lastBlock payload).run w)).ledger := by
  unfold inspect
  split
  · exact Step.refl hwf
  · split_ifs
    · rw [inspectSimulate_ledger hr hwf]
      exact Step.refl hwf
    · exact (inspectView_journaled hr _).step hwf

/-- With the built-in handlers an inspect leaves the ledger as it is. -/
theorem inspect_ledger (chainId : ℕ) (owner : Address) (hwf : w.ledger.WF V)
    (lastBlock : Option BlockContext) (payload : Bytes) :
    (endState (((Router.new V chainId owner).inspect V lastBlock payload).run w)).ledger =
      w.ledger := by
  unfold inspect
  split
  · rfl
  rename_i call hcall
  split_ifs
  · exact inspectSimulate_ledger (builtins_journaled _ _) hwf lastBlock call
  exact congrArg World.ledger (inspectView_reads chainId owner call w hwf)

end Router

/-! ## Runs -/

/-- A processed input: the state it found, its answer and the state it left. -/
structure Input (ρ : Type) where
  block : BlockContext
  raw : Bytes
  before : World ρ
  res : AdvanceResult
  after : World ρ

/-- The runs of a router and the inputs they processed, oldest first. An inspect may be asked
    against any last block. -/
inductive Run (V : Viem) (r : Router ρ) : List (Input ρ) → World ρ → Prop
  | genesis {w : World ρ} (h : Genesis V w.ledger) : Run V r [] w
  | advance {hist : List (Input ρ)} {w w' : World ρ} {res : AdvanceResult} (block : BlockContext)
      (raw : Bytes) (h : Run V r hist w) (hrun : (r.advance V block raw).run w = .ok res w') :
      Run V r (hist ++ [⟨block, raw, w, res, w'⟩]) w'
  | inspect {hist : List (Input ρ)} {w w' : World ρ} {res : InspectResult}
      (lastBlock : Option BlockContext) (payload : Bytes) (h : Run V r hist w)
      (hrun : (r.inspect V lastBlock payload).run w = .ok res w') : Run V r hist w'

variable {hist : List (Input ρ)}

/-- The ledger of a run is a step after an idle one. -/
theorem Run.base (hr : r.Journaled V) (h : Run V r hist w) :
    ∃ l₀, l₀.Idle V ∧ Step V l₀ w.ledger := by
  induction h with
  | genesis h =>
    have hidle := h.empty.1
    exact ⟨_, hidle, Step.refl hidle.wf⟩
  | advance block raw h hrun ih =>
    obtain ⟨l₀, hidle, hs⟩ := ih
    rcases (Router.advance_processed hr hidle hs hrun).idle hr hidle hs with h' | h'
    · exact ⟨_, h', Step.refl h'.wf⟩
    · rw [h']
      exact ⟨l₀, hidle, hs⟩
  | inspect lastBlock payload h hrun ih =>
    obtain ⟨l₀, hidle, hs⟩ := ih
    have hi := Router.inspect_step hr hs.wf lastBlock payload
    rw [hrun, endState_ok] at hi
    exact ⟨l₀, hidle, hs.trans hi⟩

/-- With the built-in handlers it is idle. -/
theorem Run.idle {chainId : ℕ} {owner : Address} (h : Run V (Router.new V chainId owner) hist w) :
    w.ledger.Idle V := by
  generalize hr : (Router.new V chainId owner : Router ρ) = r at h
  induction h with
  | genesis h => exact h.empty.1
  | advance block raw h hrun ih =>
    refine Router.advance_idle ?_ ih hrun
    rw [← hr]
    exact builtins_journaled chainId owner
  | inspect lastBlock payload h hrun ih =>
    have hi := Router.inspect_ledger chainId owner ih.wf lastBlock payload
    rw [hr, hrun, endState_ok] at hi
    rw [hi]
    exact ih

/-! ## What an input does -/

/-- `n` wei moved from `a` to `b`. -/
def View.moveEther (a b : Address) (n : ℕ) (v : View) : View := (v.addEther a (-n)).addEther b n

/-- An answer that drops what a handler emitted. -/
structure Reverted (res : AdvanceResult) : Prop where
  outcome : res.outcome = .revert
  reports : ∀ e ∈ res.emissions, e.isReport = true

/-- The context of the call an input makes. -/
def Viem.context (V : Viem) (block : BlockContext) (raw : Bytes) : Option TxContext :=
  match V.parseInput raw with
  | .deposit d => d.dest.map (Router.depositContext block d)
  | .signed tx => do
    let sender ← V.recoverSender tx
    let dest ← tx.dest
    return Router.signedContext block tx sender dest
  | _ => none

/-- The view a call is made in: the mint is credited and the value has moved. -/
def View.entry (ctx : TxContext) (v : View) : View :=
  (v.addEther ctx.sender ctx.mint).moveEther ctx.sender ctx.dest ctx.value

/-- The view after a call: a signer has paid the fee. -/
def View.exit (ctx : TxContext) (fee : ℤ) (v : View) : View :=
  if ctx.isDeposit = true then v else v.addEther ctx.sender (-fee)

@[simp]
theorem View.exit_ram (ctx : TxContext) (fee : ℤ) (v : View) : (v.exit ctx fee).ram = v.ram := by
  unfold exit
  split_ifs <;> rfl

@[simp]
theorem View.exit_holdings (ctx : TxContext) (fee : ℤ) (v : View) :
    (v.exit ctx fee).holdings = v.holdings := by
  unfold exit
  split_ifs <;> rfl

/-- The authenticated sender of an input. -/
def Viem.sender (V : Viem) (raw : Bytes) : Option Address :=
  match V.parseInput raw with
  | .deposit d => some d.sender
  | .signed tx => V.recoverSender tx
  | _ => none

/-- What an input does to the view, with the built-in handlers. -/
inductive Effect (V : Viem) (owner : Address) (block : BlockContext) (raw : Bytes) (v : View) :
    AdvanceResult → View → Prop
  | unparsed (hp : V.parseInput raw = .unparsed) :
      Effect V owner block raw v ⟨true, [.report .app (.bytes raw)], .unparsed, none⟩ v
  | rejected (reason : String) : Effect V owner block raw v (Router.rejected reason) v
  /-- A deposit without `to`. -/
  | created (d : Deposit) (hp : V.parseInput raw = .deposit d) (hdest : d.dest = none) :
      Effect V owner block raw v ⟨true, [], .accept, none⟩ (v.addEther d.sender d.mint)
  /-- A deposit whose call reverts. -/
  | minted (d : Deposit) (res : AdvanceResult) (hp : V.parseInput raw = .deposit d)
      (hres : Reverted res) : Effect V owner block raw v res (v.addEther d.sender d.mint)
  /-- A signed transaction whose call reverts. -/
  | charged (tx : SignedTx) (sender : Address) (res : AdvanceResult)
      (hp : V.parseInput raw = .signed tx) (hsigner : V.recoverSender tx = some sender)
      (hfee : v.ram.fee ≤ v.balances sender) (hres : Reverted res) :
      Effect V owner block raw v res (v.addEther sender (-v.ram.fee))
  /-- A call that accepts. -/
  | called (ctx : TxContext) (v₁ : View) (es : List Emission)
      (hctx : V.context block raw = some ctx)
      (hvalue : ctx.value ≤ (v.addEther ctx.sender ctx.mint).balances ctx.sender)
      (hacc : Accepted V owner ctx (BufferSink.new block.inputIndex) (v.entry ctx) v₁ es)
      (hfee : ctx.isDeposit = false → v.ram.fee ≤ v₁.balances ctx.sender) :
      Effect V owner block raw v ⟨true, es, .accept, none⟩ (v₁.exit ctx v.ram.fee)

/-- The two ways an input makes a call. -/
theorem context_eq_some {block : BlockContext} {raw : Bytes} {ctx : TxContext}
    (h : V.context block raw = some ctx) :
    (∃ d dest, V.parseInput raw = .deposit d ∧ ctx = Router.depositContext block d dest) ∨
    ∃ tx sender dest, V.parseInput raw = .signed tx ∧ V.recoverSender tx = some sender ∧
      ctx = Router.signedContext block tx sender dest := by
  unfold Viem.context at h
  split at h
  · rename_i d hp
    obtain ⟨dest, -, rfl⟩ := Option.map_eq_some_iff.1 h
    exact Or.inl ⟨d, dest, hp, rfl⟩
  · rename_i tx hp
    simp only [Option.bind_eq_bind, Option.bind_eq_some_iff] at h
    obtain ⟨sender, hsigner, dest, -, h⟩ := h
    cases h
    exact Or.inr ⟨tx, sender, dest, hp, hsigner, rfl⟩
  · cases h

/-- A call is made by the authenticated sender of the input. -/
theorem context_sender {block : BlockContext} {raw : Bytes} {ctx : TxContext}
    (h : V.context block raw = some ctx) : V.sender raw = some ctx.sender := by
  rcases context_eq_some h with ⟨d, dest, hp, rfl⟩ | ⟨tx, sender, dest, hp, hsigner, rfl⟩
  · rw [Viem.sender, hp]
    rfl
  · rw [Viem.sender, hp]
    exact hsigner

/-- The view after a charge. -/
theorem Charged.view {l l' : Ledger} {a : Address} {fee : ℤ} (h : Charged V l a fee l') :
    l'.view V = (l.view V).addEther a (-fee) := by
  rw [(Ledger.of_setRecord h.book h.ram h.tokens).2]
  rfl

namespace Router

variable {ctx : TxContext} {outcome : AdvanceOutcome} {c : Option Chargeable} {owner : Address}
  {chainId : ℕ} {block : BlockContext} {raw : Bytes} {res : AdvanceResult}

theorem resultOf_reverted (s : BufferSink) (data : ReportData) :
    Reverted (resultOf s (.revert data)) := by
  refine ⟨rfl, fun e he => ?_⟩
  rcases List.mem_append.1 he with he | he
  · exact (List.mem_filter.1 he).2
  · rw [List.mem_singleton.1 he]
    rfl

/-- A value transfer that returns. -/
theorem transfer_returns (hwf : w.ledger.WF V) :
    Returns (transfer V ctx) w fun _ w₁ =>
      w₁.ledger.WF V ∧ w₁.sink = w.sink ∧ ctx.value ≤ (w.ledger.view V).balances ctx.sender ∧
      w₁.ledger.view V = (w.ledger.view V).moveEther ctx.sender ctx.dest ctx.value := by
  refine ((At.init hwf).call (Ledger.debitEther_does hwf _ _)).bind fun _ w₁ h₁ => ?_
  obtain ⟨v₁, h₁, rfl, hle⟩ := h₁
  refine (h₁.call (Ledger.creditEther_does h₁.wf _ _)).mono fun _ w₂ h₂ => ?_
  obtain ⟨v₂, h₂, rfl, -⟩ := h₂
  refine ⟨h₂.wf, ?_, by exact_mod_cast hle, ?_⟩
  · have hw := h₂.withdrawals
    have hi := h₂.inputIndex
    have he := h₂.emissions
    rw [List.append_nil] at he
    obtain ⟨l, ⟨i, es, n⟩, b, o⟩ := w₂
    obtain ⟨l', ⟨i', es', n'⟩, b', o'⟩ := w
    simp only [Nat.add_zero] at hw hi he ⊢
    rw [hw, hi, he]
  · rw [h₂.view, h₁.view, View.moveEther]

/-- How a transfer and a call to the built-in handlers end. -/
theorem Ends.ended (hwf : w.ledger.WF V)
    (h : (Router.new V chainId owner).Ends V ctx c w outcome w') :
    outcome = .accept ∧ ctx.value ≤ (w.ledger.view V).balances ctx.sender ∧
      (∃ v' es, Accepted V owner ctx w.sink
        ((w.ledger.view V).moveEther ctx.sender ctx.dest ctx.value) v' es ∧
        w'.ledger.WF V ∧ w'.ledger.view V = v' ∧ w'.sink.emissions = w.sink.emissions ++ es) ∨
    (∃ data, outcome = .revert data) ∨ ∃ e, outcome = thrown c e := by
  rcases h with h | ⟨e, -, rfl⟩
  · obtain ⟨u, w₁, htr, hcall⟩ := bind_eq_ok.1 h
    obtain ⟨hwf₁, hsink, hle, hv⟩ := transfer_returns hwf u w₁ htr
    rcases call_returns chainId owner (At.init hwf₁) outcome w' hcall with
      ⟨data, rfl⟩ | ⟨rfl, v', es, n, hat, hacc⟩
    · exact Or.inr (Or.inl ⟨data, rfl⟩)
    · rw [hsink, hv] at hacc
      refine Or.inl ⟨rfl, hle, v', es, hacc, hat.wf, hat.view, ?_⟩
      rw [hat.emissions, hsink]
  · exact Or.inr (Or.inr ⟨e, rfl⟩)

/-- What an input does to the view. -/
theorem advance_effect (hidle : w.ledger.Idle V)
    (h : ((Router.new V chainId owner).advance V block raw).run w = .ok res w') :
    Effect V owner block raw (w.ledger.view V) res (w'.ledger.view V) := by
  have hr : (Router.new V chainId owner : Router ρ).Journaled V := builtins_journaled chainId owner
  cases advance_processed hr hidle (Step.refl hidle.wf) h with
  | unparsed hp => exact .unparsed hp
  | refused reason => exact .rejected reason
  | unminted d reason hp => exact .rejected reason
  | created d l₁ hp hdest hc =>
    obtain ⟨hs, hv, -⟩ := (Ledger.creditEther_does hidle.wf _ _).ok _ _ hc
    have heff : Effect V owner block raw (w.ledger.view V) ⟨true, [], .accept, none⟩
        ((w.ledger.view V).addEther d.sender d.mint) := .created d hp hdest
    rw [← hv, ← Ledger.committed_view hs.wf] at heff
    exact heff
  | deposit d dest l₁ outcome w₁ hp hdest hc hends =>
    obtain ⟨hs, hv, -⟩ := (Ledger.creditEther_does hidle.wf _ _).ok _ _ hc
    have hrevert : ∀ data, outcome = .revert data →
        Effect V owner block raw (w.ledger.view V) (resultOf w₁.sink outcome)
          ((depositLedger w.ledger l₁ w₁.ledger outcome).view V) := by
      rintro data rfl
      show Effect V owner block raw (w.ledger.view V) _ (l₁.committed.view V)
      rw [Ledger.committed_view hs.wf, hv]
      exact .minted d _ hp (resultOf_reverted _ data)
    rcases hends.ended hs.wf with ⟨rfl, hle, v', es, hacc, hwf₁, hv₁, hes⟩ | ⟨data, hdata⟩ | ⟨e, rfl⟩
    · show Effect V owner block raw (w.ledger.view V) (resultOf w₁.sink .accept)
        (w₁.ledger.committed.view V)
      have hstart : (start block l₁ w).ledger.view V = (w.ledger.view V).addEther d.sender d.mint :=
        hv
      have hctx : V.context block raw = some (depositContext block d dest) := by
        rw [Viem.context, hp]
        simp only [hdest, Option.map_some]
      rw [hstart] at hle hacc
      rw [Ledger.committed_view hwf₁, hv₁, resultOf, hes]
      exact .called (depositContext block d dest) v' es hctx hle hacc (fun h => by cases h)
    · exact hrevert data hdata
    · exact .rejected _
  | undone tx w₁ reason hp => exact .rejected reason
  | signed tx sender dest outcome w₁ l' hp hadm hends hrej hidle' hch =>
    have hrevert : ∀ data, outcome = .revert data →
        Effect V owner block raw (w.ledger.view V) (resultOf w₁.sink outcome) (l'.view V) := by
      rintro data rfl
      rw [hch.view]
      exact .charged tx sender _ hp hadm.signer hch.covers (resultOf_reverted _ data)
    have hwf : (start block w.ledger w).ledger.WF V := hidle.wf
    rcases hends.ended hwf with ⟨rfl, hle, v', es, hacc, hwf₁, hv₁, hes⟩ | ⟨data, hdata⟩ | ⟨e, he⟩
    · have hview : l'.view V = v'.addEther sender (-w.ledger.ram.fee) := by
        rw [hch.view]
        exact congrArg (View.addEther sender (-w.ledger.ram.fee)) hv₁
      have hfee : w.ledger.ram.fee ≤ v'.balances sender := by
        rw [← hv₁]
        exact hch.covers
      set ctx := signedContext block tx sender dest with hctxdef
      have hctx : V.context block raw = some ctx := by
        rw [Viem.context, hp]
        simp only [hadm.signer, hadm.target, Option.bind_eq_bind, Option.bind_some]
        rfl
      -- a signed transaction mints nothing
      have hmint : (w.ledger.view V).addEther ctx.sender ctx.mint = w.ledger.view V :=
        View.addEther_zero _ _
      have hstart : (start block w.ledger w).ledger.view V =
          (w.ledger.view V).addEther ctx.sender ctx.mint := hmint.symm
      rw [hstart] at hle hacc
      show Effect V owner block raw (w.ledger.view V) (resultOf w₁.sink .accept) (l'.view V)
      rw [hview, resultOf, hes]
      exact .called ctx v' es hctx hle hacc fun _ => hfee
    · exact hrevert data hdata
    · exact hrevert _ he

end Router

/-- What the next input of a run does to the view. -/
theorem Run.effect {chainId : ℕ} {owner : Address} {block : BlockContext} {raw : Bytes}
    {res : AdvanceResult} (h : Run V (Router.new V chainId owner) hist w)
    (hrun : ((Router.new V chainId owner).advance V block raw).run w = .ok res w') :
    Effect V owner block raw (w.ledger.view V) res (w'.ledger.view V) :=
  Router.advance_effect h.idle hrun

/-- An invariant of the views that every input keeps, together with the history, holds along
    every run of the built-in handlers. -/
theorem Run.view_induction {chainId : ℕ} {owner : Address}
    {P : List (Input ρ) → View → Prop}
    (hinit : P [] ⟨fun _ => 0, fun _ _ => 0, [], Ram.new⟩)
    (hstep : ∀ (hist : List (Input ρ)) (i : Input ρ), P hist (i.before.ledger.view V) →
      Effect V owner i.block i.raw (i.before.ledger.view V) i.res (i.after.ledger.view V) →
      P (hist ++ [i]) (i.after.ledger.view V))
    (h : Run V (Router.new V chainId owner) hist w) : P hist (w.ledger.view V) := by
  generalize hr : (Router.new V chainId owner : Router ρ) = r at h
  induction h with
  | genesis h => rwa [h.empty.2.2]
  | advance block raw h hrun ih =>
    subst hr
    exact hstep _ ⟨block, raw, _, _, _⟩ ih (h.effect hrun)
  | inspect lastBlock payload h hrun ih =>
    subst hr
    have hi := Router.inspect_ledger chainId owner h.idle.wf lastBlock payload
    rw [hrun, endState_ok] at hi
    rwa [hi]

end OpCartesi.App
