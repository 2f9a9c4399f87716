import OpCartesi.App.Inspects

/-!
# Simulations (`router.ts`)

`inspect` repeats the dispatch of `execute` for `EvmSimulate`, without enforcement and charge, and
rolls it back.

* `settle_answer`: a signed transaction is answered as its outcome says, unless it is rejected.
* `inspectSimulate_run`: a simulation answers the outcome of the dispatch.
* `simulate_predicts`: a simulation answers as the transaction would be answered.
-/

namespace OpCartesi.App

open Drive Exec

variable {ρ : Type} {V : Viem} {r : Router ρ} {w w' w₁ : World ρ}

namespace Router

/-! ## The answer to a signed transaction -/

/-- A charge that is refused rejects the input. -/
theorem charge_answer (c : Chargeable) (w : World ρ) :
    Returns (charge V (some c)) w fun refused _ => ∀ res, refused = some res →
      res.outcome = .reject := by
  refine Returns.catching ?_ fun e w₁ _ => ?_
  · refine Returns.bind (Returns.trivial _ _) fun _ _ _ => Returns.pure ?_
    intro res hres
    cases hres
  · refine Returns.bind (Returns.trivial _ _) fun _ _ _ => Returns.pure ?_
    intro res hres
    cases hres
    rfl

theorem finish_answer (c : Chargeable) (result : AdvanceResult) (w : World ρ) :
    Returns (finish V (some c) result) w fun res _ => res = result ∨ res.outcome = .reject := by
  refine Returns.bind (charge_answer c w) fun refused w₁ hrefused => ?_
  cases refused with
  | none => exact Returns.bind (Returns.trivial _ _) fun _ _ _ => Returns.pure (.inl rfl)
  | some res => exact Returns.pure (.inr (hrefused res rfl))

/-- A signed transaction is answered as its outcome says, or rejected. -/
theorem settle_answer (mark : ℕ) (c : Chargeable) (outcome : AdvanceOutcome) (w : World ρ) :
    Returns (settle V mark (some c) outcome) w fun res _ =>
      res = resultOf w.sink outcome ∨ res.outcome = .reject := by
  have hget : Returns (get : GuestM ρ (World ρ)) w fun w₁ _ => w₁ = w := by
    intro w₁ w₂ h
    cases h
    rfl
  refine Returns.bind hget fun w₁ w₂ hw => ?_
  subst hw
  cases outcome with
  | accept => exact finish_answer c _ w₂
  | fail data => exact finish_answer c _ w₂
  | revert data =>
    exact Returns.bind (Returns.trivial _ _) fun _ _ _ => Returns.bind (Returns.trivial _ _)
      fun _ w₃ _ => finish_answer c _ w₃
  | reject reason =>
    exact Returns.bind (Returns.trivial _ _) fun _ _ _ => Returns.pure (.inr rfl)

/-! ## The answer to a simulation -/

/-- What a simulation answers to an outcome. -/
def simulated : AdvanceOutcome → InspectResult
  | .revert data => ⟨false, [.revert data]⟩
  | .fail data => ⟨false, [.fail data]⟩
  | _ => ⟨true, [.returned .empty]⟩

/-- A simulation answers the outcome of the dispatch, a throw counted as for a signer who can be
    charged. -/
theorem inspectSimulate_run (hr : r.Journaled V) (hwf : w.ledger.WF V)
    (lastBlock : Option BlockContext) (call : DecodedCall) {c : Chargeable}
    {outcome : AdvanceOutcome}
    (h : r.Ends V (r.simulateContext lastBlock call) (some c)
      (start (r.simulateContext lastBlock call).block w.ledger w) outcome w₁) :
    (r.inspectSimulate V lastBlock call).run w =
      .ok (simulated outcome) { w₁ with ledger := w.ledger } := by
  have hstep : Ledger.Step V w.ledger w₁.ledger :=
    Ends.step (w := start (r.simulateContext lastBlock call).block w.ledger w) hr hwf h
  have hcaught : (tryCatch (r.dispatch V (r.simulateContext lastBlock call))
      fun e => return revertWith (describe e)).run
        (start (r.simulateContext lastBlock call).block w.ledger w) = .ok outcome w₁ := by
    rcases h with h | ⟨e, h, rfl⟩
    · exact tryCatch_ok h
    · exact (tryCatch_error h).trans rfl
  rw [inspectSimulate, bind_ok (mark_run w), bind_ok (modify_run _ _)]
  refine (bind_ok hcaught).trans ?_
  rw [Journaled.rollback_bind hwf hstep]
  cases outcome <;> rfl

end Router

/-- The simulation's answer is of the same kind, with the same error data. -/
def Predicts (ins : InspectResult) (res : AdvanceResult) : Prop :=
  match res.outcome with
  | .accept => ins = ⟨true, [.returned .empty]⟩
  | .revert => ∃ reports data, res.emissions = reports ++ [.report .revert data] ∧
      ins = ⟨false, [.revert data]⟩
  | .fail => ∃ emissions data, res.emissions = emissions ++ [.report .fail data] ∧
      ins = ⟨false, [.fail data]⟩
  | .reject => True
  | .unparsed => True

namespace Router

theorem predicts_resultOf (s : BufferSink) (outcome : AdvanceOutcome) :
    Predicts (simulated outcome) (resultOf s outcome) := by
  cases outcome with
  | accept => rfl
  | revert data => exact ⟨_, data, rfl, rfl⟩
  | fail data => exact ⟨_, data, rfl, rfl⟩
  | reject reason => trivial

/-- For every well-formed ledger and every signed transaction that passes enforcement: if it is
    answered accept, revert or fail, then the simulation of its call in the same state, with its block
    as the last one, answers the same, with the same error data. -/
theorem simulate_predicts (chainId : ℕ) (owner : Address) (hwf : w.ledger.WF V)
    {block : BlockContext} {raw payload : Bytes} {tx : SignedTx} {sender dest : Address}
    {res : AdvanceResult} (hp : V.parseInput raw = .signed tx)
    (hadm : Admitted V (Router.new V chainId owner : Router ρ) w.ledger tx sender dest)
    (hrun : ((Router.new V chainId owner).advance V block raw).run w = .ok res w')
    (hcall : V.decodeEvmCall payload = some ⟨true, sender, dest, tx.value, tx.data⟩) :
    ∃ ins w'', ((Router.new V chainId owner).inspect V (some block) payload).run w = .ok ins w'' ∧
      Predicts ins res := by
  obtain ⟨outcome, w₁, hends⟩ := ends_exists (r := Router.new V chainId owner) (V := V)
    (signedContext block tx sender dest) (some ⟨sender, w.ledger.ram.fee⟩) (start block w.ledger w)
  -- both make the same call from the same state
  have hsim := inspectSimulate_run (builtins_journaled chainId owner) hwf (some block)
    ⟨true, sender, dest, tx.value, tx.data⟩ hends
  refine ⟨simulated outcome, { w₁ with ledger := w.ledger }, ?_, ?_⟩
  · rw [inspect, hcall]
    exact hsim
  · rw [advance, hp] at hrun
    simp only at hrun
    rw [hadm.advanceSigned block hwf, execute_run _ rfl hends] at hrun
    rcases settle_answer _ _ outcome w₁ res w' hrun with rfl | hreject
    · exact predicts_resultOf w₁.sink outcome
    · rw [Predicts, hreject]
      trivial

end Router

/-- A transaction that sets the attributes of `L1Block`, and its simulation, on a fresh chain. -/
theorem simulate_predicts_sample : ∃ (l : Ledger) (res : AdvanceResult) (w' : World Unit),
    Ledger.inMemory Sample.l1Viem = .ok l ∧
    (Sample.l1Router.advance Sample.l1Viem Sample.block Sample.setterRaw).run (Sample.world l) =
      .ok res w' ∧ res.outcome = .accept ∧
    ∃ ins w'', (Sample.l1Router.inspect Sample.l1Viem (some Sample.block)
      Sample.simulatePayload).run (Sample.world l) = .ok ins w'' ∧ Predicts ins res := by
  obtain ⟨l, hf⟩ := Ledger.fresh_exists Sample.l1Viem
  obtain ⟨res, w', hrun, haccept, -⟩ := Sample.setter_run hf
  exact ⟨l, res, w', hf.created, hrun, haccept, Router.simulate_predicts (w := Sample.world l) 1
    Sample.alice hf.idle.wf Sample.parse_setter (Sample.setter_admitted hf) hrun
    Sample.decode_simulatePayload⟩

end OpCartesi.App
