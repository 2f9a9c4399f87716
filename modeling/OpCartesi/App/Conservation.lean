import OpCartesi.App.Inputs
import OpCartesi.Common.Totals

/-!
# Conservation of ether

Ether enters the ledger as the mint of a deposit and leaves it as a fee or as the value of a
withdrawal. Everything else the built-in handlers do moves it between accounts.

* `Accepted.conserves`: what a handler that accepts takes out of the ledger is what the withdrawals
  among its outputs carry.
* `ether_conserved`: the balance of every input of a run.
-/

namespace OpCartesi.App

open Drive Exec

variable {ρ : Type} {V : Viem} {w w' : World ρ} {hist : List (Input ρ)} {v v' : View}
  {es : List Emission}

/-- The sum of all ether balances. -/
def View.totalEther (v : View) : ℤ := total v.balances

/-- The value a withdrawal carries. -/
def Emission.withdrawnValue : Emission → ℕ
  | .notice (.withdrawal m) => m.value
  | _ => 0

/-- The total value of the withdrawals among the outputs. -/
def withdrawn (es : List Emission) : ℕ := (es.map Emission.withdrawnValue).sum

/-- The mint of a deposit, `0` for every other input. -/
def Viem.mint (V : Viem) (raw : Bytes) : ℕ :=
  match V.parseInput raw with
  | .deposit d => d.mint
  | _ => 0

/-- The fee a signed transaction pays, `0` for every other input. -/
def Viem.fee (V : Viem) (v : View) (raw : Bytes) : ℤ :=
  match V.parseInput raw with
  | .signed _ => v.ram.fee
  | _ => 0

/-! ## Moving ether -/

theorem View.totalEther_add (a : Address) (delta : ℤ) (h : 0 ≤ v.balances a + delta) :
    (v.addEther a delta).totalEther = v.totalEther + delta := total_add v.balances a delta h

theorem View.totalEther_move (a b : Address) {n : ℕ} (h : n ≤ v.balances a) :
    (v.moveEther a b n).totalEther = v.totalEther := by
  rw [moveEther, totalEther_add _ _ (by omega), totalEther_add _ _ (by omega)]
  ring

theorem withdrawn_append (es es' : List Emission) :
    withdrawn (es ++ es') = withdrawn es + withdrawn es' := by
  rw [withdrawn, List.map_append, List.sum_append]
  rfl

theorem withdrawn_passed (m : WithdrawalMessage) : withdrawn (passed V m) = m.value := rfl

theorem withdrawn_eq_zero_of_reports (h : ∀ e ∈ es, e.isReport = true) : withdrawn es = 0 := by
  refine List.sum_eq_zero fun n hn => ?_
  obtain ⟨e, he, rfl⟩ := List.mem_map.1 hn
  cases e with
  | report tag payload => rfl
  | _ => cases h _ he

/-! ## Handlers -/

/-- The dispatch of a message moves ether between accounts only. -/
theorem Relayed.conserves {m : CrossDomainMessage} {cd : CrossDomainConfig} (h : Relayed V m cd v v' es) :
    v'.totalEther = v.totalEther ∧ withdrawn es = 0 := by
  cases h with
  | erc20 remoteToken sender dest amount extraData id v₁ htarget hsender hcall hvalue hid =>
    refine ⟨?_, rfl⟩
    cases hid <;> rfl
  | ether sender dest extraData htarget hsender hcall hle =>
    exact ⟨View.totalEther_move L2_MESSENGER_ADDRESS dest hle, rfl⟩
  | plain htarget hmessage hle =>
    exact ⟨View.totalEther_move L2_MESSENGER_ADDRESS m.target hle, rfl⟩

/-- What a handler takes out of the ledger is in its withdrawals. -/
theorem Accepted.conserves {owner : Address} {ctx : TxContext} {s : BufferSink}
    (h : Accepted V owner ctx s v v' es) : v'.totalEther = v.totalEther - withdrawn es := by
  cases h with
  | withdrawEther dest nonce hdest hcall hle hn =>
    rw [View.totalEther_add _ _ (by omega), withdrawn_passed]
    rfl
  | withdrawal target gasLimit nonce data hdest hle hn =>
    rw [View.totalEther_add _ _ (by omega), withdrawn_passed]
    rfl
  | relayed m cd v₁ es₁ hdest hcd hcall href hrel =>
    obtain ⟨htotal, hzero⟩ := hrel.conserves
    show v₁.totalEther = _
    rw [withdrawn_append, hzero, htotal]
    simp [withdrawn, Emission.withdrawnValue, logged]
  | portalEther hmanifest hdep hportal hlen hle =>
    have hmove := View.totalEther_move ctx.dest (PortalReceiver.addressAt ctx.data 0) hle
    rw [View.moveEther] at hmove
    rw [hmove]
    simp [withdrawn]
  | portalERC20 kind id v₁ hmanifest hdep hportal hkind hlen hid =>
    cases hid <;> simp [withdrawn, Emission.withdrawnValue, logged, View.totalEther, View.addToken,
      View.addTokenType]
  | _ =>
    simp [withdrawn, Emission.withdrawnValue, logged, View.totalEther, View.addToken,
      View.addTokenType, View.countMessage, View.setStatus, sent, passed]

/-! ## Inputs -/

/-- The ether balance of one input. -/
theorem Effect.ether {owner : Address} {block : BlockContext} {raw : Bytes} {res : AdvanceResult}
    (h : Effect V owner block raw v res v') :
    (res.outcome = .reject → v'.totalEther = v.totalEther) ∧
    (res.outcome ≠ .reject →
      v'.totalEther = v.totalEther + V.mint raw - V.fee v raw - withdrawn res.emissions) := by
  cases h with
  | unparsed hp =>
    refine ⟨by simp, fun _ => ?_⟩
    simp [Viem.mint, Viem.fee, hp, withdrawn, Emission.withdrawnValue]
  | rejected reason => exact ⟨fun _ => rfl, fun h => absurd rfl h⟩
  | created d hp hdest =>
    refine ⟨by simp, fun _ => ?_⟩
    rw [View.totalEther_add _ _ (by omega)]
    simp [Viem.mint, Viem.fee, hp, withdrawn]
  | minted d res hp hres =>
    refine ⟨by simp [hres.outcome], fun _ => ?_⟩
    rw [View.totalEther_add _ _ (by omega), withdrawn_eq_zero_of_reports hres.reports]
    simp [Viem.mint, Viem.fee, hp]
  | charged tx sender res hp hsigner hfee hres =>
    refine ⟨by simp [hres.outcome], fun _ => ?_⟩
    rw [View.totalEther_add _ _ (by omega), withdrawn_eq_zero_of_reports hres.reports]
    simp only [Viem.mint, Viem.fee, hp, Nat.cast_zero]
    ring
  | called ctx v₁ es hctx hvalue hacc hfee =>
    refine ⟨by simp, fun _ => ?_⟩
    have hcall : v₁.totalEther = v.totalEther + ctx.mint - withdrawn es := by
      rw [hacc.conserves, View.entry, View.totalEther_move _ _ hvalue,
        View.totalEther_add _ _ (by omega)]
    rcases context_eq_some hctx with ⟨d, dest, hp, rfl⟩ | ⟨tx, sender, dest, hp, -, rfl⟩
    · simp only [Viem.mint, Viem.fee, hp, sub_zero]
      exact hcall
    · have hexit : (v₁.exit (Router.signedContext block tx sender dest) v.ram.fee).totalEther =
          v₁.totalEther - v.ram.fee := by
        have hfee' : v.ram.fee ≤ v₁.balances sender := hfee rfl
        exact View.totalEther_add sender (-v.ram.fee) (by omega)
      rw [hexit, hcall]
      simp only [Viem.mint, Viem.fee, hp, Router.signedContext, Nat.cast_zero]
      ring

/-- Conservation of ether, for every input of every run of the built-in handlers. -/
theorem ether_conserved {chainId : ℕ} {owner : Address} {block : BlockContext} {raw : Bytes}
    {res : AdvanceResult} (h : Run V (Router.new V chainId owner) hist w)
    (hrun : ((Router.new V chainId owner).advance V block raw).run w = .ok res w') :
    (res.outcome = .reject → (w'.ledger.view V).totalEther = (w.ledger.view V).totalEther) ∧
    (res.outcome ≠ .reject → (w'.ledger.view V).totalEther =
      (w.ledger.view V).totalEther + V.mint raw - V.fee (w.ledger.view V) raw -
        withdrawn res.emissions) :=
  (h.effect hrun).ether

theorem ether_conserved_sample : ∃ (l : Ledger) (res : AdvanceResult) (w' : World Unit),
    Run Sample.viem Sample.router [] (Sample.world l) ∧
    (Sample.router.advance Sample.viem Sample.block Sample.depositRaw).run (Sample.world l) =
      .ok res w' ∧
    (res.outcome = .reject →
      (w'.ledger.view Sample.viem).totalEther = (l.view Sample.viem).totalEther) := by
  obtain ⟨l, hf⟩ := Ledger.fresh_exists Sample.viem
  obtain ⟨l₁, hc, hs, -⟩ := hf.creditEther Sample.alice_ne 1 (by norm_num)
  obtain ⟨outcome, w₁, hends⟩ := Router.ends_exists (r := Sample.router) (V := Sample.viem)
    (Router.depositContext Sample.block ⟨Sample.alice, some Sample.bob, 1, 2, []⟩ Sample.bob)
    none (Router.start Sample.block l₁ (Sample.world l))
  have hadv : Sample.router.advance Sample.viem Sample.block Sample.depositRaw =
      Sample.router.advanceDeposit Sample.viem Sample.block
        ⟨Sample.alice, some Sample.bob, 1, 2, []⟩ := by
    rw [Router.advance, Sample.parse_deposit]
  obtain ⟨res, w', hrun⟩ : ∃ res w',
      (Sample.router.advance Sample.viem Sample.block Sample.depositRaw).run (Sample.world l) =
        .ok res w' := by
    rw [hadv]
    exact ⟨_, _, Router.advanceDeposit_call (w := Sample.world l) (builtins_journaled _ _) hf.idle
      (Ledger.Step.refl hf.idle.wf) rfl hs hc hends⟩
  have hstart : Run Sample.viem Sample.router [] (Sample.world l) := .genesis (.devnet hf.created)
  exact ⟨l, res, w', hstart, hrun, (ether_conserved hstart hrun).1⟩

end OpCartesi.App
