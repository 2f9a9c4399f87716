import OpCartesi.App.Inputs

/-!
# Replay protection

The nonce of an account counts the signed transactions it was charged for, whatever the
handlers do and however often they are rolled back.

* `Input.nonces`: what one input does to the nonces.
* `Run.nonces_lt_of_mem`: a transaction that was executed carries a nonce below the account's.
* `nonces_count`: the statement for whole runs.
-/

namespace OpCartesi.App

open Drive Exec

open Ledger (Idle Step)

variable {ρ : Type} {V : Viem} {r : Router ρ} {w w' : World ρ} {hist : List (Input ρ)} {i : Input ρ}
  {a : Address}

/-- The recovered sender of a signed transaction. -/
def Viem.signer (V : Viem) (raw : Bytes) : Option Address :=
  match V.parseInput raw with
  | .signed tx => V.recoverSender tx
  | _ => none

/-- The nonce a signed transaction carries. -/
def Viem.nonce (V : Viem) (raw : Bytes) : Option ℕ :=
  match V.parseInput raw with
  | .signed tx => some tx.nonce.val
  | _ => none

/-- The answers to an executed transaction. -/
def Outcome.executed : Outcome → Bool
  | .accept => true
  | .revert => true
  | .fail => true
  | .reject => false
  | .unparsed => false

/-- The input is a signed transaction of `a` that was executed. -/
def Input.executedFor (V : Viem) (a : Address) (i : Input ρ) : Bool :=
  decide (V.signer i.raw = some a) && i.res.outcome.executed

theorem Input.executedFor_iff :
    i.executedFor V a = true ↔ V.signer i.raw = some a ∧ i.res.outcome.executed = true := by
  simp [Input.executedFor]

/-- The nonces after a charge. -/
theorem Charged.nonces_eq {l l' : Ledger} {fee : ℤ} (h : Charged V l a fee l') :
    l'.nonces V = Function.update (l.nonces V) a (l.nonces V a + 1) :=
  (Ledger.of_setRecord h.book h.ram h.tokens).1

section

variable (hr : r.Journaled V)
include hr

/-- An executed transaction carries its sender's nonce and raises it by one. Nothing else
    changes a nonce. -/
theorem Input.nonces {l₀ : Ledger} (hidle : l₀.Idle V) (hs : Step V l₀ i.before.ledger)
    (h : (r.advance V i.block i.raw).run i.before = .ok i.res i.after) :
    (∃ a, i.executedFor V a = true ∧ V.nonce i.raw = some (i.before.ledger.nonces V a) ∧
      i.after.ledger.nonces V =
        Function.update (i.before.ledger.nonces V) a (i.before.ledger.nonces V a + 1)) ∨
    (∀ a, i.executedFor V a = false) ∧ i.after.ledger.nonces V = i.before.ledger.nonces V := by
  obtain ⟨block, raw, before, res, after⟩ := i
  simp only at hs h ⊢
  have hdeposit : ∀ {d : Deposit} {a : Address}, V.parseInput raw = .deposit d →
      Input.executedFor V a ⟨block, raw, before, res, after⟩ = false := by
    intro d a hp
    simp [Input.executedFor, Viem.signer, hp]
  cases Router.advance_processed hr hidle hs h with
  | unparsed => exact Or.inr ⟨fun a => by simp [Input.executedFor, Outcome.executed], rfl⟩
  | refused reason =>
    exact Or.inr ⟨fun a => by simp [Input.executedFor, Router.rejected, Outcome.executed], rfl⟩
  | unminted d reason hp => exact Or.inr ⟨fun a => hdeposit hp, hs.nonces.symm⟩
  | created d l₁ hp hdest hc =>
    have hs₁ := ((Ledger.creditEther_does hs.wf _ _).ok _ _ hc).1
    exact Or.inr ⟨fun a => hdeposit hp, (Ledger.committed_nonces hs₁.wf).trans hs₁.nonces⟩
  | deposit d dest l₁ outcome w₁ hp hdest hc hends =>
    have hs₁ := ((Ledger.creditEther_does hs.wf _ _).ok _ _ hc).1
    have hs₂ : Step V l₁ w₁.ledger := hends.step hr hs₁.wf
    refine Or.inr ⟨fun a => hdeposit hp, ?_⟩
    have hkept : w₁.ledger.committed.nonces V = before.ledger.nonces V := by
      rw [Ledger.committed_nonces hs₂.wf, hs₂.nonces, hs₁.nonces]
    cases outcome with
    | accept => exact hkept
    | fail data => exact hkept
    | revert data => exact (Ledger.committed_nonces hs₁.wf).trans hs₁.nonces
    | reject reason => exact hs.nonces.symm
  | undone tx w₁ reason hp =>
    refine Or.inr ⟨fun a => ?_, hs.nonces.symm⟩
    simp [Input.executedFor, Router.rejected, Outcome.executed]
  | signed tx sender dest outcome w₁ l' hp hadm hends hrej hidle' hch =>
    have hstep : Step V before.ledger w₁.ledger :=
      Router.Ends.step (w := Router.start block before.ledger before) hr hs.wf hends
    have hkept : (Router.kept before.ledger w₁.ledger outcome).nonces V = before.ledger.nonces V := by
      cases outcome with
      | revert data => rfl
      | _ => exact hstep.nonces
    refine Or.inl ⟨sender, ?_, ?_, ?_⟩
    · rw [Input.executedFor_iff, Router.resultOf_outcome]
      refine ⟨by rw [Viem.signer, hp]; exact hadm.signer, ?_⟩
      cases outcome with
      | reject reason => exact absurd rfl (hrej reason)
      | _ => rfl
    · rw [Viem.nonce, hp]
      exact congrArg some hadm.nonce
    · show l'.nonces V = _
      rw [hch.nonces_eq, hkept]

/-- The inputs of a run are steps of the router, each from a step after an idle ledger. -/
theorem Run.input (h : Run V r hist w) (hi : i ∈ hist) :
    (∃ l₀, l₀.Idle V ∧ Step V l₀ i.before.ledger) ∧
      (r.advance V i.block i.raw).run i.before = .ok i.res i.after := by
  induction h with
  | genesis h => cases hi
  | advance block raw h hrun ih =>
    rcases List.mem_append.1 hi with hi | hi
    · exact ih hi
    · rw [List.mem_singleton.1 hi]
      exact ⟨h.base hr, hrun⟩
  | inspect lastBlock payload h hrun ih => exact ih hi

/-- The nonces after an inspect. -/
theorem inspect_nonces {l₀ : Ledger} (hs : Step V l₀ w.ledger) (lastBlock : Option BlockContext)
    (payload : Bytes) :
    (endState ((r.inspect V lastBlock payload).run w)).ledger.nonces V = w.ledger.nonces V :=
  (Router.inspect_step hr hs.wf lastBlock payload).nonces

/-- The nonce of an account is the number of its executed transactions. -/
theorem Run.nonces (h : Run V r hist w) (a : Address) :
    w.ledger.nonces V a = hist.countP (Input.executedFor V a) := by
  induction h with
  | genesis h => rw [h.empty.2.1, List.countP_nil]
  | advance block raw h hrun ih =>
    rename_i hist w w' res
    obtain ⟨l₀, hidle, hs⟩ := h.base hr
    rw [List.countP_append, ← ih, List.countP_singleton]
    rcases Input.nonces (i := ⟨block, raw, w, res, w'⟩) hr hidle hs hrun with
      ⟨b, hb, -, hn⟩ | ⟨hno, hn⟩
    · simp only at hn
      rw [hn, Function.update_apply]
      have hb' := (Input.executedFor_iff.1 hb)
      split_ifs with hab hex hex
      · rw [hab]
      · exact absurd (hab ▸ hb) hex
      · have := (Input.executedFor_iff.1 hex).1
        rw [hb'.1] at this
        exact absurd (Option.some.inj this).symm hab
      · rfl
    · rw [if_neg (by simp [hno a])]
      exact congrFun hn a
  | inspect lastBlock payload h hrun ih =>
    obtain ⟨l₀, -, hs⟩ := h.base hr
    have hn := inspect_nonces hr hs lastBlock payload
    rw [hrun, endState_ok] at hn
    rw [hn]
    exact ih

/-- An executed transaction carries a nonce that its sender has left behind. -/
theorem Run.nonces_lt_of_mem (h : Run V r hist w) (hi : i ∈ hist) (ha : i.executedFor V a = true)
    : ∃ n, V.nonce i.raw = some n ∧ n < w.ledger.nonces V a := by
  induction h with
  | genesis h => cases hi
  | advance block raw h hrun ih =>
    rename_i hist w w' res
    obtain ⟨l₀, hidle, hs⟩ := h.base hr
    have hstep := Input.nonces (i := ⟨block, raw, w, res, w'⟩) hr hidle hs hrun
    rcases List.mem_append.1 hi with hi | hi
    · obtain ⟨n, hn, hlt⟩ := ih hi
      refine ⟨n, hn, hlt.trans_le ?_⟩
      rcases hstep with ⟨b, -, -, hb⟩ | ⟨-, hb⟩
      · simp only at hb
        rw [hb, Function.update_apply]
        split_ifs with hab
        · rw [hab]
          exact Nat.le_succ _
        · exact le_refl _
      · exact (congrFun hb a).ge
    · obtain rfl := List.mem_singleton.1 hi
      rcases hstep with ⟨b, hb, hn, hw⟩ | ⟨hno, -⟩
      · have hab : b = a := Option.some.inj
          ((Input.executedFor_iff.1 hb).1.symm.trans (Input.executedFor_iff.1 ha).1)
        subst hab
        refine ⟨_, hn, ?_⟩
        simp only at hw
        rw [hw, Function.update_self]
        exact Nat.lt_succ_self _
      · rw [hno a] at ha
        cases ha
  | inspect lastBlock payload h hrun ih =>
    obtain ⟨l₀, -, hs⟩ := h.base hr
    have hn := inspect_nonces hr hs lastBlock payload
    rw [hrun, endState_ok] at hn
    rw [hn]
    exact ih hi

/-- No two executed transactions of one sender carry the same nonce. -/
theorem Run.nonces_pairwise (h : Run V r hist w) :
    hist.Pairwise fun i j => ∀ a, i.executedFor V a = true → j.executedFor V a = true →
      V.nonce i.raw ≠ V.nonce j.raw := by
  induction h with
  | genesis h => exact List.Pairwise.nil
  | advance block raw h hrun ih =>
    rename_i hist w w' res
    obtain ⟨l₀, hidle, hs⟩ := h.base hr
    refine List.pairwise_append.2 ⟨ih, List.pairwise_singleton _ _, ?_⟩
    intro i hi j hj a hia hja heq
    obtain rfl := List.mem_singleton.1 hj
    obtain ⟨n, hn, hlt⟩ := h.nonces_lt_of_mem hr hi hia
    rcases Input.nonces (i := ⟨block, raw, w, res, w'⟩) hr hidle hs hrun with
      ⟨b, hb, hnb, -⟩ | ⟨hno, -⟩
    · have hab : b = a := Option.some.inj
        ((Input.executedFor_iff.1 hb).1.symm.trans (Input.executedFor_iff.1 hja).1)
      subst hab
      rw [hn, hnb] at heq
      exact absurd (Option.some.inj heq) hlt.ne
    · rw [hno a] at hja
      cases hja
  | inspect lastBlock payload h hrun ih => exact ih

end

/-- Replay protection. In every run, the nonce of an account counts its executed transactions
    and stays below `2 ^ 64`, no two executed transactions of one sender carry the same nonce,
    and an input that is not an executed transaction changes no nonce, nor does an inspect. -/
theorem nonces_count (hr : r.Journaled V) (h : Run V r hist w) :
    (∀ a, w.ledger.nonces V a = hist.countP (Input.executedFor V a) ∧
      w.ledger.nonces V a < 2 ^ 64) ∧
    (hist.Pairwise fun i j => ∀ a, i.executedFor V a = true → j.executedFor V a = true →
      V.nonce i.raw ≠ V.nonce j.raw) ∧
    (∀ i ∈ hist, V.signer i.raw = none ∨ i.res.outcome.executed = false →
      i.after.ledger.nonces V = i.before.ledger.nonces V) ∧
    ∀ lastBlock payload,
      (endState ((r.inspect V lastBlock payload).run w)).ledger.nonces V = w.ledger.nonces V := by
  obtain ⟨l₀, hidle, hs⟩ := h.base hr
  refine ⟨fun a => ⟨h.nonces hr a, Ledger.nonces_lt hs.wf a⟩, h.nonces_pairwise hr, ?_,
    inspect_nonces hr hs⟩
  intro i hi hnot
  obtain ⟨⟨l₁, hidle₁, hs₁⟩, hrun⟩ := h.input hr hi
  rcases Input.nonces hr hidle₁ hs₁ hrun with ⟨a, ha, -⟩ | ⟨-, hn⟩
  · obtain ⟨hsig, hex⟩ := Input.executedFor_iff.1 ha
    rw [hsig, hex] at hnot
    simp at hnot
  · exact hn

theorem nonces_count_sample : ∃ (i : Input Unit) (w : World Unit),
    Run Sample.viem Sample.router [i] w ∧ i.raw = Sample.signedRaw ∧
    w.ledger.nonces Sample.viem Sample.alice =
      [i].countP (Input.executedFor Sample.viem Sample.alice) := by
  obtain ⟨l, hf⟩ := Ledger.fresh_exists Sample.viem
  have hadm : Router.Admitted Sample.viem Sample.router l Sample.signed Sample.alice Sample.app :=
    Sample.admitted rfl (by rw [hf.nonces]) (by rw [hf.ram, hf.view]; decide)
  obtain ⟨res, w', hrun, -⟩ := hadm.processed (w := Sample.world l) Sample.block
    (builtins_journaled _ _) hf.idle (Step.refl hf.idle.wf) Sample.parse_signed
  have hadv : (Sample.router.advance Sample.viem Sample.block Sample.signedRaw).run
      (Sample.world l) = .ok res w' := by
    rw [Router.advance, Sample.parse_signed]
    exact hrun
  have hstart : Run Sample.viem Sample.router [] (Sample.world l) := .genesis (.devnet hf.created)
  have h := hstart.advance Sample.block Sample.signedRaw hadv
  exact ⟨_, w', h, rfl, ((nonces_count (builtins_journaled _ _) h).1 Sample.alice).1⟩

end OpCartesi.App
