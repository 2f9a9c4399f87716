import OpCartesi.App.Effects
import OpCartesi.App.Genesis

/-!
# What the router's outcomes keep

Between inputs a ledger is `Idle`: well formed, with an empty journal. Only a view that
writes leaves entries behind, so an input starts a `Step` after an idle ledger `l₀`. Whatever
the handler does along a path, the router then commits it, rolls it back to the mark, or
rolls everything back to `l₀`.

* `settle_deposit`, `settle_signed`: the ledger each outcome ends on.
* `Processed`, `advance_processed`: what `Router.advance` does with each kind of input.
* `advance_idle`: the ledger is idle again after every input.
-/

namespace OpCartesi.App

open Drive Exec

open Ledger (Idle Step CanCharge)

/-- `l'` is `l` with the nonce of `a` one higher and its balance lower by `fee`. -/
structure Charged (V : Viem) (l : Ledger) (a : Address) (fee : ℤ) (l' : Ledger) : Prop where
  covers : fee ≤ (l.view V).balances a
  book : l'.book V = (l.book V).setRecord a
    (some (l.nonces V a + 1, ((l.view V).balances a - fee).toNat))
  ram : l'.ram = l.ram
  facades : l'.facades = l.facades
  tokens : l'.drive.tokens = l.drive.tokens

/-- The nonce after a charge. -/
theorem Charged.nonces {V : Viem} {l l' : Ledger} {a : Address} {fee : ℤ} (h : Charged V l a fee l') :
    l'.nonces V a = l.nonces V a + 1 := by
  rw [Ledger.nonces, Ledger.record, h.book, Book.setRecord]
  simp

namespace Router

variable {ρ : Type} {V : Viem} {r : Router ρ} {l₀ l₁ : Ledger} {w w' : World ρ}

/-! ## Rolling back and committing -/
theorem rollbackAll_run (hidle : l₀.Idle V) (h : Step V l₀ w.ledger) :
    (rollbackAll V).run w = .ok () { w with ledger := l₀ } := by
  obtain ⟨l₁, hr, ha⟩ := Ledger.rollback_run hidle.wf h.ext
  rw [hidle.entries, List.length_nil] at hr
  rw [rollbackAll, bind_ok (onLedger_ok hr)]
  exact onLedger_ok ha

/-- The answer to an outcome. -/
def resultOf (s : BufferSink) : AdvanceOutcome → AdvanceResult
  | .accept => ⟨true, s.emissions, .accept, none⟩
  | .fail data => ⟨true, s.emissions ++ [.report .fail data], .fail, none⟩
  | .revert data => ⟨true, s.reportsOnly ++ [.report .revert data], .revert, none⟩
  | .reject reason => rejected reason

/-- The ledger after an outcome that nobody is charged for: `l₀` is the ledger at the start
    of the input, `l₁` the one at the mark and `l` the one the handler left. -/
def depositLedger (l₀ l₁ l : Ledger) : AdvanceOutcome → Ledger
  | .accept => l.committed
  | .fail _ => l.committed
  | .revert _ => l₁.committed
  | .reject _ => l₀

theorem settle_deposit (hidle : l₀.Idle V) (h₁ : Step V l₀ l₁) (h₂ : Step V l₁ w.ledger)
    (outcome : AdvanceOutcome) :
    (settle V l₁.entries.length none outcome).run w = .ok (resultOf w.sink outcome)
      { w with ledger := depositLedger l₀ l₁ w.ledger outcome } := by
  rw [settle, bind_ok (get_run w)]
  cases outcome with
  | accept => rfl
  | fail data => rfl
  | revert data =>
    obtain ⟨l₂, hr, ha⟩ := Ledger.rollback_run h₁.wf h₂.ext
    simp only
    rw [bind_ok (onLedger_ok hr), bind_ok (onLedger_ok ha)]
    rfl
  | reject reason =>
    simp only
    rw [bind_ok (rollbackAll_run hidle (h₁.trans h₂))]
    rfl

/-! ## Charging -/

/-- The charge, and then the commit: or everything is undone. -/
theorem finish_run (hidle : l₀.Idle V) (h : Step V l₀ w.ledger) (c : Chargeable)
    (hn : l₀.nonces V c.address + 1 < 2 ^ 64) (res : AdvanceResult) :
    (¬CanCharge V w.ledger c.address c.fee ∧
      ∃ reason, (finish V (some c) res).run w = .ok (rejected reason) { w with ledger := l₀ }) ∨
    (CanCharge V w.ledger c.address c.fee ∧ ∃ l', l'.Idle V ∧
      Charged V w.ledger c.address c.fee l' ∧
      (finish V (some c) res).run w = .ok res { w with ledger := l' }) := by
  rcases Ledger.bump_run h.wf c.address c.fee (by rwa [h.nonces]) with
    ⟨hcan, e, he⟩ | ⟨hcan, l', hrun, hwf, -, hram, htok, hbook⟩
  · refine Or.inl ⟨hcan, describe e, ?_⟩
    have hcharge : (charge V (some c)).run w =
        .ok (some (rejected (describe e))) { w with ledger := l₀ } := by
      rw [charge, tryCatch_error (bind_error (onLedger_error he)),
        bind_ok (rollbackAll_run (w := { w with ledger := w.ledger }) hidle h)]
      rfl
    rw [finish, bind_ok hcharge]
    rfl
  · have hcharge : (charge V (some c)).run w = .ok none { w with ledger := l' } := by
      rw [charge]
      exact tryCatch_ok (bind_ok (onLedger_ok hrun))
    refine Or.inr ⟨hcan, l'.committed, Ledger.committed_idle hwf,
      ⟨hcan.1, (Ledger.committed_book hwf).trans hbook, hram, ?_, htok⟩, ?_⟩
    · show l'.facades = w.ledger.facades
      rw [hwf.facades, htok, ← h.wf.facades]
    · rw [finish, bind_ok hcharge]
      rfl

/-- The ledger an outcome is charged on: a revert is charged on the ledger of the mark. -/
def kept (l₀ l : Ledger) : AdvanceOutcome → Ledger
  | .revert _ => l₀
  | _ => l

/-- The outcomes of a signed transaction. -/
theorem settle_signed (hidle : l₀.Idle V) (h₁ : Step V l₀ l₁) (h₂ : Step V l₁ w.ledger)
    (c : Chargeable) (hn : l₁.nonces V c.address + 1 < 2 ^ 64) (outcome : AdvanceOutcome)
    (hrej : ∀ reason, outcome ≠ .reject reason) :
    (¬CanCharge V (kept l₁ w.ledger outcome) c.address c.fee ∧
      ∃ reason, (settle V l₁.entries.length (some c) outcome).run w =
        .ok (rejected reason) { w with ledger := l₀ }) ∨
    (CanCharge V (kept l₁ w.ledger outcome) c.address c.fee ∧ ∃ l', l'.Idle V ∧
      Charged V (kept l₁ w.ledger outcome) c.address c.fee l' ∧
      (settle V l₁.entries.length (some c) outcome).run w =
        .ok (resultOf w.sink outcome) { w with ledger := l' }) := by
  rw [h₁.nonces] at hn
  rw [settle, bind_ok (get_run w)]
  cases outcome with
  | accept => exact finish_run hidle (h₁.trans h₂) c hn _
  | fail data => exact finish_run hidle (h₁.trans h₂) c hn _
  | revert data =>
    obtain ⟨l₂, hr, ha⟩ := Ledger.rollback_run h₁.wf h₂.ext
    simp only
    rw [bind_ok (onLedger_ok hr), bind_ok (onLedger_ok ha)]
    exact finish_run (w := { w with ledger := l₁ }) hidle h₁ c hn _
  | reject reason => exact absurd rfl (hrej reason)

/-! ## Executing -/

variable {ctx : TxContext} {block : BlockContext} {raw : Bytes} {d : Deposit} {tx : SignedTx}
  {sender dest : Address} {res : AdvanceResult} {outcome : AdvanceOutcome}

/-- The state in which an input is executed on the ledger `l`. -/
def start (block : BlockContext) (l : Ledger) (w : World ρ) : World ρ :=
  { w with ledger := l, sink := BufferSink.new block.inputIndex }

variable (V r) in
/-- Value transfer and call end with `outcome` in `w'`, a throw counted as what it becomes. -/
def Ends (ctx : TxContext) (c : Option Chargeable) (w : World ρ) (outcome : AdvanceOutcome)
    (w' : World ρ) : Prop :=
  (r.dispatch V ctx).run w = .ok outcome w' ∨
    ∃ e, (r.dispatch V ctx).run w = .error e w' ∧ outcome = thrown c e

theorem ends_exists (ctx : TxContext) (c : Option Chargeable) (w : World ρ) :
    ∃ outcome w', r.Ends V ctx c w outcome w' := by
  cases h : (r.dispatch V ctx).run w with
  | ok outcome w' => exact ⟨outcome, w', Or.inl h⟩
  | error e w' => exact ⟨thrown c e, w', Or.inr ⟨e, h, rfl⟩⟩

theorem Ends.step (hr : r.Journaled V) {c : Option Chargeable} (hwf : w.ledger.WF V)
    (h : r.Ends V ctx c w outcome w') : Step V w.ledger w'.ledger := by
  have hs := (dispatch_journaled hr ctx).step hwf
  rcases h with h | ⟨e, h, -⟩
  · rwa [h, endState_ok] at hs
  · rwa [h, endState_error] at hs

theorem execute_run {c : Option Chargeable} {l : Ledger} (mark : ℕ) (hl : w.ledger = l)
    (h : r.Ends V ctx c (start ctx.block l w) outcome w') :
    (r.execute V ctx mark c).run w = (settle V mark c outcome).run w' := by
  subst hl
  rw [execute, bind_ok (modify_run _ _)]
  rcases h with h | ⟨e, h, rfl⟩
  · exact bind_ok (tryCatch_ok h)
  · exact bind_ok ((tryCatch_error h).trans rfl)

/-! ## Deposits -/

/-- A mint that is refused leaves the ledger alone. -/
theorem creditEther_cases (hwf : w.ledger.WF V) (a : Address) (mint : ℕ) :
    (∃ e, (Ledger.creditEther V a mint).run w.ledger = .error e w.ledger) ∨
    ∃ l₁, (Ledger.creditEther V a mint).run w.ledger = .ok () l₁ ∧ Step V w.ledger l₁ ∧
      l₁.view V = (w.ledger.view V).addEther a mint := by
  have hc := Ledger.creditEther_does hwf a mint
  cases h : (Ledger.creditEther V a mint).run w.ledger with
  | ok u l₁ =>
    obtain ⟨hs, hv, -⟩ := hc.ok u l₁ h
    exact Or.inr ⟨l₁, rfl, hs, hv⟩
  | error e l₁ =>
    obtain rfl := hc.error e l₁ h
    exact Or.inl ⟨e, rfl⟩

theorem advanceDeposit_create {l₁ : Ledger} (hdest : d.dest = none)
    (hc : (Ledger.creditEther V d.sender d.mint).run w.ledger = .ok () l₁) :
    (r.advanceDeposit V block d).run w =
      .ok ⟨true, [], .accept, none⟩ { w with ledger := l₁.committed } := by
  rw [advanceDeposit, hdest]
  exact tryCatch_ok (bind_ok (onLedger_ok hc))

theorem advanceDeposit_call {l₁ : Ledger} (hr : r.Journaled V) (hidle : l₀.Idle V)
    (hs₀ : Step V l₀ w.ledger) (hdest : d.dest = some dest) (hs : Step V w.ledger l₁)
    (hc : (Ledger.creditEther V d.sender d.mint).run w.ledger = .ok () l₁)
    (h : r.Ends V (depositContext block d dest) none (start block l₁ w) outcome w') :
    (r.advanceDeposit V block d).run w = .ok (resultOf w'.sink outcome)
      { w' with ledger := depositLedger l₀ l₁ w'.ledger outcome } := by
  have hcred : (tryCatch
      (do
        onLedger (Ledger.creditEther V d.sender d.mint)
        return true)
      fun _ => do
        rollbackAll V
        return false : GuestM ρ Bool).run w = .ok true { w with ledger := l₁ } :=
    tryCatch_ok (bind_ok (onLedger_ok hc))
  rw [advanceDeposit, hdest]
  simp only
  rw [bind_ok hcred, if_neg (by decide), bind_ok (mark_run _), execute_run _ rfl h]
  exact settle_deposit hidle (hs₀.trans hs) (h.step hr hs.wf) outcome

/-- A refused mint rejects the deposit. -/
theorem advanceDeposit_refused {e : AppError} (block : BlockContext) (hidle : l₀.Idle V)
    (hs₀ : Step V l₀ w.ledger)
    (hc : (Ledger.creditEther V d.sender d.mint).run w.ledger = .error e w.ledger) :
    ∃ reason, (r.advanceDeposit V block d).run w =
      .ok (rejected reason) { w with ledger := l₀ } := by
  have hroll := rollbackAll_run (w := w) hidle hs₀
  rw [advanceDeposit]
  cases hdest : d.dest with
  | none =>
    refine ⟨"mint refused", ?_⟩
    simp only
    rw [tryCatch_error (bind_error (onLedger_error hc)), bind_ok hroll]
    rfl
  | some dest =>
    refine ⟨"mint refused (drive full)", ?_⟩
    have hcred : (tryCatch
        (do
          onLedger (Ledger.creditEther V d.sender d.mint)
          return true)
        fun _ => do
          rollbackAll V
          return false : GuestM ρ Bool).run w = .ok false { w with ledger := l₀ } := by
      rw [tryCatch_error (bind_error (onLedger_error hc)), bind_ok hroll]
      rfl
    simp only
    rw [bind_ok hcred, if_pos rfl]
    rfl

/-! ## Signed transactions -/

/-- A transaction that passes enforcement (`router.ts:293-311`). -/
structure Admitted (V : Viem) (r : Router ρ) (l : Ledger) (tx : SignedTx) (sender dest : Address) :
    Prop where
  target : tx.dest = some dest
  chain : ∀ c, tx.chainId = some c → c = r.chainId
  signer : V.recoverSender tx = some sender
  nonzero : isZero sender.val = false
  nonce : tx.nonce.val = l.nonces V sender
  funds : l.ram.fee + tx.value ≤ (l.view V).balances sender

/-- A nonce that a transaction can carry has a successor. -/
theorem Admitted.nonce_lt (hwf : l₀.WF V) (h : Admitted V r l₀ tx sender dest) :
    l₀.nonces V sender + 1 < 2 ^ 64 := by
  have hlt := Ledger.nonces_lt hwf sender
  have hnum := tx.nonce.2
  rw [h.nonce] at hnum
  by_contra hge
  have hmax : l₀.nonces V sender = 2 ^ 64 - 1 := by omega
  rw [hmax] at hnum
  -- the nearest JavaScript number to 2⁶⁴ - 1 is 2⁶⁴
  exact absurd hnum (by decide +kernel)

/-- A signed transaction is turned away, or executed from an empty journal. -/
theorem advanceSigned_cases (block : BlockContext) (tx : SignedTx) (hwf : w.ledger.WF V) :
    (∃ reason, (r.advanceSigned V block tx).run w = .ok (rejected reason) w) ∨
    (∃ e, (r.advanceSigned V block tx).run w = .error e w) ∨
    ∃ sender dest, Admitted V r w.ledger tx sender dest ∧
      (r.advanceSigned V block tx).run w =
        (r.execute V (signedContext block tx sender dest) w.ledger.entries.length
          (some ⟨sender, w.ledger.ram.fee⟩)).run w := by
  rw [advanceSigned]
  cases hdest : tx.dest with
  | none => exact Or.inl ⟨_, rfl⟩
  | some dest =>
    simp only
    split_ifs with hchain
    · exact Or.inl ⟨_, rfl⟩
    cases hrec : V.recoverSender tx with
    | none => exact Or.inl ⟨_, rfl⟩
    | some sender =>
      have hacc := Ledger.account_run hwf sender
      simp only
      split_ifs at hacc with hz
      · exact Or.inr (Or.inl ⟨_, bind_error (onLedger_error hacc)⟩)
      rw [bind_ok (onLedger_ok hacc)]
      split_ifs with hnonce
      · exact Or.inl ⟨_, rfl⟩
      rw [bind_ok (ledger_run _)]
      split_ifs with hfunds
      · exact Or.inl ⟨_, rfl⟩
      refine Or.inr (Or.inr ⟨sender, dest, ⟨hdest, ?_, hrec, by simpa using hz,
        not_not.1 hnonce, not_lt.1 hfunds⟩, rfl⟩)
      intro c hc
      simpa [hc] using hchain

/-- Enforcement is all that stands before `execute`. -/
theorem Admitted.advanceSigned (block : BlockContext) (hwf : w.ledger.WF V)
    (h : Admitted V r w.ledger tx sender dest) :
    (r.advanceSigned V block tx).run w =
      (r.execute V (signedContext block tx sender dest) w.ledger.entries.length
        (some ⟨sender, w.ledger.ram.fee⟩)).run w := by
  have hacc := Ledger.account_run hwf sender
  rw [if_neg (by simp [h.nonzero])] at hacc
  have hchain : ¬(tx.chainId.any fun c => c ≠ r.chainId) = true := by
    cases hc : tx.chainId with
    | none => simp
    | some c => simp [h.chain c hc]
  rw [Router.advanceSigned, h.target]
  simp only
  rw [if_neg hchain, h.signer]
  simp only
  have hnonce : ¬tx.nonce.val ≠ (w.ledger.record V sender).1 := not_not.2 h.nonce
  have hfunds : ¬((w.ledger.record V sender).2 : ℤ) < w.ledger.ram.fee + tx.value :=
    not_lt.2 h.funds
  rw [bind_ok (onLedger_ok hacc), if_neg hnonce, bind_ok (ledger_run _), if_neg hfunds]
  rfl

/-- What `advance` can do with an input: its answer and the state it leaves. `l₀` is the idle
    ledger that undoing everything leads back to. -/
inductive Processed (V : Viem) (r : Router ρ) (block : BlockContext) (raw : Bytes) (l₀ : Ledger)
    (w : World ρ) : AdvanceResult → World ρ → Prop
  /-- An input that is not a transaction. -/
  | unparsed (hp : V.parseInput raw = .unparsed) :
      Processed V r block raw l₀ w ⟨true, [.report .app (.bytes raw)], .unparsed, none⟩ w
  /-- Refused before anything ran. -/
  | refused (reason : String) : Processed V r block raw l₀ w (rejected reason) w
  /-- A deposit that is refused for its mint. -/
  | unminted (d : Deposit) (reason : String) (hp : V.parseInput raw = .deposit d) :
      Processed V r block raw l₀ w (rejected reason) { w with ledger := l₀ }
  /-- A deposit without `to`. -/
  | created (d : Deposit) (l₁ : Ledger) (hp : V.parseInput raw = .deposit d)
      (hdest : d.dest = none)
      (hc : (Ledger.creditEther V d.sender d.mint).run w.ledger = .ok () l₁) :
      Processed V r block raw l₀ w ⟨true, [], .accept, none⟩ { w with ledger := l₁.committed }
  /-- A deposit that is executed. -/
  | deposit (d : Deposit) (dest : Address) (l₁ : Ledger) (outcome : AdvanceOutcome) (w₁ : World ρ)
      (hp : V.parseInput raw = .deposit d) (hdest : d.dest = some dest)
      (hc : (Ledger.creditEther V d.sender d.mint).run w.ledger = .ok () l₁)
      (hends : r.Ends V (depositContext block d dest) none (start block l₁ w) outcome w₁) :
      Processed V r block raw l₀ w (resultOf w₁.sink outcome)
        { w₁ with ledger := depositLedger l₀ l₁ w₁.ledger outcome }
  /-- A signed transaction that is executed and undone. -/
  | undone (tx : SignedTx) (w₁ : World ρ) (reason : String) (hp : V.parseInput raw = .signed tx) :
      Processed V r block raw l₀ w (rejected reason) { w₁ with ledger := l₀ }
  /-- A signed transaction that is executed and charged. -/
  | signed (tx : SignedTx) (sender dest : Address) (outcome : AdvanceOutcome) (w₁ : World ρ)
      (l' : Ledger) (hp : V.parseInput raw = .signed tx)
      (hadm : Admitted V r w.ledger tx sender dest)
      (hends : r.Ends V (signedContext block tx sender dest)
        (some ⟨sender, w.ledger.ram.fee⟩) (start block w.ledger w) outcome w₁)
      (hrej : ∀ reason, outcome ≠ .reject reason) (hidle : l'.Idle V)
      (hcharged : Charged V (kept w.ledger w₁.ledger outcome) sender w.ledger.ram.fee l') :
      Processed V r block raw l₀ w (resultOf w₁.sink outcome) { w₁ with ledger := l' }

/-- An admitted transaction: charged for its outcome, or undone. -/
theorem Admitted.processed (block : BlockContext) (hr : r.Journaled V) (hidle : l₀.Idle V)
    (hs₀ : Step V l₀ w.ledger) (hp : V.parseInput raw = .signed tx)
    (h : Admitted V r w.ledger tx sender dest) :
    ∃ res w', (r.advanceSigned V block tx).run w = .ok res w' ∧
      Processed V r block raw l₀ w res w' := by
  set c : Chargeable := ⟨sender, w.ledger.ram.fee⟩ with hc
  obtain ⟨outcome, w₁, hends⟩ := ends_exists (r := r) (V := V) (signedContext block tx sender dest)
    (some c) (start block w.ledger w)
  have hrun := h.advanceSigned block hs₀.wf
  rw [execute_run _ rfl hends] at hrun
  have hstep : Step V w.ledger w₁.ledger := Ends.step (w := start block w.ledger w) hr hs₀.wf hends
  by_cases hrej : ∃ reason, outcome = .reject reason
  · obtain ⟨reason, rfl⟩ := hrej
    refine ⟨_, _, hrun.trans ?_, .undone tx w₁ reason hp⟩
    rw [settle, bind_ok (get_run _)]
    exact bind_ok (rollbackAll_run hidle (hs₀.trans hstep))
  · have hrej' : ∀ reason, outcome ≠ .reject reason := fun reason h => hrej ⟨reason, h⟩
    rcases settle_signed hidle hs₀ hstep c (h.nonce_lt hs₀.wf) outcome hrej' with
      ⟨-, reason, hs⟩ | ⟨-, l', hidle', hch, hs⟩
    · exact ⟨_, _, hrun.trans hs, .undone tx w₁ reason hp⟩
    · exact ⟨_, _, hrun.trans hs,
        .signed tx sender dest outcome w₁ l' hp h hends hrej' hidle' hch⟩

theorem advance_processed (hr : r.Journaled V) (hidle : l₀.Idle V) (hs₀ : Step V l₀ w.ledger)
    (h : (r.advance V block raw).run w = .ok res w') : Processed V r block raw l₀ w res w' := by
  rw [advance] at h
  cases hp : V.parseInput raw with
  | unparsed =>
    rw [hp] at h
    cases h
    exact .unparsed hp
  | refused reason =>
    rw [hp] at h
    cases h
    exact .refused reason
  | deposit d =>
    simp only [hp] at h
    rcases creditEther_cases hs₀.wf d.sender d.mint with ⟨e, hc⟩ | ⟨l₁, hc, hs, -⟩
    · obtain ⟨reason, hrun⟩ := advanceDeposit_refused (r := r) block hidle hs₀ hc
      rw [hrun] at h
      cases h
      exact .unminted d reason hp
    cases hdest : d.dest with
    | none =>
      rw [advanceDeposit_create hdest hc] at h
      cases h
      exact .created d l₁ hp hdest hc
    | some dest =>
      obtain ⟨outcome, w₁, hends⟩ := ends_exists (r := r) (V := V) (depositContext block d dest)
        none (start block l₁ w)
      rw [advanceDeposit_call hr hidle hs₀ hdest hs hc hends] at h
      cases h
      exact .deposit d dest l₁ outcome w₁ hp hdest hc hends
  | signed tx =>
    simp only [hp] at h
    rcases advanceSigned_cases (r := r) block tx hs₀.wf with
      ⟨reason, hrun⟩ | ⟨e, hrun⟩ | ⟨sender, dest, hadm, -⟩
    · rw [hrun] at h
      cases h
      exact .refused reason
    · rw [hrun] at h
      cases h
    · obtain ⟨res', w₂, hrun, hproc⟩ := hadm.processed block hr hidle hs₀ hp
      rw [hrun] at h
      cases h
      exact hproc

/-- The ledger after an input is again a step after an idle one. -/
theorem Processed.idle (hr : r.Journaled V) (hidle : l₀.Idle V) (hs₀ : Step V l₀ w.ledger)
    (h : Processed V r block raw l₀ w res w') :
    w'.ledger.Idle V ∨ w'.ledger = w.ledger := by
  cases h with
  | unparsed => exact Or.inr rfl
  | refused => exact Or.inr rfl
  | unminted => exact Or.inl hidle
  | created d l₁ hp hdest hc =>
    exact Or.inl (Ledger.committed_idle ((Ledger.creditEther_does hs₀.wf _ _).ok _ _ hc).1.wf)
  | deposit d dest l₁ outcome w₁ hp hdest hc hends =>
    have hs := ((Ledger.creditEther_does hs₀.wf _ _).ok _ _ hc).1
    have hs₁ : Step V l₁ w₁.ledger := hends.step hr hs.wf
    refine Or.inl ?_
    cases outcome with
    | accept => exact Ledger.committed_idle hs₁.wf
    | fail data => exact Ledger.committed_idle hs₁.wf
    | revert data => exact Ledger.committed_idle hs.wf
    | reject reason => exact hidle
  | undone => exact Or.inl hidle
  | signed _ _ _ _ _ _ _ _ _ _ hidle' => exact Or.inl hidle'

/-- The journal is empty again after every input. -/
theorem advance_idle (hr : r.Journaled V) (hidle : w.ledger.Idle V)
    (h : (r.advance V block raw).run w = .ok res w') : w'.ledger.Idle V := by
  have hs₀ := Step.refl hidle.wf
  rcases (advance_processed hr hidle hs₀ h).idle hr hidle hs₀ with h' | h'
  · exact h'
  · rwa [h']

end Router

end OpCartesi.App
