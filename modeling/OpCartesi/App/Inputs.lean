import OpCartesi.App.Runs

/-!
# One input

What one input may cost and keep, for a router whose handlers use the ledger only through
its methods.

* `deposit_mint`: what a deposit keeps.
* `signed_outcomes`: what a signed transaction costs.
* `not_reject_iff`: when a handler can make the router reject.
-/

namespace OpCartesi.App

open Drive Exec

open Ledger (Idle Step CanCharge)

/-! ## Sample inputs -/

namespace Sample

/-- The address of the private key 1. -/
def alice : Address := addressOf 0x7e5f4552091a69125d5dfcb7b8c2659029395bdf
def bob : Address := addressOf 0xb0b0b0b0b0b0b0b0b0b0b0b0b0b0b0b0b0b0b0b0

/-- A deposit from `alice` to `bob` with mint 1 and value 2. -/
def depositRaw : Bytes := beBytes 85 <|
  0x7ef852a0000000000000000000000000000000000000000000000000000000000000000094 <<< 384 |||
    0x7e5f4552091a69125d5dfcb7b8c2659029395bdf94b0b0b0b0b0b0b0b0b0b0b0b0b0b0b0b0b0b0b0b0 <<< 56 |||
    0x01028252088080

def depositTx : AnyParsedTx where
  type := .deposit
  sender := some alice
  dest := some bob
  mint := some 1
  value := some 2
  data := []
  chainId := none
  nonce := none
  r := none
  s := none

/-- A transaction signed by `alice` with nonce 0, without value or data. -/
def signedRaw : Bytes := beBytes 97 <|
  0xf85f808082520894a9a9a9a9a9a9a9a9a9a9a9a9a9a9a9a9a9a9a9a9808025 <<< 528 |||
    0xa05cbdf0646e5db4eaa398f365f2ea7a0e3d419b7e0330e39ce92bddedcac4f9bc <<< 264 |||
    0xa04652e296618b60d6d1b0fe38904b5438de5476382806bb3becab07a5ee5429cd

def app : Address := addressOf 0xa9a9a9a9a9a9a9a9a9a9a9a9a9a9a9a9a9a9a9a9

def signedTx : AnyParsedTx where
  type := .legacy
  sender := none
  dest := some app
  mint := none
  value := none
  data := []
  chainId := some 1
  nonce := some 0
  r := some 0x5cbdf0646e5db4eaa398f365f2ea7a0e3d419b7e0330e39ce92bddedcac4f9bc
  s := some 0x4652e296618b60d6d1b0fe38904b5438de5476382806bb3becab07a5ee5429cd

def viem : Viem where
  keccak256 b := b
  parseTransaction raw :=
    if raw = depositRaw then some depositTx else if raw = signedRaw then some signedTx else none
  recoverTransactionAddress raw := if raw = signedRaw then some alice else none
  encodeRelayMessage m := m.message
  encodeWithdrawalParams _ := []
  decodeBridge _ := none
  decodeConfig _ := none
  decodeErc20 _ := none
  decodeL2Bridge _ := none
  decodeMessenger _ := none
  decodePasser _ := none
  decodeRegistry _ := none
  decodeL1Block _ := none
  decodeCallParams _ := none

def block : BlockContext where
  chainId := 1
  appContract := ZERO_ADDRESS
  blockNumber := 1
  timestamp := 1
  prevRandao := 0
  inputIndex := 0

theorem parse_deposit : viem.parseInput depositRaw = .deposit ⟨alice, some bob, 1, 2, []⟩ := by
  rfl

def signed : SignedTx where
  type := .legacy
  chainId := some 1
  nonce := 0
  dest := some app
  value := 0
  data := []
  s := 0x4652e296618b60d6d1b0fe38904b5438de5476382806bb3becab07a5ee5429cd
  raw := signedRaw

theorem parse_signed : viem.parseInput signedRaw = .signed signed := by
  have hne : signedRaw ≠ depositRaw := by
    intro h
    have hlen := congrArg List.length h
    simp [signedRaw, depositRaw, beBytes] at hlen
  have hser : Viem.isSerializedTransaction signedRaw = true := by decide +kernel
  simp only [Viem.parseInput, viem, if_neg hne, if_true, signedTx, hser]
  rfl

def router : Router Unit := Router.new viem 1 alice

def world (l : Ledger) : World Unit := ⟨l, BufferSink.new 0, none, ()⟩

theorem alice_ne : isZero alice.val = false := by decide +kernel

theorem recover_signed : viem.recoverSender signed = some alice := by
  rw [Viem.recoverSender, if_neg (by decide +kernel)]
  rfl

/-- The transaction passes enforcement on a ledger that has seen none of `alice`'s. -/
theorem admitted {r : Router Unit} {l : Ledger} (hr : r.chainId = 1)
    (hn : l.nonces viem alice = 0) (hf : l.ram.fee ≤ (l.view viem).balances alice) :
    Router.Admitted viem r l signed alice app where
  target := rfl
  chain c hc := by
    cases hc
    exact hr.symm
  signer := recover_signed
  nonzero := alice_ne
  nonce := hn.symm
  funds := by
    show l.ram.fee + ((0 : ℕ) : ℤ) ≤ _
    rwa [Nat.cast_zero, Int.add_zero]

theorem app_unrouted : router.manifest app = none := by
  have hdest : app ∉ Router.manifestAddresses := by decide +kernel
  show Router.builtins viem alice app = none
  exact Router.builtins_none.2 hdest

/-- A handler that takes one wei from whoever calls it. -/
def greedy : Handler Unit where
  payable := false
  advance := some fun ctx => do
    onLedger (Ledger.debitEther viem ctx.sender 1)
    return .accept
  view := none

def greedyRouter : Router Unit :=
  { router with
    manifest := Function.update router.manifest app (some greedy), keys := router.keys ++ [app] }

end Sample

namespace Router

variable {ρ : Type} {V : Viem} {r : Router ρ} {w w' : World ρ} {ctx : TxContext}
  {block : BlockContext} {raw : Bytes} {d : Deposit} {tx : SignedTx} {sender dest : Address}
  {res : AdvanceResult} {outcome : AdvanceOutcome}

/-! ## What a deposit keeps -/

/-- A deposit whose mint can be credited, on an idle ledger. Without `to` it is accepted with
    the mint. With `to`, it is accepted on top of the mint unless the value transfer or the
    handler throws, or the handler rejects: a revert keeps exactly the mint, and a throw or a
    reject undoes the mint too. -/
theorem deposit_mint (block : BlockContext) (hr : r.Journaled V) (hidle : w.ledger.Idle V)
    (hp : V.parseInput raw = .deposit d) {l₁ : Ledger}
    (hc : (Ledger.creditEther V d.sender d.mint).run w.ledger = .ok () l₁) :
    l₁.view V = (w.ledger.view V).addEther d.sender d.mint ∧
    (d.dest = none → (r.advance V block raw).run w =
      .ok ⟨true, [], .accept, none⟩ { w with ledger := l₁.committed }) ∧
    ∀ dest, d.dest = some dest → ∃ res w', (r.advance V block raw).run w = .ok res w' ∧
      match (r.dispatch V (depositContext block d dest)).run (start block l₁ w) with
      | .ok .accept w₁ => res.accept = true ∧ res.outcome = .accept ∧
          w'.ledger = w₁.ledger.committed
      | .ok (.fail _) w₁ => res.accept = true ∧ res.outcome = .fail ∧
          w'.ledger = w₁.ledger.committed
      | .ok (.revert _) _ => res.accept = true ∧ res.outcome = .revert ∧
          w'.ledger = l₁.committed
      | .ok (.reject _) _ => res.accept = false ∧ w'.ledger = w.ledger
      | .error _ _ => res.accept = false ∧ w'.ledger = w.ledger := by
  obtain ⟨hs, hv, -⟩ := (Ledger.creditEther_does hidle.wf d.sender d.mint).ok _ _ hc
  have hadv : r.advance V block raw = r.advanceDeposit V block d := by rw [advance, hp]
  rw [hadv]
  refine ⟨hv, fun hdest => advanceDeposit_create hdest hc, fun dest hdest => ?_⟩
  cases hrun : (r.dispatch V (depositContext block d dest)).run (start block l₁ w) with
  | ok outcome w₁ =>
    refine ⟨_, _, advanceDeposit_call hr hidle (Step.refl hidle.wf) hdest hs hc (Or.inl hrun), ?_⟩
    cases outcome with
    | accept => exact ⟨rfl, rfl, rfl⟩
    | fail data => exact ⟨rfl, rfl, rfl⟩
    | revert data => exact ⟨rfl, rfl, rfl⟩
    | reject reason => exact ⟨rfl, rfl⟩
  | error e w₁ =>
    exact ⟨_, _, advanceDeposit_call hr hidle (Step.refl hidle.wf) hdest hs hc (Or.inr ⟨e, hrun, rfl⟩), rfl, rfl⟩

theorem deposit_mint_sample : ∃ l l₁ : Ledger, Ledger.inMemory Sample.viem = .ok l ∧
    (Ledger.creditEther Sample.viem Sample.alice (1 : ℕ)).run l = .ok () l₁ ∧
    l₁.view Sample.viem = (l.view Sample.viem).addEther Sample.alice (1 : ℕ) := by
  obtain ⟨l, hf⟩ := Ledger.fresh_exists Sample.viem
  obtain ⟨l₁, hc, -⟩ := hf.creditEther Sample.alice_ne 1 (by norm_num)
  exact ⟨l, l₁, hf.created, hc, (deposit_mint (r := Sample.router) (w := Sample.world l)
    Sample.block (builtins_journaled _ _) hf.idle Sample.parse_deposit hc).1⟩

/-- A debit of more than the balance throws and changes nothing. -/
theorem debitEther_short {l : Ledger} (hwf : l.WF V) {a : Address} {amount : ℤ}
    (hlt : ((l.view V).balances a : ℤ) < amount) :
    ∃ e, (Ledger.debitEther V a amount).run l = .error e l := by
  have hd := Ledger.debitEther_does hwf a amount
  cases h : (Ledger.debitEther V a amount).run l with
  | ok u l₁ =>
    obtain ⟨-, -, hle⟩ := hd.ok u l₁ h
    omega
  | error e l₁ =>
    obtain rfl := hd.error e l₁ h
    exact ⟨e, rfl⟩

/-- A deposit of mint 1 and value 2 to a fresh ledger, which could take the mint: the value
    does not follow, and the mint is gone. -/
theorem deposit_mint_lost : ∃ (l l₁ : Ledger) (res : AdvanceResult) (w' : World Unit),
    Ledger.inMemory Sample.viem = .ok l ∧
    Sample.viem.parseInput Sample.depositRaw =
      .deposit ⟨Sample.alice, some Sample.bob, 1, 2, []⟩ ∧
    (Ledger.creditEther Sample.viem Sample.alice (1 : ℕ)).run l = .ok () l₁ ∧
    (Sample.router.advance Sample.viem Sample.block Sample.depositRaw).run (Sample.world l) =
      .ok res w' ∧
    res.accept = false ∧ (w'.ledger.view Sample.viem).balances Sample.alice = 0 := by
  obtain ⟨l, hf⟩ := Ledger.fresh_exists Sample.viem
  obtain ⟨l₁, hc, hs, hv⟩ := hf.creditEther Sample.alice_ne 1 (by norm_num)
  have hshort : ((l₁.view Sample.viem).balances Sample.alice : ℤ) < (2 : ℕ) := by
    rw [hv, hf.view]
    simp [View.addEther]
  obtain ⟨e, he⟩ := debitEther_short hs.wf hshort
  have hends : Sample.router.Ends Sample.viem
      (depositContext Sample.block ⟨Sample.alice, some Sample.bob, 1, 2, []⟩ Sample.bob) none
      (start Sample.block l₁ (Sample.world l)) (.reject (describe e))
      (start Sample.block l₁ (Sample.world l)) := by
    refine Or.inr ⟨e, ?_, rfl⟩
    rw [dispatch]
    exact bind_error (bind_error (onLedger_error he))
  have hrun := advanceDeposit_call (w := Sample.world l) (builtins_journaled _ _) hf.idle
    (Step.refl hf.idle.wf) rfl hs hc hends
  have hadv : Sample.router.advance Sample.viem Sample.block Sample.depositRaw =
      Sample.router.advanceDeposit Sample.viem Sample.block
        ⟨Sample.alice, some Sample.bob, 1, 2, []⟩ := by
    rw [advance, Sample.parse_deposit]
  rw [hadv]
  refine ⟨l, l₁, _, _, hf.created, Sample.parse_deposit, hc, hrun, rfl, ?_⟩
  show (l.view Sample.viem).balances Sample.alice = 0
  rw [hf.view]

/-! ## What a signed transaction costs -/

theorem resultOf_outcome (s : BufferSink) :
    (resultOf s outcome).outcome = match outcome with
      | .accept => .accept
      | .fail _ => .fail
      | .revert _ => .revert
      | .reject _ => .reject := by
  cases outcome <;> rfl

/-- A signed transaction on an idle ledger: rejected, nothing has changed; reverted, the
    sender is charged and nothing else has changed; accepted or failed, the sender is charged
    on top of what its call did. -/
theorem signed_outcomes (hr : r.Journaled V) (hidle : w.ledger.Idle V)
    (hp : V.parseInput raw = .signed tx) (h : (r.advance V block raw).run w = .ok res w') :
    (res.outcome = .reject → w'.ledger = w.ledger) ∧
    (res.outcome = .revert → ∃ sender, V.recoverSender tx = some sender ∧
      Charged V w.ledger sender w.ledger.ram.fee w'.ledger ∧
      ∀ e ∈ res.emissions, e.isReport = true) ∧
    (res.outcome = .accept ∨ res.outcome = .fail → ∃ sender dest outcome w₁,
      V.recoverSender tx = some sender ∧ tx.dest = some dest ∧
      (r.dispatch V (signedContext block tx sender dest)).run (start block w.ledger w) =
        .ok outcome w₁ ∧
      res = resultOf w₁.sink outcome ∧ w₁.ledger.nonces V = w.ledger.nonces V ∧
      Charged V w₁.ledger sender w.ledger.ram.fee w'.ledger ∧
      w'.ledger.nonces V sender = w.ledger.nonces V sender + 1) := by
  cases advance_processed hr hidle (Step.refl hidle.wf) h with
  | unparsed => simp
  | refused reason => simp [rejected]
  | unminted d reason hp' => simp [hp] at hp'
  | created d l₁ hp' => simp [hp] at hp'
  | deposit d dest l₁ outcome w₁ hp' => simp [hp] at hp'
  | undone tx' w₁ reason hp' => simp [rejected]
  | signed tx' sender dest outcome w₁ l' hp' hadm hends hrej hidle' hch =>
    obtain rfl : tx = tx' := by simpa [hp] using hp'
    have hstep : Step V w.ledger w₁.ledger :=
      Ends.step (w := start block w.ledger w) hr hidle.wf hends
    rw [resultOf_outcome]
    cases outcome with
    | reject reason => exact absurd rfl (hrej reason)
    | revert data =>
      refine ⟨by simp, fun _ => ⟨sender, hadm.signer, hch, ?_⟩, by simp⟩
      exact (resultOf_reverted w₁.sink data).reports
    | _ =>
      -- a throw would have been a revert, so the call returned this outcome
      rcases hends with hrun | ⟨e, -, he⟩
      · refine ⟨by simp, by simp, fun _ => ⟨sender, dest, _, w₁, hadm.signer, hadm.target, hrun,
          rfl, hstep.nonces, hch, ?_⟩⟩
        rw [hch.nonces, ← hstep.nonces]
        rfl
      · cases he

theorem signed_outcomes_sample : ∃ (l : Ledger) (res : AdvanceResult) (w' : World Unit),
    Ledger.inMemory Sample.viem = .ok l ∧
    (Sample.router.advance Sample.viem Sample.block Sample.signedRaw).run (Sample.world l) =
      .ok res w' ∧
    (res.outcome = .reject → w'.ledger = l) ∧
    (res.outcome = .accept → w'.ledger.nonces Sample.viem Sample.alice = 1) := by
  obtain ⟨l, hf⟩ := Ledger.fresh_exists Sample.viem
  have hadm : Admitted Sample.viem Sample.router l Sample.signed Sample.alice Sample.app :=
    Sample.admitted rfl (by rw [hf.nonces]) (by rw [hf.ram, hf.view]; decide)
  obtain ⟨res, w', hrun, -⟩ := hadm.processed (w := Sample.world l) Sample.block
    (builtins_journaled _ _) hf.idle (Step.refl hf.idle.wf) Sample.parse_signed
  have hadv : (Sample.router.advance Sample.viem Sample.block Sample.signedRaw).run
      (Sample.world l) = .ok res w' := by
    rw [advance, Sample.parse_signed]
    exact hrun
  obtain ⟨hrej, -, hacc⟩ := signed_outcomes (builtins_journaled _ _) hf.idle Sample.parse_signed hadv
  refine ⟨l, res, w', hf.created, hadv, hrej, fun h => ?_⟩
  obtain ⟨sender, dest, outcome, w₁, hsender, -, -, -, -, -, hn⟩ := hacc (Or.inl h)
  rw [Sample.recover_signed] at hsender
  cases hsender
  rw [hn]
  show l.nonces Sample.viem Sample.alice + 1 = 1
  rw [hf.nonces]

/-! ## When a handler can make the router reject -/

theorem recordOf_of_le {g : Geometry} {nonce balance balance' : ℤ} {p : ℕ × ℕ}
    (h : recordOf g nonce balance = .ok p) (h0 : 0 ≤ balance') (hle : balance' ≤ balance) :
    ∃ p', recordOf g nonce balance' = .ok p' := by
  unfold recordOf at h ⊢
  simp only at h ⊢
  generalize (256 : ℤ) ^ (if g.compact = true then 4 else 8) = m at h ⊢
  generalize (256 : ℤ) ^ (if g.compact = true then 8 else 32) = n at h ⊢
  split_ifs at h with hbad
  exact ⟨_, if_neg (by omega)⟩

/-- The sender's balance after a transfer. -/
theorem transfer_balance (v : View) (a b : Address) {n : ℕ} (hle : (n : ℤ) ≤ v.balances a) :
    ((v.addEther a (-n)).addEther b n).balances a =
      if a = b then v.balances a else v.balances a - n := by
  by_cases h : a = b
  · subst h
    simp only [View.addEther, Function.update_self, if_true]
    omega
  · simp only [View.addEther, Function.update_self, Function.update_of_ne h, if_neg h]
    omega

/-- The state after a value transfer. -/
theorem transfer_ok {u : Unit} (h : (transfer V ctx).run w = .ok u w') :
    ∃ l₁ l₂, (Ledger.debitEther V ctx.sender ctx.value).run w.ledger = .ok () l₁ ∧
      (Ledger.creditEther V ctx.dest ctx.value).run l₁ = .ok () l₂ ∧
      w' = { w with ledger := l₂ } := by
  rw [transfer] at h
  cases hd : (Ledger.debitEther V ctx.sender ctx.value).run w.ledger with
  | error e l₁ =>
    rw [bind_error (onLedger_error hd)] at h
    cases h
  | ok a l₁ =>
    rw [bind_ok (onLedger_ok hd)] at h
    cases hc : (Ledger.creditEther V ctx.dest ctx.value).run l₁ with
    | error e l₂ =>
      rw [onLedger_error hc] at h
      cases h
    | ok a l₂ =>
      rw [onLedger_ok hc] at h
      cases h
      exact ⟨l₁, l₂, rfl, hc, rfl⟩

/-- A value transfer that the balance covers on top of the fee leaves the charge possible. -/
theorem transfer_canCharge {u : Unit} {fee : ℤ} (hwf : w.ledger.WF V)
    (h : (transfer V ctx).run w = .ok u w')
    (hfunds : fee + ctx.value ≤ (w.ledger.view V).balances ctx.sender)
    (hcan : CanCharge V w.ledger ctx.sender fee) : CanCharge V w'.ledger ctx.sender fee := by
  obtain ⟨l₁, l₂, hd, hc, rfl⟩ := transfer_ok h
  obtain ⟨hs₁, hv₁, hle⟩ := (Ledger.debitEther_does hwf ctx.sender ctx.value).ok _ _ hd
  obtain ⟨hs₂, hv₂, -⟩ := (Ledger.creditEther_does hs₁.wf ctx.dest ctx.value).ok _ _ hc
  have hb₁ := Ledger.debitEther_book hwf hd
  have hb₂ := Ledger.creditEther_book hs₁.wf hc
  obtain ⟨hnz, ⟨p, hp⟩, -⟩ := hcan.2
  -- the sender's balance is between the fee and what it was
  have hbal : fee ≤ (l₂.view V).balances ctx.sender ∧
      (l₂.view V).balances ctx.sender ≤ (w.ledger.view V).balances ctx.sender := by
    rw [hv₂, hv₁, transfer_balance _ _ _ hle]
    split_ifs <;> omega
  rcases hb₁ with ⟨h0, rfl⟩ | ⟨p₁, hb₁⟩
  · -- nothing moved
    rcases hb₂ with ⟨-, rfl⟩ | ⟨p₂, hb₂⟩
    · exact hcan
    · rw [Ledger.creditEther, if_pos h0] at hc
      cases hc
      exact hcan
  · refine ⟨hbal.1, hnz, ?_, fun hnone => ?_⟩
    · have hcfg : l₂.drive.cfg = w.ledger.drive.cfg := hs₂.ext.cfg.trans hs₁.ext.cfg
      have hnon : l₂.nonces V = w.ledger.nonces V := hs₂.nonces.trans hs₁.nonces
      have hle₂ : ((l₂.view V).balances ctx.sender : ℤ) - fee ≤
          (w.ledger.view V).balances ctx.sender - fee := by omega
      show ∃ r, recordOf l₂.drive.cfg (l₂.nonces V ctx.sender + 1)
        ((l₂.view V).balances ctx.sender - fee) = .ok r
      rw [hcfg, hnon]
      exact recordOf_of_le hp (by omega) hle₂
    · -- the debit wrote the sender's record
      exfalso
      have h₁ : (l₁.book V).accounts ctx.sender ≠ none := by
        rw [hb₁, Book.setRecord]
        simp
      have h₂ : (l₂.book V).accounts ctx.sender = none := hnone
      rcases hb₂ with ⟨-, rfl⟩ | ⟨p₂, hb₂⟩
      · exact h₁ h₂
      · rw [hb₂, Book.setRecord] at h₂
        simp only [Function.update_apply] at h₂
        split_ifs at h₂
        exact h₁ h₂

/-- The outcomes under which a call's effects are kept. -/
def keeps : AdvanceOutcome → Bool
  | .accept => true
  | .fail _ => true
  | _ => false

/-- The handler that `ctx` reaches, run in `w`, leaves its sender able to pay the fee whenever
    it keeps what it did. -/
def LeavesCharge (V : Viem) (r : Router ρ) (ctx : TxContext) (fee : ℤ) (w : World ρ) : Prop :=
  ∀ handler advance outcome w₁,
    r.resolve V ctx.dest (some ctx.block.appContract) (depositSender ctx) w.ledger = some handler →
    (0 < ctx.value → handler.payable = true) → handler.advance = some advance →
    (advance ctx).run w = .ok outcome w₁ → keeps outcome = true →
    CanCharge V w₁.ledger ctx.sender fee

/-- A call that keeps what it did is a plain transfer or the handler's. -/
theorem call_keeps (h : (r.call V ctx).run w = .ok outcome w') (hk : keeps outcome = true) :
    w' = w ∨ ∃ handler advance,
      r.resolve V ctx.dest (some ctx.block.appContract) (depositSender ctx) w.ledger = some handler ∧
      (0 < ctx.value → handler.payable = true) ∧ handler.advance = some advance ∧
      (advance ctx).run w = .ok outcome w' := by
  rw [call, bind_ok (ledger_run w)] at h
  cases hres : r.resolve V ctx.dest (some ctx.block.appContract) (depositSender ctx) w.ledger with
  | none =>
    rw [hres] at h
    cases h
    exact Or.inl rfl
  | some handler =>
    simp only [hres] at h
    split_ifs at h with hpay
    · cases h
      cases hk
    cases hadv : handler.advance with
    | none =>
      rw [hadv] at h
      cases h
      cases hk
    | some f =>
      simp only [hadv] at h
      exact Or.inr ⟨handler, f, rfl, fun hv => by simpa [hv] using hpay, hadv, h⟩

theorem call_run {handler : Handler ρ} {advance : TxContext → GuestM ρ AdvanceOutcome}
    (hres : r.resolve V ctx.dest (some ctx.block.appContract) (depositSender ctx) w.ledger = some handler)
    (hpay : 0 < ctx.value → handler.payable = true) (hadv : handler.advance = some advance) :
    (r.call V ctx).run w = (advance ctx).run w := by
  rw [call, bind_ok (ledger_run w), hres]
  simp only
  rw [if_neg (fun h => by simp [hpay h.1] at h), hadv]

/-- An outcome a handler may choose. -/
def NotReject (outcome : AdvanceOutcome) (_ : World ρ) : Prop := ∀ reason, outcome ≠ .reject reason

theorem portalReceiver_not_reject (ctx : TxContext) (w : World ρ) :
    Returns (PortalReceiver.advance V ctx) w NotReject := by
  have hacc : ∀ w : World ρ, NotReject .accept w := fun _ _ => by simp
  have hrev : ∀ (reason : String) (w : World ρ), NotReject (revertWith reason) w := fun _ _ _ => by
    simp [revertWith]
  unfold PortalReceiver.advance
  split_ifs
  · exact Returns.pure (hrev _ _)
  refine (Returns.trivial _ _).bind fun l w₁ _ => ?_
  split
  · exact Returns.pure (hrev _ _)
  split_ifs
  · unfold PortalReceiver.receiveEther
    split_ifs
    · exact Returns.pure (hrev _ _)
    refine Returns.catching ?_ fun e w₂ _ => ?_
    · refine (Returns.trivial _ _).bind fun _ w₂ _ => ?_
      exact (Returns.trivial _ _).bind fun _ w₃ _ => Returns.pure (hacc _)
    · cases e with
      | insufficientFunds what => exact Returns.pure (hrev _ _)
      | _ => exact Returns.throw
  · unfold PortalReceiver.receiveERC20
    split_ifs
    · exact Returns.pure (hrev _ _)
    refine (Returns.trivial _ _).bind fun id w₂ _ => ?_
    refine (Returns.trivial _ _).bind fun _ w₃ _ => ?_
    exact (Returns.trivial _ _).bind fun _ w₄ _ => Returns.pure (hacc _)

theorem erc20_not_reject (ctx : TxContext) (w : World ρ) :
    Returns (Erc20Facade.advance V ctx) w NotReject := by
  have hrev : ∀ (reason : String) (w : World ρ), NotReject (revertWith reason) w := fun _ _ _ => by
    simp [revertWith]
  refine (Returns.trivial _ _).bind fun l w₁ _ => ?_
  split
  · exact Returns.pure (hrev _ _)
  split
  · exact Returns.pure (hrev _ _)
  · refine (Returns.trivial _ _).bind fun moved w₂ _ => ?_
    split_ifs
    · exact Returns.pure (hrev _ _)
    · exact (Returns.trivial _ _).bind fun _ w₃ _ => Returns.pure fun _ => by simp
  · exact Returns.pure (hrev _ _)

/-- No handler of the manifest returns a reject. -/
def NeverRejects (V : Viem) (r : Router ρ) : Prop :=
  ∀ h f ctx w outcome w', r.manifest ctx.dest = some h → h.advance = some f →
    w.ledger.WF V → (f ctx).run w = .ok outcome w' → ∀ reason, outcome ≠ .reject reason

theorem builtins_neverRejects (chainId : ℕ) (owner : Address) :
    (Router.new V chainId owner : Router ρ).NeverRejects V := by
  intro h f ctx w outcome w' hman hf hwf hrun reason
  rcases builtins_returns (At.init hwf) hman hf outcome w' hrun with ⟨data, rfl⟩ | ⟨rfl, -⟩
  · simp
  · simp

theorem call_not_reject (hnever : r.NeverRejects V) (ctx : TxContext) (hwf : w.ledger.WF V) :
    Returns (r.call V ctx) w NotReject := by
  have hledger : Returns (ledger : GuestM ρ Ledger) w fun _ w₁ => w₁.ledger.WF V := by
    intro l w₁ hrun
    cases hrun
    exact hwf
  refine hledger.bind fun l w₁ hwf₁ => ?_
  cases hres : r.resolve V ctx.dest (some ctx.block.appContract) (depositSender ctx) l with
  | none => exact Returns.pure fun _ => by simp
  | some handler =>
    simp only
    split_ifs
    · exact Returns.pure fun _ => by simp [revertWith]
    cases hadv : handler.advance with
    | none => exact Returns.pure fun _ => by simp [revertWith]
    | some f =>
      unfold resolve at hres
      split at hres
      · rename_i fixed hfix
        cases hres
        exact fun outcome w₂ hrun => hnever _ f ctx w₁ outcome w₂ hfix hadv hwf₁ hrun
      · split_ifs at hres <;> cases hres <;> cases hadv
        · exact portalReceiver_not_reject ctx w₁
        · exact portalReceiver_not_reject ctx w₁
        · exact erc20_not_reject ctx w₁

theorem Ends.not_reject {c : Chargeable} (h : r.Ends V ctx (some c) w outcome w')
    (hwf : w.ledger.WF V) (hnever : r.NeverRejects V) : ∀ reason, outcome ≠ .reject reason := by
  rcases h with h | ⟨e, -, rfl⟩
  · obtain ⟨u, w₂, htr, hcall⟩ := bind_eq_ok.1 h
    have hs := (transfer_journaled ctx).step hwf
    rw [htr, endState_ok] at hs
    exact call_not_reject hnever ctx hs.wf outcome w' hcall
  · simp [thrown, revertWith]

/-- Exactly when the charge after a call can be written. -/
theorem Ends.canCharge_iff {fee : ℤ} {c : Chargeable} (h : r.Ends V ctx (some c) w outcome w')
    (hwf : w.ledger.WF V) (hnever : r.NeverRejects V)
    (hfunds : fee + ctx.value ≤ (w.ledger.view V).balances ctx.sender)
    (hcan : CanCharge V w.ledger ctx.sender fee) :
    CanCharge V (kept w.ledger w'.ledger outcome) ctx.sender fee ↔
      ∀ w₂, (transfer V ctx).run w = .ok () w₂ → LeavesCharge V r ctx fee w₂ := by
  have hrej := h.not_reject hwf hnever
  constructor
  · -- whatever the handler ends with is what the dispatch ended with
    intro hcharge w₂ htr handler advance outcome' w₁ hres hpay hadv hrun hk
    have hdisp : (r.dispatch V ctx).run w = .ok outcome' w₁ := by
      rw [dispatch, bind_ok htr, call_run hres hpay hadv]
      exact hrun
    rcases h with h | ⟨e, h, -⟩
    · rw [hdisp] at h
      cases h
      cases outcome with
      | accept => exact hcharge
      | fail data => exact hcharge
      | _ => cases hk
    · rw [hdisp] at h
      cases h
  · intro hleaves
    by_cases hk : keeps outcome = true
    · rcases h with h | ⟨e, -, rfl⟩
      · obtain ⟨u, w₂, htr, hcall⟩ := bind_eq_ok.1 h
        have hcan₂ : CanCharge V w'.ledger ctx.sender fee := by
          rcases call_keeps hcall hk with rfl | ⟨handler, advance, hres, hpay, hadv, hrun⟩
          · exact transfer_canCharge hwf htr hfunds hcan
          · exact hleaves w₂ htr handler advance outcome w' hres hpay hadv hrun hk
        cases outcome with
        | accept => exact hcan₂
        | fail data => exact hcan₂
        | _ => cases hk
      · cases hk
    · cases outcome with
      | accept => exact absurd rfl hk
      | fail data => exact absurd rfl hk
      | revert data => exact hcan
      | reject reason => exact absurd rfl (hrej reason)

/-- A transaction that passes enforcement and could be charged before dispatch is charged,
    unless its handler, run after the value transfer, keeps what it did and leaves the sender
    unable to pay. -/
theorem not_reject_iff (block : BlockContext) (hr : r.Journaled V) (hnever : r.NeverRejects V) (hidle : w.ledger.Idle V)
    (hp : V.parseInput raw = .signed tx) (hadm : Admitted V r w.ledger tx sender dest)
    (hcan : CanCharge V w.ledger sender w.ledger.ram.fee) :
    (∃ res w', (r.advance V block raw).run w = .ok res w' ∧ res.outcome ≠ .reject ∧
      w'.ledger.nonces V sender = w.ledger.nonces V sender + 1) ↔
    ∀ w₂, (transfer V (signedContext block tx sender dest)).run (start block w.ledger w) =
      .ok () w₂ → LeavesCharge V r (signedContext block tx sender dest) w.ledger.ram.fee w₂ := by
  obtain ⟨outcome, w₁, hends⟩ := ends_exists (r := r) (V := V) (signedContext block tx sender dest)
    (some ⟨sender, w.ledger.ram.fee⟩) (start block w.ledger w)
  have hadv : r.advance V block raw = r.advanceSigned V block tx := by rw [advance, hp]
  have hrun := (hadm.advanceSigned block hidle.wf).trans (execute_run _ rfl hends)
  rw [hadv]
  have hstep : Step V w.ledger w₁.ledger :=
    Ends.step (w := start block w.ledger w) hr hidle.wf hends
  rw [← hends.canCharge_iff hidle.wf hnever hadm.funds hcan]
  have hrej := hends.not_reject hidle.wf hnever
  rcases settle_signed hidle (Step.refl hidle.wf) hstep ⟨sender, w.ledger.ram.fee⟩ (hadm.nonce_lt hidle.wf) outcome
    hrej with ⟨hno, reason, hs⟩ | ⟨hyes, l', -, hch, hs⟩
  · refine ⟨?_, fun h => absurd h hno⟩
    rintro ⟨res, w', h, hres, -⟩
    rw [hrun, hs] at h
    cases h
    exact absurd rfl hres
  · refine ⟨fun _ => hyes, fun _ => ⟨_, _, hrun.trans hs, ?_, ?_⟩⟩
    · rw [resultOf_outcome]
      cases outcome with
      | reject reason => exact absurd rfl (hrej reason)
      | _ => simp
    · show l'.nonces V sender = _
      rw [hch.nonces]
      cases outcome with
      | revert data => rfl
      | _ =>
        show w₁.ledger.nonces V sender + 1 = _
        rw [hstep.nonces]

theorem not_reject_iff_sample : ∃ (l : Ledger) (res : AdvanceResult) (w' : World Unit),
    Ledger.inMemory Sample.viem = .ok l ∧
    (Sample.router.advance Sample.viem Sample.block Sample.signedRaw).run (Sample.world l) =
      .ok res w' ∧
    res.outcome ≠ .reject ∧ w'.ledger.nonces Sample.viem Sample.alice = 1 := by
  obtain ⟨l, hf⟩ := Ledger.fresh_exists Sample.viem
  have hadm : Admitted Sample.viem Sample.router l Sample.signed Sample.alice Sample.app :=
    Sample.admitted rfl (by rw [hf.nonces]) (by rw [hf.ram, hf.view]; decide)
  have hcan : CanCharge Sample.viem l Sample.alice l.ram.fee := by
    rw [CanCharge, hf.ram, hf.view, hf.nonces]
    exact ⟨le_refl _, hf.room.writable (by norm_num) Sample.alice_ne (by norm_num) (by decide)
      (by norm_num [Ram.new])⟩
  -- nothing is routed at the destination
  have hleaves : ∀ w₂, (transfer Sample.viem
      (signedContext Sample.block Sample.signed Sample.alice Sample.app)).run
        (start Sample.block l (Sample.world l)) = .ok () w₂ →
      LeavesCharge Sample.viem Sample.router
        (signedContext Sample.block Sample.signed Sample.alice Sample.app) l.ram.fee w₂ := by
    intro w₂ htr handler advance outcome w₁ hres
    cases htr
    have htok : l.tokenByL2Address Sample.app = none := by
      rw [Ledger.tokenByL2Address, hf.idle.wf.facades,
        show l.drive.tokens = [] from congrArg View.tokens hf.view]
      rfl
    have hzero : some Sample.app ≠ some Sample.block.appContract := by decide +kernel
    have hnone : Sample.router.resolve Sample.viem Sample.app (some Sample.block.appContract) none l =
        none := by
      rw [resolve, Sample.app_unrouted]
      simp only
      rw [if_neg hzero, if_neg (by simp), if_neg (by simp [htok])]
    cases hnone.symm.trans hres
  obtain ⟨res, w', hrun, hne, hn⟩ := (not_reject_iff (w := Sample.world l) Sample.block
    (builtins_journaled _ _) (builtins_neverRejects _ _) hf.idle Sample.parse_signed hadm hcan).2
    hleaves
  refine ⟨l, res, w', hf.created, hrun, hne, hn.trans ?_⟩
  show l.nonces Sample.viem Sample.alice + 1 = 1
  rw [hf.nonces]

/-- A ledger with a fee of one wei on which `alice` owns one wei: the handler takes it, and
    the transaction that could be charged before is rejected. -/
theorem greedy_reject : ∃ (l : Ledger) (res : AdvanceResult) (w' : World Unit),
    Sample.router.register Sample.app Sample.greedy = .ok Sample.greedyRouter ∧
    l.Idle Sample.viem ∧ Sample.viem.parseInput Sample.signedRaw = .signed Sample.signed ∧
    Admitted Sample.viem Sample.greedyRouter l Sample.signed Sample.alice Sample.app ∧
    CanCharge Sample.viem l Sample.alice l.ram.fee ∧
    (Sample.greedyRouter.advance Sample.viem Sample.block Sample.signedRaw).run (Sample.world l) =
      .ok res w' ∧
    res.outcome = .reject := by
  obtain ⟨l₀, hf⟩ := Ledger.fresh_exists Sample.viem
  obtain ⟨l₁, hc, hs, hv⟩ := hf.creditEther Sample.alice_ne 1 (by norm_num)
  -- the ledger of the example: `alice` owns one wei and the fee is one wei
  set l : Ledger := { l₁.committed with ram := { l₁.ram with fee := 1 } } with hl
  have hcom := Ledger.committed_idle hs.wf
  have hidle : l.Idle Sample.viem := ⟨⟨hcom.wf.drive, hcom.wf.facades⟩, rfl⟩
  have hbook : l.book Sample.viem = l₁.book Sample.viem := Ledger.committed_book hs.wf
  have hn : l.nonces Sample.viem Sample.alice = 0 := by
    have := congrFun (Ledger.committed_nonces (V := Sample.viem) hs.wf) Sample.alice
    rw [hs.nonces, hf.nonces] at this
    exact this
  have hbal : (l.view Sample.viem).balances Sample.alice = 1 := by
    have := congrFun (congrArg View.balances (Ledger.committed_view (V := Sample.viem) hs.wf))
      Sample.alice
    rw [hv, hf.view] at this
    simp only [View.addEther, Function.update_self] at this
    exact this
  have hroom : Ledger.Room Sample.viem l 1 := by
    obtain ⟨hcfg, hsize⟩ := hf.room.creditEther hf.idle.wf hc
    exact ⟨hcfg, by rwa [hbook]⟩
  have hfee : l.ram.fee = 1 := rfl
  have hadm : Admitted Sample.viem Sample.greedyRouter l Sample.signed Sample.alice Sample.app :=
    Sample.admitted rfl hn (by rw [hfee, hbal]; norm_num)
  have hcan : CanCharge Sample.viem l Sample.alice l.ram.fee := by
    rw [CanCharge, hfee, hbal, hn]
    exact ⟨by norm_num, hroom.writable (by norm_num) Sample.alice_ne (by norm_num) (by norm_num)
      (by norm_num)⟩
  -- the handler succeeds and leaves nothing
  obtain ⟨l₂, hdebit⟩ := Ledger.debitEther_run hidle.wf Sample.alice 1 (by rw [hbal]; norm_num)
    (hroom.writable (by norm_num) Sample.alice_ne (by rw [hn]; norm_num) (by rw [hbal]; norm_num)
      (by rw [hbal]; norm_num))
  obtain ⟨hs₂, hv₂, -⟩ := (Ledger.debitEther_does hidle.wf Sample.alice 1).ok _ _ hdebit
  have hbal₂ : (l₂.view Sample.viem).balances Sample.alice = 0 := by
    rw [hv₂]
    simp [View.addEther, hbal]
  have hends : Sample.greedyRouter.Ends Sample.viem
      (signedContext Sample.block Sample.signed Sample.alice Sample.app)
      (some ⟨Sample.alice, l.ram.fee⟩) (start Sample.block l (Sample.world l)) .accept
      (start Sample.block l₂ (Sample.world l)) := by
    refine Or.inl ?_
    have htr : (transfer Sample.viem
        (signedContext Sample.block Sample.signed Sample.alice Sample.app)).run
          (start Sample.block l (Sample.world l)) =
        .ok () (start Sample.block l (Sample.world l)) := rfl
    have hres : Sample.greedyRouter.resolve Sample.viem Sample.app (some Sample.block.appContract) none l =
        some Sample.greedy := by
      rw [resolve, Sample.greedyRouter]
      simp only [Function.update_self]
    rw [dispatch, bind_ok htr, call_run hres (fun h => absurd h (by decide)) rfl]
    exact bind_ok (onLedger_ok hdebit)
  have hrun := (hadm.advanceSigned (w := Sample.world l) Sample.block hidle.wf).trans
    (execute_run _ rfl hends)
  rcases settle_signed (w := start Sample.block l₂ (Sample.world l)) hidle (Step.refl hidle.wf) hs₂
    ⟨Sample.alice, l.ram.fee⟩ (hadm.nonce_lt hidle.wf) .accept
    (by simp) with ⟨-, reason, hset⟩ | ⟨hyes, -⟩
  · have hadv : Sample.greedyRouter.advance Sample.viem Sample.block Sample.signedRaw =
        Sample.greedyRouter.advanceSigned Sample.viem Sample.block Sample.signed := by
      rw [advance, Sample.parse_signed]
    have hreg : Sample.router.register Sample.app Sample.greedy = .ok Sample.greedyRouter := by
      rw [register, Sample.app_unrouted]
      rfl
    rw [hadv]
    exact ⟨l, _, _, hreg, hidle, Sample.parse_signed, hadm, hcan, hrun.trans hset, rfl⟩
  · have hle : l.ram.fee ≤ (l₂.view Sample.viem).balances Sample.alice := hyes.1
    rw [hbal₂, hfee] at hle
    norm_num at hle

end Router

end OpCartesi.App
