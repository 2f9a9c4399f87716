import OpCartesi.App.Inputs

/-!
# Inputs that are accepted

The other modules say what follows when an input is accepted. Here are inputs that are: a
devnet ledger with room in its tables takes them, and this is what it holds afterwards.

* `Ledger.Ready`: an idle devnet ledger with a bounded number of account records.
* `advance_accepted`, `deposit_accepted`: an accepted call is charged and committed.
* `registerPortal_accepted`: the owner registers a portal.
* `created_accepted`, `portalEther_accepted`, `portalERC20_accepted`: deposits.
-/

namespace OpCartesi.App

open Drive Exec

open Ledger (Idle Step CanCharge Room)

/-! ## Room -/

namespace Ledger

variable {V : Viem} {l l' : Ledger} {n : ℕ}

/-- An idle devnet ledger with at most `n` account records. -/
structure Ready (V : Viem) (l : Ledger) (n : ℕ) : Prop where
  idle : l.Idle V
  room : Room V l n

theorem Fresh.ready (h : Fresh V l) : Ready V l 0 := ⟨h.idle, h.room⟩

theorem Room.of_setRecord (h : Room V l n) (hcfg : l'.drive.cfg = l.drive.cfg) {a : Address}
    {r : Option (ℕ × ℕ)} (hbook : l'.book V = (l.book V).setRecord a r) : Room V l' (n + 1) := by
  refine ⟨hcfg.trans h.cfg, ?_⟩
  have hle := size_setRecord_le (l.book V) a r
  have hsize := h.size
  rw [hbook]
  omega

theorem Room.committed (h : Room V l n) (hwf : l.WF V) : Room V l.committed n :=
  ⟨h.cfg, by rw [committed_book hwf]; exact h.size⟩

theorem Room.noted (h : Room V l n) (hwf : l.WF V) (r : Restore) (ram : Ram) :
    Room V (l.noted r ram) n :=
  ⟨h.cfg, by rw [noted_book hwf]; exact h.size⟩

/-- A devnet ledger that holds no tokens takes its first token type and a balance of it. -/
theorem registerToken_run (hwf : l.WF V) (hcfg : l.drive.cfg = DEVNET_DRIVE_CONFIG.defaults.geometry)
    (htok : l.drive.tokens = []) (l1Token : Address) (metadata : Option TokenMetadata) :
    ∃ l', (registerToken V l1Token metadata).run l = .ok (0, V.l2TokenAddress l1Token) l' := by
  have href := registerToken_refines hwf.drive l1Token 32
  have hspec : (Drive.book V.platform l.drive).registerToken l.drive.cfg l1Token 32 =
      .ok (0, { Drive.book V.platform l.drive with tokens := [⟨l1Token, 32⟩] }) := by
    have htok' : (Drive.book V.platform l.drive).tokens = [] := htok
    rw [hcfg, Book.registerToken, htok']
    rw [if_neg (by decide), if_neg (by decide), if_neg (by simp), if_neg (by decide),
      if_neg (by decide), if_neg (by decide), if_neg (by decide)]
    rfl
  rw [hspec] at href
  obtain ⟨d, hrun, -⟩ := href
  cases metadata with
  | none => exact ⟨_, bind_ok (onDrive_ok hrun)⟩
  | some m => exact ⟨_, bind_ok (onDrive_ok hrun)⟩

theorem creditToken_run (hwf : l.WF V) (hcfg : l.drive.cfg = DEVNET_DRIVE_CONFIG.defaults.geometry)
    {l1Token : Address} (htok : l.drive.tokens = [⟨l1Token, 32⟩]) {a : Address}
    (ha : isZero a.val = false)
    (hfirst : (l.view V).holdings 0 a = 0 → (l.view V).holdings = fun _ _ => 0) {amount : ℕ}
    (hamount : (l.view V).holdings 0 a + amount < 2 ^ 256) :
    ∃ l', (creditToken V a 0 amount).run l = .ok () l' := by
  rw [creditToken]
  split_ifs with h0
  · exact ⟨l, rfl⟩
  set held := (l.view V).holdings 0 a with hheld
  have hheld' : (Drive.book V.platform l.drive).holdings 0 a = held := rfl
  have htok' : (Drive.book V.platform l.drive).tokens = [⟨l1Token, 32⟩] := htok
  have hbal : (tokenBalance V a 0).run l = .ok held l := by
    have href := getTokenBalance_refines hwf.drive a 0
    rw [Book.getTokenBalance, if_neg (by simp [ha]), htok', if_neg (by simp), hcfg,
      if_neg (by decide), hheld'] at href
    exact onDrive_ok href
  have hroom : ¬((held : ℤ) + amount ≠ 0 ∧ held = 0 ∧
      DEVNET_DRIVE_CONFIG.defaults.geometry.sparseLoadLimit ≤
        (Drive.book V.platform l.drive).holders) := by
    rintro ⟨-, hzero, hfull⟩
    have hhold : (Drive.book V.platform l.drive).holdings = fun _ _ => 0 := hfirst hzero
    have hholders : (Drive.book V.platform l.drive).holders = 0 := by
      simp [Book.holders, hhold]
    rw [hholders] at hfull
    exact absurd hfull (by decide)
  have href := setTokenBalance_refines hwf.drive a 0 (held + amount)
  have hspec : (Drive.book V.platform l.drive).setTokenBalance l.drive.cfg a 0 (held + amount) =
      .ok ((), (Drive.book V.platform l.drive).setHolding 0 a ((held : ℤ) + amount).toNat) := by
    have hwidth : ¬((held : ℤ) + amount < 0 ∨ (256 : ℤ) ^ 32 ≤ held + amount) := by
      norm_num at hamount ⊢
      omega
    rw [Book.setTokenBalance, if_neg (by simp [ha]), htok']
    simp only [List.getElem?_cons_zero]
    rw [if_neg hwidth, hcfg, if_neg (by decide), if_pos (by decide), Book.setSparse, hheld',
      if_neg hroom]
  rw [hspec] at href
  obtain ⟨d, hrun, -⟩ := href
  exact ⟨_, (bind_ok hbal).trans ((bind_ok (onDrive_ok hrun)).trans (addTotal_run _ _ _))⟩

end Ledger

namespace Router

variable {ρ : Type} {V : Viem} {r : Router ρ} {w w₁ : World ρ} {block : BlockContext} {raw : Bytes}
  {d : Deposit} {tx : SignedTx} {sender dest owner : Address} {chainId n : ℕ}

/-! ## Accepted calls -/

theorem transfer_zero {ctx : TxContext} (h : ctx.value = 0) (w : World ρ) :
    (transfer V ctx).run w = .ok () w := by
  rw [transfer, h]
  rfl

/-- A call without value to a handler of the manifest. -/
theorem dispatch_fixed (ctx : TxContext) {handler : Handler ρ}
    {advance : TxContext → GuestM ρ AdvanceOutcome} (hman : r.manifest ctx.dest = some handler)
    (hvalue : ctx.value = 0) (hadv : handler.advance = some advance) (w : World ρ) :
    (r.dispatch V ctx).run w = (advance ctx).run w := by
  have hres : r.resolve V ctx.dest (some ctx.block.appContract) (depositSender ctx) w.ledger =
      some handler := by
    rw [resolve, hman]
  rw [dispatch, bind_ok (transfer_zero hvalue _)]
  exact call_run hres (fun h => absurd h (by omega)) hadv

/-- A signed transaction whose call is accepted, and whose sender can be charged afterwards. -/
theorem advance_accepted (hr : r.Journaled V) (hwf : w.ledger.WF V)
    (hp : V.parseInput raw = .signed tx) (hadm : Admitted V r w.ledger tx sender dest)
    (h : (r.dispatch V (signedContext block tx sender dest)).run (start block w.ledger w) =
      .ok .accept w₁)
    (hcan : CanCharge V w₁.ledger sender w.ledger.ram.fee) :
    ∃ l', l'.Idle V ∧ Charged V w₁.ledger sender w.ledger.ram.fee l' ∧
      l'.drive.cfg = w₁.ledger.drive.cfg ∧
      (r.advance V block raw).run w = .ok (resultOf w₁.sink .accept) { w₁ with ledger := l' } := by
  have hstep : Step V w.ledger w₁.ledger :=
    Ends.step (w := start block w.ledger w) (c := none) hr hwf (Or.inl h)
  have hn : w₁.ledger.nonces V sender + 1 < 2 ^ 64 := by
    rw [hstep.nonces]
    exact hadm.nonce_lt hwf
  rcases Ledger.bump_run hstep.wf sender w.ledger.ram.fee hn with
    ⟨hno, -⟩ | ⟨-, l', hrun, hwf', hext, hram, htok, hbook⟩
  · exact absurd hcan hno
  have hcharge : (charge V (some ⟨sender, w.ledger.ram.fee⟩)).run w₁ =
      .ok none { w₁ with ledger := l' } := by
    rw [charge]
    exact tryCatch_ok (bind_ok (onLedger_ok hrun))
  refine ⟨l'.committed, Ledger.committed_idle hwf', ⟨hcan.1, (Ledger.committed_book hwf').trans hbook,
    hram, ?_, htok⟩, hext.cfg, ?_⟩
  · show l'.facades = w₁.ledger.facades
    rw [hwf'.facades, htok, ← hstep.wf.facades]
  · rw [advance, hp]
    refine (hadm.advanceSigned block hwf).trans ((execute_run _ rfl (Or.inl h)).trans ?_)
    rw [settle, bind_ok (get_run _)]
    simp only
    rw [finish, bind_ok hcharge]
    rfl

/-- A deposit without mint whose call is accepted. -/
theorem deposit_accepted (hr : r.Journaled V) (hidle : w.ledger.Idle V)
    (hp : V.parseInput raw = .deposit d) (hdest : d.dest = some dest) (hmint : d.mint = 0)
    (h : (r.dispatch V (depositContext block d dest)).run (start block w.ledger w) =
      .ok .accept w₁) :
    (r.advance V block raw).run w =
      .ok (resultOf w₁.sink .accept) { w₁ with ledger := w₁.ledger.committed } := by
  have hs := Step.refl hidle.wf
  have hc : (Ledger.creditEther V d.sender d.mint).run w.ledger = .ok () w.ledger := by
    rw [hmint]
    rfl
  rw [advance, hp]
  exact advanceDeposit_call hr hidle hs hdest hs hc (Or.inl h)

/-! ## Registering a portal -/

theorem builtins_config (owner : Address) :
    (builtins V owner CONFIG_ADDRESS : Option (Handler ρ)) = some (config V owner) := by
  rw [builtins, if_neg (by decide +kernel), if_neg (by decide +kernel), if_pos rfl]

/-- The owner registers a portal; an ERC-20 portal only where there is no messenger. -/
theorem registerPortal_run (ctx : TxContext) {kind : ℕ} {portal : Address} (howner : ctx.sender = owner)
    (hcall : V.decodeConfig ctx.data = some (.registerPortal kind portal))
    (hkind : kind = PORTAL_ETHER ∨ kind = PORTAL_ERC20)
    (hcd : kind = PORTAL_ERC20 → w.ledger.ram.crossDomainConfig = none) :
    ∃ w₁ : World ρ, (Config.advance V owner ctx).run w = .ok .accept w₁ ∧
      w₁.ledger = w.ledger.noted
        (.portal (applyL1ToL2Alias portal) (w.ledger.ram.portals (applyL1ToL2Alias portal)))
        { w.ledger.ram with
          portals := Function.update w.ledger.ram.portals (applyL1ToL2Alias portal) (some kind) } := by
  have hk : ¬(kind ≠ PORTAL_ETHER ∧ kind ≠ PORTAL_ERC20) := by tauto
  have hnone : ¬(kind = PORTAL_ERC20 ∧ w.ledger.ram.crossDomainConfig.isSome = true) := by
    rintro ⟨h, hsome⟩
    rw [hcd h] at hsome
    cases hsome
  rw [Config.advance, if_neg (not_not.2 howner), hcall]
  simp only
  rw [Config.registerPortal, if_neg hk, bind_ok (ledger_run _), if_neg hnone]
  exact ⟨_, rfl, rfl⟩

/-- The owner registers a messenger where no ERC-20 portal is registered. -/
theorem registerMessenger_run (ctx : TxContext) {l1Messenger l1Bridge : Address}
    (howner : ctx.sender = owner)
    (hcall : V.decodeConfig ctx.data = some (.registerMessenger l1Messenger l1Bridge))
    (hportals : ∀ a, w.ledger.ram.portals a ≠ some PORTAL_ERC20) :
    ∃ w₁ : World ρ, (Config.advance V owner ctx).run w = .ok .accept w₁ ∧
      w₁.ledger = w.ledger.noted (.crossDomain w.ledger.ram.crossDomainConfig)
        { w.ledger.ram with crossDomainConfig := some (crossDomainOf l1Messenger l1Bridge) } := by
  have hnone : ¬w.ledger.hasErc20Portal = true := by
    rw [Ledger.hasErc20Portal, decide_eq_true_eq, not_exists]
    exact hportals
  rw [Config.advance, if_neg (not_not.2 howner), hcall]
  simp only
  rw [Config.registerMessenger, bind_ok (ledger_run _), if_neg hnone]
  exact ⟨_, rfl, rfl⟩

/-- The input `raw` is accepted and leaves the tables `ram`, with the rest as it was. -/
def Configures (V : Viem) (r : Router ρ) (block : BlockContext) (raw : Bytes) (w : World ρ)
    (ram : Ram) : Prop :=
  ∃ res w', (r.advance V block raw).run w = .ok res w' ∧
    w'.ledger.Idle V ∧ w'.ledger.drive.cfg = w.ledger.drive.cfg ∧
    w'.ledger.book V = w.ledger.book V ∧ w'.ledger.view V = { w.ledger.view V with ram := ram }

section Config

variable (chainId : ℕ) (block : BlockContext) (hidle : w.ledger.Idle V)
  (hp : V.parseInput raw = .deposit d) (hdest : d.dest = some CONFIG_ADDRESS) (hmint : d.mint = 0)
  (hvalue : d.value = 0)
include hidle hp hdest hmint hvalue

/-- The owner configures the chain by a deposit. -/
theorem configure_accepted {entry : Restore} {ram : Ram}
    (hundo : entry.undo (w.ledger.drive.store.inner, ram) =
      some (w.ledger.drive.store.inner, w.ledger.ram))
    (hrun : (Config.advance V owner (depositContext block d CONFIG_ADDRESS)).run
      (start block w.ledger w) = .ok .accept w₁)
    (hw₁ : w₁.ledger = w.ledger.noted entry ram) :
    Configures V (Router.new V chainId owner) block raw w ram := by
  have hwf := hidle.wf
  obtain ⟨hstep, hview⟩ := Ledger.noted_step hwf entry ram hundo
  have hdispatch := (dispatch_fixed (r := Router.new V chainId owner) (V := V)
    (depositContext block d CONFIG_ADDRESS) (builtins_config owner) hvalue rfl
    (start block w.ledger w)).trans hrun
  refine ⟨_, _, deposit_accepted (builtins_journaled chainId owner) hidle hp hdest hmint hdispatch,
    ?_⟩
  show w₁.ledger.committed.Idle V ∧ w₁.ledger.committed.drive.cfg = _ ∧
    w₁.ledger.committed.book V = _ ∧ w₁.ledger.committed.view V = _
  rw [hw₁]
  exact ⟨Ledger.committed_idle hstep.wf, hstep.ext.cfg,
    (Ledger.committed_book hstep.wf).trans (Ledger.noted_book hwf entry ram),
    (Ledger.committed_view hstep.wf).trans hview⟩

/-- The owner deposits the registration of a portal. -/
theorem registerPortal_deposited (howner : d.sender = owner) {kind : ℕ} {portal : Address}
    (hcall : V.decodeConfig d.data = some (.registerPortal kind portal))
    (hkind : kind = PORTAL_ETHER ∨ kind = PORTAL_ERC20)
    (hcd : kind = PORTAL_ERC20 → w.ledger.ram.crossDomainConfig = none) :
    Configures V (Router.new V chainId owner) block raw w { w.ledger.ram with
      portals := Function.update w.ledger.ram.portals (applyL1ToL2Alias portal) (some kind) } := by
  obtain ⟨w₁, hrun, hw₁⟩ := registerPortal_run (w := start block w.ledger w)
    (depositContext block d CONFIG_ADDRESS) howner hcall hkind hcd
  refine configure_accepted chainId block hidle hp hdest hmint hvalue ?_ hrun hw₁
  simp [Restore.undo, start]

/-- The owner deposits the registration of the messenger. -/
theorem registerMessenger_deposited (howner : d.sender = owner) {l1Messenger l1Bridge : Address}
    (hcall : V.decodeConfig d.data = some (.registerMessenger l1Messenger l1Bridge))
    (hportals : ∀ a, w.ledger.ram.portals a ≠ some PORTAL_ERC20) :
    Configures V (Router.new V chainId owner) block raw w { w.ledger.ram with
      crossDomainConfig := some (crossDomainOf l1Messenger l1Bridge) } := by
  obtain ⟨w₁, hrun, hw₁⟩ := registerMessenger_run (w := start block w.ledger w)
    (depositContext block d CONFIG_ADDRESS) howner hcall hportals
  refine configure_accepted chainId block hidle hp hdest hmint hvalue ?_ hrun hw₁
  simp [Restore.undo, start]

end Config

/-- The owner registers a portal on a chain without a messenger and without a fee. -/
theorem registerPortal_accepted (block : BlockContext) (hready : w.ledger.Ready V n) (hroom : n < 3584)
    (hp : V.parseInput raw = .signed tx)
    (hadm : Admitted V (Router.new V chainId owner : Router ρ) w.ledger tx owner CONFIG_ADDRESS)
    (hvalue : tx.value = 0) {kind : ℕ} {portal : Address}
    (hcall : V.decodeConfig tx.data = some (.registerPortal kind portal))
    (hkind : kind = PORTAL_ETHER ∨ kind = PORTAL_ERC20)
    (hcd : w.ledger.ram.crossDomainConfig = none) (hfee : w.ledger.ram.fee = 0)
    (hbal : (w.ledger.view V).balances owner < 2 ^ 256) :
    ∃ res w', ((Router.new V chainId owner).advance V block raw).run w = .ok res w' ∧
      w'.ledger.Ready V (n + 1) ∧
      w'.ledger.view V = { w.ledger.view V with ram := { w.ledger.ram with
        portals := Function.update w.ledger.ram.portals (applyL1ToL2Alias portal) (some kind) } } := by
  have hwf := hready.idle.wf
  set ctx := signedContext block tx owner CONFIG_ADDRESS with hctx
  set ram : Ram := { w.ledger.ram with
    portals := Function.update w.ledger.ram.portals (applyL1ToL2Alias portal) (some kind) } with hram
  set entry : Restore := .portal (applyL1ToL2Alias portal)
    (w.ledger.ram.portals (applyL1ToL2Alias portal)) with hentry
  obtain ⟨hstep, hview⟩ := Ledger.noted_step hwf entry ram (by simp [hentry, hram, Restore.undo])
  set l₁ := w.ledger.noted entry ram with hl₁
  obtain ⟨w₁, hrun, hw₁⟩ := registerPortal_run (w := start block w.ledger w) ctx rfl hcall hkind
    fun _ => hcd
  replace hw₁ : w₁.ledger = l₁ := hw₁
  have hdispatch : ((Router.new V chainId owner).dispatch V ctx).run (start block w.ledger w) =
      .ok .accept w₁ :=
    (dispatch_fixed ctx (builtins_config owner) hvalue rfl _).trans hrun
  have hn := hadm.nonce_lt hwf
  have hcan : CanCharge V w₁.ledger owner w.ledger.ram.fee := by
    rw [hw₁, CanCharge, hview, hstep.nonces, hfee]
    refine ⟨by positivity, (hready.room.noted hwf _ _).writable hroom hadm.nonzero ?_ (by simp) ?_⟩
    · exact_mod_cast hn
    · simp only [Int.sub_zero]
      exact_mod_cast hbal
  obtain ⟨l', hidle', hch, hcfg, hadv⟩ := advance_accepted (builtins_journaled chainId owner) hwf hp
    hadm hdispatch hcan
  rw [hw₁, hfee] at hch
  rw [hw₁] at hcfg
  refine ⟨_, _, hadv, ⟨hidle', (hready.room.noted hwf entry ram).of_setRecord hcfg hch.book⟩, ?_⟩
  show l'.view V = _
  rw [hch.view, hview, Int.neg_zero, View.addEther_zero]

/-! ## Deposits -/

/-- A deposit without `to` leaves its mint with the sender. -/
theorem created_accepted (block : BlockContext) (hready : w.ledger.Ready V n) (hroom : n < 3584)
    (hp : V.parseInput raw = .deposit d) (hdest : d.dest = none) (hnz : isZero d.sender.val = false)
    (hbal : (w.ledger.view V).balances d.sender + d.mint < 2 ^ 256) :
    ∃ res w', (r.advance V block raw).run w = .ok res w' ∧ w'.ledger.Ready V (n + 1) ∧
      w'.ledger.view V = (w.ledger.view V).addEther d.sender d.mint := by
  have hwf := hready.idle.wf
  have hn := Ledger.nonces_lt hwf d.sender
  have hw : Ledger.Writable V w.ledger d.sender (w.ledger.nonces V d.sender)
      ((w.ledger.view V).balances d.sender + d.mint) :=
    hready.room.writable hroom hnz (by exact_mod_cast hn) (by positivity) (by exact_mod_cast hbal)
  obtain ⟨l₁, hc⟩ := Ledger.creditEther_run hwf hw
  obtain ⟨hs, hv, -⟩ := (Ledger.creditEther_does hwf d.sender d.mint).ok _ _ hc
  have hrun : (r.advance V block raw).run w =
      .ok ⟨true, [], .accept, none⟩ { w with ledger := l₁.committed } := by
    rw [advance, hp]
    exact advanceDeposit_create hdest hc
  exact ⟨_, _, hrun, ⟨Ledger.committed_idle hs.wf,
    (hready.room.creditEther hwf hc).committed hs.wf⟩, (Ledger.committed_view hs.wf).trans hv⟩

/-- A deposit from a registered portal, to an address outside the manifest, is answered by the
    portal receiver. -/
theorem dispatch_portal {kind : ℕ} {ctx : TxContext} (hdep : ctx.isDeposit = true)
    (hdest : ctx.dest ∉ manifestAddresses) (hvalue : ctx.value = 0)
    (hportal : w.ledger.ram.portals ctx.sender = some kind) :
    ((Router.new V chainId owner : Router ρ).dispatch V ctx).run w =
      (if kind = PORTAL_ETHER then PortalReceiver.receiveEther V ctx
        else PortalReceiver.receiveERC20 V ctx).run w := by
  have hres : (Router.new V chainId owner : Router ρ).resolve V ctx.dest
      (some ctx.block.appContract) (depositSender ctx) w.ledger = some (portalReceiver V) := by
    have hsome : ((depositSender ctx).bind w.ledger.ram.portals).isSome = true := by
      simp [depositSender, hdep, hportal]
    rw [resolve, Router.new]
    simp only [builtins_none.2 hdest, if_pos hsome, ite_self]
  rw [dispatch, bind_ok (transfer_zero hvalue _),
    call_run hres (fun _ => rfl) rfl, PortalReceiver.advance,
    if_neg (by simp [hdep]), bind_ok (ledger_run _), hportal]

section Portal

variable (chainId : ℕ) (owner : Address) (block : BlockContext) (hready : w.ledger.Ready V n)
  (hp : V.parseInput raw = .deposit d) (hdest : d.dest = some dest)
  (hman : dest ∉ manifestAddresses) (hmint : d.mint = 0) (hvalue : d.value = 0)

include hready hp hdest hman hmint hvalue

/-- An ether portal moves the amount it names out of the account it is addressed to. -/
theorem portalEther_accepted (hroom : n + 1 < 3584)
    (hportal : w.ledger.ram.portals d.sender = some PORTAL_ETHER) {beneficiary : Address}
    {amount : ℕ} (hlen : 52 ≤ d.data.length)
    (hben : PortalReceiver.addressAt d.data 0 = beneficiary)
    (hamount : PortalReceiver.uint256At d.data 20 = amount)
    (hcov : amount ≤ (w.ledger.view V).balances dest)
    (hbal : ∀ a, (w.ledger.view V).balances a + amount < 2 ^ 256)
    (hnz : isZero dest.val = false) (hbnz : isZero beneficiary.val = false) (hne : beneficiary ≠ dest) :
    ∃ res w', ((Router.new V chainId owner).advance V block raw).run w = .ok res w' ∧
      w'.ledger.view V = (w.ledger.view V).moveEther dest beneficiary amount := by
  subst hben hamount
  set ctx := depositContext block d dest with hctx
  set beneficiary := PortalReceiver.addressAt d.data 0 with hben
  set amount := PortalReceiver.uint256At d.data 20 with hamount
  have hwf := hready.idle.wf
  have hn := Ledger.nonces_lt hwf
  have hdbal := hbal dest
  obtain ⟨l₁, hd⟩ := Ledger.debitEther_run hwf dest amount (by exact_mod_cast hcov)
    (hready.room.writable (by omega) hnz (by exact_mod_cast hn dest) (by omega) (by omega))
  obtain ⟨hs₁, hv₁, -⟩ := (Ledger.debitEther_does hwf dest amount).ok _ _ hd
  have hroom₁ : Room V l₁ (n + 1) := by
    rcases Ledger.debitEther_book hwf hd with ⟨-, rfl⟩ | ⟨rec, hb⟩
    · exact ⟨hready.room.cfg, hready.room.size.trans (Nat.le_succ n)⟩
    · exact hready.room.of_setRecord hs₁.ext.cfg hb
  have hw : Ledger.Writable V l₁ beneficiary (l₁.nonces V beneficiary)
      ((l₁.view V).balances beneficiary + amount) := by
    rw [hv₁, View.addEther_of_ne hne, hs₁.nonces]
    exact hroom₁.writable hroom hbnz (by exact_mod_cast hn beneficiary) (by positivity)
      (by exact_mod_cast hbal beneficiary)
  obtain ⟨l₂, hc⟩ := Ledger.creditEther_run hs₁.wf hw
  obtain ⟨hs₂, hv₂, -⟩ := (Ledger.creditEther_does hs₁.wf beneficiary amount).ok _ _ hc
  have hdispatch : ((Router.new V chainId owner).dispatch V ctx).run (start block w.ledger w) =
      .ok .accept (start block l₂ w) := by
    have hlong : ¬ctx.data.length < 52 := not_lt.2 hlen
    rw [dispatch_portal rfl hman hvalue hportal, if_pos rfl, PortalReceiver.receiveEther,
      if_neg hlong]
    exact tryCatch_ok ((bind_ok (onLedger_ok (w := start block w.ledger w) hd)).trans
      (bind_ok (onLedger_ok (w := start block l₁ w) hc)))
  refine ⟨_, _, deposit_accepted (builtins_journaled chainId owner) hready.idle hp hdest hmint
    hdispatch, ?_⟩
  exact (Ledger.committed_view hs₂.wf).trans (by rw [hv₂, hv₁]; rfl)

/-- The first deposit of an ERC-20 portal registers the token and mints the amount. -/
theorem portalERC20_accepted (hportal : w.ledger.ram.portals d.sender = some PORTAL_ERC20)
    {l1Token beneficiary : Address} {amount : ℕ} (hlen : 72 ≤ d.data.length)
    (htoken : PortalReceiver.addressAt d.data 0 = l1Token)
    (hben : PortalReceiver.addressAt d.data 20 = beneficiary)
    (hamount : PortalReceiver.uint256At d.data 40 = amount)
    (htok : (w.ledger.view V).tokens = []) (hnone : (w.ledger.view V).holdings = fun _ _ => 0)
    (hlt : amount < 2 ^ 256) (hbnz : isZero beneficiary.val = false) :
    ∃ res w', ((Router.new V chainId owner).advance V block raw).run w = .ok res w' ∧
      res.outcome = .accept ∧ w'.ledger.Idle V ∧ w'.ledger.drive.cfg = w.ledger.drive.cfg ∧
      w'.ledger.view V = ((w.ledger.view V).addTokenType l1Token).addToken 0 beneficiary amount := by
  subst htoken hben hamount
  set ctx := depositContext block d dest with hctx
  set l1Token := PortalReceiver.addressAt d.data 0 with htoken
  set beneficiary := PortalReceiver.addressAt d.data 20 with hben
  set amount := PortalReceiver.uint256At d.data 40 with hamount
  have hwf := hready.idle.wf
  obtain ⟨l₁, hreg⟩ := Ledger.registerToken_run hwf hready.room.cfg htok l1Token none
  obtain ⟨hs₁, -, hv₁, -⟩ := (Ledger.registerToken_does hwf l1Token none).ok _ _ hreg
  replace hv₁ : l₁.view V = (w.ledger.view V).addTokenType l1Token := hv₁
  have htok₁ : l₁.drive.tokens = [⟨l1Token, 32⟩] := by
    have h := congrArg View.tokens hv₁
    rw [View.addTokenType, htok] at h
    exact h
  have hnone₁ : (l₁.view V).holdings = fun _ _ => 0 := by
    rw [hv₁]
    exact hnone
  obtain ⟨l₂, hc⟩ := Ledger.creditToken_run hs₁.wf (hs₁.ext.cfg.trans hready.room.cfg) htok₁ hbnz
    (fun _ => hnone₁) (by rw [hnone₁, Nat.zero_add]; exact hlt)
  obtain ⟨hs₂, hv₂, -⟩ := (Ledger.creditToken_does hs₁.wf beneficiary 0 amount).ok _ _ hc
  have hid : (L2Bridge.tokenId V l1Token).run (start block w.ledger w) =
      .ok 0 (start block l₁ w) := by
    have hunknown : w.ledger.tokenByL1Address l1Token = none := by
      have htok' : w.ledger.drive.tokens = [] := htok
      rw [Ledger.tokenByL1Address, htok']
      rfl
    have hunknown' : (start block w.ledger w).ledger.tokenByL1Address l1Token = none := hunknown
    rw [L2Bridge.tokenId, bind_ok (ledger_run _), hunknown']
    exact bind_ok (onLedger_ok (w := start block w.ledger w) hreg)
  have hdispatch : ∃ w₁ : World ρ, w₁.ledger = l₂ ∧
      ((Router.new V chainId owner).dispatch V ctx).run (start block w.ledger w) =
        .ok .accept w₁ := by
    have hlong : ¬ctx.data.length < 72 := not_lt.2 hlen
    rw [dispatch_portal rfl hman hvalue hportal, if_neg (by decide), PortalReceiver.receiveERC20,
      if_neg hlong]
    exact ⟨_, rfl, (bind_ok hid).trans (bind_ok (onLedger_ok (w := start block l₁ w) hc))⟩
  obtain ⟨w₁, rfl, hrun⟩ := hdispatch
  refine ⟨_, _, deposit_accepted (builtins_journaled chainId owner) hready.idle hp hdest hmint
    hrun, rfl, Ledger.committed_idle hs₂.wf, hs₂.ext.cfg.trans hs₁.ext.cfg, ?_⟩
  exact (Ledger.committed_view hs₂.wf).trans (by rw [hv₂, hv₁])

end Portal

end Router

/-! ## A chain with a portal -/

namespace Sample

def portal : Address := addressOf 0x9a9a9a9a9a9a9a9a9a9a9a9a9a9a9a9a9a9a9a9a
def aliasedPortal : Address := addressOf 0xabab9a9a9a9a9a9a9a9a9a9a9a9a9a9a9a9aabab
def token : Address := addressOf 0x7070707070707070707070707070707070707070
def carol : Address := addressOf 0xcacacacacacacacacacacacacacacacacacacaca

theorem alias_portal : applyL1ToL2Alias portal = aliasedPortal := rfl

/-- The calldata of `registerPortal(kind, portal)`. -/
def registerData (kind : ℕ) : Bytes :=
  beBytes 4 0x066a4b28 ++ beBytes 32 kind ++
    beBytes 32 0x9a9a9a9a9a9a9a9a9a9a9a9a9a9a9a9a9a9a9a9a

/-- `v` and `s` of `alice`'s signature. -/
def registerSignature (kind : ℕ) : ℕ × ℕ :=
  if kind = PORTAL_ETHER then
    (0x25, 0x74d20e03bd1c9ed9953b05534316e18f84973adf3d5fd8c00cc0998accd138e2)
  else (0x26, 0x32c6896fc996bd42a633e3d6ec63b635a6dcba13c3e383fd731de1f175ce1db0)

/-- `alice`'s first transaction: register the portal. -/
def registerRaw (kind : ℕ) : Bytes :=
  beBytes 8 0xf8a4808082520894 ++ CONFIG_ADDRESS.val ++ beBytes 3 0x80b844 ++ registerData kind ++
    beBytes 2 ((registerSignature kind).1 <<< 8 ||| 0xa0) ++
    beBytes 32 0x5cbdf0646e5db4eaa398f365f2ea7a0e3d419b7e0330e39ce92bddedcac4f9bc ++
    beBytes 1 0xa0 ++ beBytes 32 (registerSignature kind).2

def registerTx (kind : ℕ) : AnyParsedTx where
  type := .legacy
  sender := none
  dest := some CONFIG_ADDRESS
  mint := none
  value := none
  data := registerData kind
  chainId := some 1
  nonce := some 0
  r := some 0x5cbdf0646e5db4eaa398f365f2ea7a0e3d419b7e0330e39ce92bddedcac4f9bc
  s := some (registerSignature kind).2

def register (kind : ℕ) : SignedTx where
  type := .legacy
  chainId := some 1
  nonce := 0
  dest := some CONFIG_ADDRESS
  value := 0
  data := registerData kind
  s := (registerSignature kind).2
  raw := registerRaw kind

/-- A deposit as it is serialised, without mint or value. -/
def portalRaw (header : Bytes) (data : Bytes) : Bytes :=
  header ++ beBytes 33 0xa00000000000000000000000000000000000000000000000000000000000000000 ++
    beBytes 1 0x94 ++ aliasedPortal.val ++ beBytes 1 0x94 ++ bob.val ++ beBytes 6 0x808082520880 ++
    data

def portalTx (data : Bytes) : AnyParsedTx where
  type := .deposit
  sender := some aliasedPortal
  dest := some bob
  mint := none
  value := none
  data := data
  chainId := none
  nonce := none
  r := none
  s := none

/-- The portal deposits 5 tokens for `bob`. -/
def erc20Data : Bytes := token.val ++ bob.val ++ beBytes 32 5
def erc20Raw : Bytes := portalRaw (beBytes 3 0x7ef89b) (beBytes 2 0xb848 ++ erc20Data)

/-- The portal deposits 5 wei for `carol`, through `bob`'s address and without value. -/
def etherData : Bytes := carol.val ++ beBytes 32 5
def etherRaw : Bytes := portalRaw (beBytes 3 0x7ef886) (beBytes 1 0xb4 ++ etherData)

/-- `bob` deposits 5 wei. -/
def fundRaw : Bytes :=
  beBytes 36 0x7ef83ea00000000000000000000000000000000000000000000000000000000000000000 ++
    beBytes 1 0x94 ++ bob.val ++ beBytes 8 0x8005808252088080

def fundTx : AnyParsedTx where
  type := .deposit
  sender := some bob
  dest := none
  mint := some 5
  value := none
  data := []
  chainId := none
  nonce := none
  r := none
  s := none

/-- A number that says where it ends. -/
def delimited (n : ℕ) : Bytes := List.replicate n 1 ++ [0]

/-- `viem` on a chain whose portal is of the given kind. -/
def portalViem (kind : ℕ) : Viem := { viem with
  encodeRelayMessage := fun m => delimited m.nonce ++ delimited m.value ++
    delimited m.minGasLimit ++ m.sender.val ++ m.target.val ++ m.message
  parseTransaction := fun raw =>
    if raw = registerRaw kind then some (registerTx kind)
    else if raw = erc20Raw then some (portalTx erc20Data)
    else if raw = etherRaw then some (portalTx etherData)
    else if raw = fundRaw then some fundTx
    else none
  recoverTransactionAddress := fun raw => if raw = registerRaw kind then some alice else none
  decodeConfig := fun data =>
    if data = registerData kind then some (.registerPortal kind portal) else none }

theorem registerRaw_length (kind : ℕ) : (registerRaw kind).length = 166 := by
  simp [registerRaw, registerData, CONFIG_ADDRESS.2]

theorem erc20Raw_length : erc20Raw.length = 158 := by
  simp [erc20Raw, portalRaw, erc20Data, aliasedPortal.2, bob.2, token.2]

theorem etherRaw_length : etherRaw.length = 137 := by
  simp [etherRaw, portalRaw, etherData, aliasedPortal.2, bob.2, carol.2]

theorem fundRaw_length : fundRaw.length = 65 := by
  simp [fundRaw, bob.2]

/-- Byte strings of different lengths differ. -/
theorem ne_of_length {a b : Bytes} {m n : ℕ} (ha : a.length = m) (hb : b.length = n) (h : m ≠ n) :
    a ≠ b := by
  rintro rfl
  exact h (ha.symm.trans hb)

section

variable (kind : ℕ)

theorem parse_erc20 : (portalViem kind).parseInput erc20Raw =
    .deposit ⟨aliasedPortal, some bob, 0, 0, erc20Data⟩ := by
  have h₁ : erc20Raw ≠ registerRaw kind :=
    ne_of_length erc20Raw_length (registerRaw_length kind) (by decide)
  simp only [Viem.parseInput, portalViem, if_neg h₁, if_true]
  rfl

theorem parse_ether : (portalViem kind).parseInput etherRaw =
    .deposit ⟨aliasedPortal, some bob, 0, 0, etherData⟩ := by
  have h₁ : etherRaw ≠ registerRaw kind :=
    ne_of_length etherRaw_length (registerRaw_length kind) (by decide)
  have h₂ : etherRaw ≠ erc20Raw := ne_of_length etherRaw_length erc20Raw_length (by decide)
  simp only [Viem.parseInput, portalViem, if_neg h₁, if_neg h₂, if_true]
  rfl

theorem parse_fund : (portalViem kind).parseInput fundRaw = .deposit ⟨bob, none, 5, 0, []⟩ := by
  have h₁ : fundRaw ≠ registerRaw kind :=
    ne_of_length fundRaw_length (registerRaw_length kind) (by decide)
  have h₂ : fundRaw ≠ erc20Raw := ne_of_length fundRaw_length erc20Raw_length (by decide)
  have h₃ : fundRaw ≠ etherRaw := ne_of_length fundRaw_length etherRaw_length (by decide)
  simp only [Viem.parseInput, portalViem, if_neg h₁, if_neg h₂, if_neg h₃, if_true]
  rfl

theorem parse_register : (portalViem kind).parseInput (registerRaw kind) = .signed (register kind) := by
  have hser : Viem.isSerializedTransaction (registerRaw kind) = true := rfl
  simp only [Viem.parseInput, portalViem, if_true, registerTx, hser]
  rfl

theorem recover_register : (portalViem kind).recoverSender (register kind) = some alice := by
  have hlow : ¬Viem.HALF_N < (register kind).s := by
    simp only [register, registerSignature, Viem.HALF_N]
    split_ifs <;> norm_num
  rw [Viem.recoverSender, if_neg hlow]
  simp only [portalViem, register, if_true]

theorem decode_register : (portalViem kind).decodeConfig (registerData kind) =
    some (.registerPortal kind portal) := by
  simp only [portalViem, if_true]

end

section

variable {kind : ℕ} (hkind : kind = PORTAL_ETHER ∨ kind = PORTAL_ERC20)

include hkind

/-- The view of a devnet ledger on which only the portal is registered. -/
def registered (kind : ℕ) : View :=
  ⟨fun _ => 0, fun _ _ => 0, [],
    { Ram.new with portals := Function.update Ram.new.portals aliasedPortal (some kind) }⟩

/-- The first input of the chain. -/
theorem register_run : ∃ i : Input Unit, i.block = block ∧ i.raw = registerRaw kind ∧
    Run (portalViem kind) (Router.new (portalViem kind) 1 alice) [i] i.after ∧
    i.after.ledger.Ready (portalViem kind) 1 ∧
    i.after.ledger.view (portalViem kind) = registered kind := by
  obtain ⟨l, hf⟩ := Ledger.fresh_exists (portalViem kind)
  have hbal : (l.view (portalViem kind)).balances alice = 0 := by rw [hf.view]
  have hadm : Router.Admitted (portalViem kind) (Router.new (portalViem kind) 1 alice : Router Unit) l
      (register kind) alice CONFIG_ADDRESS := by
    refine ⟨rfl, fun c hc => ?_, recover_register kind, alice_ne, ?_, ?_⟩
    · cases hc
      rfl
    · rw [hf.nonces]
      rfl
    · rw [hf.ram, hbal]
      exact le_refl (0 : ℤ)
  obtain ⟨res, w', hrun, hready, hview⟩ := Router.registerPortal_accepted (w := world l) block hf.ready
    (by norm_num) (parse_register kind) hadm rfl (decode_register kind) hkind
    (by show l.ram.crossDomainConfig = none; rw [hf.ram]; rfl)
    (by show l.ram.fee = 0; rw [hf.ram]; rfl)
    (by show (l.view (portalViem kind)).balances alice < _; rw [hbal]; norm_num)
  refine ⟨⟨block, registerRaw kind, world l, res, w'⟩, rfl, rfl, ?_, hready, ?_⟩
  · exact Run.advance block (registerRaw kind) (.genesis (w := world l) (.devnet hf.created)) hrun
  · rw [hview]
    have hram : (world l).ledger.ram = Ram.new := hf.ram
    have hempty : (world l).ledger.view (portalViem kind) = _ := hf.view
    rw [hram, hempty, alias_portal]
    rfl

end

abbrev erc20Viem : Viem := portalViem PORTAL_ERC20

abbrev erc20Router : Router Unit := Router.new erc20Viem 1 alice

theorem bob_ne : isZero bob.val = false := rfl

theorem bob_unrouted : bob ∉ Router.manifestAddresses := by decide +kernel

/-- The portal's first deposit of a token, after it was registered. -/
theorem erc20_run : ∃ (i : Input Unit) (res : AdvanceResult) (w' : World Unit),
    Run erc20Viem erc20Router [i] i.after ∧
    (erc20Router.advance erc20Viem block erc20Raw).run i.after = .ok res w' ∧
    i.after.ledger.view erc20Viem = registered PORTAL_ERC20 ∧
    w'.ledger.view erc20Viem =
      ((registered PORTAL_ERC20).addTokenType token).addToken 0 bob (5 : ℕ) := by
  obtain ⟨i, -, -, hrun, hready, hview⟩ := register_run (Or.inr rfl)
  have hportal : i.after.ledger.ram.portals aliasedPortal = some PORTAL_ERC20 := by
    have h := congrArg (fun v => v.ram.portals aliasedPortal) hview
    exact h.trans (by simp [registered])
  have htoken : PortalReceiver.addressAt erc20Data 0 = token := rfl
  have hben : PortalReceiver.addressAt erc20Data 20 = bob := rfl
  have hamount : PortalReceiver.uint256At erc20Data 40 = 5 := rfl
  obtain ⟨res, w', hadv, -, -, -, hview'⟩ := Router.portalERC20_accepted 1 alice block hready
    (parse_erc20 PORTAL_ERC20) rfl bob_unrouted rfl rfl hportal
    (by simp [erc20Data, bob.2, token.2]) htoken hben hamount (by rw [hview]; rfl)
    (by rw [hview]; rfl) (by norm_num) bob_ne
  rw [hview] at hview'
  exact ⟨i, res, w', hrun, hadv, hview, hview'⟩

end Sample

end OpCartesi.App
