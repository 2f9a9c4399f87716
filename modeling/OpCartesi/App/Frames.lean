import OpCartesi.App.Journaled

/-!
# What the handlers touch

The built-in handlers act on the ledger through its methods and on the outputs through the sink's,
and only `L1Block` has state of its own. So any preorder on worlds that the ledger's and the sink's
methods respect is respected by every other handler.

* `Frame`: such a preorder. `Frame.Keeps`: a computation that stays within it.
* `Frame.resolve_keeps`, `Frame.dispatch_keeps`: a call that does not reach `L1Block`.
* `privateFrame`: the attributes of `L1Block` and the RAM of the applications stay as they are.
-/

namespace OpCartesi.App

open Drive Exec

/-- The notice of a withdrawal. -/
def Emission.isWithdrawal : Emission → Bool
  | .notice (.withdrawal _) => true
  | _ => false

/-- A preorder on worlds that the methods of the ledger and of the sink respect. -/
structure Frame (V : Viem) (ρ : Type) where
  R : World ρ → World ρ → Prop
  refl : ∀ w, R w w
  trans : ∀ {w₁ w₂ w₃}, R w₁ w₂ → R w₂ w₃ → R w₁ w₃
  ledger : ∀ w l, R w { w with ledger := l }
  emit : ∀ w e, e.isWithdrawal = false →
    R w { w with sink.emissions := w.sink.emissions ++ [e] }
  withdrawal : ∀ w sender target value gasLimit data,
    R w (endState ((withdrawal V sender target value gasLimit data).run w))

namespace Frame

variable {V : Viem} {ρ α β : Type} (F : Frame V ρ)

/-- However `x` ends, the world it ends in is related to the one it started in. -/
def Keeps (x : GuestM ρ α) : Prop := ∀ w, F.R w (endState (x.run w))

theorem pure (a : α) : F.Keeps (pure a) := fun w => F.refl w

theorem throw (e : AppError) : F.Keeps (throw e : GuestM ρ α) := fun w => F.refl w

theorem get : F.Keeps get := fun w => F.refl w

theorem readLedger : F.Keeps App.ledger := fun w => F.refl w

theorem call (x : LedgerM α) : F.Keeps (onLedger x) := by
  intro w
  rw [endState_onLedger]
  exact F.ledger w _

variable {F}

theorem Keeps.bind {x : GuestM ρ α} {f : α → GuestM ρ β} (hx : F.Keeps x)
    (hf : ∀ a, F.Keeps (f a)) : F.Keeps (x >>= f) := by
  intro w
  have hw := hx w
  cases h : x.run w with
  | ok a w' =>
    rw [h, endState_ok] at hw
    rw [bind_ok h]
    exact F.trans hw (hf a w')
  | error e w' =>
    rw [h, endState_error] at hw
    rwa [bind_error h]

/-- What follows a computation moves within the frame from where the computation ended. -/
theorem Keeps.tail {x : GuestM ρ α} {f : α → GuestM ρ β} (hf : ∀ a, F.Keeps (f a)) (w : World ρ) :
    F.R (endState (x.run w)) (endState ((x >>= f).run w)) := by
  cases h : x.run w with
  | ok a w' =>
    rw [bind_ok h]
    exact hf a w'
  | error e w' =>
    rw [bind_error h]
    exact F.refl w'

theorem Keeps.catching {x : GuestM ρ α} {h : AppError → GuestM ρ α} (hx : F.Keeps x)
    (hh : ∀ e, F.Keeps (h e)) : F.Keeps (tryCatch x h) := by
  intro w
  have hw := hx w
  cases hr : x.run w with
  | ok a w' =>
    rw [hr, endState_ok] at hw
    rwa [tryCatch_ok hr]
  | error e w' =>
    rw [hr, endState_error] at hw
    rw [tryCatch_error hr]
    exact F.trans hw (hh e w')

variable (F)

/-! ## The handlers -/

theorem acts {x : GuestM ρ α} (h : Acts V x) : F.Keeps x := by
  induction h with
  | pure a => exact F.pure a
  | throw e => exact F.throw e
  | ledger => exact F.readLedger
  | call => exact F.call _
  | log emitter event => exact fun w => F.emit w _ rfl
  | voucher destination value payload => exact fun w => F.emit w _ rfl
  | withdrawal sender target value gasLimit data => exact fun w => F.withdrawal w _ _ _ _ _
  | bind _ _ ihx ihf => exact ihx.bind ihf
  | catching _ _ ihx ihh => exact ihx.catching ihh
  | nested _ _ ihx ihh =>
    refine (F.call _).bind fun mark => ihx.catching fun e => ?_
    exact (F.call _).bind fun _ => (F.call _).bind fun _ => ihh e

/-! ## Dispatch -/

variable {r : Router ρ}

/-- What a transaction resolves to keeps the frame, if the manifest's handler there does. -/
theorem resolve_keeps {dest : Address} {appContract depositSender : Option Address} {l : Ledger}
    {handler : Handler ρ} {advance : TxContext → GuestM ρ AdvanceOutcome} (ctx : TxContext)
    (hmanifest : ∀ h f, r.manifest dest = some h → h.advance = some f → F.Keeps (f ctx))
    (hres : r.resolve V dest appContract depositSender l = some handler)
    (hadv : handler.advance = some advance) : F.Keeps (advance ctx) := by
  unfold Router.resolve at hres
  split at hres
  · rename_i fixed hfix
    cases hres
    exact hmanifest _ _ hfix hadv
  · split_ifs at hres <;> cases hres <;> cases hadv
    · exact F.acts (portalReceiver_acts ctx)
    · exact F.acts (portalReceiver_acts ctx)
    · exact F.acts (erc20_acts ctx)

theorem call_keeps (ctx : TxContext)
    (hmanifest : ∀ h f, r.manifest ctx.dest = some h → h.advance = some f → F.Keeps (f ctx)) :
    F.Keeps (r.call V ctx) := by
  refine F.readLedger.bind fun l => ?_
  cases hres : r.resolve V ctx.dest (some ctx.block.appContract) (Router.depositSender ctx) l with
  | none => exact F.pure _
  | some handler =>
    simp only
    split_ifs
    · exact F.pure _
    cases hadv : handler.advance with
    | none => exact F.pure _
    | some f => exact F.resolve_keeps ctx hmanifest hres hadv

theorem transfer_keeps (ctx : TxContext) : F.Keeps (Router.transfer V ctx) :=
  (F.call _).bind fun _ => F.call _

theorem dispatch_keeps (ctx : TxContext)
    (hmanifest : ∀ h f, r.manifest ctx.dest = some h → h.advance = some f → F.Keeps (f ctx)) :
    F.Keeps (r.dispatch V ctx) :=
  (F.transfer_keeps ctx).bind fun _ => F.call_keeps ctx hmanifest

theorem rollbackAll_keeps : F.Keeps (Router.rollbackAll V) := (F.call _).bind fun _ => F.call _

/-- Settling acts on the ledger only. -/
theorem settle_keeps (mark : ℕ) (c : Option Chargeable) (outcome : AdvanceOutcome) :
    F.Keeps (Router.settle V mark c outcome) := by
  have hcharge : F.Keeps (Router.charge V c) := by
    cases c with
    | none => exact F.pure _
    | some c =>
      refine ((F.call _).bind fun _ => F.pure _).catching fun e => ?_
      exact F.rollbackAll_keeps.bind fun _ => F.pure _
  have hfinish : ∀ res, F.Keeps (Router.finish V c res) := by
    intro res
    refine hcharge.bind fun refused => ?_
    cases refused with
    | none => exact (F.call _).bind fun _ => F.pure _
    | some res => exact F.pure _
  refine F.get.bind fun w => ?_
  cases outcome with
  | accept => exact hfinish _
  | fail data => exact hfinish _
  | revert data => exact (F.call _).bind fun _ => (F.call _).bind fun _ => hfinish _
  | reject reason => exact F.rollbackAll_keeps.bind fun _ => F.pure _

/-- The built-in handlers, where `L1Block` keeps the frame too. -/
theorem builtins_keeps (chainId : ℕ) (owner : Address) (ctx : TxContext) {a : Address}
    (hl1 : a = L1BLOCK_ADDRESS → F.Keeps (L1Block.advance V ctx)) {h : Handler ρ}
    {f : TxContext → GuestM ρ AdvanceOutcome}
    (ha : (Router.new V chainId owner : Router ρ).manifest a = some h) (hf : h.advance = some f) :
    F.Keeps (f ctx) := by
  simp only [Router.new, Router.builtins] at ha
  split_ifs at ha with _ _ _ haddr <;> cases ha <;> cases hf
  · exact F.acts (bridge_acts ctx)
  · exact F.acts (config_acts owner ctx)
  · exact hl1 haddr
  · exact F.acts (messenger_acts ctx)
  · exact F.acts (l2Bridge_acts ctx)
  · exact F.acts (messagePasser_acts ctx)

end Frame

/-! ## Private state -/

/-- The attributes of `L1Block` and the RAM of the applications. -/
def privateFrame (V : Viem) (ρ : Type) : Frame V ρ where
  R w w' := w'.l1Block = w.l1Block ∧ w'.own = w.own
  refl w := ⟨rfl, rfl⟩
  trans h h' := ⟨h'.1.trans h.1, h'.2.trans h.2⟩
  ledger w l := ⟨rfl, rfl⟩
  emit w e _ := ⟨rfl, rfl⟩
  withdrawal w sender target value gasLimit data := by
    rw [withdrawal, bind_ok (get_run w), bind_ok (modify_run _ _)]
    cases versionedWithdrawalNonce w.sink.inputIndex w.sink.withdrawals <;> exact ⟨rfl, rfl⟩

end OpCartesi.App
