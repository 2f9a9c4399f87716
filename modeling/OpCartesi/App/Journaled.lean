import OpCartesi.App.Accounting

/-!
# Code that changes the ledger through its methods

The outcomes of the router are exact for every handler that leaves the ledger to its
methods. What such a handler does to the ledger is a `Path`: method calls, and
rollbacks to a mark that the path itself passed through.

* `Ledger.Path.step`: a path from a well-formed ledger keeps it well formed, moves no
  nonce, and can be rolled back.
* `Journaled`: the computations whose effect on the ledger is a path, closed under
  sequencing, exceptions and nested rollbacks.
* `builtins_journaled`: every built-in handler is one.
-/

namespace OpCartesi.App

open Drive Exec

/-! ## Paths -/

/-- The methods a handler calls: reads, credit, debit, registration, configuration, messages. -/
inductive Method (V : Viem) : {α : Type} → LedgerM α → Prop
  | account (a : Address) : Method V (Ledger.account V a)
  | tokenBalance (a : Address) (id : ℕ) : Method V (Ledger.tokenBalance V a id)
  | creditEther (a : Address) (amount : ℤ) : Method V (Ledger.creditEther V a amount)
  | debitEther (a : Address) (amount : ℤ) : Method V (Ledger.debitEther V a amount)
  | creditToken (a : Address) (id : ℕ) (amount : ℤ) : Method V (Ledger.creditToken V a id amount)
  | debitToken (a : Address) (id : ℕ) (amount : ℤ) : Method V (Ledger.debitToken V a id amount)
  | registerToken (l1Token : Address) (m : Option TokenMetadata) :
      Method V (Ledger.registerToken V l1Token m)
  | setMetadata (id : ℕ) (m : TokenMetadata) : Method V (Ledger.setMetadata id m)
  | registerPortal (a : Address) (kind : ℕ) : Method V (Ledger.registerPortal a kind)
  | setFee (fee : ℤ) : Method V (Ledger.setFee fee)
  | registerCrossDomain (cfg : CrossDomainConfig) : Method V (Ledger.registerCrossDomain cfg)
  | nextMessageNonce : Method V Ledger.nextMessageNonce
  | setMessageStatus (hash : Bytes) (status : MessageStatus) :
      Method V (Ledger.setMessageStatus hash status)

namespace Ledger

variable {V : Viem} {l l' l'' : Ledger}

theorem Does.step {α : Type} {x : LedgerM α} {post : α → View → Prop} (hwf : l.WF V)
    (h : Does V l x post) : Step V l (endState (x.run l)) := by
  cases hx : x.run l with
  | ok a l' => exact (h.ok a l' hx).1
  | error e l' =>
    rw [endState_error, h.error e l' hx]
    exact Step.refl hwf

theorem method_step {α : Type} {x : LedgerM α} (hx : Method V x) (hwf : l.WF V) :
    Step V l (endState (x.run l)) := by
  cases hx with
  | account a =>
    rw [account_run hwf]
    split_ifs <;> exact Step.refl hwf
  | tokenBalance a id =>
    rcases tokenBalance_run hwf a id with h | ⟨e, h⟩
    · rw [h]
      exact Step.refl hwf
    · rw [h]
      exact Step.refl hwf
  | creditEther a n => exact (creditEther_does hwf a n).step hwf
  | debitEther a n => exact (debitEther_does hwf a n).step hwf
  | creditToken a id n => exact (creditToken_does hwf a id n).step hwf
  | debitToken a id n => exact (debitToken_does hwf a id n).step hwf
  | registerToken t m => exact (registerToken_does hwf t m).step hwf
  | setMetadata id m => exact (setMetadata_does hwf id m).step hwf
  | registerPortal a kind => exact (registerPortal_does hwf a kind).step hwf
  | setFee fee => exact (setFee_does hwf fee).step hwf
  | registerCrossDomain cfg => exact (registerCrossDomain_does hwf cfg).step hwf
  | nextMessageNonce => exact (nextMessageNonce_does hwf).step hwf
  | setMessageStatus hash s => exact (setMessageStatus_does hwf hash s).step hwf

/-- What method calls, thrown or not, and rollbacks to marks of the path lead to. -/
inductive Path (V : Viem) : Ledger → Ledger → Prop
  | refl (l : Ledger) : Path V l l
  | call {α : Type} {x : LedgerM α} {l l₁ : Ledger} (h : Path V l l₁) (hx : Method V x) :
      Path V l (endState (x.run l₁))
  | rollback {l l₁ l₂ l₃ l₄ : Ledger} (h : Path V l l₁) (h' : Path V l₁ l₂)
      (hr : (rollbackTo l₁.entries.length).run l₂ = .ok () l₃)
      (ha : (afterRollback V).run l₃ = .ok () l₄) : Path V l l₄

theorem Path.trans (h : Path V l l') (h' : Path V l' l'') : Path V l l'' := by
  induction h' with
  | refl => exact h
  | call _ hx ih => exact (ih h).call hx
  | rollback _ h₂ hr ha ih _ => exact (ih h).rollback h₂ hr ha

/-- Rolling back to the ledger `l` along a step. -/
theorem Step.rollback {l₃ : Ledger} (hwf : l.WF V) (h : Step V l l')
    (hr : (rollbackTo l.entries.length).run l' = .ok () l₃)
    (ha : (afterRollback V).run l₃ = .ok () l'') : l'' = l := by
  obtain ⟨l₁, hr', ha'⟩ := rollback_run hwf h.ext
  rw [hr'] at hr
  cases hr
  rw [ha'] at ha
  cases ha
  rfl

theorem Path.step (hwf : l.WF V) (h : Path V l l') : Step V l l' := by
  induction h with
  | refl => exact Step.refl hwf
  | call _ hx ih => exact (ih hwf).trans (method_step hx (ih hwf).wf)
  | rollback _ _ hr ha ih ih' =>
    -- a rollback along the inner path leads back to where that path started
    have h₁ := ih hwf
    rw [Step.rollback h₁.wf (ih' h₁.wf) hr ha]
    exact h₁

end Ledger

/-! ## Journaled computations -/

section

variable {ρ α β : Type} {V : Viem} {w w' : World ρ}

theorem onLedger_ok {x : LedgerM α} {a : α} {l : Ledger} (h : x.run w.ledger = .ok a l) :
    (onLedger x).run w = .ok a { w with ledger := l } := zoom_ok h

theorem onLedger_error {x : LedgerM α} {e : AppError} {l : Ledger}
    (h : x.run w.ledger = .error e l) :
    (onLedger x).run w = .error e { w with ledger := l } := zoom_error h

theorem endState_onLedger (x : LedgerM α) (w : World ρ) :
    endState ((onLedger x).run w) = { w with ledger := endState (x.run w.ledger) } := by
  cases h : x.run w.ledger with
  | ok a l => rw [onLedger_ok h, endState_ok, endState_ok]
  | error e l => rw [onLedger_error h, endState_error, endState_error]

theorem mark_run (w : World ρ) :
    (onLedger Ledger.mark : GuestM ρ ℕ).run w = .ok w.ledger.entries.length w := rfl

theorem ledger_run (w : World ρ) : (ledger : GuestM ρ Ledger).run w = .ok w.ledger w := rfl

/-- From a well-formed ledger, `x` changes the ledger along a path only. -/
def Journaled (V : Viem) (x : GuestM ρ α) : Prop :=
  ∀ w : World ρ, w.ledger.WF V → Ledger.Path V w.ledger (endState (x.run w)).ledger

namespace Journaled

theorem of_same {x : GuestM ρ α} (h : ∀ w, (endState (x.run w)).ledger = w.ledger) :
    Journaled V x := fun w _ => by
  rw [h w]
  exact Ledger.Path.refl _

theorem pure (a : α) : Journaled V (pure a : GuestM ρ α) := of_same fun _ => rfl

theorem throw (e : AppError) : Journaled V (throw e : GuestM ρ α) := of_same fun _ => rfl

theorem check (x : Except AppError α) : Journaled V (check x : GuestM ρ α) :=
  of_same fun w => by cases x <;> rfl

theorem get : Journaled V (get : GuestM ρ (World ρ)) := of_same fun _ => rfl

theorem ledger : Journaled V (ledger : GuestM ρ Ledger) := of_same fun _ => rfl

theorem modify {f : World ρ → World ρ} (h : ∀ w, (f w).ledger = w.ledger) :
    Journaled V (modify f : GuestM ρ Unit) := of_same h

theorem call {x : LedgerM α} (hx : Method V x) : Journaled V (onLedger x : GuestM ρ α) := by
  intro w _
  rw [endState_onLedger]
  exact (Ledger.Path.refl _).call hx

theorem step {x : GuestM ρ α} (hx : Journaled V x) (hwf : w.ledger.WF V) :
    Ledger.Step V w.ledger (endState (x.run w)).ledger := (hx w hwf).step hwf

theorem bind {x : GuestM ρ α} {f : α → GuestM ρ β} (hx : Journaled V x)
    (hf : ∀ a, Journaled V (f a)) : Journaled V (x >>= f) := by
  intro w hwf
  have hp := hx w hwf
  have hs := hx.step hwf
  cases h : x.run w with
  | ok a w' =>
    rw [h, endState_ok] at hp hs
    rw [bind_ok h]
    exact hp.trans (hf a w' hs.wf)
  | error e w' =>
    rw [h, endState_error] at hp
    rw [bind_error h]
    exact hp

theorem catching {x : GuestM ρ α} {h : AppError → GuestM ρ α} (hx : Journaled V x)
    (hh : ∀ e, Journaled V (h e)) : Journaled V (tryCatch x h) := by
  intro w hwf
  have hp := hx w hwf
  have hs := hx.step hwf
  cases hr : x.run w with
  | ok a w' =>
    rw [hr, endState_ok] at hp
    rw [tryCatch_ok hr]
    exact hp
  | error e w' =>
    rw [hr, endState_error] at hp hs
    rw [tryCatch_error hr]
    exact hp.trans (hh e w' hs.wf)

/-- Running `h` after a rollback to the ledger of `w`. -/
theorem rollback_bind {h : GuestM ρ α} (hwf : w.ledger.WF V)
    (hs : Ledger.Step V w.ledger w'.ledger) :
    (do onLedger (Ledger.rollbackTo w.ledger.entries.length)
        onLedger (Ledger.afterRollback V); h : GuestM ρ α).run w' =
      h.run { w' with ledger := w.ledger } := by
  obtain ⟨l₁, hr, ha⟩ := Ledger.rollback_run hwf hs.ext
  rw [bind_ok (onLedger_ok hr), bind_ok (onLedger_ok ha)]

/-- A mark, code, and a rollback to the mark when the code throws. -/
theorem nested {x : GuestM ρ α} {h : AppError → GuestM ρ α} (hx : Journaled V x)
    (hh : ∀ e, Journaled V (h e)) :
    Journaled V (do
      let mark ← onLedger Ledger.mark
      tryCatch x fun e => do
        onLedger (Ledger.rollbackTo mark)
        onLedger (Ledger.afterRollback V)
        h e) := by
  intro w hwf
  have hp := hx w hwf
  have hs := hx.step hwf
  rw [bind_ok (mark_run w)]
  cases hr : x.run w with
  | ok a w' =>
    rw [hr, endState_ok] at hp
    rw [tryCatch_ok hr]
    exact hp
  | error e w' =>
    rw [hr, endState_error] at hs
    rw [tryCatch_error hr, rollback_bind hwf hs]
    exact hh e { w' with ledger := w.ledger } hwf

end Journaled

/-! ## The built-in handlers -/

theorem journaled_emit (e : Emission) : Journaled V (emit e : GuestM ρ Unit) :=
  Journaled.modify fun _ => rfl

theorem journaled_withdrawal (sender target : Address) (value gasLimit : ℕ) (data : Calldata) :
    Journaled V (withdrawal V sender target value gasLimit data : GuestM ρ Unit) := by
  refine Journaled.get.bind fun w => ?_
  refine Journaled.bind (Journaled.modify ?_) fun _ => ?_
  · intro w
    rfl
  · refine (Journaled.check _).bind fun nonce => ?_
    exact (journaled_emit _).bind fun _ => journaled_emit _

/-- What the built-in handlers are made of: reads of the ledger, calls of its methods and of the
    sink's, exceptions, and code that is rolled back when it throws. -/
inductive Acts (V : Viem) : {α : Type} → GuestM ρ α → Prop
  | pure {α : Type} (a : α) : Acts V (pure a)
  | throw {α : Type} (e : AppError) : Acts V (throw e : GuestM ρ α)
  | ledger : Acts V ledger
  | call {α : Type} {x : LedgerM α} (hx : Method V x) : Acts V (onLedger x)
  | log (emitter : Address) (event : Event) : Acts V (log emitter event)
  | voucher (destination : Address) (value : ℕ) (payload : Calldata) :
      Acts V (voucher destination value payload)
  | withdrawal (sender target : Address) (value gasLimit : ℕ) (data : Calldata) :
      Acts V (withdrawal V sender target value gasLimit data)
  | bind {α β : Type} {x : GuestM ρ α} {f : α → GuestM ρ β} (hx : Acts V x)
      (hf : ∀ a, Acts V (f a)) : Acts V (x >>= f)
  | catching {α : Type} {x : GuestM ρ α} {h : AppError → GuestM ρ α} (hx : Acts V x)
      (hh : ∀ e, Acts V (h e)) : Acts V (tryCatch x h)
  | nested {α : Type} {x : GuestM ρ α} {h : AppError → GuestM ρ α} (hx : Acts V x)
      (hh : ∀ e, Acts V (h e)) :
      Acts V (do
        let mark ← onLedger Ledger.mark
        tryCatch x fun e => do
          onLedger (Ledger.rollbackTo mark)
          onLedger (Ledger.afterRollback V)
          h e)

theorem Acts.journaled {x : GuestM ρ α} (h : Acts V x) : Journaled V x := by
  induction h with
  | pure a => exact Journaled.pure a
  | throw e => exact Journaled.throw e
  | ledger => exact Journaled.ledger
  | call hx => exact Journaled.call hx
  | log emitter event => exact journaled_emit _
  | voucher destination value payload => exact journaled_emit _
  | withdrawal sender target value gasLimit data => exact journaled_withdrawal _ _ _ _ _
  | bind _ _ ihx ihf => exact ihx.bind ihf
  | catching _ _ ihx ihh => exact ihx.catching ihh
  | nested _ _ ihx ihh => exact ihx.nested ihh

/-- The handlers of `insufficientFunds`. -/
theorem acts_unfunded (a : α) (e : AppError) :
    Acts V (match e with
      | .insufficientFunds _ => return a
      | e => throw e : GuestM ρ α) := by
  cases e with
  | insufficientFunds => exact .pure _
  | _ => exact .throw _

/-- The guarded debit of the withdrawals: `false` when the balance does not cover it. -/
theorem acts_debitToken (a : Address) (id : ℕ) (amount : ℤ) :
    Acts V (tryCatch
      (do
        onLedger (Ledger.debitToken V a id amount)
        return true)
      fun e =>
        match e with
        | .insufficientFunds _ => return false
        | e => throw e : GuestM ρ Bool) := by
  exact ((Acts.call (.debitToken _ _ _)).bind fun _ => Acts.pure _).catching (acts_unfunded _)

theorem bridge_acts (ctx : TxContext) :
    Acts V (Bridge.advance V ctx : GuestM ρ AdvanceOutcome) := by
  unfold Bridge.advance
  split
  · exact Acts.pure _
  · unfold Bridge.withdrawEther
    split_ifs
    · exact Acts.pure _
    · refine (Acts.call (.debitEther _ _)).bind fun _ => ?_
      exact (Acts.withdrawal _ _ _ _ _).bind fun _ => Acts.pure _
  · unfold Bridge.withdrawERC20
    refine Acts.ledger.bind fun l => ?_
    split_ifs
    · exact Acts.pure _
    · split
      · exact Acts.pure _
      · refine (acts_debitToken _ _ _).bind fun debited => ?_
        split_ifs
        · exact Acts.pure _
        · refine (Acts.voucher _ _ _).bind fun _ => ?_
          exact (Acts.log _ _).bind fun _ => Acts.pure _

theorem config_acts (owner : Address) (ctx : TxContext) :
    Acts V (Config.advance V owner ctx : GuestM ρ AdvanceOutcome) := by
  unfold Config.advance
  split_ifs
  · exact Acts.pure _
  split
  · exact Acts.pure _
  · refine (Acts.call (.setFee _)).bind fun _ => ?_
    exact (Acts.log _ _).bind fun _ => Acts.pure _
  · unfold Config.registerPortal
    split_ifs
    · exact Acts.pure _
    refine Acts.ledger.bind fun l => ?_
    split_ifs
    · exact Acts.pure _
    · refine (Acts.call (.registerPortal _ _)).bind fun _ => ?_
      exact (Acts.log _ _).bind fun _ => Acts.pure _
  · unfold Config.registerMessenger
    refine Acts.ledger.bind fun l => ?_
    split_ifs
    · exact Acts.pure _
    · refine (Acts.call (.registerCrossDomain _)).bind fun _ => ?_
      exact (Acts.log _ _).bind fun _ => Acts.pure _
  · refine Acts.catching ?_ fun e => ?_
    · refine (Acts.call (.registerToken _ _)).bind fun p => ?_
      exact (Acts.log _ _).bind fun _ => Acts.pure _
    · split
      · exact Acts.pure _
      · exact Acts.throw _
  · refine Acts.ledger.bind fun l => ?_
    split
    · exact Acts.pure _
    · exact (Acts.call (.setMetadata _ _)).bind fun _ => Acts.pure _
  · exact Acts.pure _

theorem erc20_acts (ctx : TxContext) :
    Acts V (Erc20Facade.advance V ctx : GuestM ρ AdvanceOutcome) := by
  refine Acts.ledger.bind fun l => ?_
  split
  · exact Acts.pure _
  split
  · exact Acts.pure _
  · refine Acts.bind (Acts.catching ?_ fun e => ?_) fun moved => ?_
    · refine (Acts.call (.debitToken _ _ _)).bind fun _ => ?_
      exact (Acts.call (.creditToken _ _ _)).bind fun _ => Acts.pure _
    · exact acts_unfunded _ e
    · split_ifs
      · exact Acts.pure _
      · exact (Acts.log _ _).bind fun _ => Acts.pure _
  · exact Acts.pure _

theorem l1Block_journaled (ctx : TxContext) :
    Journaled V (L1Block.advance V ctx : GuestM ρ AdvanceOutcome) := by
  unfold L1Block.advance
  dsimp only
  split_ifs
  · exact Journaled.pure _
  · exact Journaled.pure _
  · exact Journaled.pure _
  · refine Journaled.bind (Journaled.modify ?_) fun _ => Journaled.pure _
    intro w
    rfl

theorem acts_sendCrossDomainMessage (cd : CrossDomainConfig) (sender target : Address)
    (message : Calldata) (minGasLimit value : ℕ) :
    Acts V (sendCrossDomainMessage V cd sender target message minGasLimit value :
      GuestM ρ Unit) := by
  refine (Acts.call .nextMessageNonce).bind fun counter => ?_
  refine (Acts.withdrawal _ _ _ _ _).bind fun _ => ?_
  exact (Acts.log _ _).bind fun _ => Acts.log _ _

theorem l2Bridge_acts (ctx : TxContext) :
    Acts V (L2Bridge.advance V ctx : GuestM ρ AdvanceOutcome) := by
  have hinit : ∀ cd localToken remoteToken dest amount minGasLimit extraData,
      Acts V (L2Bridge.initiate V ctx cd localToken remoteToken dest amount minGasLimit
        extraData : GuestM ρ AdvanceOutcome) := by
    intro cd localToken remoteToken dest amount minGasLimit extraData
    refine Acts.ledger.bind fun l => ?_
    split
    · exact Acts.pure _
    split_ifs
    · exact Acts.pure _
    refine (acts_debitToken _ _ _).bind fun debited => ?_
    split_ifs
    · exact Acts.pure _
    · refine (Acts.log _ _).bind fun _ => ?_
      refine (Acts.log _ _).bind fun _ => ?_
      exact (acts_sendCrossDomainMessage _ _ _ _ _ _).bind fun _ => Acts.pure _
  refine Acts.ledger.bind fun l => ?_
  split
  · exact Acts.pure _
  split
  · exact Acts.pure _
  · exact hinit _ _ _ _ _ _ _
  · exact hinit _ _ _ _ _ _ _
  · exact Acts.pure _

theorem acts_tokenId (l1Token : Address) :
    Acts V (L2Bridge.tokenId V l1Token : GuestM ρ ℕ) := by
  refine Acts.ledger.bind fun l => ?_
  split
  · exact Acts.pure _
  · exact (Acts.call (.registerToken _ _)).bind fun p => Acts.pure _

theorem acts_finalizeFromMessenger (m : CrossDomainMessage) (cd : CrossDomainConfig) :
    Acts V (L2Bridge.finalizeFromMessenger V m cd : GuestM ρ Unit) := by
  unfold L2Bridge.finalizeFromMessenger
  split_ifs
  · exact Acts.throw _
  split
  · exact Acts.throw _
  · unfold L2Bridge.finalizeBridgeERC20
    split_ifs
    · exact Acts.throw _
    · exact Acts.throw _
    · refine (acts_tokenId _).bind fun id => ?_
      refine (Acts.call (.creditToken _ _ _)).bind fun _ => ?_
      exact (Acts.log _ _).bind fun _ => Acts.log _ _
  · unfold L2Bridge.finalizeBridgeETH
    split_ifs
    · exact Acts.throw _
    · refine (Acts.call (.debitEther _ _)).bind fun _ => ?_
      exact (Acts.call (.creditEther _ _)).bind fun _ => Acts.log _ _
  · exact Acts.throw _

theorem acts_dispatch (m : CrossDomainMessage) (cd : CrossDomainConfig) :
    Acts V (Messenger.dispatch V m cd : GuestM ρ Unit) := by
  unfold Messenger.dispatch
  split_ifs
  · exact acts_finalizeFromMessenger m cd
  · exact Acts.throw _
  · exact (Acts.call (.debitEther _ _)).bind fun _ => Acts.call (.creditEther _ _)

theorem acts_relay (m : CrossDomainMessage) (cd : CrossDomainConfig) :
    Acts V (Messenger.relay V m cd : GuestM ρ AdvanceOutcome) := by
  have hrecord : ∀ status failed, Acts V (do
      onLedger (Ledger.setMessageStatus (V.hashCrossDomainMessageV1 m) status)
      log L2_MESSENGER_ADDRESS (.relayedMessage (V.hashCrossDomainMessageV1 m) failed) :
        GuestM ρ Unit) := fun status failed =>
    (Acts.call (.setMessageStatus _ _)).bind fun _ => Acts.log _ _
  have hnested := Acts.nested
    ((acts_dispatch m cd).bind fun _ => hrecord .successful false)
    fun _ => hrecord .failed true
  have h := hnested.bind fun _ => Acts.pure AdvanceOutcome.accept
  rwa [bind_assoc] at h

theorem messenger_acts (ctx : TxContext) :
    Acts V (Messenger.advance V ctx : GuestM ρ AdvanceOutcome) := by
  refine Acts.ledger.bind fun l => ?_
  split
  · exact Acts.pure _
  split
  · split
    · exact Acts.pure _
    · exact acts_relay _ _
  · exact Acts.pure _

theorem messagePasser_acts (ctx : TxContext) :
    Acts V (MessagePasser.advance V ctx : GuestM ρ AdvanceOutcome) := by
  unfold MessagePasser.advance
  split_ifs
  · refine (Acts.call (.debitEther _ _)).bind fun _ => ?_
    exact (Acts.withdrawal _ _ _ _ _).bind fun _ => Acts.pure _
  split
  · exact Acts.pure _
  · refine (Acts.call (.debitEther _ _)).bind fun _ => ?_
    exact (Acts.withdrawal _ _ _ _ _).bind fun _ => Acts.pure _

theorem portalReceiver_acts (ctx : TxContext) :
    Acts V (PortalReceiver.advance V ctx : GuestM ρ AdvanceOutcome) := by
  unfold PortalReceiver.advance
  split_ifs
  · exact Acts.pure _
  refine Acts.ledger.bind fun l => ?_
  split
  · exact Acts.pure _
  split_ifs
  · unfold PortalReceiver.receiveEther
    split_ifs
    · exact Acts.pure _
    refine Acts.catching ?_ fun e => ?_
    · refine (Acts.call (.debitEther _ _)).bind fun _ => ?_
      exact (Acts.call (.creditEther _ _)).bind fun _ => Acts.pure _
    · exact acts_unfunded _ e
  · unfold PortalReceiver.receiveERC20
    split_ifs
    · exact Acts.pure _
    refine (acts_tokenId _).bind fun id => ?_
    refine (Acts.call (.creditToken _ _ _)).bind fun _ => ?_
    exact (Acts.log _ _).bind fun _ => Acts.pure _

/-! ## The built-in views -/

/-- From a well-formed ledger, `x` changes nothing. -/
def Reads (V : Viem) (x : GuestM ρ α) : Prop :=
  ∀ w : World ρ, w.ledger.WF V → endState (x.run w) = w

namespace Reads

theorem journaled {x : GuestM ρ α} (h : Reads V x) : Journaled V x := fun w hwf => by
  rw [h w hwf]
  exact Ledger.Path.refl _

theorem pure (a : α) : Reads V (pure a : GuestM ρ α) := fun _ _ => rfl

theorem throw (e : AppError) : Reads V (throw e : GuestM ρ α) := fun _ _ => rfl

theorem get : Reads V (get : GuestM ρ (World ρ)) := fun _ _ => rfl

theorem ledger : Reads V (ledger : GuestM ρ Ledger) := fun _ _ => rfl

theorem tokenBalance (a : Address) (id : ℕ) :
    Reads V (onLedger (Ledger.tokenBalance V a id) : GuestM ρ ℕ) := by
  intro w hwf
  rw [endState_onLedger]
  rcases Ledger.tokenBalance_run hwf a id with h | ⟨e, h⟩
  · rw [h, endState_ok]
  · rw [h, endState_error]

theorem bind {x : GuestM ρ α} {f : α → GuestM ρ β} (hx : Reads V x) (hf : ∀ a, Reads V (f a)) :
    Reads V (x >>= f) := by
  intro w hwf
  have hs := hx w hwf
  cases h : x.run w with
  | ok a w' =>
    rw [h, endState_ok] at hs
    rw [bind_ok h, hs]
    exact hf a w hwf
  | error e w' =>
    rw [h, endState_error] at hs
    rw [bind_error h, hs]
    rfl

theorem catching {x : GuestM ρ α} {h : AppError → GuestM ρ α} (hx : Reads V x)
    (hh : ∀ e, Reads V (h e)) : Reads V (tryCatch x h) := by
  intro w hwf
  have hs := hx w hwf
  cases hr : x.run w with
  | ok a w' =>
    rw [hr, endState_ok] at hs
    rw [tryCatch_ok hr, hs]
    rfl
  | error e w' =>
    rw [hr, endState_error] at hs
    rw [tryCatch_error hr, hs]
    exact hh e w hwf

end Reads

theorem reads_uintResult (bits : ℕ) (n : ℤ) :
    Reads V (uintResult bits n : GuestM ρ ViewOutcome) := by
  unfold uintResult
  split_ifs
  · exact Reads.pure _
  · exact Reads.throw _

theorem config_view_reads (owner : Address) (call : CallContext) :
    Reads V (Config.view V owner call : GuestM ρ ViewOutcome) := by
  unfold Config.view
  split
  · exact Reads.pure _
  · exact Reads.ledger.bind fun l => reads_uintResult _ _
  · exact Reads.pure _
  · exact Reads.pure _

theorem erc20_view_reads (call : CallContext) :
    Reads V (Erc20Facade.view V call : GuestM ρ ViewOutcome) := by
  refine Reads.ledger.bind fun l => ?_
  split
  · exact Reads.pure _
  split
  · exact Reads.pure _
  · exact (Reads.tokenBalance _ _).bind fun b => reads_uintResult _ _
  · exact reads_uintResult _ _
  · exact reads_uintResult _ _
  · exact Reads.pure _
  · exact Reads.pure _
  · exact Reads.pure _

theorem l1Block_view_reads (call : CallContext) :
    Reads V (L1Block.view V call : GuestM ρ ViewOutcome) := by
  unfold L1Block.view
  split
  · exact Reads.pure _
  refine Reads.get.bind fun w => ?_
  split
  · exact Reads.pure _
  split
  all_goals first | exact reads_uintResult _ _ | exact Reads.pure _

theorem messenger_view_reads (call : CallContext) :
    Reads V (Messenger.view V call : GuestM ρ ViewOutcome) := by
  refine Reads.ledger.bind fun l => ?_
  split
  · exact Reads.pure _
  · exact reads_uintResult _ _
  · exact Reads.pure _
  · exact Reads.pure _
  · exact Reads.pure _

theorem registry_view_reads (wiring : Wiring) (call : CallContext) :
    Reads V (Registry.view V wiring call : GuestM ρ ViewOutcome) := by
  refine Reads.ledger.bind fun l => ?_
  split
  · exact Reads.pure _
  · split <;> exact Reads.pure _
  · exact Reads.pure _
  · exact Reads.pure _

end

/-! ## Manifests -/

/-- A handler that leaves the ledger to its methods. -/
structure Handler.Journaled {ρ : Type} (V : Viem) (h : Handler ρ) : Prop where
  advance : ∀ f, h.advance = some f → ∀ ctx, App.Journaled V (f ctx)
  view : ∀ f, h.view = some f → ∀ wiring call, App.Journaled V (f wiring call)

/-- Every handler of the manifest leaves the ledger to its methods. -/
def Router.Journaled {ρ : Type} (V : Viem) (r : Router ρ) : Prop :=
  ∀ a h, r.manifest a = some h → h.Journaled V

variable {ρ : Type} {V : Viem} {r : Router ρ}

theorem builtins_journaled (chainId : ℕ) (owner : Address) :
    (Router.new V chainId owner : Router ρ).Journaled V := by
  intro a h ha
  simp only [Router.new, Router.builtins] at ha
  refine ⟨fun f hf ctx => ?_, fun f hf wiring call => ?_⟩
  · split_ifs at ha <;> cases ha <;> cases hf
    · exact (bridge_acts ctx).journaled
    · exact (config_acts owner ctx).journaled
    · exact l1Block_journaled ctx
    · exact (messenger_acts ctx).journaled
    · exact (l2Bridge_acts ctx).journaled
    · exact (messagePasser_acts ctx).journaled
  · split_ifs at ha <;> cases ha <;> cases hf
    · exact (registry_view_reads wiring call).journaled
    · exact (config_view_reads owner call).journaled
    · exact (l1Block_view_reads call).journaled
    · exact (messenger_view_reads call).journaled

/-- The views of the built-in handlers only read. -/
theorem builtins_reads {chainId : ℕ} {owner a : Address} {h : Handler ρ}
    {f : Wiring → CallContext → GuestM ρ ViewOutcome}
    (ha : (Router.new V chainId owner : Router ρ).manifest a = some h) (hf : h.view = some f)
    (wiring : Wiring) (call : CallContext) : Reads V (f wiring call) := by
  simp only [Router.new, Router.builtins] at ha
  split_ifs at ha <;> cases ha <;> cases hf
  · exact registry_view_reads wiring call
  · exact config_view_reads owner call
  · exact l1Block_view_reads call
  · exact messenger_view_reads call

/-- Whatever a transaction or a call resolves to is journaled. -/
theorem resolve_journaled {dest : Address} {appContract depositSender : Option Address}
    {l : Ledger} {h : Handler ρ} (hr : r.Journaled V)
    (hres : r.resolve V dest appContract depositSender l = some h) : h.Journaled V := by
  have hportal : (portalReceiver V : Handler ρ).Journaled V := by
    refine ⟨fun f hf ctx => ?_, fun f hf => ?_⟩
    · cases hf
      exact (portalReceiver_acts ctx).journaled
    · cases hf
  unfold Router.resolve at hres
  split at hres
  · rename_i fixed hfix
    cases hres
    exact hr _ _ hfix
  · split_ifs at hres <;> cases hres
    · exact hportal
    · exact hportal
    · refine ⟨fun f hf ctx => ?_, fun f hf wiring call => ?_⟩
      · cases hf
        exact (erc20_acts ctx).journaled
      · cases hf
        exact (erc20_view_reads call).journaled

theorem transfer_journaled (ctx : TxContext) :
    Journaled V (Router.transfer V ctx : GuestM ρ Unit) :=
  (Journaled.call (.debitEther _ _)).bind fun _ => Journaled.call (.creditEther _ _)

theorem call_journaled (hr : r.Journaled V) (ctx : TxContext) : Journaled V (r.call V ctx) := by
  refine Journaled.ledger.bind fun l => ?_
  cases hres : r.resolve V ctx.dest (some ctx.block.appContract) (Router.depositSender ctx) l with
  | none => exact Journaled.pure _
  | some handler =>
    simp only
    split_ifs
    · exact Journaled.pure _
    cases hadv : handler.advance with
    | none => exact Journaled.pure _
    | some f => exact (resolve_journaled hr hres).advance f hadv ctx

theorem dispatch_journaled (hr : r.Journaled V) (ctx : TxContext) :
    Journaled V (r.dispatch V ctx) :=
  (transfer_journaled ctx).bind fun _ => call_journaled hr ctx

/-- A view call to the built-in handlers only reads. -/
theorem inspectView_reads (chainId : ℕ) (owner : Address) (call : DecodedCall) :
    Reads V ((Router.new V chainId owner : Router ρ).inspectView V call) := by
  refine Reads.ledger.bind fun l => ?_
  cases hres : (Router.new V chainId owner : Router ρ).resolve V call.dest none none l with
  | none => exact Reads.pure _
  | some handler =>
    simp only
    cases hview : handler.view with
    | none => exact Reads.pure _
    | some f =>
      have hf : ∀ wiring call, Reads V (f wiring call) := by
        intro wiring call
        unfold Router.resolve at hres
        split at hres
        · rename_i fixed hfix
          cases hres
          exact builtins_reads hfix hview wiring call
        · rw [if_neg (by simp), if_neg (by simp)] at hres
          split_ifs at hres
          cases hres
          cases hview
          exact erc20_view_reads call
      refine Reads.catching ?_ fun e => Reads.pure _
      refine (hf _ _).bind fun outcome => ?_
      cases outcome <;> exact Reads.pure _

theorem inspectView_journaled (hr : r.Journaled V) (call : DecodedCall) :
    Journaled V (r.inspectView V call) := by
  refine Journaled.ledger.bind fun l => ?_
  cases hres : r.resolve V call.dest none none l with
  | none => exact Journaled.pure _
  | some handler =>
    simp only
    cases hview : handler.view with
    | none => exact Journaled.pure _
    | some f =>
      refine Journaled.catching ?_ fun e => Journaled.pure _
      refine ((resolve_journaled hr hres).view f hview _ _).bind fun outcome => ?_
      cases outcome <;> exact Journaled.pure _

end OpCartesi.App
