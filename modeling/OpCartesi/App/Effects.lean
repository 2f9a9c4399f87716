import OpCartesi.App.Journaled

/-!
# What the built-in handlers do

Whenever a built-in handler returns, it reverts, or it accepts and has had one of the
effects of `Accepted`: a change of the view and the outputs it emitted.

* `At`: the view, outputs and withdrawal count a handler has reached.
* `Relayed`: what the dispatch of a cross-domain message does.
* `Accepted`: one constructor for each way a built-in handler accepts.
* `Router.call_accepted`: a call routed to the built-in handlers ends so.
-/

namespace OpCartesi.App

open Drive Exec

variable {ρ α : Type} {V : Viem} {s : BufferSink} {v v' : View} {es : List Emission} {n : ℕ}
  {w w' : World ρ} {x : GuestM ρ α}

/-! ## Reached states -/

/-- The state reached from a sink `s`: the view `v`, the outputs `es` and `n` withdrawals. -/
structure At (V : Viem) (s : BufferSink) (v : View) (es : List Emission) (n : ℕ) (w : World ρ) :
    Prop where
  wf : w.ledger.WF V
  view : w.ledger.view V = v
  emissions : w.sink.emissions = s.emissions ++ es
  withdrawals : w.sink.withdrawals = s.withdrawals + n
  inputIndex : w.sink.inputIndex = s.inputIndex

theorem At.init (hwf : w.ledger.WF V) : At V w.sink (w.ledger.view V) [] 0 w :=
  ⟨hwf, rfl, (List.append_nil _).symm, rfl, rfl⟩

section

variable (h : At V s v es n w)
include h

/-- A call of a ledger method. -/
theorem At.call {x : LedgerM α} {post : α → View → Prop} (hx : Ledger.Does V w.ledger x post) :
    Returns (onLedger x) w fun a w' => ∃ v', At V s v' es n w' ∧ post a v' := by
  intro a w' hrun
  cases hr : x.run w.ledger with
  | ok b l =>
    rw [onLedger_ok hr] at hrun
    cases hrun
    obtain ⟨hs, hp⟩ := hx.ok a l hr
    exact ⟨l.view V, ⟨hs.wf, rfl, h.emissions, h.withdrawals, h.inputIndex⟩, hp⟩
  | error e l =>
    rw [onLedger_error hr] at hrun
    cases hrun

theorem At.debitEther (a : Address) (amount : ℕ) :
    Returns (onLedger (Ledger.debitEther V a amount)) w fun _ w' =>
      At V s (v.addEther a (-amount)) es n w' ∧ amount ≤ v.balances a := by
  refine (h.call (Ledger.debitEther_does h.wf a amount)).mono fun _ w' ⟨v', h', hv, hle⟩ => ?_
  rw [h.view] at hv hle
  exact ⟨hv ▸ h', by exact_mod_cast hle⟩

theorem At.creditEther (a : Address) (amount : ℕ) :
    Returns (onLedger (Ledger.creditEther V a amount)) w fun _ =>
      At V s (v.addEther a amount) es n := by
  refine (h.call (Ledger.creditEther_does h.wf a amount)).mono fun _ w' ⟨v', h', hv, _⟩ => ?_
  rw [h.view] at hv
  exact hv ▸ h'

theorem At.creditToken (a : Address) (id amount : ℕ) :
    Returns (onLedger (Ledger.creditToken V a id amount)) w fun _ =>
      At V s (v.addToken id a amount) es n := by
  refine (h.call (Ledger.creditToken_does h.wf a id amount)).mono fun _ w' ⟨v', h', hv, _⟩ => ?_
  rw [h.view] at hv
  exact hv ▸ h'

theorem At.emit (e : Emission) :
    Returns (emit e) w fun _ => At V s v (es ++ [e]) n := by
  refine Returns.modify ⟨h.wf, h.view, ?_, h.withdrawals, h.inputIndex⟩
  show w.sink.emissions ++ [e] = _
  rw [h.emissions, List.append_assoc]

theorem At.log (emitter : Address) (event : Event) :
    Returns (log emitter event) w fun _ =>
      At V s v (es ++ [.notice (.evmLog emitter event)]) n := h.emit _

end

/-- The outputs of a withdrawal. -/
def passed (V : Viem) (m : WithdrawalMessage) : List Emission :=
  [.notice (.withdrawal m),
    .notice (.evmLog MESSAGE_PASSER_ADDRESS (.messagePassed m (V.withdrawalHash m)))]

theorem At.withdrawal (h : At V s v es n w) (sender target : Address) (value gasLimit : ℕ)
    (data : Calldata) :
    Returns (withdrawal V sender target value gasLimit data) w fun _ w' => ∃ nonce,
      versionedWithdrawalNonce s.inputIndex (s.withdrawals + n) = .ok nonce ∧
      At V s v (es ++ passed V ⟨nonce, sender, target, value, gasLimit, data⟩) (n + 1) w' := by
  intro u w' hrun
  rw [App.withdrawal, bind_ok (get_run w), bind_ok (modify_run _ _), h.inputIndex,
    h.withdrawals] at hrun
  cases hn : versionedWithdrawalNonce s.inputIndex (s.withdrawals + n) with
  | error e =>
    rw [hn, bind_error (check_error _ _)] at hrun
    cases hrun
  | ok nonce =>
    rw [hn, bind_ok (check_ok _ _)] at hrun
    cases hrun
    refine ⟨nonce, rfl, h.wf, h.view, ?_, ?_, h.inputIndex⟩
    · show (w.sink.emissions ++ [_]) ++ [_] = _
      rw [h.emissions, List.append_assoc, List.append_assoc]
      rfl
    · exact Nat.add_assoc _ _ _

/-- The guarded debit of the withdrawals. -/
theorem At.debitToken (h : At V s v es n w) (a : Address) (id amount : ℕ) :
    Returns (tryCatch
      (do
        onLedger (Ledger.debitToken V a id amount)
        return true)
      fun e =>
        match e with
        | .insufficientFunds _ => return false
        | e => throw e : GuestM ρ Bool) w fun debited w' => debited = true →
      At V s (v.addToken id a (-amount)) es n w' ∧ amount ≤ v.holdings id a := by
  refine Returns.catching ?_ fun e w₁ _ => ?_
  · refine (h.call (Ledger.debitToken_does h.wf a id amount)).bind fun _ w₁ h₁ => ?_
    obtain ⟨v', h', rfl, hle⟩ := h₁
    rw [h.view] at h' hle
    exact Returns.pure fun _ => ⟨h', by exact_mod_cast hle⟩
  · cases e with
    | insufficientFunds what => exact Returns.pure fun h => absurd h (by decide)
    | _ => exact Returns.throw

/-! ## Effects -/

/-- A log as it is emitted. -/
def logged (emitter : Address) (event : Event) : Emission := .notice (.evmLog emitter event)

namespace View

/-- The registered token a façade address stands for. -/
def Facade (V : Viem) (v : View) (l2Token : Address) (id : ℕ) (t : Token) : Prop :=
  Ledger.facadesOf V v.tokens l2Token = some id ∧ v.tokens[id]? = some t

/-- The id of a token, registered if it is new. -/
inductive TokenId (v : View) (l1Token : Address) : ℕ → View → Prop
  | known {id : ℕ} {t : Token} (ht : v.tokens[id]? = some t) (ha : t.address = l1Token) :
      TokenId v l1Token id v
  | new (h : l1Token ∉ v.tokens.map Token.address) :
      TokenId v l1Token v.tokens.length (v.addTokenType l1Token)

/-- One more outbound message. -/
def countMessage (v : View) : View :=
  { v with ram := { v.ram with msgNonce := v.ram.msgNonce + 1 } }

def setStatus (hash : Bytes) (status : MessageStatus) (v : View) : View :=
  { v with ram := { v.ram with messages := Function.update v.ram.messages hash (some status) } }

end View

/-- The outputs of `sendCrossDomainMessage`; `counter` is the outbound counter it takes. -/
def sent (V : Viem) (cd : CrossDomainConfig) (nonce counter : ℕ) (sender target : Address)
    (message : Calldata) (minGasLimit value : ℕ) : List Emission :=
  let messageNonce := encodeVersionedNonce counter MESSAGE_VERSION
  let gasLimit := baseGas message.size minGasLimit
  passed V ⟨nonce, L2_MESSENGER_ADDRESS, cd.l1Messenger, value, gasLimit,
    .relayMessage messageNonce sender target value minGasLimit message⟩ ++
  [logged L2_MESSENGER_ADDRESS (.sentMessage target sender message messageNonce gasLimit),
    logged L2_MESSENGER_ADDRESS (.sentMessageExtension1 sender value)]

/-- The configuration `registerMessenger` records. -/
def crossDomainOf (l1Messenger l1Bridge : Address) : CrossDomainConfig :=
  ⟨l1Messenger, applyL1ToL2Alias l1Messenger, l1Bridge⟩

/-- What the dispatch of a message does when it does not throw. -/
inductive Relayed (V : Viem) (m : CrossDomainMessage) (cd : CrossDomainConfig) (v : View) :
    View → List Emission → Prop
  /-- `finalizeBridgeERC20`. -/
  | erc20 (remoteToken sender dest : Address) (amount : ℕ) (extraData : Bytes) (id : ℕ) (v₁ : View)
      (htarget : m.target = L2_BRIDGE_ADDRESS) (hsender : m.sender = cd.l1Bridge)
      (hcall : V.decodeL2Bridge m.message = some (.finalizeBridgeERC20
        (V.l2TokenAddress remoteToken) remoteToken sender dest amount extraData))
      (hvalue : m.value = 0) (hid : v.TokenId remoteToken id v₁) :
      Relayed V m cd v (v₁.addToken id dest amount)
        [logged (V.l2TokenAddress remoteToken) (.transfer ZERO_ADDRESS dest amount),
          logged L2_BRIDGE_ADDRESS (.erc20BridgeFinalized (V.l2TokenAddress remoteToken) remoteToken
            sender dest amount extraData)]
  /-- `finalizeBridgeETH`. -/
  | ether (sender dest : Address) (extraData : Bytes)
      (htarget : m.target = L2_BRIDGE_ADDRESS) (hsender : m.sender = cd.l1Bridge)
      (hcall : V.decodeL2Bridge m.message = some (.finalizeBridgeETH sender dest m.value extraData))
      (hle : m.value ≤ v.balances L2_MESSENGER_ADDRESS) :
      Relayed V m cd v ((v.addEther L2_MESSENGER_ADDRESS (-m.value)).addEther dest m.value)
        [logged L2_BRIDGE_ADDRESS (.ethBridgeFinalized sender dest m.value extraData)]
  /-- A transfer to any other target. -/
  | plain (htarget : m.target ≠ L2_BRIDGE_ADDRESS) (hmessage : m.message = [])
      (hle : m.value ≤ v.balances L2_MESSENGER_ADDRESS) :
      Relayed V m cd v ((v.addEther L2_MESSENGER_ADDRESS (-m.value)).addEther m.target m.value) []

/-- The ways a built-in handler accepts: `v` is the view it is called in and `s` its sink. -/
inductive Accepted (V : Viem) (owner : Address) (ctx : TxContext) (s : BufferSink) (v : View) :
    View → List Emission → Prop
  | withdrawEther (dest : Address) (nonce : ℕ) (hdest : ctx.dest = BRIDGE_ADDRESS)
      (hcall : V.decodeBridge ctx.data = some (.withdrawEther dest))
      (hle : ctx.value ≤ v.balances ctx.dest)
      (hn : versionedWithdrawalNonce s.inputIndex s.withdrawals = .ok nonce) :
      Accepted V owner ctx s v (v.addEther ctx.dest (-ctx.value))
        (passed V ⟨nonce, ctx.sender, dest, ctx.value, WITHDRAWAL_DEFAULT_GAS_LIMIT, .bytes []⟩)
  | withdrawERC20 (l2Token dest : Address) (amount id : ℕ) (t : Token)
      (hdest : ctx.dest = BRIDGE_ADDRESS)
      (hcall : V.decodeBridge ctx.data = some (.withdrawERC20 l2Token dest amount))
      (hcd : v.ram.crossDomainConfig = none) (ht : v.Facade V l2Token id t)
      (hle : amount ≤ v.holdings id ctx.sender) :
      Accepted V owner ctx s v (v.addToken id ctx.sender (-amount))
        [.voucher t.address 0 (.transfer dest amount),
          logged l2Token (.transfer ctx.sender ZERO_ADDRESS amount)]
  | setFee (fee : ℕ) (hdest : ctx.dest = CONFIG_ADDRESS) (howner : ctx.sender = owner) :
      Accepted V owner ctx s v { v with ram := { v.ram with fee := fee } }
        [logged CONFIG_ADDRESS (.feeSet fee)]
  | registerPortal (kind : ℕ) (portal : Address) (hdest : ctx.dest = CONFIG_ADDRESS)
      (hcall : V.decodeConfig ctx.data = some (.registerPortal kind portal))
      (howner : ctx.sender = owner) (hkind : kind = PORTAL_ETHER ∨ kind = PORTAL_ERC20)
      (hcd : kind = PORTAL_ERC20 → v.ram.crossDomainConfig = none) :
      Accepted V owner ctx s v
        { v with ram := { v.ram with
          portals := Function.update v.ram.portals (applyL1ToL2Alias portal) (some kind) } }
        [logged CONFIG_ADDRESS (.portalRegistered kind portal (applyL1ToL2Alias portal))]
  | registerMessenger (l1Messenger l1Bridge : Address) (hdest : ctx.dest = CONFIG_ADDRESS)
      (howner : ctx.sender = owner) (hportal : ∀ a, v.ram.portals a ≠ some PORTAL_ERC20) :
      Accepted V owner ctx s v
        { v with ram := { v.ram with
          crossDomainConfig := some (crossDomainOf l1Messenger l1Bridge) } }
        [logged CONFIG_ADDRESS (.messengerRegistered l1Messenger l1Bridge)]
  | registerToken (l1Token : Address) (m : TokenMetadata) (hdest : ctx.dest = CONFIG_ADDRESS)
      (howner : ctx.sender = owner) (hnew : l1Token ∉ v.tokens.map Token.address) :
      Accepted V owner ctx s v
        { v.addTokenType l1Token with
          ram := Ledger.metadataRam v.ram v.tokens.length (some m) }
        [logged CONFIG_ADDRESS
          (.tokenRegistered l1Token (V.l2TokenAddress l1Token) v.tokens.length)]
  | setTokenMetadata (id : ℕ) (m : TokenMetadata) (hdest : ctx.dest = CONFIG_ADDRESS)
      (howner : ctx.sender = owner) :
      Accepted V owner ctx s v
        { v with ram := { v.ram with metadata := Function.update v.ram.metadata id (some m) } } []
  | attributes (hdest : ctx.dest = L1BLOCK_ADDRESS) : Accepted V owner ctx s v v []
  | relayed (m : CrossDomainMessage) (cd : CrossDomainConfig) (v₁ : View) (es : List Emission)
      (hdest : ctx.dest = L2_MESSENGER_ADDRESS) (hcd : v.ram.crossDomainConfig = some cd)
      (hcall : V.decodeMessenger ctx.data = some (.relayMessage m))
      (href : Messenger.refusal ctx cd m (v.ram.messages (V.hashCrossDomainMessageV1 m)) = none)
      (hrel : Relayed V m cd v v₁ es) :
      Accepted V owner ctx s v (v₁.setStatus (V.hashCrossDomainMessageV1 m) .successful)
        (es ++ [logged L2_MESSENGER_ADDRESS
          (.relayedMessage (V.hashCrossDomainMessageV1 m) false)])
  | relayFailed (m : CrossDomainMessage) (cd : CrossDomainConfig)
      (hdest : ctx.dest = L2_MESSENGER_ADDRESS) (hcd : v.ram.crossDomainConfig = some cd)
      (hcall : V.decodeMessenger ctx.data = some (.relayMessage m))
      (href : Messenger.refusal ctx cd m (v.ram.messages (V.hashCrossDomainMessageV1 m)) = none) :
      Accepted V owner ctx s v (v.setStatus (V.hashCrossDomainMessageV1 m) .failed)
        [logged L2_MESSENGER_ADDRESS (.relayedMessage (V.hashCrossDomainMessageV1 m) true)]
  | bridged (cd : CrossDomainConfig) (localToken dest : Address) (amount minGasLimit : ℕ)
      (extraData : Bytes) (id : ℕ) (t : Token) (nonce : ℕ) (hdest : ctx.dest = L2_BRIDGE_ADDRESS)
      (hcd : v.ram.crossDomainConfig = some cd) (ht : v.Facade V localToken id t)
      (hle : amount ≤ v.holdings id ctx.sender)
      (hn : versionedWithdrawalNonce s.inputIndex s.withdrawals = .ok nonce) :
      Accepted V owner ctx s v (v.addToken id ctx.sender (-amount)).countMessage
        ([logged localToken (.transfer ctx.sender ZERO_ADDRESS amount),
          logged L2_BRIDGE_ADDRESS
            (.erc20BridgeInitiated localToken t.address ctx.sender dest amount extraData)] ++
          sent V cd nonce v.ram.msgNonce L2_BRIDGE_ADDRESS cd.l1Bridge
            (.finalizeBridgeERC20 t.address localToken ctx.sender dest amount extraData)
            minGasLimit 0)
  | withdrawal (target : Address) (gasLimit nonce : ℕ) (data : Bytes)
      (hdest : ctx.dest = MESSAGE_PASSER_ADDRESS) (hle : ctx.value ≤ v.balances ctx.dest)
      (hn : versionedWithdrawalNonce s.inputIndex s.withdrawals = .ok nonce) :
      Accepted V owner ctx s v (v.addEther ctx.dest (-ctx.value))
        (passed V ⟨nonce, ctx.sender, target, ctx.value, gasLimit, .bytes data⟩)
  | portalEther (hmanifest : ctx.dest ∉ Router.manifestAddresses)
      (hdep : ctx.isDeposit = true) (hportal : v.ram.portals ctx.sender = some PORTAL_ETHER)
      (hlen : 52 ≤ ctx.data.length)
      (hle : PortalReceiver.uint256At ctx.data 20 ≤ v.balances ctx.dest) :
      Accepted V owner ctx s v
        ((v.addEther ctx.dest (-PortalReceiver.uint256At ctx.data 20)).addEther
          (PortalReceiver.addressAt ctx.data 0) (PortalReceiver.uint256At ctx.data 20)) []
  | portalERC20 (kind id : ℕ) (v₁ : View)
      (hmanifest : ctx.dest ∉ Router.manifestAddresses)
      (hdep : ctx.isDeposit = true) (hportal : v.ram.portals ctx.sender = some kind)
      (hkind : kind ≠ PORTAL_ETHER) (hlen : 72 ≤ ctx.data.length)
      (hid : v.TokenId (PortalReceiver.addressAt ctx.data 0) id v₁) :
      Accepted V owner ctx s v
        (v₁.addToken id (PortalReceiver.addressAt ctx.data 20)
          (PortalReceiver.uint256At ctx.data 40))
        [logged (V.l2TokenAddress (PortalReceiver.addressAt ctx.data 0))
          (.transfer ZERO_ADDRESS (PortalReceiver.addressAt ctx.data 20)
            (PortalReceiver.uint256At ctx.data 40))]
  | transferERC20 (dest : Address) (value id : ℕ) (t : Token)
      (hmanifest : ctx.dest ∉ Router.manifestAddresses)
      (hportal : ctx.isDeposit = true → v.ram.portals ctx.sender = none)
      (ht : v.Facade V ctx.dest id t) (hle : value ≤ v.holdings id ctx.sender) :
      Accepted V owner ctx s v
        ((v.addToken id ctx.sender (-value)).addToken id dest value)
        [logged ctx.dest (.transfer ctx.sender dest value)]
  | unrouted (hmanifest : ctx.dest ∉ Router.manifestAddresses)
      (hportal : ctx.isDeposit = true → v.ram.portals ctx.sender = none) :
      Accepted V owner ctx s v v []

/-! ## How a handler ends -/

variable {owner : Address} {ctx : TxContext}

/-- A handler's answer: a revert, or an acceptance with one of its effects. -/
def Ended (V : Viem) (owner : Address) (ctx : TxContext) (s : BufferSink) (v : View)
    (outcome : AdvanceOutcome) (w : World ρ) : Prop :=
  (∃ data, outcome = .revert data) ∨
    (outcome = .accept ∧ ∃ v' es n, At V s v' es n w ∧ Accepted V owner ctx s v v' es)

theorem Ended.revert (reason : String) :
    Returns (pure (revertWith reason) : GuestM ρ AdvanceOutcome) w (Ended V owner ctx s v) :=
  Returns.pure (Or.inl ⟨_, rfl⟩)

theorem Ended.accept (h : At V s v' es n w) (ha : Accepted V owner ctx s v v' es) :
    Returns (pure .accept : GuestM ρ AdvanceOutcome) w (Ended V owner ctx s v) :=
  Returns.pure (Or.inr ⟨rfl, v', es, n, h, ha⟩)

section

variable (h : At V s v es n w)
include h

theorem At.ledger :
    Returns (ledger : GuestM ρ Ledger) w fun l w' => At V s v es n w' ∧ l = w'.ledger := by
  intro l w' hrun
  cases hrun
  exact ⟨h, rfl⟩

theorem At.ram : w.ledger.ram = v.ram := congrArg View.ram h.view

theorem At.tokens : w.ledger.drive.tokens = v.tokens :=
  congrArg View.tokens h.view

theorem At.facade {a : Address} {token : ResolvedFacade}
    (ht : w.ledger.tokenByL2Address a = some token) :
    ∃ t, v.Facade V a token.id t ∧ token.l1Token = t.address := by
  rw [Ledger.tokenByL2Address, h.wf.facades, h.tokens] at ht
  obtain ⟨id, hid, ht⟩ := Option.bind_eq_some_iff.1 ht
  obtain ⟨t, htok, ht⟩ := Option.bind_eq_some_iff.1 ht
  cases ht
  exact ⟨t, ⟨hid, htok⟩, rfl⟩

theorem At.tokenByL1Address {a : Address} {token : ResolvedFacade}
    (ht : w.ledger.tokenByL1Address a = some token) :
    ∃ t, v.tokens[token.id]? = some t ∧ t.address = a := by
  rw [Ledger.tokenByL1Address, h.tokens] at ht
  obtain ⟨id, hid, ht⟩ := Option.bind_eq_some_iff.1 ht
  obtain ⟨t, htok, ht⟩ := Option.bind_eq_some_iff.1 ht
  cases ht
  obtain ⟨hlt, heq, -⟩ := List.findIdx?_eq_some_iff_getElem.1 hid
  rw [List.getElem?_eq_getElem hlt] at htok
  cases htok
  exact ⟨_, List.getElem?_eq_getElem hlt, of_decide_eq_true heq⟩

end

/-! ## Handlers -/

theorem bridge_returns (h : At V s v [] 0 w) (hdest : ctx.dest = BRIDGE_ADDRESS) :
    Returns (Bridge.advance V ctx) w (Ended V owner ctx s v) := by
  unfold Bridge.advance
  split
  · exact Ended.revert _
  · rename_i dest hcall
    unfold Bridge.withdrawEther
    split_ifs
    · exact Ended.revert _
    · refine (h.debitEther _ _).bind fun _ w₁ ⟨h₁, hle⟩ => ?_
      refine (h₁.withdrawal _ _ _ _ _).bind fun _ w₂ ⟨nonce, hn, h₂⟩ => ?_
      exact Ended.accept h₂ (.withdrawEther dest nonce hdest hcall hle hn)
  · rename_i l2Token dest amount hcall
    refine h.ledger.bind fun l w₁ h₁ => ?_
    obtain ⟨h₁, rfl⟩ := h₁
    split_ifs with hcd
    · exact Ended.revert _
    · split
      · exact Ended.revert _
      · rename_i token htoken
        obtain ⟨t, ht, haddr⟩ := h₁.facade htoken
        refine (h₁.debitToken _ _ _).bind fun debited w₂ h₂ => ?_
        split_ifs with hdeb
        · exact Ended.revert _
        · obtain ⟨h₂, hle⟩ := h₂ (by simpa using hdeb)
          rw [haddr]
          refine (h₂.emit _).bind fun _ w₃ h₃ => ?_
          refine (h₃.log _ _).bind fun _ w₄ h₄ => ?_
          rw [h₁.ram] at hcd
          exact Ended.accept h₄ (.withdrawERC20 l2Token dest amount token.id t hdest hcall
            (by simpa using hcd) ht hle)

theorem config_returns (h : At V s v [] 0 w) (hdest : ctx.dest = CONFIG_ADDRESS) :
    Returns (Config.advance V owner ctx) w (Ended V owner ctx s v) := by
  unfold Config.advance
  split_ifs with howner
  · exact Ended.revert _
  have howner := not_not.1 howner
  split
  · exact Ended.revert _
  · rename_i fee hcall
    refine (h.call (Ledger.setFee_does h.wf _)).bind fun _ w₁ h₁ => ?_
    obtain ⟨v₁, h₁, rfl⟩ := h₁
    refine (h₁.log _ _).bind fun _ w₂ h₂ => ?_
    rw [h.view, h.ram] at h₂
    exact Ended.accept h₂ (.setFee fee hdest howner)
  · rename_i kind portal hcall
    unfold Config.registerPortal
    split_ifs with hkind
    · exact Ended.revert _
    refine h.ledger.bind fun l w₁ h₁ => ?_
    obtain ⟨h₁, rfl⟩ := h₁
    split_ifs with hcd
    · exact Ended.revert _
    refine (h₁.call (Ledger.registerPortal_does h₁.wf _ _)).bind fun _ w₂ h₂ => ?_
    obtain ⟨v₂, h₂, rfl⟩ := h₂
    refine (h₂.log _ _).bind fun _ w₃ h₃ => ?_
    rw [h₁.view, h₁.ram] at h₃
    rw [h₁.ram] at hcd
    refine Ended.accept h₃ (.registerPortal kind portal hdest hcall howner (by tauto) fun hk => ?_)
    simpa [hk] using hcd
  · rename_i l1Messenger l1Bridge hcall
    unfold Config.registerMessenger
    refine h.ledger.bind fun l w₁ h₁ => ?_
    obtain ⟨h₁, rfl⟩ := h₁
    split_ifs with hportal
    · exact Ended.revert _
    refine (h₁.call (Ledger.registerCrossDomain_does h₁.wf _)).bind fun _ w₂ h₂ => ?_
    obtain ⟨v₂, h₂, rfl⟩ := h₂
    refine (h₂.log _ _).bind fun _ w₃ h₃ => ?_
    rw [h₁.view, h₁.ram] at h₃
    refine Ended.accept h₃ (.registerMessenger l1Messenger l1Bridge hdest howner fun a ha => ?_)
    rw [Ledger.hasErc20Portal, h₁.ram, decide_eq_true_eq] at hportal
    exact hportal ⟨a, ha⟩
  · rename_i l1Token width name symbol decimals hcall
    refine Returns.catching ?_ fun e w₁ _ => ?_
    · refine (h.call (Ledger.registerToken_does h.wf _ _)).bind fun p w₁ h₁ => ?_
      obtain ⟨v₁, h₁, rfl, rfl, hnew⟩ := h₁
      refine (h₁.log _ _).bind fun _ w₂ h₂ => ?_
      rw [h.view, h.ram, h.tokens] at h₂
      rw [h.tokens] at hnew
      exact Ended.accept h₂ (.registerToken l1Token _ hdest howner hnew)
    · split
      · exact Ended.revert _
      · exact Returns.throw
  · rename_i l1Token name symbol decimals hcall
    refine h.ledger.bind fun l w₁ h₁ => ?_
    obtain ⟨h₁, rfl⟩ := h₁
    split
    · exact Ended.revert _
    · rename_i token htoken
      refine (h₁.call (Ledger.setMetadata_does h₁.wf _ _)).bind fun _ w₂ h₂ => ?_
      obtain ⟨v₂, h₂, rfl⟩ := h₂
      rw [h₁.view, h₁.ram] at h₂
      exact Ended.accept h₂ (.setTokenMetadata token.id _ hdest howner)
  · exact Ended.revert _

theorem erc20_returns (h : At V s v [] 0 w) (hdest : ctx.dest ∉ Router.manifestAddresses)
    (hportal : ctx.isDeposit = true → v.ram.portals ctx.sender = none) :
    Returns (Erc20Facade.advance V ctx) w (Ended V owner ctx s v) := by
  refine h.ledger.bind fun l w₁ h₁ => ?_
  obtain ⟨h₁, rfl⟩ := h₁
  split
  · exact Ended.revert _
  rename_i token htoken
  obtain ⟨t, ht, -⟩ := h₁.facade htoken
  split
  · exact Ended.revert _
  · rename_i dest value hcall
    -- debit and credit, or `false`
    have hmove : Returns (tryCatch
        (do
          onLedger (Ledger.debitToken V ctx.sender token.id value)
          onLedger (Ledger.creditToken V dest token.id value)
          return true)
        fun e =>
          match e with
          | .insufficientFunds _ => return false
          | e => throw e : GuestM ρ Bool) w₁ fun moved w' => moved = true →
        At V s ((v.addToken token.id ctx.sender (-value)).addToken token.id dest value) [] 0 w' ∧
          value ≤ v.holdings token.id ctx.sender := by
      refine Returns.catching ?_ fun e w₂ _ => ?_
      · refine (h₁.call (Ledger.debitToken_does h₁.wf _ _ _)).bind fun _ w₂ h₂ => ?_
        obtain ⟨v₂, h₂, rfl, hle⟩ := h₂
        refine (h₂.creditToken _ _ _).bind fun _ w₃ h₃ => ?_
        rw [h₁.view] at h₃ hle
        exact Returns.pure fun _ => ⟨h₃, by exact_mod_cast hle⟩
      · cases e with
        | insufficientFunds what => exact Returns.pure fun h => absurd h (by decide)
        | _ => exact Returns.throw
    refine hmove.bind fun moved w₂ h₂ => ?_
    split_ifs with hmoved
    · exact Ended.revert _
    · obtain ⟨h₂, hle⟩ := h₂ (by simpa using hmoved)
      refine (h₂.log _ _).bind fun _ w₃ h₃ => ?_
      exact Ended.accept h₃ (.transferERC20 dest value token.id t hdest hportal ht hle)
  · exact Ended.revert _

theorem l1Block_returns (h : At V s v [] 0 w) (hdest : ctx.dest = L1BLOCK_ADDRESS) :
    Returns (L1Block.advance V ctx) w (Ended V owner ctx s v) := by
  unfold L1Block.advance
  dsimp only
  split_ifs
  · exact Ended.revert _
  · exact Ended.revert _
  · exact Ended.revert _
  · have hmod : Returns (modify fun w => { w with
        l1Block := some (L1Block.attributes (ctx.data.drop 4)) } : GuestM ρ Unit) w
        fun _ => At V s v [] 0 :=
      Returns.modify ⟨h.wf, h.view, h.emissions, h.withdrawals, h.inputIndex⟩
    exact hmod.bind fun _ w₁ h₁ => Ended.accept h₁ (.attributes hdest)

theorem At.sendCrossDomainMessage (h : At V s v es n w) (cd : CrossDomainConfig)
    (sender target : Address) (message : Calldata) (minGasLimit value : ℕ) :
    Returns (sendCrossDomainMessage V cd sender target message minGasLimit value) w fun _ w' =>
      ∃ nonce, versionedWithdrawalNonce s.inputIndex (s.withdrawals + n) = .ok nonce ∧
      At V s v.countMessage
        (es ++ sent V cd nonce v.ram.msgNonce sender target message minGasLimit value) (n + 1)
        w' := by
  refine (h.call (Ledger.nextMessageNonce_does h.wf)).bind fun counter w₁ h₁ => ?_
  obtain ⟨v₁, h₁, rfl, rfl⟩ := h₁
  rw [h.view] at h₁
  refine (h₁.withdrawal _ _ _ _ _).bind fun _ w₂ ⟨nonce, hn, h₂⟩ => ?_
  refine (h₂.log _ _).bind fun _ w₃ h₃ => ?_
  refine (h₃.log _ _).mono fun _ w₄ h₄ => ⟨nonce, hn, ?_⟩
  simp only [h.ram, List.append_assoc] at h₄
  simpa only [sent, logged, View.countMessage, List.append_assoc, List.cons_append,
    List.nil_append] using h₄

theorem l2Bridge_returns (h : At V s v [] 0 w) (hdest : ctx.dest = L2_BRIDGE_ADDRESS) :
    Returns (L2Bridge.advance V ctx) w (Ended V owner ctx s v) := by
  refine h.ledger.bind fun l w₁ h₁ => ?_
  obtain ⟨h₁, rfl⟩ := h₁
  split
  · exact Ended.revert _
  rename_i cd hcd
  rw [h₁.ram] at hcd
  have hinit : ∀ localToken remoteToken dest amount minGasLimit extraData,
      Returns (L2Bridge.initiate V ctx cd localToken remoteToken dest amount minGasLimit extraData)
        w₁ (Ended V owner ctx s v) := by
    intro localToken remoteToken dest amount minGasLimit extraData
    refine h₁.ledger.bind fun l w₂ h₂ => ?_
    obtain ⟨h₂, rfl⟩ := h₂
    split
    · exact Ended.revert _
    rename_i token htoken
    obtain ⟨t, ht, haddr⟩ := h₂.facade htoken
    split_ifs with hpair
    · exact Ended.revert _
    obtain rfl : t.address = remoteToken := by rw [← haddr]; exact not_not.1 hpair
    refine (h₂.debitToken _ _ _).bind fun debited w₃ h₃ => ?_
    split_ifs with hdeb
    · exact Ended.revert _
    obtain ⟨h₃, hle⟩ := h₃ (by simpa using hdeb)
    refine (h₃.log _ _).bind fun _ w₄ h₄ => ?_
    refine (h₄.log _ _).bind fun _ w₅ h₅ => ?_
    refine (h₅.sendCrossDomainMessage _ _ _ _ _ _).bind fun _ w₆ ⟨nonce, hn, h₆⟩ => ?_
    exact Ended.accept h₆ (.bridged cd localToken dest amount minGasLimit extraData token.id t
      nonce hdest hcd ht hle hn)
  split
  · exact Ended.revert _
  · exact hinit _ _ _ _ _ _
  · exact hinit _ _ _ _ _ _
  · exact Ended.revert _

theorem At.tokenId (h : At V s v es n w) (l1Token : Address) :
    Returns (L2Bridge.tokenId V l1Token) w fun id w' =>
      ∃ v', At V s v' es n w' ∧ v.TokenId l1Token id v' := by
  refine h.ledger.bind fun l w₁ h₁ => ?_
  obtain ⟨h₁, rfl⟩ := h₁
  split
  · rename_i token htoken
    obtain ⟨t, ht, ha⟩ := h₁.tokenByL1Address htoken
    exact Returns.pure ⟨v, h₁, .known ht ha⟩
  · refine (h₁.call (Ledger.registerToken_does h₁.wf _ _)).bind fun p w₂ h₂ => ?_
    obtain ⟨v₂, h₂, rfl, rfl, hnew⟩ := h₂
    rw [h₁.tokens] at hnew
    refine Returns.pure ⟨v.addTokenType l1Token, ?_, ?_⟩
    · rw [h₁.view, h₁.ram] at h₂
      exact h₂
    · rw [h₁.tokens]
      exact .new hnew

/-! ## Relays -/

/-- Emits nothing, however it ends. -/
def Quiet (x : GuestM ρ α) : Prop := ∀ w, (endState (x.run w)).sink = w.sink

/-- Has emitted nothing when it throws. -/
def ThrowsQuietly (x : GuestM ρ α) : Prop := ∀ w e w', x.run w = .error e w' → w'.sink = w.sink

theorem Quiet.throws (hx : Quiet x) : ThrowsQuietly x := fun w e w' h => by
  have := hx w
  rwa [h, endState_error] at this

theorem quiet_pure (a : α) : Quiet (pure a : GuestM ρ α) := fun _ => rfl

theorem quiet_throw (e : AppError) : Quiet (throw e : GuestM ρ α) := fun _ => rfl

theorem quiet_onLedger (x : LedgerM α) : Quiet (onLedger x : GuestM ρ α) := fun w => by
  rw [endState_onLedger]

theorem Quiet.bind {β : Type} {f : α → GuestM ρ β} (hx : Quiet x) (hf : ∀ a, Quiet (f a)) :
    Quiet (x >>= f) := fun w => by
  have hw := hx w
  cases h : x.run w with
  | ok a w₁ =>
    rw [h, endState_ok] at hw
    rw [bind_ok h, hf a w₁, hw]
  | error e w₁ =>
    rw [h, endState_error] at hw
    rw [bind_error h, endState_error, hw]

theorem Quiet.bind_throws {β : Type} {f : α → GuestM ρ β} (hx : Quiet x)
    (hf : ∀ a, ThrowsQuietly (f a)) : ThrowsQuietly (x >>= f) := fun w e w' hrun => by
  have hw := hx w
  cases h : x.run w with
  | ok a w₁ =>
    rw [h, endState_ok] at hw
    rw [bind_ok h] at hrun
    rw [hf a w₁ e w' hrun, hw]
  | error e₁ w₁ =>
    rw [h, endState_error] at hw
    rw [bind_error h] at hrun
    cases hrun
    exact hw

theorem quiet_tokenId (l1Token : Address) : Quiet (L2Bridge.tokenId V l1Token : GuestM ρ ℕ) := by
  refine Quiet.bind (fun _ => rfl) fun l => ?_
  split
  · exact quiet_pure _
  · exact (quiet_onLedger _).bind fun _ => quiet_pure _

/-- The dispatch of a message logs after everything that can throw. -/
theorem dispatch_throws (m : CrossDomainMessage) (cd : CrossDomainConfig) :
    ThrowsQuietly (Messenger.dispatch V m cd : GuestM ρ Unit) := by
  have hlogs : ∀ (a b : Address) (e f : Event),
      ThrowsQuietly (do log a e; log b f : GuestM ρ Unit) := by
    intro a b e f w e' w' hrun
    cases hrun
  have hlog : ∀ (a : Address) (e : Event), ThrowsQuietly (log a e : GuestM ρ Unit) := by
    intro a e w e' w' hrun
    cases hrun
  unfold Messenger.dispatch
  split_ifs
  · unfold L2Bridge.finalizeFromMessenger
    split_ifs
    · exact (quiet_throw _).throws
    split
    · exact (quiet_throw _).throws
    · unfold L2Bridge.finalizeBridgeERC20
      split_ifs
      · exact (quiet_throw _).throws
      · exact (quiet_throw _).throws
      · refine (quiet_tokenId _).bind_throws fun id => ?_
        exact (quiet_onLedger _).bind_throws fun _ => hlogs _ _ _ _
    · unfold L2Bridge.finalizeBridgeETH
      split_ifs
      · exact (quiet_throw _).throws
      · refine (quiet_onLedger _).bind_throws fun _ => ?_
        exact (quiet_onLedger _).bind_throws fun _ => hlog _ _
    · exact (quiet_throw _).throws
  · exact (quiet_throw _).throws
  · exact ((quiet_onLedger _).bind fun _ => quiet_onLedger _).throws

theorem At.dispatch (h : At V s v [] n w) (m : CrossDomainMessage) (cd : CrossDomainConfig) :
    Returns (Messenger.dispatch V m cd) w fun _ w' =>
      ∃ v' es, At V s v' es n w' ∧ Relayed V m cd v v' es := by
  unfold Messenger.dispatch
  split_ifs with htarget hmessage
  · unfold L2Bridge.finalizeFromMessenger
    split_ifs with hsender
    · exact Returns.throw
    have hsender := not_not.1 hsender
    split
    · exact Returns.throw
    · rename_i localToken remoteToken sender dest amount extraData hcall
      unfold L2Bridge.finalizeBridgeERC20
      split_ifs with hvalue hpair
      · exact Returns.throw
      · exact Returns.throw
      obtain rfl := not_not.1 hpair
      refine (h.tokenId _).bind fun id w₁ ⟨v₁, h₁, hid⟩ => ?_
      refine (h₁.creditToken _ _ _).bind fun _ w₂ h₂ => ?_
      refine (h₂.log _ _).bind fun _ w₃ h₃ => ?_
      refine (h₃.log _ _).mono fun _ w₄ h₄ => ⟨_, _, h₄, ?_⟩
      exact .erc20 remoteToken sender dest amount extraData id v₁ htarget hsender hcall
        (not_not.1 hvalue) hid
    · rename_i sender dest amount extraData hcall
      unfold L2Bridge.finalizeBridgeETH
      split_ifs with hvalue
      · exact Returns.throw
      obtain rfl := not_not.1 hvalue
      refine (h.debitEther _ _).bind fun _ w₁ ⟨h₁, hle⟩ => ?_
      refine (h₁.creditEther _ _).bind fun _ w₂ h₂ => ?_
      refine (h₂.log _ _).mono fun _ w₃ h₃ => ⟨_, _, h₃, ?_⟩
      exact .ether sender dest extraData htarget hsender hcall hle
    · exact Returns.throw
  · exact Returns.throw
  · refine (h.debitEther _ _).bind fun _ w₁ ⟨h₁, hle⟩ => ?_
    refine (h₁.creditEther _ _).mono fun _ w₂ h₂ => ?_
    exact ⟨_, _, h₂, .plain htarget (List.eq_nil_of_length_eq_zero (by omega))
      (by exact_mod_cast hle)⟩

/-- The record of how a message ended. -/
theorem At.status (h : At V s v es n w) (hash : Bytes) (status : MessageStatus) (failed : Bool) :
    Returns (do
      onLedger (Ledger.setMessageStatus hash status)
      App.log L2_MESSENGER_ADDRESS (.relayedMessage hash failed) : GuestM ρ Unit) w fun _ =>
      At V s (v.setStatus hash status)
        (es ++ [logged L2_MESSENGER_ADDRESS (.relayedMessage hash failed)]) n := by
  refine (h.call (Ledger.setMessageStatus_does h.wf _ _)).bind fun _ w₁ h₁ => ?_
  obtain ⟨v₁, h₁, rfl⟩ := h₁
  rw [h.view, h.ram] at h₁
  exact h₁.log _ _

theorem relay_returns (h : At V s v [] 0 w) (hdest : ctx.dest = L2_MESSENGER_ADDRESS)
    {m : CrossDomainMessage} {cd : CrossDomainConfig} (hcd : v.ram.crossDomainConfig = some cd)
    (hcall : V.decodeMessenger ctx.data = some (.relayMessage m))
    (href : Messenger.refusal ctx cd m (v.ram.messages (V.hashCrossDomainMessageV1 m)) = none) :
    Returns (Messenger.relay V m cd) w (Ended V owner ctx s v) := by
  set hash := V.hashCrossDomainMessageV1 m with hhash
  -- the body of the `try`
  set body : GuestM ρ Unit := do
    Messenger.dispatch V m cd
    onLedger (Ledger.setMessageStatus hash .successful)
    log L2_MESSENGER_ADDRESS (.relayedMessage hash false) with hbody
  have hjournaled : Journaled V body := ((acts_dispatch m cd).bind fun _ =>
    (Acts.call (.setMessageStatus _ _)).bind fun _ => .log _ _).journaled
  have hreturns : Returns body w fun _ w' => ∃ v' es, At V s v' es 0 w' ∧
      Accepted V owner ctx s v v' es := by
    refine (h.dispatch m cd).bind fun _ w₁ ⟨v₁, es, h₁, hrel⟩ => ?_
    refine (h₁.status hash .successful false).mono fun _ w₂ h₂ => ⟨_, _, h₂, ?_⟩
    exact .relayed m cd v₁ es hdest hcd hcall href hrel
  have hthrows : ∀ e w₁, body.run w = .error e w₁ → w₁.sink = w.sink := by
    intro e w₁ hrun
    cases hd : (Messenger.dispatch V m cd).run w with
    | ok u w₂ =>
      rw [hbody, bind_ok hd] at hrun
      cases hrun
    | error e' w₂ =>
      rw [hbody, bind_error hd] at hrun
      cases hrun
      exact dispatch_throws m cd w e w₁ hd
  intro outcome w' hrun
  rw [Messenger.relay, bind_ok (mark_run w)] at hrun
  obtain ⟨u, w₁, htry, hret⟩ := bind_eq_ok.1 hrun
  cases hret
  have hend : ∃ v' es, At V s v' es 0 w' ∧ Accepted V owner ctx s v v' es := by
    cases hx : body.run w with
    | ok u' w₂ =>
      rw [tryCatch_ok hx] at htry
      cases htry
      exact hreturns u w' hx
    | error e w₂ =>
      have hs := hjournaled.step h.wf
      rw [hx, endState_error] at hs
      rw [tryCatch_error hx, Journaled.rollback_bind h.wf hs] at htry
      have h₂ : At V s v [] 0 { w₂ with ledger := w.ledger } :=
        ⟨h.wf, h.view, by rw [hthrows e w₂ hx]; exact h.emissions,
          by rw [hthrows e w₂ hx]; exact h.withdrawals,
          by rw [hthrows e w₂ hx]; exact h.inputIndex⟩
      exact ⟨_, _, h₂.status hash .failed true u w' htry,
        .relayFailed m cd hdest hcd hcall href⟩
  obtain ⟨v', es, hat, hacc⟩ := hend
  exact Or.inr ⟨rfl, v', es, 0, hat, hacc⟩

theorem messenger_returns (h : At V s v [] 0 w) (hdest : ctx.dest = L2_MESSENGER_ADDRESS) :
    Returns (Messenger.advance V ctx) w (Ended V owner ctx s v) := by
  refine h.ledger.bind fun l w₁ h₁ => ?_
  obtain ⟨h₁, rfl⟩ := h₁
  split
  · exact Ended.revert _
  rename_i cd hcd
  split
  · rename_i m hcall
    split
    · exact Ended.revert _
    · rename_i href
      rw [h₁.ram] at hcd href
      exact relay_returns h₁ hdest hcd hcall href
  · exact Ended.revert _

theorem messagePasser_returns (h : At V s v [] 0 w) (hdest : ctx.dest = MESSAGE_PASSER_ADDRESS) :
    Returns (MessagePasser.advance V ctx) w (Ended V owner ctx s v) := by
  have hwithdraw : ∀ target gasLimit data, Returns (do
      onLedger (Ledger.debitEther V ctx.dest ctx.value)
      withdrawal V ctx.sender target ctx.value gasLimit (.bytes data)
      return .accept : GuestM ρ AdvanceOutcome) w (Ended V owner ctx s v) := by
    intro target gasLimit data
    refine (h.debitEther _ _).bind fun _ w₁ ⟨h₁, hle⟩ => ?_
    refine (h₁.withdrawal _ _ _ _ _).bind fun _ w₂ ⟨nonce, hn, h₂⟩ => ?_
    exact Ended.accept h₂ (.withdrawal target gasLimit nonce data hdest hle hn)
  unfold MessagePasser.advance
  split_ifs
  · exact hwithdraw _ _ _
  split
  · exact Ended.revert _
  · exact hwithdraw _ _ _

theorem portalReceiver_returns (h : At V s v [] 0 w)
    (hdest : ctx.dest ∉ Router.manifestAddresses) :
    Returns (PortalReceiver.advance V ctx) w (Ended V owner ctx s v) := by
  unfold PortalReceiver.advance
  split_ifs with hdep
  · exact Ended.revert _
  have hdep : ctx.isDeposit = true := by simpa using hdep
  refine h.ledger.bind fun l w₁ h₁ => ?_
  obtain ⟨h₁, rfl⟩ := h₁
  split
  · exact Ended.revert _
  rename_i kind hportal
  rw [h₁.ram] at hportal
  split_ifs with hkind
  · unfold PortalReceiver.receiveEther
    split_ifs with hlen
    · exact Ended.revert _
    refine Returns.catching ?_ fun e w₂ _ => ?_
    · refine (h₁.debitEther _ _).bind fun _ w₂ ⟨h₂, hle⟩ => ?_
      refine (h₂.creditEther _ _).bind fun _ w₃ h₃ => ?_
      subst hkind
      exact Ended.accept h₃ (.portalEther hdest hdep hportal (not_lt.1 hlen) hle)
    · cases e with
      | insufficientFunds what => exact Ended.revert _
      | _ => exact Returns.throw
  · unfold PortalReceiver.receiveERC20
    split_ifs with hlen
    · exact Ended.revert _
    refine (h₁.tokenId _).bind fun id w₂ ⟨v₂, h₂, hid⟩ => ?_
    refine (h₂.creditToken _ _ _).bind fun _ w₃ h₃ => ?_
    refine (h₃.log _ _).bind fun _ w₄ h₄ => ?_
    exact Ended.accept h₄ (.portalERC20 kind id v₂ hdest hdep hportal hkind (not_lt.1 hlen) hid)

/-! ## Routing -/

namespace Router

theorem builtins_none {owner a : Address} :
    (builtins V owner a : Option (Handler ρ)) = none ↔ a ∉ manifestAddresses := by
  unfold builtins manifestAddresses
  split_ifs <;> simp_all

/-- What is left of a call once its handler is known. -/
theorem handler_returns (handler : Handler ρ)
    (h : ∀ f, handler.advance = some f → Returns (f ctx) w (Ended V owner ctx s v)) :
    Returns (if 0 < ctx.value ∧ handler.payable = false then return revertWith "not payable"
      else
        match handler.advance with
        | none => return revertWith "not a transaction target"
        | some advance => advance ctx) w (Ended V owner ctx s v) := by
  split_ifs
  · exact Ended.revert _
  cases hadv : handler.advance with
  | none => exact Ended.revert _
  | some f => exact h f hadv

/-- The built-in handler of a manifest address. -/
theorem builtins_returns {handler : Handler ρ} {f : TxContext → GuestM ρ AdvanceOutcome}
    (h : At V s v [] 0 w) (hman : builtins V owner ctx.dest = some handler)
    (hf : handler.advance = some f) : Returns (f ctx) w (Ended V owner ctx s v) := by
  unfold builtins at hman
  split_ifs at hman with h₀ h₁ h₂ h₃ h₄ h₅ h₆ <;> cases hman <;> cases hf
  · exact bridge_returns h h₁
  · exact config_returns h h₂
  · exact l1Block_returns h h₃
  · exact messenger_returns h h₄
  · exact l2Bridge_returns h h₅
  · exact messagePasser_returns h h₆

/-- A deposit that is not routed by its sender has a sender that is no portal. -/
theorem not_portal_of_depositSender {portals : Address → Option ℕ}
    (h : ¬((depositSender ctx).bind portals).isSome) (hdep : ctx.isDeposit = true) :
    portals ctx.sender = none := by
  simpa [depositSender, hdep] using h

/-- A call routed to the built-in handlers. -/
theorem call_returns (chainId : ℕ) (owner : Address) (h : At V s v [] 0 w) :
    Returns ((Router.new V chainId owner).call V ctx) w (Ended V owner ctx s v) := by
  refine h.ledger.bind fun l w₁ h₁ => ?_
  obtain ⟨h₁, rfl⟩ := h₁
  cases hres : (Router.new V chainId owner : Router ρ).resolve V ctx.dest (some ctx.block.appContract)
      (depositSender ctx) w₁.ledger with
  | none =>
    unfold resolve at hres
    split at hres
    · cases hres
    · rename_i hman
      split_ifs at hres with happ hportal
      rw [h₁.ram] at hportal
      exact Ended.accept h₁ (.unrouted (builtins_none.1 hman)
        (not_portal_of_depositSender hportal))
  | some handler =>
    refine handler_returns handler fun f hf => ?_
    unfold resolve at hres
    split at hres
    · rename_i fixed hman
      cases hres
      exact builtins_returns h₁ hman hf
    · rename_i hman
      have hdest := builtins_none.1 hman
      split_ifs at hres with happ hportal <;> cases hres <;> cases hf
      · exact portalReceiver_returns h₁ hdest
      · exact portalReceiver_returns h₁ hdest
      · rw [h₁.ram] at hportal
        exact erc20_returns h₁ hdest (not_portal_of_depositSender hportal)

end Router

end OpCartesi.App
