import OpCartesi.App.Escrow

/-!
# Outbound messages

`sendCrossDomainMessage` takes the next outbound counter, packs it under the message version and
passes the `relayMessage` call on as a withdrawal of the messenger (`messenger.ts:182-214`,
`ledger.ts:357-372`). The counter is taken before the input can still revert or be rejected, and
each of these ends gives it back.

* `messengerWithdrawals`: the withdrawals of the messenger among some outputs.
* `Accepted.sends`, `Effect.sends`: what one input sends, and what it adds to the counter.
* `outbound_nonces_dense`: along a run the messages carry the counters `0, 1, 2, …`.
-/

namespace OpCartesi.App

open Drive Exec

variable {ρ : Type} {V : Viem} {owner : Address} {w : World ρ} {es : List Emission} {v v' : View}

/-! ## What is sent -/

/-- The withdrawals of the messenger. -/
def messengerWithdrawals (es : List Emission) : List WithdrawalMessage :=
  es.filterMap fun
    | .notice (.withdrawal m) => if m.sender = L2_MESSENGER_ADDRESS then some m else none
    | _ => none

/-- The nonce of a `relayMessage` call. -/
def Calldata.relayNonce : Calldata → Option ℕ
  | .relayMessage nonce .. => some nonce
  | _ => none

/-- The nonces of the messages some outputs pass on; `none` stands for a withdrawal of the messenger
    that is no `relayMessage`. -/
def messageNonces (es : List Emission) : List (Option ℕ) :=
  (messengerWithdrawals es).map fun m => m.data.relayNonce

/-- The nonce of the message with the given counter. -/
def counterNonce (counter : ℕ) : Option ℕ := some (encodeVersionedNonce counter MESSAGE_VERSION)

theorem messageNonces_append (es es' : List Emission) :
    messageNonces (es ++ es') = messageNonces es ++ messageNonces es' := by
  rw [messageNonces, messengerWithdrawals, List.filterMap_append, List.map_append]
  rfl

theorem messageNonces_reports (h : ∀ e ∈ es, e.isReport = true) : messageNonces es = [] := by
  have hnone : messengerWithdrawals es = [] := by
    refine List.filterMap_eq_nil_iff.2 fun e he => ?_
    cases e with
    | report tag data => rfl
    | notice payload => cases h _ he
    | voucher dest value data => cases h _ he
  rw [messageNonces, hnone]
  rfl

/-- A withdrawal of another sender. -/
theorem messageNonces_passed {m : WithdrawalMessage} (h : m.sender ≠ L2_MESSENGER_ADDRESS) :
    messageNonces (passed V m) = [] := by
  have hnone : messengerWithdrawals (passed V m) = [] := by
    simp [messengerWithdrawals, passed, h]
  rw [messageNonces, hnone]
  rfl

/-- A message that is sent. -/
theorem messageNonces_sent (cd : CrossDomainConfig) (nonce counter : ℕ) (sender target : Address)
    (message : Calldata) (minGasLimit value : ℕ) :
    messageNonces (sent V cd nonce counter sender target message minGasLimit value) =
      [counterNonce counter] := by
  simp only [sent]
  rw [messageNonces_append]
  rfl

/-! ## What an input sends -/

/-- The nonces are those of the counters from `n` up to `n'`. -/
def Counts (n n' : ℕ) (nonces : List (Option ℕ)) : Prop :=
  (List.range n).map counterNonce ++ nonces = (List.range n').map counterNonce

theorem Counts.refl (n : ℕ) : Counts n n [] := List.append_nil _

theorem Counts.succ (n : ℕ) : Counts n (n + 1) [counterNonce n] := by
  rw [Counts, List.range_succ, List.map_append]
  rfl

theorem View.TokenId.msgNonce {l1Token : Address} {id : ℕ} (h : v.TokenId l1Token id v') :
    v'.ram.msgNonce = v.ram.msgNonce := by
  cases h <;> rfl

/-- A message that is delivered sends none. -/
theorem Relayed.sends {m : CrossDomainMessage} {cd : CrossDomainConfig} (h : Relayed V m cd v v' es) :
    v'.ram.msgNonce = v.ram.msgNonce ∧ messageNonces es = [] := by
  cases h with
  | erc20 remoteToken sender dest amount extraData id v₁ htarget hsender hcall hvalue hid =>
    exact ⟨hid.msgNonce, rfl⟩
  | ether => exact ⟨rfl, rfl⟩
  | plain => exact ⟨rfl, rfl⟩

/-- A call that accepts takes one counter for each message it sends. -/
theorem Accepted.sends {ctx : TxContext} {s : BufferSink} (h : Accepted V owner ctx s v v' es)
    (hsender : ctx.sender ≠ L2_MESSENGER_ADDRESS) :
    Counts v.ram.msgNonce v'.ram.msgNonce (messageNonces es) := by
  cases h with
  | withdrawEther =>
    rw [messageNonces_passed hsender]
    exact Counts.refl _
  | withdrawal =>
    rw [messageNonces_passed hsender]
    exact Counts.refl _
  | bridged =>
    rw [messageNonces_append, messageNonces_sent]
    exact Counts.succ _
  | relayed m cd v₁ es hdest hcd hcall href hrel =>
    obtain ⟨hkept, hnone⟩ := hrel.sends
    show Counts _ v₁.ram.msgNonce _
    rw [messageNonces_append, hnone, hkept]
    exact Counts.refl _
  | portalERC20 kind id v₁ hmanifest hdep hportal hkind hlen hid =>
    show Counts _ v₁.ram.msgNonce []
    rw [hid.msgNonce]
    exact Counts.refl _
  | _ => exact Counts.refl _

/-- An input takes one counter for each message it sends: a revert and a rejection take none. -/
theorem Effect.sends {block : BlockContext} {raw : Bytes} {res : AdvanceResult}
    (h : Effect V owner block raw v res v') (hsender : V.sender raw ≠ some L2_MESSENGER_ADDRESS) :
    Counts v.ram.msgNonce v'.ram.msgNonce (messageNonces res.emissions) := by
  cases h with
  | unparsed => exact Counts.refl _
  | rejected => exact Counts.refl _
  | created => exact Counts.refl _
  | minted d res hp hres =>
    rw [messageNonces_reports hres.reports]
    exact Counts.refl _
  | charged tx sender res hp hsigner hfee hres =>
    rw [messageNonces_reports hres.reports]
    exact Counts.refl _
  | called ctx v₁ es hctx hvalue hacc hfee =>
    have hne : ctx.sender ≠ L2_MESSENGER_ADDRESS := by
      intro heq
      exact hsender (by rw [context_sender hctx, heq])
    rw [View.exit_ram]
    exact hacc.sends hne

/-! ## Runs -/

/-- The nonces of the outbound messages are dense. In every run whose inputs are not sent by the
    messenger itself, the withdrawals of the messenger carry, in the order in which they are
    emitted, the counters `0, 1, 2, …` under the message version, up to the counter of the ledger:
    no input that reverts or is rejected takes a counter, and none is taken twice. -/
theorem outbound_nonces_dense {chainId : ℕ} {hist : List (Input ρ)}
    (h : Run V (Router.new V chainId owner) hist w)
    (hsender : ∀ i ∈ hist, V.sender i.raw ≠ some L2_MESSENGER_ADDRESS) :
    (messengerWithdrawals (hist.flatMap fun i => i.res.emissions)).map
        (fun m => m.data.relayNonce) =
      (List.range w.ledger.ram.msgNonce).map
        fun counter => some (encodeVersionedNonce counter MESSAGE_VERSION) := by
  refine Run.view_induction (V := V)
    (P := fun hist v => (∀ i ∈ hist, V.sender i.raw ≠ some L2_MESSENGER_ADDRESS) →
      messageNonces (hist.flatMap fun i => i.res.emissions) =
        (List.range v.ram.msgNonce).map counterNonce) ?_ ?_ h hsender
  · intro _
    rfl
  · intro hist i ih heff hsender
    have hbefore := ih fun j hj => hsender j (List.mem_append_left _ hj)
    have hi := heff.sends (hsender i (List.mem_append_right _ (List.mem_singleton_self i)))
    rw [List.flatMap_append, messageNonces_append, hbefore, List.flatMap_singleton]
    exact hi

/-! ## A chain that sends a message -/

theorem sendCrossDomainMessage_run {nonce : ℕ}
    (h : versionedWithdrawalNonce w.sink.inputIndex w.sink.withdrawals = .ok nonce)
    (cd : CrossDomainConfig) (sender target : Address) (message : Calldata)
    (minGasLimit value : ℕ) :
    ∃ w', (sendCrossDomainMessage V cd sender target message minGasLimit value).run w = .ok () w' ∧
      w'.ledger.ram.msgNonce = w.ledger.ram.msgNonce + 1 := by
  have hpassed (w : World ρ)
      (h : versionedWithdrawalNonce w.sink.inputIndex w.sink.withdrawals = .ok nonce)
      (gasLimit : ℕ) (data : Calldata) :
      ∃ w', (withdrawal V L2_MESSENGER_ADDRESS cd.l1Messenger value gasLimit data).run w =
        .ok () w' ∧ w'.ledger = w.ledger := by
    rw [withdrawal, bind_ok (get_run w), bind_ok (modify_run _ _), h, bind_ok (check_ok _ _)]
    exact ⟨_, rfl, rfl⟩
  obtain ⟨w₁, hw₁, hcount⟩ : ∃ w₁ : World ρ, (onLedger Ledger.nextMessageNonce).run w =
      .ok w.ledger.ram.msgNonce w₁ ∧ w₁.sink = w.sink ∧
        w₁.ledger.ram.msgNonce = w.ledger.ram.msgNonce + 1 := ⟨_, rfl, rfl, rfl⟩
  obtain ⟨w₂, hw₂, hledger⟩ := hpassed w₁ (by rw [hcount.1]; exact h)
    (baseGas message.size minGasLimit)
    (.relayMessage (encodeVersionedNonce w.ledger.ram.msgNonce MESSAGE_VERSION) sender target value
      minGasLimit message)
  refine ⟨_, (bind_ok hw₁).trans ((bind_ok hw₂).trans rfl), ?_⟩
  show w₂.ledger.ram.msgNonce = _
  rw [hledger, hcount.2]

namespace Router

theorem builtins_l2Bridge (owner : Address) :
    (builtins V owner L2_BRIDGE_ADDRESS : Option (Handler ρ)) = some (l2Bridge V) := by
  rw [builtins, if_neg (by decide +kernel), if_neg (by decide +kernel), if_neg (by decide +kernel),
    if_neg (by decide +kernel), if_neg (by decide +kernel), if_pos rfl]

variable {block : BlockContext} {raw : Bytes} {d : Deposit}

/-- The owner deposits the registration of the first token. -/
theorem registerToken_deposited (chainId : ℕ) (block : BlockContext) (hidle : w.ledger.Idle V)
    (hcfg : w.ledger.drive.cfg = Ledger.DEVNET_DRIVE_CONFIG.defaults.geometry)
    (htok : w.ledger.drive.tokens = []) (hp : V.parseInput raw = .deposit d)
    (howner : d.sender = owner) (hdest : d.dest = some CONFIG_ADDRESS) (hmint : d.mint = 0)
    (hvalue : d.value = 0) {l1Token : Address} {width decimals : ℕ} {name symbol : String}
    (hcall : V.decodeConfig d.data = some (.registerToken l1Token width name symbol decimals)) :
    ∃ res w', ((Router.new V chainId owner).advance V block raw).run w = .ok res w' ∧
      w'.ledger.Idle V ∧ w'.ledger.view V = { (w.ledger.view V).addTokenType l1Token with
        ram := Ledger.metadataRam w.ledger.ram 0 (some ⟨name, symbol, decimals⟩) } := by
  obtain ⟨l₁, hreg⟩ := Ledger.registerToken_run hidle.wf hcfg htok l1Token
    (some ⟨name, symbol, decimals⟩)
  obtain ⟨hs, -, hv, -⟩ := (Ledger.registerToken_does hidle.wf l1Token _).ok _ _ hreg
  rw [htok] at hv
  set ctx := depositContext block d CONFIG_ADDRESS with hctx
  have hadvance : ∃ w₁ : World ρ, w₁.ledger = l₁ ∧
      (Config.advance V owner ctx).run (start block w.ledger w) = .ok .accept w₁ := by
    have howner' : ¬ctx.sender ≠ owner := not_not.2 howner
    have hcall' : V.decodeConfig ctx.data = _ := hcall
    rw [Config.advance, if_neg howner', hcall']
    simp only
    rw [Config.registerToken]
    exact ⟨_, rfl, tryCatch_ok (bind_ok (onLedger_ok (w := start block w.ledger w) hreg))⟩
  obtain ⟨w₁, rfl, hrun⟩ := hadvance
  have hdispatch := (dispatch_fixed (r := Router.new V chainId owner) (V := V) ctx
    (builtins_config owner) hvalue rfl (start block w.ledger w)).trans hrun
  exact ⟨_, _, deposit_accepted (builtins_journaled chainId owner) hidle hp hdest hmint hdispatch,
    Ledger.committed_idle hs.wf, (Ledger.committed_view hs.wf).trans hv⟩

/-- A deposit that sends none of a registered token through the bridge. -/
theorem bridgeERC20_deposited (chainId : ℕ) (owner : Address) (block : BlockContext)
    (hblock : block.inputIndex = 0) (hidle : w.ledger.Idle V)
    (hp : V.parseInput raw = .deposit d) (hdest : d.dest = some L2_BRIDGE_ADDRESS)
    (hmint : d.mint = 0) (hvalue : d.value = 0) {cd : CrossDomainConfig}
    (hcd : w.ledger.ram.crossDomainConfig = some cd) {localToken remoteToken : Address}
    {minGasLimit : ℕ} {extraData : Bytes}
    (hcall : V.decodeL2Bridge d.data =
      some (.bridgeERC20 localToken remoteToken 0 minGasLimit extraData))
    {id width : ℕ} (htoken : w.ledger.tokenByL2Address localToken = some ⟨id, remoteToken, width⟩) :
    ∃ res w', ((Router.new V chainId owner).advance V block raw).run w = .ok res w' ∧
      w'.ledger.ram.msgNonce = w.ledger.ram.msgNonce + 1 := by
  set ctx := depositContext block d L2_BRIDGE_ADDRESS with hctx
  set w₀ := start block w.ledger w with hw₀
  have hadvance : ∃ w₁ : World ρ, (L2Bridge.advance V ctx).run w₀ = .ok .accept w₁ ∧
      w₁.ledger.ram.msgNonce = w.ledger.ram.msgNonce + 1 := by
    have hcd' : w₀.ledger.ram.crossDomainConfig = some cd := hcd
    have hcall' : V.decodeL2Bridge ctx.data = _ := hcall
    have htoken' : w₀.ledger.tokenByL2Address localToken = _ := htoken
    have hnonce : versionedWithdrawalNonce block.inputIndex 0 = .ok (1 <<< 240) := by
      rw [hblock]
      rfl
    rw [L2Bridge.advance, bind_ok (ledger_run _), hcd']
    simp only
    rw [hcall']
    simp only
    rw [L2Bridge.initiate, bind_ok (ledger_run _), htoken']
    simp only
    rw [if_neg (not_not.2 rfl)]
    -- a debit of nothing leaves the ledger alone
    have hdebit : (do
        onLedger (Ledger.debitToken V ctx.sender id (0 : ℕ))
        return true : GuestM ρ Bool).run w₀ = .ok true w₀ := rfl
    -- the two logs leave the ledger and the ordinal alone
    obtain ⟨w₁, hlog₁, hledger₁, hsink₁⟩ : ∃ w₁ : World ρ,
        (log localToken (.transfer ctx.sender ZERO_ADDRESS 0)).run w₀ = .ok () w₁ ∧
        w₁.ledger = w₀.ledger ∧ (w₁.sink.inputIndex, w₁.sink.withdrawals) = (block.inputIndex, 0) :=
      ⟨_, rfl, rfl, rfl⟩
    obtain ⟨w₂, hlog₂, hledger₂, hsink₂⟩ : ∃ w₂ : World ρ,
        (log L2_BRIDGE_ADDRESS (.erc20BridgeInitiated localToken remoteToken ctx.sender ctx.sender 0
          extraData)).run w₁ = .ok () w₂ ∧ w₂.ledger = w₁.ledger ∧
        (w₂.sink.inputIndex, w₂.sink.withdrawals) = (w₁.sink.inputIndex, w₁.sink.withdrawals) :=
      ⟨_, rfl, rfl, rfl⟩
    obtain ⟨hindex, hordinal⟩ := Prod.mk.inj (hsink₂.trans hsink₁)
    obtain ⟨w₃, hsent, hcount⟩ := sendCrossDomainMessage_run (V := V) (w := w₂)
      (by rw [hindex, hordinal]; exact hnonce) cd L2_BRIDGE_ADDRESS cd.l1Bridge
      (.finalizeBridgeERC20 remoteToken localToken ctx.sender ctx.sender 0 extraData) minGasLimit 0
    refine ⟨w₃, (bind_ok (tryCatch_ok hdebit)).trans ?_, ?_⟩
    · rw [if_neg (by decide), bind_ok hlog₁, bind_ok hlog₂, bind_ok hsent]
      rfl
    · rw [hcount, hledger₂, hledger₁]
      rfl
  obtain ⟨w₁, hrun, hcount⟩ := hadvance
  have hdispatch := (dispatch_fixed (r := Router.new V chainId owner) (V := V) ctx
    (builtins_l2Bridge owner) hvalue rfl w₀).trans hrun
  exact ⟨_, _, deposit_accepted (builtins_journaled chainId owner) hidle hp hdest hmint hdispatch,
    hcount⟩

end Router

namespace Sample

/-- The calldata of `registerToken(token, 32, "", "", 18)`. -/
def tokenData : Bytes :=
  beBytes 4 0x592648dd ++ word token ++ beBytes 32 32 ++ beBytes 32 0xa0 ++ beBytes 32 0xc0 ++
    beBytes 32 18 ++ beBytes 32 0 ++ beBytes 32 0

/-- `alice` deposits it. -/
def tokenRaw : Bytes :=
  beBytes 37 0x7ef90137a00000000000000000000000000000000000000000000000000000000000000000 ++
    beBytes 1 0x94 ++ alice.val ++ beBytes 1 0x94 ++ CONFIG_ADDRESS.val ++
    beBytes 8 0x808082520880b8e4 ++ tokenData

/-- The calldata of `bridgeERC20(token, token, 0, 200000, "")`. -/
def bridgeData : Bytes :=
  beBytes 4 0x87087623 ++ word token ++ word token ++ beBytes 32 0 ++ beBytes 32 200000 ++
    beBytes 32 0xa0 ++ beBytes 32 0

/-- `alice` deposits it. -/
def bridgeRaw : Bytes :=
  beBytes 37 0x7ef90117a00000000000000000000000000000000000000000000000000000000000000000 ++
    beBytes 1 0x94 ++ alice.val ++ beBytes 1 0x94 ++ L2_BRIDGE_ADDRESS.val ++
    beBytes 8 0x808082520880b8c4 ++ bridgeData

def outboundViem : Viem := { viem with
  parseTransaction := fun raw =>
    if raw = configRaw messengerData then some (configTx messengerData)
    else if raw = tokenRaw then some (configTx tokenData)
    else if raw = bridgeRaw then
      some { configTx bridgeData with dest := some L2_BRIDGE_ADDRESS }
    else none
  decodeConfig := fun data =>
    if data = messengerData then some (.registerMessenger l1Messenger l1Bridge)
    else if data = tokenData then some (.registerToken token 32 "" "" 18)
    else none
  decodeL2Bridge := fun data =>
    if data = bridgeData then some (.bridgeERC20 token token 0 200000 []) else none }

abbrev outboundRouter : Router Unit := Router.new outboundViem 1 alice

theorem messengerRaw_length : (configRaw messengerData).length = 154 := by
  rw [configRaw, List.length_append, configHeader_length, messengerData_length]

theorem tokenRaw_length : tokenRaw.length = 315 := by
  simp [tokenRaw, tokenData, word, alice.2, CONFIG_ADDRESS.2, token.2]

theorem bridgeRaw_length : bridgeRaw.length = 283 := by
  simp [bridgeRaw, bridgeData, word, alice.2, L2_BRIDGE_ADDRESS.2, token.2]

theorem parse_messenger : outboundViem.parseInput (configRaw messengerData) =
    .deposit ⟨alice, some CONFIG_ADDRESS, 0, 0, messengerData⟩ := by
  simp only [Viem.parseInput, outboundViem, if_true]
  rfl

theorem parse_token : outboundViem.parseInput tokenRaw =
    .deposit ⟨alice, some CONFIG_ADDRESS, 0, 0, tokenData⟩ := by
  have h₁ : tokenRaw ≠ configRaw messengerData :=
    ne_of_length tokenRaw_length messengerRaw_length (by decide)
  simp only [Viem.parseInput, outboundViem, if_neg h₁, if_true]
  rfl

theorem parse_bridge : outboundViem.parseInput bridgeRaw =
    .deposit ⟨alice, some L2_BRIDGE_ADDRESS, 0, 0, bridgeData⟩ := by
  have h₁ : bridgeRaw ≠ configRaw messengerData :=
    ne_of_length bridgeRaw_length messengerRaw_length (by decide)
  have h₂ : bridgeRaw ≠ tokenRaw := ne_of_length bridgeRaw_length tokenRaw_length (by decide)
  simp only [Viem.parseInput, outboundViem, if_neg h₁, if_neg h₂, if_true]
  rfl

theorem decode_registration : outboundViem.decodeConfig messengerData =
    some (.registerMessenger l1Messenger l1Bridge) := by
  simp only [outboundViem, if_true]

theorem decode_token : outboundViem.decodeConfig tokenData =
    some (.registerToken token 32 "" "" 18) := by
  have h₁ : tokenData ≠ messengerData := fun h =>
    absurd (congrArg (fun b => b.getD 0 0) h) (by decide)
  simp only [outboundViem, if_neg h₁, if_true]

theorem decode_bridge : outboundViem.decodeL2Bridge bridgeData =
    some (.bridgeERC20 token token 0 200000 []) := by
  simp only [outboundViem, if_true]

/-- `alice` is not the messenger. -/
theorem sender_alice {raw data : Bytes} {dest : Option Address}
    (h : outboundViem.parseInput raw = .deposit ⟨alice, dest, 0, 0, data⟩) :
    outboundViem.sender raw ≠ some L2_MESSENGER_ADDRESS := by
  have hne : alice ≠ L2_MESSENGER_ADDRESS := by decide +kernel
  rw [Viem.sender, h]
  exact fun heq => hne (Option.some.inj heq)

end Sample

/-- The owner registers a messenger and a token, and a deposit sends a message. -/
theorem outbound_nonces_dense_sample : ∃ (hist : List (Input Unit)) (w : World Unit),
    Run Sample.outboundViem Sample.outboundRouter hist w ∧ w.ledger.ram.msgNonce = 1 ∧
    (messengerWithdrawals (hist.flatMap fun i => i.res.emissions)).map
      (fun m => m.data.relayNonce) = [some (encodeVersionedNonce 0 MESSAGE_VERSION)] := by
  obtain ⟨l, hf⟩ := Ledger.fresh_exists Sample.outboundViem
  have hram : (Sample.world l).ledger.ram = Ram.new := hf.ram
  have hempty : (Sample.world l).ledger.view Sample.outboundViem = _ := hf.view
  obtain ⟨res₁, w₁, hadv₁, hidle₁, hcfg₁, -, hview₁⟩ := Router.registerMessenger_deposited
    (w := Sample.world l) 1 Sample.block hf.idle Sample.parse_messenger rfl rfl rfl rfl
    Sample.decode_registration (by rw [hram]; rintro a ⟨⟩)
  rw [hempty, hram] at hview₁
  obtain ⟨res₂, w₂, hadv₂, hidle₂, hview₂⟩ := Router.registerToken_deposited (w := w₁) 1 Sample.block
    hidle₁ (hcfg₁.trans hf.room.cfg) (congrArg View.tokens hview₁) Sample.parse_token rfl rfl rfl rfl
    Sample.decode_token
  rw [hview₁] at hview₂
  have hram₁ : w₁.ledger.ram = _ := congrArg View.ram hview₁
  rw [hram₁] at hview₂
  have htokens : w₂.ledger.drive.tokens = [⟨Sample.token, 32⟩] := congrArg View.tokens hview₂
  have hfacade : w₂.ledger.tokenByL2Address Sample.token = some ⟨0, Sample.token, 32⟩ := by
    rw [Ledger.tokenByL2Address, hidle₂.wf.facades, htokens]
    decide +kernel
  obtain ⟨res₃, w₃, hadv₃, hcount⟩ := Router.bridgeERC20_deposited (w := w₂) 1 Sample.alice
    Sample.block rfl hidle₂ Sample.parse_bridge rfl rfl rfl
    (congrArg (fun v : View => v.ram.crossDomainConfig) hview₂) Sample.decode_bridge hfacade
  have hzero : w₂.ledger.ram.msgNonce = 0 := congrArg (fun v : View => v.ram.msgNonce) hview₂
  rw [hzero] at hcount
  have hrun := ((Run.genesis (.devnet hf.created)).advance Sample.block _ hadv₁ |>.advance
    Sample.block _ hadv₂).advance Sample.block _ hadv₃
  refine ⟨_, w₃, hrun, hcount, ?_⟩
  rw [outbound_nonces_dense hrun ?_, hcount]
  · rfl
  · intro i hi
    simp only [List.nil_append, List.cons_append, List.mem_cons, List.not_mem_nil, or_false] at hi
    rcases hi with rfl | rfl | rfl
    · exact Sample.sender_alice Sample.parse_messenger
    · exact Sample.sender_alice Sample.parse_token
    · exact Sample.sender_alice Sample.parse_bridge

end OpCartesi.App
