import OpCartesi.App.Supply

/-!
# Who may mint a token

The balances of a token grow only by a deposit from a registered ERC-20 portal, or by the relay
of a message that the registered L1 messenger delivered, now or, when its relay failed then,
earlier.

* `refusal_none`: what the messenger has checked before it relays.
* `Run.failed_delivered`: every message recorded as failed was delivered by an input of the run.
* `mint_authentic`: the statement for every input of every run.
-/

namespace OpCartesi.App

open Drive Exec

variable {ρ : Type} {V : Viem} {w w' : World ρ} {hist : List (Input ρ)} {v v' : View}
  {es : List Emission} {owner : Address} {ctx : TxContext} {s : BufferSink}
  {block : BlockContext} {raw : Bytes} {res : AdvanceResult} {id : ℕ}

/-! ## Deliveries -/

/-- A call that delivers a message for the registered L1 messenger. -/
structure Delivers (ram : Ram) (ctx : TxContext) (cd : CrossDomainConfig) : Prop where
  config : ram.crossDomainConfig = some cd
  deposit : ctx.isDeposit = true
  sender : ctx.sender = cd.l1MessengerAliased

/-- The input delivers `m`, and its relay fails. -/
def Input.FailedDelivery (V : Viem) (m : CrossDomainMessage) (i : Input ρ) : Prop :=
  (∃ ctx cd, V.context i.block i.raw = some ctx ∧ V.relayed ctx = some m ∧
    Delivers i.before.ledger.ram ctx cd) ∧
  logged L2_MESSENGER_ADDRESS (.relayedMessage (V.hashCrossDomainMessageV1 m) true) ∈
    i.res.emissions

/-- What has been checked of a relay: a first delivery by the messenger with the message's
    value, or the replay, without value, of a message that failed. -/
theorem refusal_none {cd : CrossDomainConfig} {m : CrossDomainMessage}
    {status : Option MessageStatus} (h : Messenger.refusal ctx cd m status = none) :
    (ctx.isDeposit = true ∧ ctx.sender = cd.l1MessengerAliased ∧ ctx.value = m.value ∧
      status = none) ∨ (ctx.value = 0 ∧ status = some .failed) := by
  unfold Messenger.refusal at h
  split_ifs at h with hver hsucc hdep hvalue hfailed hzero hreplay
  · left
    refine ⟨hdep.1, hdep.2, not_not.1 hvalue, ?_⟩
    cases status with
    | none => rfl
    | some st => cases st <;> simp at hsucc hfailed
  · exact Or.inr ⟨not_not.1 hzero, not_not.1 hreplay⟩

theorem relayed_eq_some {m : CrossDomainMessage} : V.relayed ctx = some m ↔
    ctx.dest = L2_MESSENGER_ADDRESS ∧ V.decodeMessenger ctx.data = some (.relayMessage m) := by
  constructor
  · intro h
    unfold Viem.relayed at h
    split_ifs at h with hdest
    split at h
    · rename_i m' hcall
      cases h
      exact ⟨hdest, hcall⟩
    · cases h
  · rintro ⟨hdest, hcall⟩
    rw [Viem.relayed, if_pos hdest, hcall]

/-- The call `ctx` relays a message and leaves its status in `messages`; a failure is logged. -/
def Relays (V : Viem) (ctx : TxContext) (v : View) (messages : Bytes → Option MessageStatus)
    (es : List Emission) : Prop :=
  ∃ m cd status, V.relayed ctx = some m ∧ v.ram.crossDomainConfig = some cd ∧
    Messenger.refusal ctx cd m (v.ram.messages (V.hashCrossDomainMessageV1 m)) = none ∧
    messages = Function.update v.ram.messages (V.hashCrossDomainMessageV1 m) (some status) ∧
    (status = .failed → logged L2_MESSENGER_ADDRESS
      (.relayedMessage (V.hashCrossDomainMessageV1 m) true) ∈ es)

/-- A handler that accepts records the status of a message it relays, and no other. -/
theorem Accepted.messages (h : Accepted V owner ctx s v v' es) :
    v'.ram.messages = v.ram.messages ∨ Relays V ctx v v'.ram.messages es := by
  cases h with
  | relayed m cd v₁ es₁ hdest hcd hcall href hrel =>
    refine Or.inr ⟨m, cd, .successful, relayed_eq_some.2 ⟨hdest, hcall⟩, hcd, href, ?_, by simp⟩
    have hram : v₁.ram.messages = v.ram.messages := by
      cases hrel with
      | erc20 remoteToken sender dest amount extraData id v₂ htarget hsender hcall hvalue hid =>
        cases hid <;> rfl
      | _ => rfl
    rw [← hram]
    rfl
  | relayFailed m cd hdest hcd hcall href =>
    exact Or.inr ⟨m, cd, .failed, relayed_eq_some.2 ⟨hdest, hcall⟩, hcd, href, rfl, by simp⟩
  | portalERC20 kind id v₁ hmanifest hdep hportal hkind hlen hid =>
    left
    cases hid <;> rfl
  | _ => exact Or.inl rfl

/-- An input changes the messages' statuses only through the call it makes. -/
theorem Effect.messages (h : Effect V owner block raw v res v') :
    v'.ram.messages = v.ram.messages ∨
    ∃ ctx, V.context block raw = some ctx ∧ Relays V ctx v v'.ram.messages res.emissions := by
  cases h with
  | called ctx v₁ es hctx hvalue hacc hfee =>
    rw [View.exit_ram]
    exact hacc.messages.imp_right fun hrel => ⟨ctx, hctx, hrel⟩
  | _ => exact Or.inl rfl

/-- Every message recorded as failed was delivered by an input whose relay failed. -/
theorem Run.failed_delivered {chainId : ℕ} (h : Run V (Router.new V chainId owner) hist w)
    {hash : Bytes} (hfailed : w.ledger.ram.messages hash = some .failed) :
    ∃ m, V.hashCrossDomainMessageV1 m = hash ∧ ∃ i ∈ hist, i.FailedDelivery V m := by
  refine h.view_induction (P := fun hist v => ∀ hash, v.ram.messages hash = some .failed →
    ∃ m, V.hashCrossDomainMessageV1 m = hash ∧ ∃ i ∈ hist, i.FailedDelivery V m) ?_ ?_ hash hfailed
  · intro hash hfailed
    cases hfailed
  · intro hist i ih heff hash hfailed
    have hold : (i.before.ledger.view V).ram.messages hash = some .failed →
        ∃ m, V.hashCrossDomainMessageV1 m = hash ∧ ∃ j ∈ hist ++ [i], j.FailedDelivery V m := by
      intro hbefore
      obtain ⟨m, hm, j, hj, hdel⟩ := ih hash hbefore
      exact ⟨m, hm, j, List.mem_append_left _ hj, hdel⟩
    rcases heff.messages with hsame | ⟨ctx, hctx, m, cd, status, hrel, hcd, href, hset, hlog⟩
    · rw [hsame] at hfailed
      exact hold hfailed
    · rw [hset, Function.update_apply] at hfailed
      split_ifs at hfailed with heq
      · subst heq
        rcases refusal_none href with ⟨hdep, hsender, -, -⟩ | ⟨-, hstatus⟩
        · -- a first delivery
          refine ⟨m, rfl, i, by simp, ⟨ctx, cd, hctx, hrel, hcd, hdep, hsender⟩, ?_⟩
          exact hlog (Option.some.inj hfailed)
        · exact hold hstatus
      · exact hold hfailed

/-! ## Growing balances -/

theorem View.total_addToken {a : Address} {delta : ℤ} (h : 0 ≤ v.holdings id a + delta) (j : ℕ) :
    total ((v.addToken id a delta).holdings j) =
      total (v.holdings j) + if j = id then delta else 0 := by
  show total (Function.update v.holdings id _ j) = _
  simp only [Function.update_apply]
  split_ifs with hj
  · rw [hj]
    exact total_add (v.holdings id) a delta h
  · rw [Int.add_zero]

/-- How a call that grows a token's balances was authenticated. -/
inductive Authentic (V : Viem) (v : View) (ctx : TxContext) : Prop
  | portal (hdep : ctx.isDeposit = true) (hportal : v.ram.portals ctx.sender = some PORTAL_ERC20)
  | relay (m : CrossDomainMessage) (cd : CrossDomainConfig)
      (remoteToken sender dest : Address) (amount : ℕ) (extraData : Bytes)
      (hrelayed : V.relayed ctx = some m) (hcd : v.ram.crossDomainConfig = some cd)
      (href : Messenger.refusal ctx cd m (v.ram.messages (V.hashCrossDomainMessageV1 m)) = none)
      (htarget : m.target = L2_BRIDGE_ADDRESS) (hsender : m.sender = cd.l1Bridge)
      (hcall : V.decodeL2Bridge m.message = some (.finalizeBridgeERC20
        (V.l2TokenAddress remoteToken) remoteToken sender dest amount extraData))

/-- The handlers that grow a token's balances. -/
theorem Accepted.authentic (hs : v.Supply) (h : Accepted V owner ctx s v v' es)
    (hinc : total (v.holdings id) < total (v'.holdings id)) : Authentic V v ctx := by
  have hirrefl : ∀ {n : ℤ} {p : Prop}, n < n → p := fun h => absurd h (lt_irrefl _)
  cases h with
  | withdrawERC20 l2Token dest amount id' t hdest hcall hcd ht hle =>
    rw [View.total_addToken (by omega)] at hinc
    split_ifs at hinc <;> omega
  | bridged cd localToken dest amount minGasLimit extraData id' t nonce hdest hcd ht hle hn =>
    have hcount : ((v.addToken id' ctx.sender (-amount)).countMessage).holdings id =
        (v.addToken id' ctx.sender (-amount)).holdings id := rfl
    rw [hcount, View.total_addToken (by omega)] at hinc
    split_ifs at hinc <;> omega
  | transferERC20 dest value id' t hmanifest hportal ht hle =>
    rw [View.total_addToken (by omega), View.total_addToken (by omega)] at hinc
    split_ifs at hinc <;> omega
  | portalERC20 kind id' v₁ hmanifest hdep hportal hkind hlen hid =>
    refine .portal hdep ?_
    rw [hportal, (hs.kinds _ _ hportal).resolve_left hkind]
  | relayed m cd v₁ es₁ hdest hcd hcall href hrel =>
    cases hrel with
    | erc20 remoteToken sender dest amount extraData id' v₂ htarget hsender hcall' hvalue hid =>
      exact .relay m cd remoteToken sender dest amount extraData (relayed_eq_some.2 ⟨hdest, hcall⟩) hcd
        href htarget hsender hcall'
    | _ => exact hirrefl hinc
  | _ => exact hirrefl hinc

/-- The inputs that grow a token's balances. -/
theorem Effect.authentic (hs : v.Supply) (h : Effect V owner block raw v res v')
    (hinc : total (v.holdings id) < total (v'.holdings id)) :
    ∃ ctx, V.context block raw = some ctx ∧ Authentic V v ctx := by
  cases h with
  | called ctx v₁ es hctx hvalue hacc hfee =>
    have hs' : (v.entry ctx).Supply := ⟨hs.nodup, hs.totals, hs.absent, hs.kinds⟩
    rw [View.exit_holdings] at hinc
    refine ⟨ctx, hctx, ?_⟩
    -- the mint and the transfer leave what authentication reads
    cases hacc.authentic hs' hinc with
    | portal hdep hportal => exact .portal hdep hportal
    | relay m cd remoteToken sender dest amount extraData h1 h2 h3 h4 h5 h6 =>
      exact .relay m cd remoteToken sender dest amount extraData h1 h2 h3 h4 h5 h6
  | _ => exact absurd hinc (lt_irrefl _)

/-- In every run of the built-in handlers, an input grows the balances of a token only if it is
    a deposit whose sender is registered as an ERC-20 portal, or relays a message of the
    registered L1 bridge for the token's derived façade, which the aliased L1 messenger delivers
    with this input, or delivered with an earlier one whose relay failed. -/
theorem mint_authentic {chainId : ℕ} (h : Run V (Router.new V chainId owner) hist w)
    (hrun : ((Router.new V chainId owner).advance V block raw).run w = .ok res w') {id : ℕ}
    (hinc : total ((w.ledger.view V).holdings id) < total ((w'.ledger.view V).holdings id)) :
    (∃ d, V.parseInput raw = .deposit d ∧
      w.ledger.ram.portals d.sender = some PORTAL_ERC20) ∨
    ∃ ctx m cd localToken remoteToken sender dest amount extraData,
      V.context block raw = some ctx ∧ V.relayed ctx = some m ∧
      w.ledger.ram.crossDomainConfig = some cd ∧ m.target = L2_BRIDGE_ADDRESS ∧
      m.sender = cd.l1Bridge ∧ V.decodeL2Bridge m.message =
        some (.finalizeBridgeERC20 localToken remoteToken sender dest amount extraData) ∧
      localToken = V.l2TokenAddress remoteToken ∧
      (Delivers w.ledger.ram ctx cd ∧
          w.ledger.ram.messages (V.hashCrossDomainMessageV1 m) = none ∨
        w.ledger.ram.messages (V.hashCrossDomainMessageV1 m) = some .failed ∧
          ∃ m', V.hashCrossDomainMessageV1 m' = V.hashCrossDomainMessageV1 m ∧
            ∃ i ∈ hist, i.FailedDelivery V m') := by
  obtain ⟨ctx, hctx, hauth⟩ := (h.effect hrun).authentic h.supply.1 hinc
  cases hauth with
  | portal hdep hportal =>
    rcases context_eq_some hctx with ⟨d, dest, hp, rfl⟩ | ⟨tx, sender, dest, -, -, rfl⟩
    · exact Or.inl ⟨d, hp, hportal⟩
    · -- a signed transaction is no deposit
      cases hdep
  | relay m cd remoteToken sender dest amount extraData hrel hcd href htarget hsender hcall =>
    refine Or.inr ⟨ctx, m, cd, _, remoteToken, sender, dest, amount, extraData, hctx, hrel, hcd,
      htarget, hsender, hcall, rfl, ?_⟩
    rcases refusal_none href with ⟨hdep, hfrom, -, hnone⟩ | ⟨-, hfailed⟩
    · exact Or.inl ⟨⟨hcd, hdep, hfrom⟩, hnone⟩
    · exact Or.inr ⟨hfailed, h.failed_delivered hfailed⟩

theorem mint_authentic_sample : ∃ (hist : List (Input Unit)) (w w' : World Unit)
    (res : AdvanceResult), Run Sample.erc20Viem Sample.erc20Router hist w ∧
    (Sample.erc20Router.advance Sample.erc20Viem Sample.block Sample.erc20Raw).run w = .ok res w' ∧
    total ((w.ledger.view Sample.erc20Viem).holdings 0) <
      total ((w'.ledger.view Sample.erc20Viem).holdings 0) ∧
    w.ledger.ram.portals Sample.aliasedPortal = some PORTAL_ERC20 := by
  obtain ⟨i, res, w', hrun, hadv, hview, hview'⟩ := Sample.erc20_run
  have hinc : total ((i.after.ledger.view Sample.erc20Viem).holdings 0) <
      total ((w'.ledger.view Sample.erc20Viem).holdings 0) := by
    have hzero : total ((Sample.registered PORTAL_ERC20).holdings 0) = 0 := total_zero
    rw [hview, hview', View.total_addToken (by norm_num [Sample.registered, View.addTokenType])]
    show total ((Sample.registered PORTAL_ERC20).holdings 0) <
      total ((Sample.registered PORTAL_ERC20).holdings 0) + _
    rw [hzero]
    norm_num
  refine ⟨_, _, w', res, hrun, hadv, hinc, ?_⟩
  rcases mint_authentic hrun hadv hinc with ⟨d, hp, hportal⟩ | ⟨ctx, m, cd, -, -, -, -, -, -, -, hrel, -⟩
  · rw [Sample.parse_erc20 PORTAL_ERC20] at hp
    cases hp
    exact hportal
  · -- no calldata of this chain is a relay
    cases (relayed_eq_some.1 hrel).2

end OpCartesi.App
