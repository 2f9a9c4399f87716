import OpCartesi.App.Relay

/-!
# Two escrows for one token

A token's L1 backing is held either by a Cartesi portal or by the standard bridge, and `Config` keeps
the two from being registered together: an ERC-20 portal is refused once there is a messenger, and a
messenger while there is an ERC-20 portal. Registering a portal again replaces its kind.

* `Accepted.registrations`, `Effect.registrations`: what an input does to the registrations.
* `Input.Demotes`: an input that registers an ERC-20 portal as a portal of another kind.
* `escrow_exclusive`: in a run without such an input no token is credited by both escrows.
  `escrow_shared`: a run in which one is.
-/

namespace OpCartesi.App

open Drive Exec

open Ledger (Idle Step)

variable {ρ : Type} {V : Viem} {w w' : World ρ} {hist : List (Input ρ)} {v v' : View}
  {es : List Emission} {owner : Address} {ctx : TxContext} {s : BufferSink} {block : BlockContext}
  {raw : Bytes} {res : AdvanceResult} {m : CrossDomainMessage} {i : Input ρ}

/-! ## Registrations -/

/-- What an accepted call does to the portals and to the messenger. -/
inductive Registers (V : Viem) (owner : Address) (ctx : TxContext) (ram ram' : Ram) : Prop
  | none (hportals : ram'.portals = ram.portals)
      (hcd : ram'.crossDomainConfig = ram.crossDomainConfig)
  | portal (kind : ℕ) (portal : Address) (hdest : ctx.dest = CONFIG_ADDRESS)
      (howner : ctx.sender = owner)
      (hcall : V.decodeConfig ctx.data = some (.registerPortal kind portal))
      (hguard : kind = PORTAL_ERC20 → ram.crossDomainConfig = .none)
      (hportals : ram'.portals =
        Function.update ram.portals (applyL1ToL2Alias portal) (some kind))
      (hcd : ram'.crossDomainConfig = ram.crossDomainConfig)
  | messenger (hguard : ∀ a, ram.portals a ≠ some PORTAL_ERC20)
      (hportals : ram'.portals = ram.portals) (hcd : ram'.crossDomainConfig.isSome)

theorem Relayed.registrations {cd : CrossDomainConfig} (h : Relayed V m cd v v' es) :
    v'.ram.portals = v.ram.portals ∧
      v'.ram.crossDomainConfig = v.ram.crossDomainConfig := by
  cases h with
  | erc20 remoteToken sender dest amount extraData id v₁ htarget hsender hcall hvalue hid =>
    cases hid <;> exact ⟨rfl, rfl⟩
  | ether => exact ⟨rfl, rfl⟩
  | plain => exact ⟨rfl, rfl⟩

theorem Accepted.registrations (h : Accepted V owner ctx s v v' es) :
    Registers V owner ctx v.ram v'.ram := by
  cases h with
  | registerPortal kind portal hdest hcall howner hkind hcd =>
    exact .portal kind portal hdest howner hcall hcd rfl rfl
  | registerMessenger l1Messenger l1Bridge hdest howner hportal =>
    exact .messenger hportal rfl rfl
  | relayed m cd v₁ es₁ hdest hcd hcall href hrel =>
    exact .none hrel.registrations.1 hrel.registrations.2
  | portalERC20 kind id v₁ hmanifest hdep hportal hkind hlen hid =>
    cases hid <;> exact .none rfl rfl
  | _ => exact .none rfl rfl

/-- What an input does to them: nothing, unless it makes a call that is accepted. -/
theorem Effect.registrations (h : Effect V owner block raw v res v') :
    (v'.ram.portals = v.ram.portals ∧ v'.ram.crossDomainConfig = v.ram.crossDomainConfig) ∨
    ∃ ctx, V.context block raw = some ctx ∧ Registers V owner ctx v.ram v'.ram := by
  cases h with
  | called ctx v₁ es hctx hvalue hacc hfee =>
    rw [View.exit_ram]
    exact Or.inr ⟨ctx, hctx, hacc.registrations⟩
  | _ => exact Or.inl ⟨rfl, rfl⟩

/-- An input that registers an ERC-20 portal anew, as a portal of another kind. -/
def Input.Demotes (V : Viem) (owner : Address) (i : Input ρ) : Prop :=
  ∃ ctx kind portal, V.context i.block i.raw = some ctx ∧ ctx.dest = CONFIG_ADDRESS ∧
    ctx.sender = owner ∧ V.decodeConfig ctx.data = some (.registerPortal kind portal) ∧
    kind ≠ PORTAL_ERC20 ∧
    i.before.ledger.ram.portals (applyL1ToL2Alias portal) = some PORTAL_ERC20

/-! ## Credits -/

/-- What an input credits of `l1Token` as an ERC-20 portal deposit. -/
def Input.portalCredited (V : Viem) (l1Token : Address) (i : Input ρ) : ℕ :=
  match V.context i.block i.raw with
  | some ctx => if i.res.outcome = .accept then portalCredit i.before.ledger.ram ctx l1Token else 0
  | none => 0

/-- What an input credits of `l1Token` by a relayed `finalizeBridgeERC20`. -/
def Input.relayCredited (V : Viem) (l1Token : Address) (i : Input ρ) : ℕ :=
  match V.context i.block i.raw with
  | some ctx => if i.res.outcome = .accept then relayCredit V ctx i.res.emissions l1Token else 0
  | none => 0
/-- There is an ERC-20 portal. -/
def Ram.HasPortal (ram : Ram) : Prop := ∃ a, ram.portals a = some PORTAL_ERC20

/-- A portal deposit comes from an ERC-20 portal. -/
theorem Input.hasPortal_of_portalCredited {l1Token : Address} (h : i.portalCredited V l1Token ≠ 0) :
    i.before.ledger.ram.HasPortal := by
  unfold Input.portalCredited portalCredit at h
  cases hctx : V.context i.block i.raw with
  | none =>
    rw [hctx] at h
    exact absurd rfl h
  | some ctx =>
    rw [hctx] at h
    simp only at h
    split_ifs at h with hacc hportal
    · exact ⟨ctx.sender, hportal.2.2.1⟩
    all_goals exact absurd rfl h

theorem Relay.messenger (h : Relay V ctx m v v' es) : v.ram.crossDomainConfig.isSome := by
  cases h with
  | succeeds cd v₁ es hcd href hrel => exact Option.isSome_iff_exists.2 ⟨cd, hcd⟩
  | fails cd hcd href => exact Option.isSome_iff_exists.2 ⟨cd, hcd⟩

/-- A message is relayed by the messenger that is registered. -/
theorem Input.messenger_of_relayCredited {l1Token : Address}
    (heff : Effect V owner i.block i.raw (i.before.ledger.view V) i.res (i.after.ledger.view V))
    (h : i.relayCredited V l1Token ≠ 0) : i.before.ledger.ram.crossDomainConfig.isSome := by
  unfold Input.relayCredited relayCredit at h
  cases hctx : V.context i.block i.raw with
  | none =>
    rw [hctx] at h
    exact absurd rfl h
  | some ctx =>
    rw [hctx] at h
    simp only at h
    split_ifs at h with hacc
    · cases hrel : V.relayed ctx with
      | none =>
        rw [hrel] at h
        exact absurd rfl h
      | some m =>
        obtain ⟨v₁, -, -, -, hrelay, -⟩ := heff.relays hctx hrel hacc
        exact hrelay.messenger
    · exact absurd rfl h

/-! ## Runs -/

/-- The two escrows are not registered together, and what was credited so far is backed by the one
    that is. -/
structure Exclusive (V : Viem) (hist : List (Input ρ)) (ram : Ram) : Prop where
  one : ram.HasPortal → ram.crossDomainConfig = none
  portal : ∀ i ∈ hist, ∀ l1Token, i.portalCredited V l1Token ≠ 0 → ram.HasPortal
  relay : ∀ i ∈ hist, ∀ l1Token, i.relayCredited V l1Token ≠ 0 → ram.crossDomainConfig.isSome

/-- What an input does to the registrations keeps an ERC-20 portal, unless it demotes it, and a
    messenger, and never adds the one to the other. -/
theorem Effect.exclusive (hnot : ¬i.Demotes V owner)
    (h : Effect V owner i.block i.raw (i.before.ledger.view V) i.res (i.after.ledger.view V)) :
    (i.before.ledger.ram.HasPortal → i.after.ledger.ram.HasPortal) ∧
    (i.before.ledger.ram.crossDomainConfig.isSome → i.after.ledger.ram.crossDomainConfig.isSome) ∧
    ((i.before.ledger.ram.HasPortal → i.before.ledger.ram.crossDomainConfig = none) →
      i.after.ledger.ram.HasPortal → i.after.ledger.ram.crossDomainConfig = none) := by
  have hreg : (i.after.ledger.ram.portals = i.before.ledger.ram.portals ∧
      i.after.ledger.ram.crossDomainConfig = i.before.ledger.ram.crossDomainConfig) ∨
      ∃ ctx, V.context i.block i.raw = some ctx ∧
        Registers V owner ctx i.before.ledger.ram i.after.ledger.ram := h.registrations
  have hsame : ∀ {ram ram' : Ram}, ram'.portals = ram.portals →
      ram'.crossDomainConfig = ram.crossDomainConfig →
      (ram.HasPortal → ram'.HasPortal) ∧
      (ram.crossDomainConfig.isSome → ram'.crossDomainConfig.isSome) ∧
      ((ram.HasPortal → ram.crossDomainConfig = none) →
        ram'.HasPortal → ram'.crossDomainConfig = none) := by
    intro ram ram' hportals hcd
    rw [Ram.HasPortal, Ram.HasPortal, hportals, hcd]
    exact ⟨id, id, id⟩
  rcases hreg with ⟨hportals, hcd⟩ | ⟨ctx, hctx, hreg⟩
  · exact hsame hportals hcd
  cases hreg with
  | none hportals hcd => exact hsame hportals hcd
  | portal kind portal hdest howner hcall hguard hportals hcd =>
    refine ⟨?_, fun hsome => by rwa [hcd], fun hone hafter => ?_⟩
    · rintro ⟨a, ha⟩
      by_cases heq : a = applyL1ToL2Alias portal
      · -- the same portal again: it is still an ERC-20 portal
        refine ⟨a, ?_⟩
        rw [hportals, heq, Function.update_self]
        by_contra hkind
        exact hnot ⟨ctx, kind, portal, hctx, hdest, howner, hcall, fun h => hkind (by rw [h]),
          heq ▸ ha⟩
      · exact ⟨a, by rw [hportals, Function.update_of_ne heq]; exact ha⟩
    · obtain ⟨a, ha⟩ := hafter
      rw [hportals, Function.update_apply] at ha
      rw [hcd]
      split_ifs at ha with heq
      · exact hguard (Option.some.inj ha)
      · exact hone ⟨a, ha⟩
  | messenger hguard hportals hcd =>
    have hno : ¬i.before.ledger.ram.HasPortal := fun ⟨a, ha⟩ => hguard a ha
    refine ⟨fun h => absurd h hno, fun _ => hcd, fun _ hafter => ?_⟩
    rw [Ram.HasPortal, hportals] at hafter
    exact absurd hafter hno

theorem Run.exclusive {chainId : ℕ} (h : Run V (Router.new V chainId owner) hist w)
    (hnot : ∀ i ∈ hist, ¬i.Demotes V owner) : Exclusive V hist w.ledger.ram := by
  refine Run.view_induction (P := fun hist v => (∀ i ∈ hist, ¬i.Demotes V owner) →
    Exclusive V hist v.ram) ?_ ?_ h hnot
  · intro _
    refine ⟨?_, ?_, ?_⟩
    · rintro ⟨a, ha⟩
      cases ha
    · intro i hi
      cases hi
    · intro i hi
      cases hi
  · intro hist i ih heff hnot
    have hbefore := ih fun j hj => hnot j (List.mem_append_left _ hj)
    obtain ⟨hportal, hmessenger, hone⟩ := heff.exclusive (hnot i (by simp))
    refine ⟨hone hbefore.one, fun j hj l1Token hne => hportal ?_, fun j hj l1Token hne =>
      hmessenger ?_⟩
    · rcases List.mem_append.1 hj with hj | hj
      · exact hbefore.portal j hj l1Token hne
      · rw [List.mem_singleton.1 hj] at hne
        exact Input.hasPortal_of_portalCredited hne
    · rcases List.mem_append.1 hj with hj | hj
      · exact hbefore.relay j hj l1Token hne
      · rw [List.mem_singleton.1 hj] at hne
        exact Input.messenger_of_relayCredited heff hne

/-- In a run that never registers an ERC-20 portal anew as a portal of another kind, no token is
    credited both by a portal deposit and by a relayed `finalizeBridgeERC20`. -/
theorem escrow_exclusive {chainId : ℕ} (h : Run V (Router.new V chainId owner) hist w)
    (hnot : ∀ i ∈ hist, ¬i.Demotes V owner) (l1Token : Address) :
    (∀ i ∈ hist, i.portalCredited V l1Token = 0) ∨ ∀ i ∈ hist, i.relayCredited V l1Token = 0 := by
  have hex := h.exclusive hnot
  by_contra hboth
  rw [not_or, not_forall, not_forall] at hboth
  obtain ⟨⟨i, hi⟩, j, hj⟩ := hboth
  rw [Classical.not_imp] at hi hj
  have hcd := hex.relay j hj.1 l1Token hj.2
  rw [hex.one (hex.portal i hi.1 l1Token hi.2)] at hcd
  cases hcd

/-! ## A token with two escrows -/

theorem Router.builtins_messenger (owner : Address) :
    (Router.builtins V owner L2_MESSENGER_ADDRESS : Option (Handler ρ)) = some (messenger V) := by
  rw [Router.builtins, if_neg (by decide +kernel), if_neg (by decide +kernel),
    if_neg (by decide +kernel), if_neg (by decide +kernel), if_pos rfl]

/-- The messenger delivers a `finalizeBridgeERC20` for the only registered token. -/
theorem relayERC20_accepted (chainId : ℕ) (owner : Address) (block : BlockContext) {d : Deposit}
    (hidle : w.ledger.Idle V)
    (hcfg : w.ledger.drive.cfg = Ledger.DEVNET_DRIVE_CONFIG.defaults.geometry)
    (hp : V.parseInput raw = .deposit d) (hdest : d.dest = some L2_MESSENGER_ADDRESS)
    (hmint : d.mint = 0) (hvalue : d.value = 0) {cd : CrossDomainConfig}
    (hcd : w.ledger.ram.crossDomainConfig = some cd) (hsender : d.sender = cd.l1MessengerAliased) (hcall : V.decodeMessenger d.data = some (.relayMessage m))
    (hversion : nonceVersion m.nonce = MESSAGE_VERSION)
    (hnew : w.ledger.ram.messages (V.hashCrossDomainMessageV1 m) = none) (hmvalue : m.value = 0)
    (htarget : m.target = L2_BRIDGE_ADDRESS) (hbridge : m.sender = cd.l1Bridge)
    {l1Token sender dest : Address} {amount : ℕ} {extraData : Bytes}
    (hmessage : V.decodeL2Bridge m.message = some (.finalizeBridgeERC20 (V.l2TokenAddress l1Token)
      l1Token sender dest amount extraData))
    (htok : w.ledger.drive.tokens = [⟨l1Token, 32⟩]) (hnz : isZero dest.val = false)
    (hfirst : (w.ledger.view V).holdings 0 dest = 0 → (w.ledger.view V).holdings = fun _ _ => 0)
    (hamount : (w.ledger.view V).holdings 0 dest + amount < 2 ^ 256) :
    ∃ res w', ((Router.new V chainId owner).advance V block raw).run w = .ok res w' ∧
      res.outcome = .accept ∧ relayLog V m ∈ res.emissions := by
  set ctx := Router.depositContext block d L2_MESSENGER_ADDRESS with hctx
  set w₀ := Router.start block w.ledger w with hw₀
  obtain ⟨l₁, hc⟩ := Ledger.creditToken_run hidle.wf hcfg htok hnz hfirst hamount
  have hid : (L2Bridge.tokenId V l1Token).run w₀ = .ok 0 w₀ := by
    have hknown : w₀.ledger.tokenByL1Address l1Token = some ⟨0, l1Token, 32⟩ := by
      show w.ledger.tokenByL1Address l1Token = _
      rw [Ledger.tokenByL1Address, htok]
      simp [tokenByAddress]
    rw [L2Bridge.tokenId, bind_ok (ledger_run _), hknown]
    rfl
  have hrelay : ∃ w₁ : World ρ, (Messenger.relay V m cd).run w₀ = .ok .accept w₁ ∧
      relayLog V m ∈ w₁.sink.emissions := by
    have hfinal : ∃ w₂ : World ρ, (Messenger.dispatch V m cd).run w₀ = .ok () w₂ := by
      rw [Messenger.dispatch, if_pos htarget, L2Bridge.finalizeFromMessenger,
        if_neg (not_not.2 hbridge), hmessage]
      simp only
      rw [L2Bridge.finalizeBridgeERC20, if_neg (not_not.2 hmvalue), if_neg (not_not.2 rfl),
        bind_ok hid, bind_ok (onLedger_ok (w := w₀) hc)]
      exact ⟨_, rfl⟩
    obtain ⟨w₂, hw₂⟩ := hfinal
    have hbody : ∃ w₃ : World ρ, (do
        Messenger.dispatch V m cd
        onLedger (Ledger.setMessageStatus (V.hashCrossDomainMessageV1 m) .successful)
        log L2_MESSENGER_ADDRESS (.relayedMessage (V.hashCrossDomainMessageV1 m) false) :
          GuestM ρ Unit).run w₀ = .ok () w₃ ∧ relayLog V m ∈ w₃.sink.emissions := by
      rw [bind_ok hw₂]
      exact ⟨_, rfl, List.mem_append_right _ (List.mem_singleton_self _)⟩
    obtain ⟨w₃, hw₃, hlog⟩ := hbody
    refine ⟨w₃, ?_, hlog⟩
    rw [Messenger.relay, bind_ok (mark_run w₀), bind_ok (tryCatch_ok hw₃)]
    rfl
  obtain ⟨w₁, hrun, hlog⟩ := hrelay
  have hadvance : (Messenger.advance V ctx).run w₀ = .ok .accept w₁ := by
    have href : Messenger.refusal ctx cd m none = none := by
      have hdeliver : ctx.isDeposit = true ∧ ctx.sender = cd.l1MessengerAliased := ⟨rfl, hsender⟩
      have hv : ¬ctx.value ≠ m.value := by
        rw [hmvalue, not_not]
        exact hvalue
      rw [Messenger.refusal, if_neg (not_not.2 hversion), if_neg (by simp), if_pos hdeliver,
        if_neg hv, if_neg (by simp)]
    have hcd₀ : w₀.ledger.ram.crossDomainConfig = some cd := hcd
    have hcall₀ : V.decodeMessenger ctx.data = some (.relayMessage m) := hcall
    have hnew₀ : w₀.ledger.ram.messages (V.hashCrossDomainMessageV1 m) = none := hnew
    rw [Messenger.advance, bind_ok (ledger_run _), hcd₀]
    simp only
    rw [hcall₀]
    simp only
    rw [hnew₀, href]
    exact hrun
  have hdispatch := (Router.dispatch_fixed (r := Router.new V chainId owner) (V := V) ctx
    (Router.builtins_messenger owner) hvalue rfl w₀).trans hadvance
  exact ⟨_, _, Router.deposit_accepted (builtins_journaled chainId owner) hidle hp hdest hmint
    hdispatch, rfl, hlog⟩

namespace Sample

def l1Messenger : Address := addressOf 0x5e5e5e5e5e5e5e5e5e5e5e5e5e5e5e5e5e5e5e5e
def l1Bridge : Address := addressOf 0xb1b1b1b1b1b1b1b1b1b1b1b1b1b1b1b1b1b1b1b1

/-- What `alice`'s deposits to `Config` start with. -/
def configHeader : Bytes :=
  beBytes 36 0x7ef897a00000000000000000000000000000000000000000000000000000000000000000 ++
    beBytes 1 0x94 ++ alice.val ++ beBytes 1 0x94 ++ CONFIG_ADDRESS.val ++
    beBytes 8 0x808082520880b844

/-- `alice` deposits a call to `Config` with 68 bytes of calldata. -/
def configRaw (data : Bytes) : Bytes := configHeader ++ data

def configTx (data : Bytes) : AnyParsedTx where
  type := .deposit
  sender := some alice
  dest := some CONFIG_ADDRESS
  mint := none
  value := none
  data := data
  chainId := none
  nonce := none
  r := none
  s := none

/-- An address as a word of calldata. -/
def word (a : Address) : Bytes := zeros 12 ++ a.val

/-- The calldata of `registerMessenger(l1Messenger, l1Bridge)`. -/
def messengerData : Bytes := beBytes 4 0xceb8f8f8 ++ word l1Messenger ++ word l1Bridge

/-- The calldata of `finalizeBridgeERC20`: 5 tokens for `bob`. -/
def finalizeData : Bytes :=
  beBytes 4 0x0166a07a ++ word token ++ word token ++ word carol ++ word bob ++ beBytes 32 5 ++
    beBytes 32 0xc0 ++ beBytes 32 0

/-- The first message of the L1 bridge. -/
def message : CrossDomainMessage :=
  ⟨encodeVersionedNonce 0 MESSAGE_VERSION, l1Bridge, L2_BRIDGE_ADDRESS, 0, 200000, finalizeData⟩

/-- The calldata of its `relayMessage`. -/
def relayData : Bytes :=
  beBytes 4 0xd764ad0b ++ beBytes 32 message.nonce ++ word l1Bridge ++ word L2_BRIDGE_ADDRESS ++
    beBytes 32 0 ++ beBytes 32 200000 ++ beBytes 32 0xc0 ++ beBytes 32 228 ++ finalizeData ++ zeros 28

/-- The messenger deposits it. -/
def relayRaw : Bytes :=
  beBytes 37 0x7ef90238a00000000000000000000000000000000000000000000000000000000000000000 ++
    beBytes 1 0x94 ++ (applyL1ToL2Alias l1Messenger).val ++ beBytes 1 0x94 ++
    L2_MESSENGER_ADDRESS.val ++ beBytes 9 0x808082520880b901e4 ++ relayData

def relayTx : AnyParsedTx where
  type := .deposit
  sender := some (applyL1ToL2Alias l1Messenger)
  dest := some L2_MESSENGER_ADDRESS
  mint := none
  value := none
  data := relayData
  chainId := none
  nonce := none
  r := none
  s := none

def escrowViem : Viem := { viem with
  parseTransaction := fun raw =>
    if raw = erc20Raw then some (portalTx erc20Data)
    else if raw = relayRaw then some relayTx
    else if raw.take 86 = configHeader then some (configTx (raw.drop 86))
    else none
  decodeConfig := fun data =>
    if data = registerData PORTAL_ERC20 then some (.registerPortal PORTAL_ERC20 portal)
    else if data = registerData PORTAL_ETHER then some (.registerPortal PORTAL_ETHER portal)
    else if data = messengerData then some (.registerMessenger l1Messenger l1Bridge)
    else none
  decodeMessenger := fun data => if data = relayData then some (.relayMessage message) else none
  decodeL2Bridge := fun data =>
    if data = finalizeData then some (.finalizeBridgeERC20 token token carol bob 5 []) else none }

abbrev escrowRouter : Router Unit := Router.new escrowViem 1 alice

theorem configHeader_length : configHeader.length = 86 := by
  simp [configHeader, alice.2, CONFIG_ADDRESS.2]

theorem relayRaw_length : relayRaw.length = 572 := by
  simp [relayRaw, relayData, finalizeData, word, (applyL1ToL2Alias l1Messenger).2,
    L2_MESSENGER_ADDRESS.2, L2_BRIDGE_ADDRESS.2, l1Bridge.2, token.2, carol.2, bob.2]

theorem parse_config {data : Bytes} (hlen : data.length = 68) :
    escrowViem.parseInput (configRaw data) = .deposit ⟨alice, some CONFIG_ADDRESS, 0, 0, data⟩ := by
  have hraw : (configRaw data).length = 154 := by
    rw [configRaw, List.length_append, configHeader_length, hlen]
  have h₁ : configRaw data ≠ erc20Raw := ne_of_length hraw erc20Raw_length (by decide)
  have h₂ : configRaw data ≠ relayRaw := ne_of_length hraw relayRaw_length (by decide)
  have h₃ : (configRaw data).take 86 = configHeader := List.take_left' configHeader_length
  have h₄ : (configRaw data).drop 86 = data := List.drop_left' configHeader_length
  simp only [Viem.parseInput, escrowViem, if_neg h₁, if_neg h₂, if_pos h₃, h₄]
  rfl

theorem parse_deposited : escrowViem.parseInput erc20Raw =
    .deposit ⟨aliasedPortal, some bob, 0, 0, erc20Data⟩ := by
  simp only [Viem.parseInput, escrowViem, if_true]
  rfl

theorem parse_relay : escrowViem.parseInput relayRaw =
    .deposit ⟨applyL1ToL2Alias l1Messenger, some L2_MESSENGER_ADDRESS, 0, 0, relayData⟩ := by
  have h₁ : relayRaw ≠ erc20Raw := ne_of_length relayRaw_length erc20Raw_length (by decide)
  simp only [Viem.parseInput, escrowViem, if_neg h₁, if_true]
  rfl

theorem registerData_length (kind : ℕ) : (registerData kind).length = 68 := by
  simp [registerData]

theorem messengerData_length : messengerData.length = 68 := by
  simp [messengerData, word, l1Messenger.2, l1Bridge.2]

theorem decode_erc20 : escrowViem.decodeConfig (registerData PORTAL_ERC20) =
    some (.registerPortal PORTAL_ERC20 portal) := by
  simp only [escrowViem, if_true]

theorem decode_ether : escrowViem.decodeConfig (registerData PORTAL_ETHER) =
    some (.registerPortal PORTAL_ETHER portal) := by
  have h₁ : registerData PORTAL_ETHER ≠ registerData PORTAL_ERC20 := fun h =>
    absurd (congrArg (fun b => b.getD 35 0) h) (by decide)
  simp only [escrowViem, if_neg h₁, if_true]

theorem decode_messenger : escrowViem.decodeConfig messengerData =
    some (.registerMessenger l1Messenger l1Bridge) := by
  have h₁ : messengerData ≠ registerData PORTAL_ERC20 := fun h =>
    absurd (congrArg (fun b => b.getD 0 0) h) (by decide)
  have h₂ : messengerData ≠ registerData PORTAL_ETHER := fun h =>
    absurd (congrArg (fun b => b.getD 0 0) h) (by decide)
  simp only [escrowViem, if_neg h₁, if_neg h₂, if_true]

theorem l2TokenAddress_token : escrowViem.l2TokenAddress token = token := by
  decide +kernel

/-- A chain on which the owner registered the portal, and the portal deposited 5 tokens for `bob`. -/
theorem deposited_run : ∃ i j : Input Unit, i.block = Sample.block ∧
    i.raw = configRaw (registerData PORTAL_ERC20) ∧ i.before.ledger.ram = Ram.new ∧
    j.block = Sample.block ∧ j.raw = erc20Raw ∧ j.res.outcome = .accept ∧
    j.before.ledger.ram.portals aliasedPortal = some PORTAL_ERC20 ∧
    Run escrowViem escrowRouter [i, j] j.after ∧
    j.after.ledger.Idle escrowViem ∧
    j.after.ledger.drive.cfg = Ledger.DEVNET_DRIVE_CONFIG.defaults.geometry ∧
    j.after.ledger.view escrowViem =
      ((registered PORTAL_ERC20).addTokenType token).addToken 0 bob (5 : ℕ) := by
  obtain ⟨l, hf⟩ := Ledger.fresh_exists escrowViem
  have hram : (world l).ledger.ram = Ram.new := hf.ram
  have hnone : (world l).ledger.ram.crossDomainConfig = none := by
    rw [hram]
    rfl
  obtain ⟨res, w₁, hadv, hidle, hcfg, hbook, hview⟩ := Router.registerPortal_deposited
    (w := world l) 1 Sample.block hf.idle (parse_config (registerData_length PORTAL_ERC20)) rfl rfl
    rfl rfl decode_erc20 (Or.inr rfl) fun _ => hnone
  have hready : w₁.ledger.Ready escrowViem 0 :=
    ⟨hidle, hcfg.trans hf.room.cfg, by rw [hbook]; exact hf.room.size⟩
  have hview₁ : w₁.ledger.view escrowViem = registered PORTAL_ERC20 := by
    have hempty : (world l).ledger.view escrowViem = _ := hf.view
    rw [hview, hram, hempty, alias_portal]
    rfl
  have hportal : w₁.ledger.ram.portals aliasedPortal = some PORTAL_ERC20 := by
    have h := congrArg (fun v => v.ram.portals aliasedPortal) hview₁
    exact h.trans (by simp [registered])
  have htoken : PortalReceiver.addressAt erc20Data 0 = token := rfl
  have hben : PortalReceiver.addressAt erc20Data 20 = bob := rfl
  have hamount : PortalReceiver.uint256At erc20Data 40 = 5 := rfl
  obtain ⟨res', w₂, hadv', hacc, hidle', hcfg', hview'⟩ := Router.portalERC20_accepted 1 alice
    Sample.block hready parse_deposited rfl bob_unrouted rfl rfl hportal
    (by simp [erc20Data, bob.2, token.2]) htoken hben hamount (by rw [hview₁]; rfl)
    (by rw [hview₁]; rfl) (by norm_num) bob_ne
  have hrun := Run.advance Sample.block (configRaw (registerData PORTAL_ERC20))
    (.genesis (w := world l) (.devnet hf.created)) hadv
  refine ⟨⟨Sample.block, _, world l, res, w₁⟩, ⟨Sample.block, erc20Raw, w₁, res', w₂⟩, rfl, rfl, hram,
    rfl, rfl, hacc, hportal, Run.advance Sample.block erc20Raw hrun hadv', hidle',
    hcfg'.trans hready.room.cfg, ?_⟩
  rw [hview', hview₁]

theorem decode_relay : escrowViem.decodeMessenger relayData = some (.relayMessage message) := by
  simp only [escrowViem, if_true]

theorem decode_finalize : escrowViem.decodeL2Bridge message.message =
    some (.finalizeBridgeERC20 (escrowViem.l2TokenAddress token) token carol bob 5 []) := by
  rw [l2TokenAddress_token]
  simp only [escrowViem, message, if_true]

theorem messageCredit_message : escrowViem.messageCredit message token = 5 := by
  have htarget : message.target = L2_BRIDGE_ADDRESS := rfl
  rw [Viem.messageCredit, if_pos htarget, decode_finalize]
  simp only [if_true]

theorem message_version : nonceVersion message.nonce = MESSAGE_VERSION := by
  decide +kernel
theorem context_deposited : escrowViem.context Sample.block erc20Raw =
    some (Router.depositContext Sample.block ⟨aliasedPortal, some bob, 0, 0, erc20Data⟩ bob) := by
  rw [Viem.context, parse_deposited]
  rfl

theorem context_relay : escrowViem.context Sample.block relayRaw = some (Router.depositContext Sample.block
    ⟨applyL1ToL2Alias l1Messenger, some L2_MESSENGER_ADDRESS, 0, 0, relayData⟩
      L2_MESSENGER_ADDRESS) := by
  rw [Viem.context, parse_relay]
  rfl

theorem relayed_relay : escrowViem.relayed (Router.depositContext Sample.block
    ⟨applyL1ToL2Alias l1Messenger, some L2_MESSENGER_ADDRESS, 0, 0, relayData⟩
      L2_MESSENGER_ADDRESS) = some message :=
  relayed_eq_some.2 ⟨rfl, decode_relay⟩

/-- The portal's deposit credits 5 tokens. -/
theorem portalCredited_deposited {j : Input Unit} (hblock : j.block = Sample.block)
    (hraw : j.raw = erc20Raw) (hacc : j.res.outcome = .accept)
    (hportal : j.before.ledger.ram.portals aliasedPortal = some PORTAL_ERC20) :
    j.portalCredited escrowViem token = 5 := by
  rw [Input.portalCredited, hblock, hraw, context_deposited]
  simp only
  rw [if_pos hacc, portalCredit, if_pos ⟨rfl, bob_unrouted, hportal, rfl⟩]
  rfl

end Sample

/-- The owner registers an ERC-20 portal, and the portal deposits a token. -/
theorem escrow_exclusive_sample : ∃ (hist : List (Input Unit)) (w : World Unit),
    Run Sample.escrowViem Sample.escrowRouter hist w ∧
    (∃ i ∈ hist, i.portalCredited Sample.escrowViem Sample.token = 5) ∧
    ∀ i ∈ hist, i.relayCredited Sample.escrowViem Sample.token = 0 := by
  obtain ⟨i, j, hib, hir, hram, hjb, hjr, hacc, hportal, hrun, -⟩ := Sample.deposited_run
  have hcredit := Sample.portalCredited_deposited hjb hjr hacc hportal
  refine ⟨_, _, hrun, ⟨j, by simp, hcredit⟩, ?_⟩
  refine (escrow_exclusive hrun ?_ Sample.token).resolve_left fun h => ?_
  · intro k hk
    rcases List.mem_pair.1 hk with rfl | rfl
    · -- nothing is registered before the first input
      rintro ⟨ctx, kind, portal, -, -, -, -, -, hbefore⟩
      rw [hram] at hbefore
      cases hbefore
    · rintro ⟨ctx, kind, portal, hctx, hdest, -⟩
      rw [hjb, hjr, Sample.context_deposited] at hctx
      cases hctx
      exact absurd hdest (by decide +kernel)
  · rw [h j (by simp)] at hcredit
    cases hcredit

/-- The owner registers an ERC-20 portal, the portal deposits 5 tokens, the owner registers the portal
    as an ether portal and then a messenger, and the messenger delivers 5 tokens more. -/
theorem escrow_shared : ∃ (hist : List (Input Unit)) (w : World Unit),
    Run Sample.escrowViem Sample.escrowRouter hist w ∧
    (∃ i ∈ hist, i.portalCredited Sample.escrowViem Sample.token = 5) ∧
    ∃ i ∈ hist, i.relayCredited Sample.escrowViem Sample.token = 5 := by
  obtain ⟨i, j, -, -, -, hjb, hjr, hacc, hportal, hrun, hidle, hcfg, hview⟩ := Sample.deposited_run
  have hcredit := Sample.portalCredited_deposited hjb hjr hacc hportal
  obtain ⟨res₃, w₃, hadv₃, hidle₃, hcfg₃, -, hview₃⟩ := Router.registerPortal_deposited
    (w := j.after) 1 Sample.block hidle
    (Sample.parse_config (Sample.registerData_length PORTAL_ETHER)) rfl rfl rfl rfl
    Sample.decode_ether (Or.inl rfl) (by rintro ⟨⟩)
  have hrun₃ := Run.advance Sample.block _ hrun hadv₃
  have hram : j.after.ledger.ram.portals =
      Function.update Ram.new.portals Sample.aliasedPortal (some PORTAL_ERC20) :=
    congrArg (fun v : View => v.ram.portals) hview
  have hnoportal : ∀ a, w₃.ledger.ram.portals a ≠ some PORTAL_ERC20 := by
    intro a
    have hportals : w₃.ledger.ram.portals = Function.update j.after.ledger.ram.portals
        Sample.aliasedPortal (some PORTAL_ETHER) := congrArg (fun v : View => v.ram.portals) hview₃
    rw [hportals, hram, Function.update_idem, Function.update_apply]
    split_ifs
    · decide
    · exact fun h => by cases h
  obtain ⟨res₄, w₄, hadv₄, hidle₄, hcfg₄, -, hview₄⟩ := Router.registerMessenger_deposited
    (w := w₃) 1 Sample.block hidle₃ (Sample.parse_config Sample.messengerData_length) rfl rfl rfl rfl
    Sample.decode_messenger hnoportal
  have hrun₄ := Run.advance Sample.block _ hrun₃ hadv₄
  have hmessages : w₄.ledger.ram.messages = fun _ => none := by
    have h₄ : w₄.ledger.ram.messages = w₃.ledger.ram.messages :=
      congrArg (fun v : View => v.ram.messages) hview₄
    have h₃ : w₃.ledger.ram.messages = j.after.ledger.ram.messages :=
      congrArg (fun v : View => v.ram.messages) hview₃
    have h₂ : j.after.ledger.ram.messages = fun _ => none :=
      congrArg (fun v : View => v.ram.messages) hview
    rw [h₄, h₃, h₂]
  have htok : w₄.ledger.drive.tokens = [⟨Sample.token, 32⟩] := by
    have h₄ : w₄.ledger.drive.tokens = w₃.ledger.drive.tokens := congrArg View.tokens hview₄
    have h₃ : w₃.ledger.drive.tokens = j.after.ledger.drive.tokens := congrArg View.tokens hview₃
    have h₂ : j.after.ledger.drive.tokens = [⟨Sample.token, 32⟩] := congrArg View.tokens hview
    rw [h₄, h₃, h₂]
  have hheld : (w₄.ledger.view Sample.escrowViem).holdings 0 Sample.bob = 5 := by
    rw [hview₄]
    show (w₃.ledger.view Sample.escrowViem).holdings 0 Sample.bob = 5
    rw [hview₃]
    show (j.after.ledger.view Sample.escrowViem).holdings 0 Sample.bob = 5
    rw [hview]
    rfl
  obtain ⟨res₅, w₅, hadv₅, hacc₅, hlog⟩ := relayERC20_accepted (w := w₄) 1 Sample.alice Sample.block
    hidle₄ (hcfg₄.trans (hcfg₃.trans hcfg)) Sample.parse_relay rfl rfl rfl
    (congrArg (fun v : View => v.ram.crossDomainConfig) hview₄) rfl Sample.decode_relay
    Sample.message_version (by rw [hmessages]) rfl rfl rfl Sample.decode_finalize htok Sample.bob_ne
    (by rw [hheld]; exact fun h => absurd h (by norm_num)) (by rw [hheld]; norm_num)
  have hrun₅ := Run.advance Sample.block _ hrun₄ hadv₅
  refine ⟨_, _, hrun₅, ⟨j, by simp, hcredit⟩,
    ⟨⟨Sample.block, Sample.relayRaw, w₄, res₅, w₅⟩, by simp, ?_⟩⟩
  rw [Input.relayCredited, Sample.context_relay]
  simp only
  rw [if_pos hacc₅, relayCredit, Sample.relayed_relay]
  simp only
  rw [if_pos hlog, Sample.messageCredit_message]

end OpCartesi.App
