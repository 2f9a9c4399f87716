import OpCartesi.App.Conservation
import OpCartesi.App.Progress

/-!
# The supply of a token

The total the ledger keeps of a token in RAM is the sum of its balances, and both are what was
credited by ERC-20 portal deposits and relayed messages less what left in vouchers and outbound
messages.

* `View.Supply`: the invariant.
* `Accepted.supply`: what a handler that accepts does to every token's supply.
* `supply_exact`: the statement for whole runs.
-/

namespace OpCartesi.App

open Drive Exec

variable {ρ : Type} {V : Viem} {w w' : World ρ} {hist : List (Input ρ)} {v v' : View}
  {es : List Emission} {owner : Address} {ctx : TxContext} {s : BufferSink} {id : ℕ} {t : Token}
  {ram : Ram}

/-! ## What enters and leaves -/

/-- What an accepted call credits of `l1Token` as an ERC-20 portal deposit: a deposit from a
    registered ERC-20 portal to an address outside the manifest. -/
def portalCredit (ram : Ram) (ctx : TxContext) (l1Token : Address) : ℕ :=
  if ctx.isDeposit = true ∧ ctx.dest ∉ Router.manifestAddresses ∧
      ram.portals ctx.sender = some PORTAL_ERC20 ∧ PortalReceiver.addressAt ctx.data 0 = l1Token
  then PortalReceiver.uint256At ctx.data 40
  else 0

/-- The message a call to the messenger relays. -/
def Viem.relayed (V : Viem) (ctx : TxContext) : Option CrossDomainMessage :=
  if ctx.dest = L2_MESSENGER_ADDRESS then
    match V.decodeMessenger ctx.data with
    | some (.relayMessage m) => some m
    | _ => none
  else none

/-- What a relayed message credits of `l1Token`, once its relay has succeeded. -/
def Viem.messageCredit (V : Viem) (m : CrossDomainMessage) (l1Token : Address) : ℕ :=
  if m.target = L2_BRIDGE_ADDRESS then
    match V.decodeL2Bridge m.message with
    | some (.finalizeBridgeERC20 _ remoteToken _ _ amount _) =>
      if remoteToken = l1Token then amount else 0
    | _ => 0
  else 0

/-- The log of a relay that succeeded. -/
def relayLog (V : Viem) (m : CrossDomainMessage) : Emission :=
  logged L2_MESSENGER_ADDRESS (.relayedMessage (V.hashCrossDomainMessageV1 m) false)

/-- What an accepted call credits of `l1Token` by a relayed `finalizeBridgeERC20`. -/
def relayCredit (V : Viem) (ctx : TxContext) (es : List Emission) (l1Token : Address) : ℕ :=
  match V.relayed ctx with
  | some m => if relayLog V m ∈ es then V.messageCredit m l1Token else 0
  | none => 0

/-- What an output takes of `l1Token` to L1: a withdrawal voucher, or an outbound
    `finalizeBridgeERC20`. -/
def Emission.tokenOut (l1Token : Address) : Emission → ℕ
  | .voucher token _ (.transfer _ amount) => if token = l1Token then amount else 0
  | .notice (.withdrawal ⟨_, _, _, _, _,
      .relayMessage _ _ _ _ _ (.finalizeBridgeERC20 token _ _ _ amount _)⟩) =>
    if token = l1Token then amount else 0
  | _ => 0

def tokensOut (es : List Emission) (l1Token : Address) : ℕ :=
  (es.map (Emission.tokenOut l1Token)).sum

/-- What an input credits of `l1Token`; `ram` is the RAM it found. -/
def creditedBy (V : Viem) (ram : Ram) (block : BlockContext) (raw : Bytes) (res : AdvanceResult)
    (l1Token : Address) : ℕ :=
  match V.context block raw with
  | some ctx =>
    if res.outcome = .accept then
      portalCredit ram ctx l1Token + relayCredit V ctx res.emissions l1Token
    else 0
  | none => 0

def Input.credited (V : Viem) (l1Token : Address) (i : Input ρ) : ℕ :=
  creditedBy V i.before.ledger.ram i.block i.raw i.res l1Token

/-- What an input takes of `l1Token` to L1. -/
def Input.debited (l1Token : Address) (i : Input ρ) : ℕ := tokensOut i.res.emissions l1Token

/-! ## The invariant -/

/-- The registry's addresses are distinct, the totals are the sums of the balances, unregistered
    tokens have none, and the registered portals are of the two kinds. -/
structure View.Supply (v : View) : Prop where
  nodup : (v.tokens.map Token.address).Nodup
  totals : ∀ id, v.ram.totals id = total (v.holdings id)
  absent : ∀ id, v.tokens.length ≤ id → v.ram.totals id = 0
  kinds : ∀ a k, v.ram.portals a = some k → k = PORTAL_ETHER ∨ k = PORTAL_ERC20

/-- The total of the token with the L1 address `l1Token`. -/
def View.supplyOf (v : View) (l1Token : Address) : ℤ :=
  match tokenByAddress v.tokens l1Token with
  | some id => v.ram.totals id
  | none => 0

theorem tokenByAddress_eq_some {tokens : List Token} (h : (tokens.map Token.address).Nodup)
    {a : Address} :
    tokenByAddress tokens a = some id ↔ ∃ t, tokens[id]? = some t ∧ t.address = a := by
  constructor
  · intro hid
    obtain ⟨hlt, heq, -⟩ := List.findIdx?_eq_some_iff_getElem.1 hid
    exact ⟨_, List.getElem?_eq_getElem hlt, of_decide_eq_true heq⟩
  · rintro ⟨t, ht, rfl⟩
    obtain ⟨hlt, rfl⟩ := List.getElem?_eq_some_iff.1 ht
    refine List.findIdx?_eq_some_iff_getElem.2 ⟨hlt, decide_eq_true rfl, fun j hj => ?_⟩
    -- an earlier entry with the same address would repeat it
    have hj' : j < tokens.length := hj.trans hlt
    rw [decide_eq_true_eq]
    intro heq
    have hj₁ : j < (tokens.map Token.address).length := by simpa using hj'
    have hid₁ : id < (tokens.map Token.address).length := by simpa using hlt
    have hget : (tokens.map Token.address)[j] = (tokens.map Token.address)[id] := by simpa using heq
    have := (List.Nodup.getElem_inj_iff h).1 hget
    omega

namespace View.Supply

theorem supplyOf_token (h : v.Supply) (ht : v.tokens[id]? = some t) :
    v.supplyOf t.address = v.ram.totals id := by
  rw [supplyOf, (tokenByAddress_eq_some h.nodup).2 ⟨t, ht, rfl⟩]

/-- A change of one balance. -/
theorem addToken (h : v.Supply) (ht : v.tokens[id]? = some t) (a : Address) (delta : ℤ)
    (hd : 0 ≤ v.holdings id a + delta) :
    (v.addToken id a delta).Supply ∧ ∀ l1Token, (v.addToken id a delta).supplyOf l1Token =
      v.supplyOf l1Token + if t.address = l1Token then delta else 0 := by
  have hlt : id < v.tokens.length := (List.getElem?_eq_some_iff.1 ht).1
  refine ⟨⟨h.nodup, fun j => ?_, fun j hj => ?_, h.kinds⟩, fun l1Token => ?_⟩
  · show Function.update v.ram.totals id _ j = total (Function.update v.holdings id _ j)
    simp only [Function.update_apply]
    split_ifs with hj
    · rw [h.totals]
      exact (total_add (v.holdings id) a delta hd).symm
    · exact h.totals j
  · show Function.update v.ram.totals id _ j = 0
    have hj' : v.tokens.length ≤ j := hj
    rw [Function.update_of_ne (by omega)]
    exact h.absent j hj
  · show (match tokenByAddress v.tokens l1Token with
      | some j => Function.update v.ram.totals id (v.ram.totals id + delta) j
      | none => 0) = _
    rw [supplyOf]
    cases hfind : tokenByAddress v.tokens l1Token with
    | none =>
      have hne : t.address ≠ l1Token := by
        rintro rfl
        rw [(tokenByAddress_eq_some h.nodup).2 ⟨t, ht, rfl⟩] at hfind
        cases hfind
      rw [if_neg hne, Int.add_zero]
    | some j =>
      obtain ⟨t', ht', haddr⟩ := (tokenByAddress_eq_some h.nodup).1 hfind
      simp only [Function.update_apply]
      split_ifs with hj heq heq
      · rw [hj]
      · subst hj
        rw [ht] at ht'
        cases ht'
        exact absurd haddr heq
      · have := (tokenByAddress_eq_some h.nodup).2 ⟨t, ht, heq⟩
        rw [hfind] at this
        exact absurd (Option.some.inj this) hj
      · rw [Int.add_zero]

/-- A registration. -/
theorem addTokenType (h : v.Supply) {l1Token : Address} (hnew : l1Token ∉ v.tokens.map Token.address)
    (ram : Ram) (htotals : ram.totals = v.ram.totals) (hportals : ram.portals = v.ram.portals) :
    ({ v.addTokenType l1Token with ram := ram }).Supply ∧
      ∀ a, ({ v.addTokenType l1Token with ram := ram }).supplyOf a = v.supplyOf a := by
  have hnodup : ((v.tokens ++ [(⟨l1Token, 32⟩ : Token)]).map Token.address).Nodup := by
    rw [List.map_append, List.nodup_append]
    refine ⟨h.nodup, List.nodup_singleton _, fun a ha b hb => ?_⟩
    rintro rfl
    obtain rfl : a = l1Token := by simpa using hb
    exact hnew ha
  refine ⟨⟨hnodup, fun id => ?_, fun id hid => ?_, fun a k hk => ?_⟩, fun a => ?_⟩
  · show ram.totals id = _
    rw [htotals]
    exact h.totals id
  · have hid' : (v.tokens ++ [(⟨l1Token, 32⟩ : Token)]).length ≤ id := hid
    rw [List.length_append] at hid'
    show ram.totals id = 0
    rw [htotals]
    exact h.absent id (by omega)
  · rw [hportals] at hk
    exact h.kinds a k hk
  · show (match tokenByAddress (v.tokens ++ [⟨l1Token, 32⟩]) a with
      | some id => ram.totals id
      | none => 0) = _
    rw [supplyOf, htotals]
    cases hfind : tokenByAddress v.tokens a with
    | some id =>
      obtain ⟨t, ht, rfl⟩ := (tokenByAddress_eq_some h.nodup).1 hfind
      have hlt := (List.getElem?_eq_some_iff.1 ht).1
      rw [(tokenByAddress_eq_some hnodup).2 ⟨t, by rw [List.getElem?_append_left hlt]; exact ht, rfl⟩]
    | none =>
      cases hfind' : tokenByAddress (v.tokens ++ [⟨l1Token, 32⟩]) a with
      | none => rfl
      | some id =>
        -- only the new token can be found there, and it has no total yet
        obtain ⟨t, ht, rfl⟩ := (tokenByAddress_eq_some hnodup).1 hfind'
        refine h.absent id ?_
        by_contra hlt
        rw [List.getElem?_append_left (not_le.1 hlt)] at ht
        rw [(tokenByAddress_eq_some h.nodup).2 ⟨t, ht, rfl⟩] at hfind
        cases hfind

/-- The id of a token, registered if it is new, and a credit to it. -/
theorem credit (h : v.Supply) {l1Token : Address} (hid : v.TokenId l1Token id v') (a : Address)
    (amount : ℕ) :
    (v'.addToken id a amount).Supply ∧ ∀ l1, (v'.addToken id a amount).supplyOf l1 =
      v.supplyOf l1 + if l1Token = l1 then (amount : ℤ) else 0 := by
  cases hid with
  | known ht ha =>
    subst ha
    exact h.addToken ht a amount (by omega)
  | new hnew =>
    obtain ⟨h', hsame⟩ := h.addTokenType hnew v.ram rfl rfl
    have ht : (v.addTokenType l1Token).tokens[v.tokens.length]? = some ⟨l1Token, 32⟩ := by
      simp [View.addTokenType]
    obtain ⟨h'', hadd⟩ := h'.addToken ht a amount (by omega)
    refine ⟨h'', fun l1 => ?_⟩
    rw [← hsame l1]
    exact hadd l1

/-- A debit. -/
theorem debit (h : v.Supply) (ht : v.tokens[id]? = some t) (a : Address) {amount : ℕ}
    (hle : amount ≤ v.holdings id a) :
    (v.addToken id a (-amount)).Supply ∧ ∀ l1, (v.addToken id a (-amount)).supplyOf l1 =
      v.supplyOf l1 - if t.address = l1 then (amount : ℤ) else 0 := by
  obtain ⟨h', hadd⟩ := h.addToken ht a (-amount) (by omega)
  refine ⟨h', fun l1 => ?_⟩
  rw [hadd]
  split_ifs <;> ring

/-- A change of anything else. -/
theorem of_same (h : v.Supply) (v' : View) (htokens : v'.tokens = v.tokens)
    (htotals : v'.ram.totals = v.ram.totals) (hholdings : v'.holdings = v.holdings)
    (hkinds : ∀ a k, v'.ram.portals a = some k → k = PORTAL_ETHER ∨ k = PORTAL_ERC20) :
    v'.Supply ∧ ∀ l1, v'.supplyOf l1 = v.supplyOf l1 := by
  refine ⟨⟨htokens ▸ h.nodup, fun id => ?_, fun id hid => ?_, hkinds⟩, fun l1 => ?_⟩
  · rw [htotals, hholdings]
    exact h.totals id
  · rw [htotals]
    exact h.absent id (htokens ▸ hid)
  · rw [supplyOf, supplyOf, htokens, htotals]

end View.Supply

/-! ## Handlers -/

theorem relayCredit_of_ne (hne : ctx.dest ≠ L2_MESSENGER_ADDRESS) (l1Token : Address) :
    relayCredit V ctx es l1Token = 0 := by
  rw [relayCredit, Viem.relayed, if_neg hne]

theorem portalCredit_of_mem (h : ctx.dest ∈ Router.manifestAddresses) (l1Token : Address) :
    portalCredit ram ctx l1Token = 0 := by
  rw [portalCredit, if_neg fun h' => h'.2.1 h]

/-- The credit of a call to the messenger. -/
theorem relayCredit_of_call {m : CrossDomainMessage} (hdest : ctx.dest = L2_MESSENGER_ADDRESS)
    (hcall : V.decodeMessenger ctx.data = some (.relayMessage m)) (l1Token : Address) :
    relayCredit V ctx es l1Token = if relayLog V m ∈ es then V.messageCredit m l1Token else 0 := by
  rw [relayCredit, Viem.relayed, if_pos hdest, hcall]

theorem messenger_mem : L2_MESSENGER_ADDRESS ∈ Router.manifestAddresses := by
  simp [Router.manifestAddresses]

/-- The manifest without the messenger. -/
def plainAddresses : List Address :=
  [REGISTRY_ADDRESS, BRIDGE_ADDRESS, CONFIG_ADDRESS, L1BLOCK_ADDRESS, L2_BRIDGE_ADDRESS,
    MESSAGE_PASSER_ADDRESS]

theorem plain_spec : ∀ a ∈ plainAddresses,
    a ∈ Router.manifestAddresses ∧ a ≠ L2_MESSENGER_ADDRESS := by
  intro a ha
  simp only [plainAddresses, List.mem_cons, List.not_mem_nil, or_false] at ha
  rcases ha with rfl | rfl | rfl | rfl | rfl | rfl
  all_goals
    exact ⟨by simp [Router.manifestAddresses],
      addressOf_ne (by norm_num) (by norm_num) (by norm_num)⟩

/-- The dispatch of a message credits what the message says. -/
theorem Relayed.supply {m : CrossDomainMessage} {cd : CrossDomainConfig}
    (hs : v.Supply) (h : Relayed V m cd v v' es) :
    v'.Supply ∧ (∀ l1, v'.supplyOf l1 = v.supplyOf l1 + V.messageCredit m l1) ∧
      ∀ l1, tokensOut es l1 = 0 := by
  cases h with
  | erc20 remoteToken sender dest amount extraData id v₁ htarget hsender hcall hvalue hid =>
    obtain ⟨hs', hadd⟩ := hs.credit hid dest amount
    refine ⟨hs', fun l1 => ?_, fun l1 => rfl⟩
    rw [hadd, Viem.messageCredit, if_pos htarget, hcall]
    simp only
    split_ifs <;> rfl
  | ether sender dest extraData htarget hsender hcall hle =>
    refine ⟨⟨hs.nodup, hs.totals, hs.absent, hs.kinds⟩, fun l1 => ?_, fun l1 => rfl⟩
    rw [Viem.messageCredit, if_pos htarget, hcall]
    exact (Int.add_zero _).symm
  | plain htarget hmessage hle =>
    refine ⟨⟨hs.nodup, hs.totals, hs.absent, hs.kinds⟩, fun l1 => ?_, fun l1 => rfl⟩
    rw [Viem.messageCredit, if_neg htarget]
    exact (Int.add_zero _).symm

theorem tokensOut_append (es es' : List Emission) (l1 : Address) :
    tokensOut (es ++ es') l1 = tokensOut es l1 + tokensOut es' l1 := by
  rw [tokensOut, List.map_append, List.sum_append]
  rfl

/-- A call that is neither a portal deposit nor a relay credits nothing. -/
theorem credit_eq_zero (hdest : ctx.dest ≠ L2_MESSENGER_ADDRESS)
    (hportal : ctx.dest ∉ Router.manifestAddresses → ctx.isDeposit = true →
      ram.portals ctx.sender ≠ some PORTAL_ERC20) (l1 : Address) :
    portalCredit ram ctx l1 + relayCredit V ctx es l1 = 0 := by
  rw [relayCredit_of_ne hdest, portalCredit, if_neg fun h => hportal h.2.1 h.1 h.2.2.1]

/-- What a handler that accepts does to every token's supply. -/
theorem Accepted.supply (hs : v.Supply) (h : Accepted V owner ctx s v v' es) :
    v'.Supply ∧ ∀ l1, v'.supplyOf l1 =
      v.supplyOf l1 + (portalCredit v.ram ctx l1 + relayCredit V ctx es l1 : ℕ) -
        tokensOut es l1 := by
  -- the calls to the other manifest addresses
  have hfixed : ∀ a, ctx.dest = a → a ∈ plainAddresses →
      ∀ l1, portalCredit v.ram ctx l1 + relayCredit V ctx es l1 = 0 := by
    rintro a rfl hplain
    obtain ⟨hmem, hne⟩ := plain_spec _ hplain
    exact credit_eq_zero hne fun hout => absurd hmem hout
  have hout : ctx.dest ∉ Router.manifestAddresses → ctx.dest ≠ L2_MESSENGER_ADDRESS := by
    intro hout heq
    exact hout (heq ▸ messenger_mem)
  have hkept (htokens : v'.tokens = v.tokens) (htotals : v'.ram.totals = v.ram.totals)
      (hholdings : v'.holdings = v.holdings) (hportals : v'.ram.portals = v.ram.portals)
      (hcredit : ∀ l1, portalCredit v.ram ctx l1 + relayCredit V ctx es l1 = 0)
      (hes : ∀ l1, tokensOut es l1 = 0) : v'.Supply ∧ ∀ l1, v'.supplyOf l1 = v.supplyOf l1 +
        (portalCredit v.ram ctx l1 + relayCredit V ctx es l1 : ℕ) - tokensOut es l1 := by
    obtain ⟨hs', hsame⟩ := hs.of_same v' htokens htotals hholdings (hportals ▸ hs.kinds)
    refine ⟨hs', fun l1 => ?_⟩
    rw [hsame, hcredit, hes, Nat.cast_zero, add_zero, sub_zero]
  cases h with
  | withdrawEther dest nonce hdest hcall hle hn =>
    exact hkept rfl rfl rfl rfl (hfixed _ hdest (by simp [plainAddresses])) fun l1 => rfl
  | withdrawERC20 l2Token dest amount id t hdest hcall hcd ht hle =>
    obtain ⟨hs', hdebit⟩ := hs.debit ht.2 ctx.sender hle
    refine ⟨hs', fun l1 => ?_⟩
    rw [hdebit, hfixed _ hdest (by simp [plainAddresses])]
    simp [tokensOut, Emission.tokenOut, logged]
  | registerPortal kind portal hdest hcall howner hkind hcd =>
    have hkinds : ∀ a k, Function.update v.ram.portals (applyL1ToL2Alias portal) (some kind) a =
        some k → k = PORTAL_ETHER ∨ k = PORTAL_ERC20 := by
      intro a k
      rw [Function.update_apply]
      split_ifs
      · rintro ⟨⟩
        exact hkind
      · exact hs.kinds a k
    refine ⟨⟨hs.nodup, hs.totals, hs.absent, hkinds⟩, fun l1 => ?_⟩
    rw [hfixed _ hdest (by simp [plainAddresses])]
    simp [tokensOut, Emission.tokenOut, logged, View.supplyOf]
  | registerToken l1Token m hdest howner hnew =>
    obtain ⟨hs', hsame⟩ := hs.addTokenType hnew (Ledger.metadataRam v.ram v.tokens.length (some m))
      rfl rfl
    refine ⟨hs', fun l1 => ?_⟩
    rw [hsame, hfixed _ hdest (by simp [plainAddresses])]
    simp [tokensOut, Emission.tokenOut, logged]
  | relayed m cd v₁ es₁ hdest hcd hcall href hrel =>
    obtain ⟨hs₁, hadd, hzero⟩ := hrel.supply hs
    obtain ⟨hs', hsame⟩ := hs₁.of_same
      (v₁.setStatus (V.hashCrossDomainMessageV1 m) .successful) rfl rfl rfl hs₁.kinds
    refine ⟨hs', fun l1 => ?_⟩
    have hmem : relayLog V m ∈ es₁ ++ [relayLog V m] := by simp
    rw [portalCredit_of_mem (hdest ▸ messenger_mem), relayCredit_of_call hdest hcall, hsame, hadd]
    rw [relayLog] at hmem
    rw [relayLog, if_pos hmem, tokensOut_append, hzero]
    simp [tokensOut, Emission.tokenOut, logged]
  | relayFailed m cd hdest hcd hcall href =>
    obtain ⟨hs', hsame⟩ := hs.of_same
      (v.setStatus (V.hashCrossDomainMessageV1 m) .failed) rfl rfl rfl hs.kinds
    refine ⟨hs', fun l1 => ?_⟩
    rw [portalCredit_of_mem (hdest ▸ messenger_mem), relayCredit_of_call hdest hcall, hsame,
      if_neg (by simp [relayLog, logged])]
    simp [tokensOut, Emission.tokenOut, logged]
  | bridged cd localToken dest amount minGasLimit extraData id t nonce hdest hcd ht hle hn =>
    obtain ⟨hs₁, hdebit⟩ := hs.debit ht.2 ctx.sender hle
    obtain ⟨hs', hsame⟩ := hs₁.of_same
      ((v.addToken id ctx.sender (-amount)).countMessage) rfl rfl rfl hs₁.kinds
    refine ⟨hs', fun l1 => ?_⟩
    rw [hsame, hdebit, hfixed _ hdest (by simp [plainAddresses])]
    simp [tokensOut, Emission.tokenOut, logged, sent, passed]
  | portalEther hmanifest hdep hportal hlen hle =>
    exact hkept rfl rfl rfl rfl
      (credit_eq_zero (hout hmanifest) fun _ _ => by rw [hportal]; decide) fun l1 => rfl
  | portalERC20 kind id v₁ hmanifest hdep hportal hkind hlen hid =>
    obtain ⟨hs', hadd⟩ := hs.credit hid (PortalReceiver.addressAt ctx.data 20)
      (PortalReceiver.uint256At ctx.data 40)
    refine ⟨hs', fun l1 => ?_⟩
    have hk : kind = PORTAL_ERC20 := (hs.kinds _ _ hportal).resolve_left hkind
    rw [hadd, relayCredit_of_ne (hout hmanifest), portalCredit]
    simp only [hdep, hmanifest, hportal, hk, true_and, not_false_eq_true]
    split_ifs <;> simp [tokensOut, Emission.tokenOut, logged]
  | transferERC20 dest value id t hmanifest hportal ht hle =>
    obtain ⟨hs₁, hdebit⟩ := hs.debit ht.2 ctx.sender hle
    obtain ⟨hs', hadd⟩ := hs₁.addToken (v := v.addToken id ctx.sender (-value)) ht.2 dest value
      (by omega)
    refine ⟨hs', fun l1 => ?_⟩
    rw [hadd, hdebit, credit_eq_zero (hout hmanifest) fun _ hd => by rw [hportal hd]; simp]
    simp [tokensOut, Emission.tokenOut, logged]
  | unrouted hmanifest hportal =>
    exact hkept rfl rfl rfl rfl
      (credit_eq_zero (hout hmanifest) fun _ hd => by rw [hportal hd]; simp) fun l1 => rfl
  | withdrawal target gasLimit nonce data hdest hle hn =>
    exact hkept rfl rfl rfl rfl (hfixed _ hdest (by simp [plainAddresses])) fun l1 => rfl
  | setFee fee hdest howner =>
    exact hkept rfl rfl rfl rfl (hfixed _ hdest (by simp [plainAddresses])) fun l1 => rfl
  | registerMessenger l1Messenger l1Bridge hdest howner hportal =>
    exact hkept rfl rfl rfl rfl (hfixed _ hdest (by simp [plainAddresses])) fun l1 => rfl
  | setTokenMetadata id m hdest howner =>
    exact hkept rfl rfl rfl rfl (hfixed _ hdest (by simp [plainAddresses])) fun l1 => rfl
  | attributes hdest =>
    exact hkept rfl rfl rfl rfl (hfixed _ hdest (by simp [plainAddresses])) fun l1 => rfl

/-! ## Inputs -/

theorem tokensOut_eq_zero_of_reports (h : ∀ e ∈ es, e.isReport = true) (l1 : Address) :
    tokensOut es l1 = 0 := by
  refine List.sum_eq_zero fun n hn => ?_
  obtain ⟨e, he, rfl⟩ := List.mem_map.1 hn
  cases e with
  | report tag payload => rfl
  | _ => cases h _ he

theorem View.Supply.addEther (h : v.Supply) (a : Address) (delta : ℤ) :
    (v.addEther a delta).Supply ∧ ∀ l1, (v.addEther a delta).supplyOf l1 = v.supplyOf l1 :=
  h.of_same _ rfl rfl rfl h.kinds

/-- An input that is not accepted credits nothing. -/
theorem creditedBy_of_ne {block : BlockContext} {raw : Bytes} {res : AdvanceResult}
    (h : res.outcome ≠ .accept) (l1 : Address) : creditedBy V ram block raw res l1 = 0 := by
  unfold creditedBy
  split
  · exact if_neg h
  · rfl

/-- What an input does to every token's supply. -/
theorem Effect.supply {block : BlockContext} {raw : Bytes} {res : AdvanceResult} (hs : v.Supply)
    (h : Effect V owner block raw v res v') :
    v'.Supply ∧ ∀ l1, v'.supplyOf l1 =
      v.supplyOf l1 + creditedBy V v.ram block raw res l1 - tokensOut res.emissions l1 := by
  cases h with
  | unparsed hp =>
    refine ⟨hs, fun l1 => ?_⟩
    rw [creditedBy_of_ne (by simp)]
    simp [tokensOut, Emission.tokenOut]
  | rejected reason =>
    refine ⟨hs, fun l1 => ?_⟩
    rw [creditedBy_of_ne (by simp [Router.rejected])]
    simp [tokensOut, Router.rejected]
  | created d hp hdest =>
    obtain ⟨hs', hsame⟩ := hs.addEther d.sender d.mint
    refine ⟨hs', fun l1 => ?_⟩
    rw [hsame]
    simp [creditedBy, Viem.context, hp, hdest, tokensOut]
  | minted d res hp hres =>
    obtain ⟨hs', hsame⟩ := hs.addEther d.sender d.mint
    refine ⟨hs', fun l1 => ?_⟩
    rw [hsame, creditedBy_of_ne (by simp [hres.outcome]), tokensOut_eq_zero_of_reports hres.reports]
    simp
  | charged tx sender res hp hsigner hfee hres =>
    obtain ⟨hs', hsame⟩ := hs.addEther sender (-v.ram.fee)
    refine ⟨hs', fun l1 => ?_⟩
    rw [hsame, creditedBy_of_ne (by simp [hres.outcome]), tokensOut_eq_zero_of_reports hres.reports]
    simp
  | called ctx v₁ es hctx hvalue hacc hfee =>
    -- the mint, the transfer and the fee leave every supply as it is
    obtain ⟨hs₁, hsame₁⟩ := hs.of_same (v.entry ctx) rfl rfl rfl hs.kinds
    obtain ⟨hs₂, hadd⟩ := hacc.supply hs₁
    have hexit : (v₁.exit ctx v.ram.fee).Supply ∧
        ∀ l1, (v₁.exit ctx v.ram.fee).supplyOf l1 = v₁.supplyOf l1 := by
      unfold View.exit
      split_ifs
      · exact ⟨hs₂, fun _ => rfl⟩
      · exact hs₂.addEther ctx.sender (-v.ram.fee)
    refine ⟨hexit.1, fun l1 => ?_⟩
    rw [hexit.2, hadd l1, hsame₁]
    simp only [creditedBy, hctx, if_true]
    rfl

/-! ## Runs -/

theorem View.supply_empty : View.Supply ⟨fun _ => 0, fun _ _ => 0, [], Ram.new⟩ :=
  ⟨List.nodup_nil, fun _ => total_zero.symm, fun _ _ => rfl, fun _ _ h => by cases h⟩

theorem Run.supply {chainId : ℕ} (h : Run V (Router.new V chainId owner) hist w) :
    (w.ledger.view V).Supply ∧ ∀ l1, (w.ledger.view V).supplyOf l1 =
      ((hist.map (Input.credited V l1)).sum : ℤ) - (hist.map (Input.debited l1)).sum := by
  refine h.view_induction (P := fun hist v => v.Supply ∧ ∀ l1, v.supplyOf l1 =
      ((hist.map (Input.credited V l1)).sum : ℤ) - (hist.map (Input.debited l1)).sum)
    ⟨View.supply_empty, fun l1 => rfl⟩ ?_
  rintro hist i ⟨hs, hsum⟩ heff
  obtain ⟨hs', hadd⟩ := heff.supply hs
  refine ⟨hs', fun l1 => ?_⟩
  rw [hadd, hsum, List.map_append, List.map_append, List.sum_append, List.sum_append,
    List.map_singleton, List.map_singleton, List.sum_singleton, List.sum_singleton, Input.credited,
    Input.debited]
  push_cast
  show _ + (creditedBy V i.before.ledger.ram i.block i.raw i.res l1 : ℤ) - _ = _
  ring

/-- The supply of every registered token, in every run of the built-in handlers: the total in
    RAM, the sum of the balances, and what was credited less what left. -/
theorem supply_exact {chainId : ℕ} (h : Run V (Router.new V chainId owner) hist w) {id : ℕ}
    {t : Token} (ht : w.ledger.drive.tokens[id]? = some t) :
    w.ledger.totalSupply id = total ((w.ledger.view V).holdings id) ∧
    w.ledger.totalSupply id = ((hist.map (Input.credited V t.address)).sum : ℤ) -
      (hist.map (Input.debited t.address)).sum := by
  obtain ⟨hs, hsum⟩ := h.supply
  refine ⟨hs.totals id, ?_⟩
  rw [← hsum]
  exact (hs.supplyOf_token ht).symm

theorem supply_exact_sample : ∃ (hist : List (Input Unit)) (w : World Unit),
    Run Sample.erc20Viem Sample.erc20Router hist w ∧
    w.ledger.totalSupply 0 = 5 ∧
    w.ledger.totalSupply 0 = total ((w.ledger.view Sample.erc20Viem).holdings 0) ∧
    w.ledger.totalSupply 0 = ((hist.map (Input.credited Sample.erc20Viem Sample.token)).sum : ℤ) -
      (hist.map (Input.debited Sample.token)).sum := by
  obtain ⟨i, res, w', hrun, hadv, -, hview⟩ := Sample.erc20_run
  have hrun' := Run.advance Sample.block Sample.erc20Raw hrun hadv
  have ht : w'.ledger.drive.tokens[0]? = some ⟨Sample.token, 32⟩ :=
    congrArg (fun v : View => v.tokens[0]?) hview
  have hsupply : w'.ledger.totalSupply 0 = 5 := congrArg (fun v : View => v.ram.totals 0) hview
  obtain ⟨hbalances, hflow⟩ := supply_exact hrun' ht
  exact ⟨_, w', hrun', hsupply, hbalances, hflow⟩

end OpCartesi.App
