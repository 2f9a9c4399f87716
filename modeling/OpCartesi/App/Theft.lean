import OpCartesi.App.Relay

/-!
# Who pays

An account outside the manifest pays for nothing but its own inputs, except through the ether
portal: a portal deposit moves its amount out of the account it is addressed to, whatever value
came with it.

* `Accepted.holdings_ge`, `Accepted.balances_ge`: what a handler that accepts may take.
* `Overdraws`: a portal deposit that takes more than it brought.
* `no_theft`: the statement for runs without such deposits.
-/

namespace OpCartesi.App

open Drive Exec

variable {ρ : Type} {V : Viem} {w w' : World ρ} {hist : List (Input ρ)} {v v' : View}
  {es : List Emission} {owner : Address} {ctx : TxContext} {s : BufferSink}
  {block : BlockContext} {raw : Bytes} {res : AdvanceResult} {a : Address}

/-! ## What a handler takes -/

theorem View.le_addToken (id j : ℕ) (a b : Address) (n : ℕ) (v : View) :
    v.holdings j b ≤ (v.addToken id a n).holdings j b := by
  simp only [addToken, Function.update_apply]
  split_ifs with hj
  · subst hj
    simp only [Function.update_apply]
    split_ifs with hb
    · rw [hb]
      omega
    · exact le_refl _
  · exact le_refl _

theorem View.addToken_of_ne {a b : Address} (h : b ≠ a) (id j : ℕ) (delta : ℤ) (v : View) :
    (v.addToken id a delta).holdings j b = v.holdings j b := by
  simp only [addToken, Function.update_apply]
  split_ifs with hj
  · rw [Function.update_of_ne h, hj]
  · rfl

/-- Only the sender's tokens are taken. -/
theorem Accepted.holdings_ge (h : Accepted V owner ctx s v v' es) (ha : a ≠ ctx.sender) (id : ℕ) :
    v.holdings id a ≤ v'.holdings id a := by
  have hcredit : ∀ {l1Token : Address} {j : ℕ} {v₁ : View} (dest : Address) (amount : ℕ),
      v.TokenId l1Token j v₁ → v.holdings id a ≤ (v₁.addToken j dest amount).holdings id a := by
    intro l1Token j v₁ dest amount hid
    cases hid <;> exact View.le_addToken _ _ _ _ _ _
  cases h with
  | withdrawERC20 l2Token dest amount id' t =>
    rw [View.addToken_of_ne ha]
  | bridged cd localToken dest amount minGasLimit extraData id' t nonce =>
    exact (View.addToken_of_ne ha _ _ _ _).ge
  | transferERC20 dest value id' t =>
    refine le_trans ?_ (View.le_addToken _ _ _ _ _ _)
    rw [View.addToken_of_ne ha]
  | portalERC20 kind id' v₁ hmanifest hdep hportal hkind hlen hid => exact hcredit _ _ hid
  | relayed m cd v₁ es₁ hdest hcd hcall href hrel =>
    cases hrel with
    | erc20 remoteToken sender dest amount extraData id' v₂ htarget hsender hcall' hvalue hid =>
      exact hcredit _ _ hid
    | _ => exact le_refl _
  | _ => exact le_refl _

/-- A call to the portal receiver for ether. -/
structure EtherDeposit (v : View) (ctx : TxContext) : Prop where
  deposit : ctx.isDeposit = true
  manifest : ctx.dest ∉ Router.manifestAddresses
  portal : v.ram.portals ctx.sender = some PORTAL_ETHER
  length : 52 ≤ ctx.data.length
  covered : PortalReceiver.uint256At ctx.data 20 ≤ v.balances ctx.dest

/-- Outside the manifest, ether is taken by an ether portal deposit only, and only from the
    account it is addressed to. -/
theorem Accepted.balances_ge (h : Accepted V owner ctx s v v' es)
    (ha : a ∉ Router.manifestAddresses) :
    v.balances a ≤ v'.balances a ∨
    EtherDeposit v ctx ∧ a = ctx.dest ∧
      (PortalReceiver.addressAt ctx.data 0 = ctx.dest → v.balances a ≤ v'.balances a) ∧
      v.balances a ≤ v'.balances a + PortalReceiver.uint256At ctx.data 20 := by
  have hne : ∀ {b : Address}, b ∈ Router.manifestAddresses → a ≠ b := by
    rintro b hb rfl
    exact ha hb
  have hmessenger := hne messenger_mem
  have hmove : ∀ (dest : Address) (n : ℕ), v.balances a ≤
      ((v.addEther L2_MESSENGER_ADDRESS (-n)).addEther dest n).balances a := by
    intro dest n
    rw [← View.addEther_of_ne hmessenger (-n) v]
    exact View.le_addEther _ _ _ _
  cases h with
  | withdrawEther dest nonce hdest =>
    refine Or.inl (View.addEther_of_ne ?_ _ _).ge
    rw [hdest]
    exact hne (by simp [Router.manifestAddresses])
  | withdrawal target gasLimit nonce data hdest =>
    refine Or.inl (View.addEther_of_ne ?_ _ _).ge
    rw [hdest]
    exact hne (by simp [Router.manifestAddresses])
  | relayed m cd v₁ es₁ hdest hcd hcall href hrel =>
    left
    cases hrel with
    | erc20 remoteToken sender dest amount extraData id v₂ htarget hsender hcall' hvalue hid =>
      cases hid <;> exact le_refl _
    | ether sender dest => exact hmove dest m.value
    | plain => exact hmove m.target m.value
  | portalEther hmanifest hdep hportal hlen hle =>
    by_cases hdest : a = ctx.dest
    · refine Or.inr ⟨⟨hdep, hmanifest, hportal, hlen, hle⟩, hdest, fun hben => ?_, ?_⟩
      · rw [hben, hdest, View.addEther_self, View.addEther_self]
        omega
      · refine (View.le_addEther_neg ctx.dest a (PortalReceiver.uint256At ctx.data 20) v).trans ?_
        exact Nat.add_le_add_right (View.le_addEther _ _ _ _) _
    · left
      rw [← View.addEther_of_ne hdest (-PortalReceiver.uint256At ctx.data 20) v]
      exact View.le_addEther _ _ _ _
  | portalERC20 kind id v₁ hmanifest hdep hportal hkind hlen hid =>
    cases hid <;> exact Or.inl (le_refl _)
  | _ => exact Or.inl (le_refl _)

/-! ## What an input takes -/

/-- The value an input moves. -/
def Viem.value (V : Viem) (raw : Bytes) : ℕ :=
  match V.parseInput raw with
  | .deposit d => d.value
  | .signed tx => tx.value
  | _ => 0

/-- An account's ether decreases only if it sent the input, by no more than value and fee, or
    has a handler of the manifest; its tokens decrease only if it sent the input. -/
structure NoTheft (V : Viem) (raw : Bytes) (v v' : View) : Prop where
  ether : ∀ a, v'.balances a < v.balances a →
    V.sender raw = some a ∧ (v.balances a : ℤ) ≤ v'.balances a + V.value raw + V.fee v raw ∨
      a ∈ Router.manifestAddresses
  token : ∀ id a, v'.holdings id a < v.holdings id a → V.sender raw = some a

/-- A deposit of a registered ether portal, to an address outside the manifest that can pay it,
    that credits somebody else with more than its value came to. -/
structure Overdraws (v : View) (ctx : TxContext) : Prop extends EtherDeposit (v.entry ctx) ctx where
  other : PortalReceiver.addressAt ctx.data 0 ≠ ctx.dest
  more : (if ctx.dest = ctx.sender then ctx.mint + ctx.value else ctx.value) <
    PortalReceiver.uint256At ctx.data 20

theorem View.entry_other (ha : a ≠ ctx.sender) (v : View) :
    v.balances a + (if a = ctx.dest then ctx.value else 0) ≤ (v.entry ctx).balances a := by
  rw [entry, moveEther]
  by_cases hd : a = ctx.dest
  · rw [if_pos hd, hd, addEther_self, ← hd, addEther_of_ne ha, addEther_of_ne ha]
    omega
  · rw [if_neg hd, addEther_of_ne hd, addEther_of_ne ha, addEther_of_ne ha, Nat.add_zero]

theorem View.entry_sender (hvalue : ctx.value ≤ (v.addEther ctx.sender ctx.mint).balances ctx.sender) :
    v.balances ctx.sender + ctx.mint ≤ (v.entry ctx).balances ctx.sender +
      (if ctx.dest = ctx.sender then 0 else ctx.value) := by
  rw [addEther_self] at hvalue
  rw [entry, moveEther]
  by_cases hd : ctx.dest = ctx.sender
  · rw [if_pos hd, hd, addEther_self, addEther_self, addEther_self]
    omega
  · rw [if_neg hd, addEther_of_ne (Ne.symm hd), addEther_self, addEther_self]
    omega

/-- A call that does not overdraw takes no more than the value from its sender. -/
theorem Accepted.sender_pays (h : Accepted V owner ctx s (v.entry ctx) v' es)
    (hvalue : ctx.value ≤ (v.addEther ctx.sender ctx.mint).balances ctx.sender)
    (hover : ¬Overdraws v ctx) (hman : ctx.sender ∉ Router.manifestAddresses) :
    v.balances ctx.sender ≤ v'.balances ctx.sender + ctx.value := by
  have hentry := View.entry_sender hvalue
  rcases h.balances_ge hman with hge | ⟨hdep, hdest, hben, hamount⟩
  · split_ifs at hentry <;> omega
  · rw [if_pos hdest.symm] at hentry
    by_cases hb : PortalReceiver.addressAt ctx.data 0 = ctx.dest
    · have := hben hb
      omega
    · have hmore := not_lt.1 fun hmore => hover ⟨hdep, hb, hmore⟩
      rw [if_pos hdest.symm] at hmore
      omega

/-- A call that does not overdraw takes nothing from anybody else. -/
theorem Accepted.others_keep (h : Accepted V owner ctx s (v.entry ctx) v' es)
    (hover : ¬Overdraws v ctx) (ha : a ≠ ctx.sender) (hman : a ∉ Router.manifestAddresses) :
    v.balances a ≤ v'.balances a := by
  have hentry := View.entry_other ha v
  rcases h.balances_ge hman with hge | ⟨hdep, hdest, hben, hamount⟩
  · omega
  · by_cases hb : PortalReceiver.addressAt ctx.data 0 = ctx.dest
    · have := hben hb
      omega
    · have hmore := not_lt.1 fun hmore => hover ⟨hdep, hb, hmore⟩
      rw [if_neg fun hd => ha (hdest.trans hd)] at hmore
      rw [if_pos hdest] at hentry
      omega

theorem View.exit_of_ne (ha : a ≠ ctx.sender) (fee : ℤ) (v : View) :
    (v.exit ctx fee).balances a = v.balances a := by
  unfold exit
  split_ifs
  · rfl
  · exact addEther_of_ne ha _ _

/-- Value and fee of a call. -/
theorem context_costs (h : V.context block raw = some ctx) (v : View) :
    V.value raw = ctx.value ∧ V.fee v raw = if ctx.isDeposit = true then 0 else v.ram.fee := by
  rcases context_eq_some h with ⟨d, dest, hp, rfl⟩ | ⟨tx, sender, dest, hp, -, rfl⟩
  · rw [Viem.value, Viem.fee, hp]
    exact ⟨rfl, rfl⟩
  · rw [Viem.value, Viem.fee, hp]
    exact ⟨rfl, rfl⟩

/-- An input that only credits. -/
theorem NoTheft.of_le (hether : ∀ a, v.balances a ≤ v'.balances a)
    (htoken : v'.holdings = v.holdings) : NoTheft V raw v v' :=
  ⟨fun a h => absurd h (hether a).not_gt, fun _ _ h => absurd h (htoken ▸ lt_irrefl _)⟩

/-- What an input may take, when it does not overdraw. -/
theorem Effect.takes_own (h : Effect V owner block raw v res v')
    (hcond : ∀ ctx, V.context block raw = some ctx → ¬Overdraws v ctx) : NoTheft V raw v v' := by
  cases h with
  | unparsed hp => exact .of_le (fun _ => le_refl _) rfl
  | rejected reason => exact .of_le (fun _ => le_refl _) rfl
  | created d hp hdest => exact .of_le (fun _ => View.le_addEther _ _ _ _) rfl
  | minted d res hp hres => exact .of_le (fun _ => View.le_addEther _ _ _ _) rfl
  | charged tx sender res hp hsigner hfee hres =>
    refine ⟨fun a h => ?_, fun id a h => absurd h (lt_irrefl _)⟩
    by_cases ha : a = sender
    · subst ha
      refine Or.inl ⟨by rw [Viem.sender, hp]; exact hsigner, ?_⟩
      rw [View.addEther_self, Viem.value, Viem.fee, hp]
      simp only
      omega
    · rw [View.addEther_of_ne ha] at h
      exact absurd h (lt_irrefl _)
  | called ctx v₁ es hctx hvalue hacc hfee =>
    have hsend := context_sender hctx
    have hover := hcond ctx hctx
    constructor
    · intro a h
      by_cases hman : a ∈ Router.manifestAddresses
      · exact Or.inr hman
      by_cases ha : a = ctx.sender
      · subst ha
        refine Or.inl ⟨hsend, ?_⟩
        have hcall := hacc.sender_pays hvalue hover hman
        rw [(context_costs hctx v).1, (context_costs hctx v).2, View.exit]
        split_ifs with hdep
        · omega
        · have hfee' := hfee (by simpa using hdep)
          rw [View.addEther_self]
          omega
      · rw [View.exit_of_ne ha] at h
        exact absurd h (hacc.others_keep hover ha hman).not_gt
    · intro id a h
      rw [View.exit_holdings] at h
      by_contra hne
      have ha : a ≠ ctx.sender := by
        rintro rfl
        exact hne hsend
      exact absurd h (hacc.holdings_ge ha id).not_gt

/-- In every run of the built-in handlers none of whose inputs overdraws, no input steals. -/
theorem no_theft {chainId : ℕ} (h : Run V (Router.new V chainId owner) hist w)
    (hcond : ∀ i ∈ hist, ∀ ctx, V.context i.block i.raw = some ctx →
      ¬Overdraws (i.before.ledger.view V) ctx) :
    ∀ i ∈ hist, NoTheft V i.raw (i.before.ledger.view V) (i.after.ledger.view V) :=
  fun i hi => (h.effect_of_mem hi).takes_own (hcond i hi)

/-! ## A chain with an ether portal -/

namespace Sample

abbrev etherViem : Viem := portalViem PORTAL_ETHER

abbrev etherRouter : Router Unit := Router.new etherViem 1 alice

/-- The ether portal is registered, and `bob` deposits 5 wei. -/
theorem fund_run : ∃ i j : Input Unit,
    i.raw = registerRaw PORTAL_ETHER ∧ j.raw = fundRaw ∧
    Run etherViem etherRouter [i, j] j.after ∧
    j.after.ledger.Ready etherViem 2 ∧
    j.after.ledger.view etherViem = (registered PORTAL_ETHER).addEther bob (5 : ℕ) := by
  obtain ⟨i, -, hraw, hrun, hready, hview⟩ := register_run (Or.inl rfl)
  obtain ⟨res, w', hadv, hready', hview'⟩ := Router.created_accepted
    (r := etherRouter) block hready (by norm_num) (parse_fund PORTAL_ETHER) rfl bob_ne
    (by rw [hview]; norm_num [registered])
  rw [hview] at hview'
  exact ⟨i, ⟨block, fundRaw, i.after, res, w'⟩, hraw, rfl, hrun.advance block fundRaw hadv, hready',
    hview'⟩

end Sample

theorem no_theft_sample : ∃ (hist : List (Input Unit)) (w : World Unit),
    Run Sample.etherViem Sample.etherRouter hist w ∧ hist.length = 2 ∧
    ∀ i ∈ hist, NoTheft Sample.etherViem i.raw (i.before.ledger.view Sample.etherViem)
      (i.after.ledger.view Sample.etherViem) := by
  obtain ⟨i, j, hi, hj, hrun, -⟩ := Sample.fund_run
  refine ⟨[i, j], j.after, hrun, rfl, no_theft hrun fun k hk ctx hctx hover => ?_⟩
  rcases List.mem_pair.1 hk with rfl | rfl
  · rcases context_eq_some hctx with ⟨d, dest, hp, -⟩ | ⟨tx, sender, dest, -, -, rfl⟩
    · rw [hi, Sample.parse_register] at hp
      cases hp
    · -- a signed transaction is no deposit
      cases hover.deposit
  · rw [Viem.context, hj, Sample.parse_fund] at hctx
    cases hctx

/-- The portal deposits 5 wei for `carol` through `bob`'s address, without value: they are
    `bob`'s. -/
theorem theft : ∃ (hist : List (Input Unit)) (w w' : World Unit) (res : AdvanceResult),
    Run Sample.etherViem Sample.etherRouter hist w ∧
    (Sample.etherRouter.advance Sample.etherViem Sample.block Sample.etherRaw).run w = .ok res w' ∧
    ¬NoTheft Sample.etherViem Sample.etherRaw (w.ledger.view Sample.etherViem)
      (w'.ledger.view Sample.etherViem) := by
  obtain ⟨i, j, -, -, hrun, hready, hview⟩ := Sample.fund_run
  have hportal : j.after.ledger.ram.portals Sample.aliasedPortal = some PORTAL_ETHER := by
    have h := congrArg (fun v => v.ram.portals Sample.aliasedPortal) hview
    exact h.trans (by simp [Sample.registered, View.addEther])
  have hben : PortalReceiver.addressAt Sample.etherData 0 = Sample.carol := rfl
  have hamount : PortalReceiver.uint256At Sample.etherData 20 = 5 := rfl
  have hne : Sample.carol ≠ Sample.bob :=
    addressOf_ne (by norm_num) (by norm_num) (by norm_num)
  have hbob : (j.after.ledger.view Sample.etherViem).balances Sample.bob = 5 := by
    rw [hview, View.addEther_self]
    rfl
  have hbal : ∀ a, (j.after.ledger.view Sample.etherViem).balances a ≤ 5 := by
    intro a
    by_cases ha : a = Sample.bob
    · rw [ha, hbob]
    · rw [hview, View.addEther_of_ne ha]
      exact Nat.zero_le 5
  obtain ⟨res, w', hadv, hview'⟩ := Router.portalEther_accepted 1 Sample.alice Sample.block hready
    (Sample.parse_ether PORTAL_ETHER) rfl Sample.bob_unrouted rfl rfl (by norm_num) hportal
    (by simp [Sample.etherData, Sample.carol.2]) hben
    hamount hbob.ge (fun a => by have := hbal a; omega) Sample.bob_ne rfl hne
  refine ⟨[i, j], j.after, w', res, hrun, hadv, fun hsafe => ?_⟩
  have hzero : (w'.ledger.view Sample.etherViem).balances Sample.bob = 0 := by
    rw [hview', View.moveEther, View.addEther_of_ne hne.symm, View.addEther_self, hbob]
    rfl
  rcases hsafe.ether Sample.bob (by omega) with ⟨hsender, -⟩ | hman
  · have hother : Sample.aliasedPortal ≠ Sample.bob :=
      addressOf_ne (by norm_num) (by norm_num) (by norm_num)
    rw [Viem.sender, Sample.parse_ether] at hsender
    exact hother (Option.some.inj hsender)
  · exact Sample.bob_unrouted hman

end OpCartesi.App
