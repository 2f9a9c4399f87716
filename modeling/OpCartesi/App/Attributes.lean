import OpCartesi.App.Frames
import OpCartesi.App.Progress
import OpCartesi.Common.Relational

/-!
# The attributes of `L1Block`

`L1Block` keeps the last attributes it was given in RAM, outside the journal, and takes them from
whoever calls it.

* `Viem.setter`, `Viem.writes`: the calls that set the attributes. `dispatch_private`: what a call
  does to the state no journal covers.
* `Viem.attributesOf`, `advance_attributes`: what an input does to the attributes.
* `attributes_determined`: where no signed transaction sets them, and every deposit that does is
  minted, the views are determined by the deposits. `attributes_written`: a signed transaction sets
  them.
-/

namespace OpCartesi.App

open Drive Exec

open Ledger (Idle Step Genesis Writable CanCharge)

variable {ρ : Type} {V : Viem} {w w' : World ρ} {chainId : ℕ} {owner : Address}

/-! ## Calls that set the attributes -/

/-- The attributes the calldata of a setter carries (`l1block.ts:54-73`). -/
def Viem.setter (V : Viem) (data : Bytes) : Option L1Attributes :=
  if 4 ≤ data.length ∧ (data.take 4 = V.toFunctionSelector "setL1BlockValuesEcotone()" ∨
      data.take 4 = V.toFunctionSelector "setL1BlockValuesIsthmus()") ∧
      160 ≤ (data.drop 4).length then
    some (L1Block.attributes (data.drop 4))
  else none

/-- The attributes a call sets. The handler is not payable. -/
def Viem.writes (V : Viem) (ctx : TxContext) : Option L1Attributes :=
  if ctx.dest = L1BLOCK_ADDRESS ∧ ctx.value = 0 then V.setter ctx.data else none

theorem l1Block_run (ctx : TxContext) (w : World ρ) :
    ∃ outcome, (L1Block.advance V ctx).run w =
      .ok outcome { w with l1Block := (V.setter ctx.data).or w.l1Block } ∧
      ((V.setter ctx.data).isSome → outcome = .accept) := by
  unfold L1Block.advance
  dsimp only
  split_ifs with hshort hsel hbody
  · rw [Viem.setter, if_neg (by omega)]
    exact ⟨_, rfl, by simp⟩
  · rw [Viem.setter, if_neg (by tauto)]
    exact ⟨_, rfl, by simp⟩
  · rw [Viem.setter, if_neg (by omega)]
    exact ⟨_, rfl, by simp⟩
  · rw [Viem.setter, if_pos ⟨by omega, by tauto, by omega⟩]
    exact ⟨_, rfl, fun _ => rfl⟩

namespace Router

theorem builtins_l1Block (owner : Address) :
    (builtins V owner L1BLOCK_ADDRESS : Option (Handler ρ)) = some (l1Block V) := by
  rw [builtins, if_neg (by decide +kernel), if_neg (by decide +kernel), if_neg (by decide +kernel),
    if_pos rfl]

/-- A call to `L1Block` without value. -/
theorem dispatch_l1Block {ctx : TxContext} (hdest : ctx.dest = L1BLOCK_ADDRESS)
    (hvalue : ctx.value = 0) (w : World ρ) :
    ((Router.new V chainId owner).dispatch V ctx).run w = (L1Block.advance V ctx).run w := by
  have hman : (Router.new V chainId owner : Router ρ).manifest ctx.dest = some (l1Block V) := by
    rw [hdest]
    exact builtins_l1Block owner
  exact dispatch_fixed ctx hman hvalue rfl w

/-- A transfer and a call leave the RAM of the applications alone, and of the attributes what they
    do not set. -/
theorem dispatch_private (chainId : ℕ) (owner : Address) (ctx : TxContext) (w : World ρ) :
    (endState (((Router.new V chainId owner).dispatch V ctx).run w)).l1Block =
        (V.writes ctx).or w.l1Block ∧
      (endState (((Router.new V chainId owner).dispatch V ctx).run w)).own = w.own := by
  by_cases hset : ctx.dest = L1BLOCK_ADDRESS ∧ ctx.value = 0
  · obtain ⟨outcome, hrun, -⟩ := l1Block_run (V := V) ctx w
    rw [dispatch_l1Block hset.1 hset.2, hrun, Viem.writes, if_pos hset]
    exact ⟨rfl, rfl⟩
  rw [Viem.writes, if_neg hset, Option.none_or]
  by_cases hdest : ctx.dest = L1BLOCK_ADDRESS
  · -- the handler refuses the value
    have hvalue : 0 < ctx.value := Nat.pos_of_ne_zero fun h => hset ⟨hdest, h⟩
    refine ((privateFrame V ρ).transfer_keeps ctx).bind (fun _ => ?_) w
    refine (privateFrame V ρ).readLedger.bind fun l => ?_
    rw [resolve, Router.new, hdest]
    simp only [builtins_l1Block]
    rw [if_pos ⟨hvalue, rfl⟩]
    exact (privateFrame V ρ).pure _
  · exact (privateFrame V ρ).dispatch_keeps ctx (fun h f ha hf =>
      (privateFrame V ρ).builtins_keeps chainId owner ctx (fun h => absurd h hdest) ha hf) w

/-- Likewise where a throw is answered, and whatever a computation that acts on the ledger only does
    after it. -/
theorem caught_private (chainId : ℕ) (owner : Address) (ctx : TxContext)
    (answer : AppError → AdvanceOutcome) {β : Type} {after : AdvanceOutcome → GuestM ρ β}
    (hafter : ∀ o, (privateFrame V ρ).Keeps (after o)) (w : World ρ) :
    (endState ((do
        let outcome ← tryCatch ((Router.new V chainId owner).dispatch V ctx)
          fun e => return answer e
        after outcome : GuestM ρ β).run w)).l1Block = (V.writes ctx).or w.l1Block ∧
      (endState ((do
        let outcome ← tryCatch ((Router.new V chainId owner).dispatch V ctx)
          fun e => return answer e
        after outcome : GuestM ρ β).run w)).own = w.own := by
  have htry : endState ((tryCatch ((Router.new V chainId owner).dispatch V ctx)
      fun e => return answer e : GuestM ρ AdvanceOutcome).run w) =
      endState (((Router.new V chainId owner).dispatch V ctx).run w) := by
    cases h : ((Router.new V chainId owner).dispatch V ctx).run w with
    | ok outcome w₁ => rw [tryCatch_ok h]
    | error e w₁ => rw [tryCatch_error h]; rfl
  have hdispatch := dispatch_private (V := V) chainId owner ctx w
  rw [← htry] at hdispatch
  have htail := Frame.Keeps.tail (F := privateFrame V ρ)
    (x := tryCatch ((Router.new V chainId owner).dispatch V ctx) fun e => return answer e) hafter w
  exact ⟨htail.1.trans hdispatch.1, htail.2.trans hdispatch.2⟩

/-- An execution, likewise. -/
theorem execute_private (chainId : ℕ) (owner : Address) (ctx : TxContext) (mark : ℕ)
    (c : Option Chargeable) (w : World ρ) :
    (endState (((Router.new V chainId owner).execute V ctx mark c).run w)).l1Block =
        (V.writes ctx).or w.l1Block ∧
      (endState (((Router.new V chainId owner).execute V ctx mark c).run w)).own = w.own := by
  rw [execute, bind_ok (modify_run _ _)]
  exact caught_private chainId owner ctx (thrown c) (fun o => Frame.settle_keeps _ mark c o)
    { w with sink := BufferSink.new ctx.block.inputIndex }

end Router

/-! ## Inputs -/

/-- The attributes a deposit sets. -/
def Viem.attributesOf (V : Viem) (raw : Bytes) : Option L1Attributes :=
  match V.parseInput raw with
  | .deposit d => if d.dest = some L1BLOCK_ADDRESS ∧ d.value = 0 then V.setter d.data else none
  | _ => none

/-- An input that leaves the attributes to the deposits: not a signed transaction that sets them,
    nor a deposit that sets them and whose mint the ledger cannot take. -/
def Harmless (V : Viem) (w : World ρ) (raw : Bytes) : Prop :=
  match V.parseInput raw with
  | .signed tx => ¬(tx.dest = some L1BLOCK_ADDRESS ∧ tx.value = 0 ∧ (V.setter tx.data).isSome)
  | .deposit d => (V.attributesOf raw).isSome → d.mint = 0 ∨
      Writable V w.ledger d.sender (w.ledger.nonces V d.sender)
        ((w.ledger.view V).balances d.sender + d.mint)
  | _ => True

namespace Router

variable {block : BlockContext} {raw : Bytes} {res : AdvanceResult} {d : Deposit} {tx : SignedTx}

/-- A deposit whose mint the ledger takes. -/
theorem deposit_attributes (block : BlockContext) (hidle : w.ledger.Idle V)
    (hp : V.parseInput raw = .deposit d) (hok : Harmless V w raw) :
    (endState (((Router.new V chainId owner).advanceDeposit V block d).run w)).l1Block =
      (V.attributesOf raw).or w.l1Block := by
  have hr : (Router.new V chainId owner : Router ρ).Journaled V := builtins_journaled chainId owner
  have hs := Step.refl hidle.wf
  have hmint : (V.attributesOf raw).isSome → ∃ l₁,
      (Ledger.creditEther V d.sender d.mint).run w.ledger = .ok () l₁ := by
    intro hset
    simp only [Harmless, hp] at hok
    rcases hok hset with hzero | hw
    · exact ⟨w.ledger, by rw [hzero]; rfl⟩
    · exact Ledger.creditEther_run hidle.wf hw
  rcases creditEther_cases hidle.wf d.sender d.mint with ⟨e, hc⟩ | ⟨l₁, hc, hs₁, -⟩
  · -- a deposit that sets the attributes is minted
    have hnone : V.attributesOf raw = none := by
      cases hset : V.attributesOf raw with
      | none => rfl
      | some a =>
        obtain ⟨l₁, hrun⟩ := hmint (by rw [hset]; rfl)
        rw [hc] at hrun
        cases hrun
    obtain ⟨reason, hrun⟩ :=
      advanceDeposit_refused (r := Router.new V chainId owner) block hidle hs hc
    rw [hrun, hnone]
    rfl
  cases hdest : d.dest with
  | none =>
    have hnone : V.attributesOf raw = none := by simp [Viem.attributesOf, hp, hdest]
    rw [advanceDeposit_create hdest hc, hnone]
    rfl
  | some dest =>
    obtain ⟨outcome, w₁, hends⟩ := ends_exists (r := Router.new V chainId owner) (V := V)
      (depositContext block d dest) none (start block l₁ w)
    rw [advanceDeposit_call hr hidle hs hdest hs₁ hc hends]
    show w₁.l1Block = _
    have hpriv := (dispatch_private (V := V) chainId owner (depositContext block d dest)
      (start block l₁ w)).1
    have hwrites : V.writes (depositContext block d dest) = V.attributesOf raw := by
      simp only [Viem.attributesOf, hp, hdest, Option.some.injEq]
      rfl
    rw [hwrites] at hpriv
    rcases hends with h | ⟨e, h, -⟩
    · rwa [h] at hpriv
    · rwa [h] at hpriv

/-- A signed transaction that does not set the attributes. -/
theorem signed_attributes (block : BlockContext)
    (hok : ¬(tx.dest = some L1BLOCK_ADDRESS ∧ tx.value = 0 ∧ (V.setter tx.data).isSome)) :
    (endState (((Router.new V chainId owner).advanceSigned V block tx).run w)).l1Block =
      w.l1Block := by
  have hkeeps : (privateFrame V ρ).Keeps
      ((Router.new V chainId owner).advanceSigned V block tx) := by
    set F := privateFrame V ρ with hF
    unfold advanceSigned
    cases hdest : tx.dest with
    | none => exact F.pure _
    | some dest =>
      simp only
      split_ifs
      · exact F.pure _
      cases V.recoverSender tx with
      | none => exact F.pure _
      | some sender =>
        refine (F.call _).bind fun account => ?_
        split_ifs
        · exact F.pure _
        refine F.readLedger.bind fun l => ?_
        split_ifs
        · exact F.pure _
        refine (F.call _).bind fun mark => ?_
        intro w₁
        have hnone : V.writes (signedContext block tx sender dest) = none := by
          unfold Viem.writes
          split_ifs with hset
          · by_contra hsome
            exact hok ⟨by rw [hdest, ← hset.1]; rfl, hset.2, Option.isSome_iff_ne_none.2 hsome⟩
          · rfl
        have hpriv := execute_private (V := V) chainId owner (signedContext block tx sender dest)
          mark (some ⟨sender, l.ram.fee⟩) w₁
        rw [hnone, Option.none_or] at hpriv
        exact hpriv
  exact (hkeeps w).1

/-- What an input does to the attributes. -/
theorem advance_attributes (hidle : w.ledger.Idle V) (hok : Harmless V w raw)
    (h : ((Router.new V chainId owner).advance V block raw).run w = .ok res w') :
    w'.l1Block = (V.attributesOf raw).or w.l1Block := by
  have hend : w' = endState (((Router.new V chainId owner).advance V block raw).run w) := by rw [h]; rfl
  rw [hend, advance]
  cases hp : V.parseInput raw with
  | deposit d => exact deposit_attributes block hidle hp hok
  | signed tx =>
    have hnone : V.attributesOf raw = none := by rw [Viem.attributesOf, hp]
    simp only [Harmless, hp] at hok
    rw [hnone]
    exact signed_attributes block hok
  | unparsed =>
    rw [Viem.attributesOf, hp]
    rfl
  | refused reason =>
    rw [Viem.attributesOf, hp]
    rfl

end Router

/-! ## Runs -/

/-- Inputs processed one after the other, each of which met `ok` in the state it found. -/
inductive Feed (V : Viem) (r : Router ρ) (ok : World ρ → Bytes → Prop) :
    World ρ → List (BlockContext × Bytes) → World ρ → Prop
  | nil {w : World ρ} : Feed V r ok w [] w
  | cons {w w₁ w' : World ρ} {res : AdvanceResult} {rest : List (BlockContext × Bytes)}
      (block : BlockContext) (raw : Bytes) (hok : ok w raw)
      (hrun : (r.advance V block raw).run w = .ok res w₁) (hrest : Feed V r ok w₁ rest w') :
      Feed V r ok w ((block, raw) :: rest) w'

/-- Whether an input is a deposit. -/
def Viem.isDeposit (V : Viem) (raw : Bytes) : Bool :=
  match V.parseInput raw with
  | .deposit _ => true
  | _ => false

/-- The deposits among the inputs. -/
def Viem.deposits (V : Viem) (inputs : List (BlockContext × Bytes)) : List Bytes :=
  (inputs.map Prod.snd).filter V.isDeposit

theorem attributesOf_of_not_deposit {raw : Bytes} (h : V.isDeposit raw = false) :
    V.attributesOf raw = none := by
  unfold Viem.isDeposit at h
  unfold Viem.attributesOf
  split at h
  · cases h
  · rfl

/-- Along a run of harmless inputs the attributes are those of its deposits. -/
theorem Feed.attributes {inputs : List (BlockContext × Bytes)} (hidle : w.ledger.Idle V)
    (h : Feed V (Router.new V chainId owner) (Harmless V) w inputs w') :
    w'.l1Block = (V.deposits inputs).foldl (fun a raw => (V.attributesOf raw).or a) w.l1Block := by
  induction h with
  | nil => rfl
  | cons block raw hok hrun hrest ih =>
    rw [ih (Router.advance_idle (builtins_journaled chainId owner) hidle hrun),
      Router.advance_attributes hidle hok hrun]
    unfold Viem.deposits
    rw [List.map_cons, List.filter_cons]
    split_ifs with hdep
    · rfl
    · rw [attributesOf_of_not_deposit (by simpa using hdep)]
      rfl

/-- Two worlds with the same attributes. -/
def SameAttributes (w₁ w₂ : World ρ) : Prop := w₁.l1Block = w₂.l1Block

theorem alike_uintResult {S : World ρ → World ρ → Prop} (bits : ℕ) (n : ℤ) :
    Alike S (uintResult bits n) := by
  unfold uintResult
  split_ifs
  · exact .pure _
  · exact .throw _

theorem l1Block_view_alike {S : World ρ → World ρ → Prop}
    (hS : ∀ w₁ w₂, S w₁ w₂ → SameAttributes w₁ w₂) (call : CallContext) :
    Alike S (L1Block.view V call) := by
  unfold L1Block.view
  cases V.decodeL1Block call.data with
  | none => exact .pure _
  | some f =>
    refine .get_bind (fun s s' hs => ?_) fun w => ?_
    · have hsame : s.l1Block = s'.l1Block := hS s s' hs
      rw [hsame]
    cases w.l1Block with
    | none => exact .pure _
    | some a => cases f <;> first | exact alike_uintResult _ _ | exact .pure _

/-- An `eth_call` to `L1Block` is answered by its view. -/
theorem inspectView_l1Block {call : DecodedCall} (hdest : call.dest = L1BLOCK_ADDRESS)
    (w : World ρ) : ((Router.new V chainId owner).inspectView V call).run w =
      (tryCatch
        (do
          match ← L1Block.view V ⟨call.sender, call.dest, call.value, call.data⟩ with
          | .returned data => return ⟨true, [.returned data]⟩
          | .revert data => return ⟨false, [.revert data]⟩)
        fun e => return ⟨false, [.revert (.errorRevert (describe e))]⟩ :
          GuestM ρ InspectResult).run w := by
  rw [Router.inspectView, bind_ok (ledger_run _), Router.resolve, Router.new, hdest]
  simp only [Router.builtins_l1Block]
  rfl

namespace Sample

/-- The hashes the selectors of this chain are taken from. -/
def l1Keccak (b : Bytes) : Bytes :=
  if b = stringToBytes "setL1BlockValuesEcotone()" then
    beBytes 32 0x440a5e20ed65b26f1c9c7cb2f7e91ebd2945083629a85026e453f06ab360e983
  else if b = stringToBytes "EvmSimulate(uint256,address,address,uint256,bytes)" then
    beBytes 32 0xd69a4ed40d40ad463e6502e83be3f1250b5ce5674763859690171e15f2554382
  else if b = stringToBytes "EvmCall(uint256,address,address,uint256,bytes)" then
    beBytes 32 0x5714a3851c80a66c52938e80d7f08513bb16ea1527416aaf466ea5fc53997257
  else b

/-- The calldata of `setL1BlockValuesEcotone` for the L1 block with number 9. -/
def setterData : Bytes := beBytes 4 0x440a5e20 ++ (zeros 24 ++ beBytes 8 9 ++ zeros 128)

/-- `alice`'s first transaction: set the attributes. -/
def setterRaw : Bytes :=
  beBytes 9 0xf90104808082520894 ++ L1BLOCK_ADDRESS.val ++ beBytes 3 0x80b8a4 ++ setterData ++
    beBytes 2 0x25a0 ++
    beBytes 32 0x5cbdf0646e5db4eaa398f365f2ea7a0e3d419b7e0330e39ce92bddedcac4f9bc ++
    beBytes 1 0xa0 ++
    beBytes 32 0x225b1432b2f470cb0ba0817e9e4f4475efbf78f4ed3c83d7c2a0673a011afe93

def setterTx : AnyParsedTx where
  type := .legacy
  sender := none
  dest := some L1BLOCK_ADDRESS
  mint := none
  value := none
  data := setterData
  chainId := some 1
  nonce := some 0
  r := some 0x5cbdf0646e5db4eaa398f365f2ea7a0e3d419b7e0330e39ce92bddedcac4f9bc
  s := some 0x225b1432b2f470cb0ba0817e9e4f4475efbf78f4ed3c83d7c2a0673a011afe93

def setterSigned : SignedTx where
  type := .legacy
  chainId := some 1
  nonce := 0
  dest := some L1BLOCK_ADDRESS
  value := 0
  data := setterData
  s := 0x225b1432b2f470cb0ba0817e9e4f4475efbf78f4ed3c83d7c2a0673a011afe93
  raw := setterRaw

/-- The parameters of a call from `alice` to `L1Block`. -/
def callParams (data : Bytes) : Bytes :=
  beBytes 32 1 ++ zeros 12 ++ alice.val ++ zeros 12 ++ L1BLOCK_ADDRESS.val ++ beBytes 32 0 ++
    beBytes 32 0xa0 ++ beBytes 32 data.length ++ data ++ zeros 28

/-- `eth_call` of `number()`. -/
def numberCall : Bytes := beBytes 4 0x5714a385 ++ callParams (beBytes 4 0x8381f58a)

def l1Viem : Viem := { viem with
  keccak256 := l1Keccak
  parseTransaction := fun raw => if raw = setterRaw then some setterTx else none
  recoverTransactionAddress := fun raw => if raw = setterRaw then some alice else none
  decodeL1Block := fun data => if data = beBytes 4 0x8381f58a then some .number else none
  decodeCallParams := fun params =>
    if params = callParams (beBytes 4 0x8381f58a) then
      some (alice, L1BLOCK_ADDRESS, 0, beBytes 4 0x8381f58a)
    else if params = callParams setterData then some (alice, L1BLOCK_ADDRESS, 0, setterData)
    else none }

theorem selector_setter : l1Viem.toFunctionSelector "setL1BlockValuesEcotone()" =
    beBytes 4 0x440a5e20 := by
  simp only [Viem.toFunctionSelector, l1Viem, l1Keccak, if_true]
  decide +kernel

theorem selector_simulate :
    l1Viem.toFunctionSelector "EvmSimulate(uint256,address,address,uint256,bytes)" =
      beBytes 4 0xd69a4ed4 := by
  have hne : stringToBytes "EvmSimulate(uint256,address,address,uint256,bytes)" ≠
      stringToBytes "setL1BlockValuesEcotone()" := by decide +kernel
  simp only [Viem.toFunctionSelector, l1Viem, l1Keccak, if_neg hne, if_true]
  decide +kernel

theorem selector_call : l1Viem.toFunctionSelector "EvmCall(uint256,address,address,uint256,bytes)" =
    beBytes 4 0x5714a385 := by
  have hne₁ : stringToBytes "EvmCall(uint256,address,address,uint256,bytes)" ≠
      stringToBytes "setL1BlockValuesEcotone()" := by decide +kernel
  have hne₂ : stringToBytes "EvmCall(uint256,address,address,uint256,bytes)" ≠
      stringToBytes "EvmSimulate(uint256,address,address,uint256,bytes)" := by decide +kernel
  simp only [Viem.toFunctionSelector, l1Viem, l1Keccak, if_neg hne₁, if_neg hne₂, if_true]
  decide +kernel

/-- The attributes the transaction sets. -/
def setterAttributes : L1Attributes :=
  L1Block.attributes (zeros 24 ++ beBytes 8 9 ++ zeros 128)

theorem setterAttributes_number : setterAttributes.number = 9 := by
  decide +kernel

theorem setter_setterData : l1Viem.setter setterData = some setterAttributes := by
  have htake : setterData.take 4 = beBytes 4 0x440a5e20 := rfl
  have hdrop : setterData.drop 4 = zeros 24 ++ beBytes 8 9 ++ zeros 128 := rfl
  rw [Viem.setter, htake, hdrop, selector_setter, if_pos]
  · rfl
  · exact ⟨by simp [setterData], Or.inl rfl, by simp⟩

theorem decode_numberCall : l1Viem.decodeEvmCall numberCall =
    some ⟨false, alice, L1BLOCK_ADDRESS, 0, beBytes 4 0x8381f58a⟩ := by
  have htake : numberCall.take 4 = beBytes 4 0x5714a385 := rfl
  have hdrop : numberCall.drop 4 = callParams (beBytes 4 0x8381f58a) := rfl
  have hlen : ¬numberCall.length < 4 := by simp [numberCall]
  have hne : beBytes 4 0x5714a385 ≠ beBytes 4 0xd69a4ed4 := by decide
  rw [Viem.decodeEvmCall, if_neg hlen]
  simp only [htake, hdrop, selector_simulate, selector_call, hne, not_false_eq_true, ne_eq,
    not_true_eq_false, and_false, if_false]
  simp only [l1Viem, if_true, decide_false]

theorem parse_setter : l1Viem.parseInput setterRaw = .signed setterSigned := by
  have hser : Viem.isSerializedTransaction setterRaw = true := rfl
  simp only [Viem.parseInput, l1Viem, if_true, setterTx, hser]
  rfl

theorem recover_setter : l1Viem.recoverSender setterSigned = some alice := by
  have hlow : ¬Viem.HALF_N < setterSigned.s := by
    simp only [setterSigned, Viem.HALF_N]
    norm_num
  rw [Viem.recoverSender, if_neg hlow]
  simp only [l1Viem, setterSigned, if_true]

abbrev l1Router : Router Unit := Router.new l1Viem 1 alice

/-- The transaction passes enforcement on a fresh chain. -/
theorem setter_admitted {l : Ledger} (hf : Ledger.Fresh l1Viem l) :
    Router.Admitted l1Viem l1Router l setterSigned alice L1BLOCK_ADDRESS := by
  have hbal : (l.view l1Viem).balances alice = 0 := by rw [hf.view]
  refine ⟨rfl, fun c hc => ?_, recover_setter, alice_ne, ?_, ?_⟩
  · cases hc
    rfl
  · rw [hf.nonces]
    rfl
  · rw [hf.ram, hbal]
    exact le_refl (0 : ℤ)

/-- The transaction is accepted on a fresh chain. -/
theorem setter_run {l : Ledger} (hf : Ledger.Fresh l1Viem l) :
    ∃ res w', (l1Router.advance l1Viem block setterRaw).run (world l) = .ok res w' ∧
      res.outcome = .accept ∧ w'.l1Block = some setterAttributes := by
  obtain ⟨outcome, hrun, haccept⟩ := l1Block_run (V := l1Viem)
    (Router.signedContext block setterSigned alice L1BLOCK_ADDRESS) (Router.start block l (world l))
  have hset : l1Viem.setter (Router.signedContext block setterSigned alice L1BLOCK_ADDRESS).data =
      some setterAttributes := setter_setterData
  rw [hset] at hrun haccept
  obtain rfl := haccept rfl
  have hcan : CanCharge l1Viem l alice l.ram.fee := by
    rw [CanCharge, hf.ram, hf.view, hf.nonces]
    exact ⟨le_refl _, hf.room.writable (by norm_num) alice_ne (by norm_num) (by decide)
      (by norm_num [Ram.new])⟩
  obtain ⟨l', -, -, -, hadv⟩ := Router.advance_accepted (r := l1Router) (w := world l)
    (builtins_journaled 1 alice) hf.idle.wf parse_setter (setter_admitted hf)
    ((Router.dispatch_l1Block (V := l1Viem) rfl rfl _).trans hrun) hcan
  exact ⟨_, _, hadv, rfl, rfl⟩

/-- The answer to `number()`. -/
theorem number_answer (w : World Unit) :
    answer ((l1Router.inspect l1Viem none numberCall).run w) = .ok
      (match w.l1Block with
      | none => ⟨false, [.revert (.errorRevert "no L1 attributes yet")]⟩
      | some a =>
        if (a.number : ℤ) < 2 ^ 64 then ⟨true, [.returned (.uint a.number)]⟩
        else ⟨false, [.revert (.errorRevert "integer out of range")]⟩) := by
  have hdecode : l1Viem.decodeL1Block (beBytes 4 0x8381f58a) = some .number := by
    simp only [l1Viem, if_true]
  rw [Router.inspect, decode_numberCall]
  simp only [Bool.false_eq_true, if_false]
  rw [inspectView_l1Block rfl]
  cases ha : w.l1Block with
  | none =>
    have hview : (L1Block.view l1Viem ⟨alice, L1BLOCK_ADDRESS, 0, beBytes 4 0x8381f58a⟩).run w =
        .ok (viewRevert "no L1 attributes yet") w := by
      rw [L1Block.view, hdecode]
      simp only
      rw [bind_ok (get_run w), ha]
      rfl
    refine congrArg answer (show _ = EStateM.Result.ok _ w from tryCatch_ok ?_)
    rw [bind_ok hview]
    rfl
  | some a =>
    have hview : (L1Block.view l1Viem ⟨alice, L1BLOCK_ADDRESS, 0, beBytes 4 0x8381f58a⟩).run w =
        (uintResult 64 a.number).run w := by
      rw [L1Block.view, hdecode]
      simp only
      rw [bind_ok (get_run w), ha]
    by_cases hlt : (a.number : ℤ) < 2 ^ 64
    · have hok : (uintResult 64 a.number).run w = .ok (.returned (.uint a.number)) w := by
        rw [uintResult, if_pos ⟨by positivity, hlt⟩]
        rfl
      simp only [if_pos hlt]
      refine congrArg answer (show _ = EStateM.Result.ok _ w from tryCatch_ok ?_)
      rw [bind_ok (hview.trans hok)]
      rfl
    · have herr : (uintResult 64 a.number).run w = .error (.error "integer out of range") w := by
        rw [uintResult, if_neg (fun h => hlt h.2)]
        rfl
      simp only [if_neg hlt]
      rw [tryCatch_error (bind_error (hview.trans herr))]
      rfl

end Sample

end OpCartesi.App
