import OpCartesi.App.Handlers

/-!
# The router (`router.ts`)

Parse, enforce, move value, dispatch on `to`, commit one of the outcomes. The state
between inputs is a `World`; its sink belongs to the input being processed.

* `Router.dispatch`: the body of `execute` inside its `try`.
* `Router.execute`: value transfer, dispatch and outcome, from a journal mark.
* `Router.advance`: one input.
* `Router.inspect`: a view call, or a simulation that is rolled back.
-/

namespace OpCartesi.App

open Drive Exec

variable {ρ : Type}

/-- `RouterConfig` (`router.ts:64-67`) and the manifest, with its keys in the order they were
    routed. -/
structure Router (ρ : Type) where
  chainId : ℕ
  owner : Address
  manifest : Address → Option (Handler ρ)
  keys : List Address

/-- The signer to bump and charge, and the fee it entered under. -/
structure Chargeable where
  address : Address
  fee : ℤ

namespace Router

variable (V : Viem)

/-- The manifest of the built-in handlers (`router.ts:162-176`). -/
def builtins (owner : Address) (addr : Address) : Option (Handler ρ) :=
  if addr = REGISTRY_ADDRESS then some (registry V)
  else if addr = BRIDGE_ADDRESS then some (bridge V)
  else if addr = CONFIG_ADDRESS then some (config V owner)
  else if addr = L1BLOCK_ADDRESS then some (l1Block V)
  else if addr = L2_MESSENGER_ADDRESS then some (messenger V)
  else if addr = L2_BRIDGE_ADDRESS then some (l2Bridge V)
  else if addr = MESSAGE_PASSER_ADDRESS then some (messagePasser V)
  else none

/-- The addresses of the built-in manifest. -/
def manifestAddresses : List Address :=
  [REGISTRY_ADDRESS, BRIDGE_ADDRESS, CONFIG_ADDRESS, L1BLOCK_ADDRESS, L2_MESSENGER_ADDRESS,
    L2_BRIDGE_ADDRESS, MESSAGE_PASSER_ADDRESS]

/-- The constructor (`router.ts:158-182`). -/
def new (chainId : ℕ) (owner : Address) : Router ρ :=
  ⟨chainId, owner, builtins V owner, manifestAddresses⟩

/-- `register` (`router.ts:187-193`). -/
def register (r : Router ρ) (address : Address) (handler : Handler ρ) : Except AppError (Router ρ) :=
  if (r.manifest address).isSome then .error (.error "address is already routed")
  else .ok { r with
    manifest := Function.update r.manifest address (some handler), keys := r.keys ++ [address] }

variable (r : Router ρ)

/-- `resolve` (`router.ts:204-216`); `appContract` is that of the block, if there is one, and
    `depositSender` the sender of a deposit. -/
def resolve (dest : Address) (appContract depositSender : Option Address) (l : Ledger) :
    Option (Handler ρ) :=
  match r.manifest dest with
  | some fixed => some fixed
  | none =>
    if some dest = appContract then some (portalReceiver V)
    else if (depositSender.bind l.ram.portals).isSome then some (portalReceiver V)
    else if (l.tokenByL2Address dest).isSome then some (erc20 V)
    else none

/-- The value transfer (`router.ts:341-342`). -/
def transfer (ctx : TxContext) : GuestM ρ Unit := do
  onLedger (Ledger.debitEther V ctx.sender ctx.value)
  onLedger (Ledger.creditEther V ctx.dest ctx.value)

/-- The sender of a deposit, which routes it. -/
def depositSender (ctx : TxContext) : Option Address :=
  if ctx.isDeposit then some ctx.sender else none

/-- The handler's call (`router.ts:343-356`). -/
def call (ctx : TxContext) : GuestM ρ AdvanceOutcome := do
  let l ← ledger
  match r.resolve V ctx.dest (some ctx.block.appContract) (depositSender ctx) l with
  | none => return .accept
  | some handler =>
    if 0 < ctx.value ∧ handler.payable = false then return revertWith "not payable"
    else
      match handler.advance with
      | none => return revertWith "not a transaction target"
      | some advance => advance ctx

/-- Value transfer and dispatch (`router.ts:341-356`). -/
def dispatch (ctx : TxContext) : GuestM ρ AdvanceOutcome := do
  transfer V ctx
  r.call V ctx

/-- `rollbackAll` (`router.ts:424-429`). -/
def rollbackAll : GuestM ρ Unit := do
  onLedger (Ledger.rollbackTo 0)
  onLedger (Ledger.afterRollback V)

/-- `{ accept: false, outcome: "reject", … }`. -/
def rejected (reason : String) : AdvanceResult := ⟨false, [], .reject, some reason⟩

/-- `charge` (`router.ts:371-380`). -/
def charge (chargeable : Option Chargeable) : GuestM ρ (Option AdvanceResult) :=
  match chargeable with
  | none => return none
  | some c =>
    tryCatch
      (do
        onLedger (Ledger.bumpNonceAndCharge V c.address c.fee)
        return none)
      fun e => do
        rollbackAll V
        return some (rejected (describe e))

/-- Charge, commit and answer, unless the charge is refused (`router.ts:384-387`). -/
def finish (chargeable : Option Chargeable) (result : AdvanceResult) : GuestM ρ AdvanceResult := do
  match ← charge V chargeable with
  | some refused => return refused
  | none =>
    onLedger Ledger.commit
    return result

/-- The outcomes (`router.ts:382-421`). -/
def settle (mark : ℕ) (chargeable : Option Chargeable) (outcome : AdvanceOutcome) :
    GuestM ρ AdvanceResult := do
  let w ← get
  match outcome with
  | .accept => finish V chargeable ⟨true, w.sink.emissions, .accept, none⟩
  | .fail data =>
    finish V chargeable ⟨true, w.sink.emissions ++ [.report .fail data], .fail, none⟩
  | .revert data =>
    onLedger (Ledger.rollbackTo mark)
    onLedger (Ledger.afterRollback V)
    finish V chargeable ⟨true, w.sink.reportsOnly ++ [.report .revert data], .revert, none⟩
  | .reject reason =>
    rollbackAll V
    return rejected reason

/-- What a throw in `dispatch` becomes (`router.ts:357-366`). -/
def thrown (chargeable : Option Chargeable) (e : AppError) : AdvanceOutcome :=
  match chargeable with
  | some _ => revertWith (describe e)
  | none => .reject (describe e)

/-- `execute` (`router.ts:333-422`). -/
def execute (ctx : TxContext) (mark : ℕ) (chargeable : Option Chargeable) :
    GuestM ρ AdvanceResult := do
  modify fun w => { w with sink := BufferSink.new ctx.block.inputIndex }
  let outcome ← tryCatch (r.dispatch V ctx) fun e => return thrown chargeable e
  settle V mark chargeable outcome

/-- The context of a deposit (`router.ts:257-265`). -/
def depositContext (block : BlockContext) (d : Deposit) (dest : Address) : TxContext where
  block := block
  sender := d.sender
  dest := dest
  value := d.value
  data := d.data
  isDeposit := true
  mint := d.mint

/-- `advanceDeposit` (`router.ts:241-281`). -/
def advanceDeposit (block : BlockContext) (d : Deposit) : GuestM ρ AdvanceResult := do
  match d.dest with
  | none =>
    tryCatch
      (do
        onLedger (Ledger.creditEther V d.sender d.mint)
        onLedger Ledger.commit
        return ⟨true, [], .accept, none⟩)
      fun _ => do
        rollbackAll V
        return rejected "mint refused"
  | some dest =>
    let credited ← tryCatch
      (do
        onLedger (Ledger.creditEther V d.sender d.mint)
        return true)
      fun _ => do
        rollbackAll V
        return false
    if credited = false then return rejected "mint refused (drive full)"
    else
      let afterMint ← onLedger Ledger.mark
      r.execute V (depositContext block d dest) afterMint none

/-- The context of a signed transaction (`router.ts:313-321`). -/
def signedContext (block : BlockContext) (tx : SignedTx) (sender dest : Address) : TxContext where
  block := block
  sender := sender
  dest := dest
  value := tx.value
  data := tx.data
  isDeposit := false
  mint := 0

/-- `advanceSigned` (`router.ts:283-323`). -/
def advanceSigned (block : BlockContext) (tx : SignedTx) : GuestM ρ AdvanceResult := do
  match tx.dest with
  | none => return rejected "contract creation is not supported"
  | some dest =>
    if (tx.chainId.any fun c => c ≠ r.chainId) then
      return rejected ("transaction signed for chain " ++ toString (tx.chainId.getD 0))
    else
      match V.recoverSender tx with
      | none => return rejected "signature does not verify"
      | some sender =>
        let account ← onLedger (Ledger.account V sender)
        if tx.nonce.val ≠ account.1 then
          return rejected ("nonce " ++ toString tx.nonce.val ++ ", account nonce " ++
            toString account.1)
        else
          let l ← ledger
          if (account.2 : ℤ) < l.ram.fee + tx.value then
            return rejected "balance does not cover fee and value"
          else
            let mark ← onLedger Ledger.mark
            r.execute V (signedContext block tx sender dest) mark
              (some ⟨sender, l.ram.fee⟩)

/-- `advance` (`router.ts:220-239`). -/
def advance (block : BlockContext) (raw : Bytes) : GuestM ρ AdvanceResult :=
  match V.parseInput raw with
  | .unparsed => return ⟨true, [.report .app (.bytes raw)], .unparsed, none⟩
  | .refused reason => return rejected reason
  | .deposit d => r.advanceDeposit V block d
  | .signed tx => r.advanceSigned V block tx

/-! ## Inspects (`router.ts:430-503`) -/

/-- What the registry sees of the router (`router.ts:177-181`). -/
def wiring : Wiring where
  lookup a l := (r.resolve V a none none l).map Handler.payable
  list := r.keys

/-- `emptyBlock` (`router.ts:510-519`). -/
def emptyBlock (chainId : ℕ) : BlockContext where
  chainId := chainId
  appContract := ZERO_ADDRESS
  blockNumber := 0
  timestamp := 0
  prevRandao := 0
  inputIndex := 0

/-- The context of a simulation; `lastBlock` is that of the router. -/
def simulateContext (lastBlock : Option BlockContext) (call : DecodedCall) : TxContext where
  block := lastBlock.getD (emptyBlock r.chainId)
  sender := call.sender
  dest := call.dest
  value := call.value
  data := call.data
  isDeposit := false
  mint := 0

/-- The answer to a view call (`router.ts:439-464`). -/
def inspectView (call : DecodedCall) : GuestM ρ InspectResult := do
  let l ← ledger
  match r.resolve V call.dest none none l with
  | none => return ⟨true, [.returned .empty]⟩
  | some handler =>
    match handler.view with
    | none => return ⟨false, [.revert (.errorRevert "not a view target")]⟩
    | some view =>
      tryCatch
        (do
          match ← view (r.wiring V) ⟨call.sender, call.dest, call.value, call.data⟩ with
          | .returned data => return ⟨true, [.returned data]⟩
          | .revert data => return ⟨false, [.revert data]⟩)
        fun e => return ⟨false, [.revert (.errorRevert (describe e))]⟩

/-- The answer to a simulation (`router.ts:466-502`): the advance path without enforcement,
    rolled back. -/
def inspectSimulate (lastBlock : Option BlockContext) (call : DecodedCall) :
    GuestM ρ InspectResult := do
  let mark ← onLedger Ledger.mark
  let ctx := r.simulateContext lastBlock call
  modify fun w => { w with sink := BufferSink.new ctx.block.inputIndex }
  let outcome ← tryCatch (r.dispatch V ctx) fun e => return revertWith (describe e)
  onLedger (Ledger.rollbackTo mark)
  onLedger (Ledger.afterRollback V)
  match outcome with
  | .revert data => return ⟨false, [.revert data]⟩
  | .fail data => return ⟨false, [.fail data]⟩
  | _ => return ⟨true, [.returned .empty]⟩

/-- `inspect` (`router.ts:432-503`). -/
def inspect (lastBlock : Option BlockContext) (payload : Bytes) : GuestM ρ InspectResult :=
  match V.decodeEvmCall payload with
  | none => return ⟨false, [.revert (.errorRevert "not an EvmCall query")]⟩
  | some call =>
    if call.simulate then r.inspectSimulate V lastBlock call else r.inspectView V call

end Router

end OpCartesi.App
