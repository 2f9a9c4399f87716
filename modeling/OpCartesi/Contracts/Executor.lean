import OpCartesi.Contracts.Validator

/-!
# The output executor (`OutputExecutor.sol`)

A voucher is a call to an arbitrary contract, which may call the executor again before it returns.
A transaction is here the tree of the calls it makes: what each called contract does next and
whether it reverts is part of the tree, so a statement about every tree is one about every
contract.

* `executeOutput`: the function of the source, over what the voucher's destination does.
* `Call`, `perform`: message calls; one that reverts leaves the world as it found it.
* `Advance`: what any call does to the executor: flags are never cleared, and every voucher
  performed had its flag clear before and has it set after. `perform_advance` is by induction on
  the tree.
* `executeOutput_once`: no output index is performed twice, only proven outputs are performed, and
  a voucher that fails changes nothing.
-/

namespace OpCartesi.Contracts

open Exec

/-- `OutputValidityProof`. -/
structure OutputValidityProof where
  outputIndex : ℕ
  outputHashesSiblings : List Bytes32
  deriving DecidableEq

/-- The arguments of a voucher (`OutputExecutor.sol:62-63`). -/
structure Voucher where
  destination : Address
  value : ℕ
  payload : Bytes
  deriving DecidableEq

/-- The functions the executor takes from Cartesi's contracts and from the language. -/
structure ProofLibrary where
  isSiblingsArrayLengthValid : OutputValidityProof → Bool
  /-- The root a proof lifts a leaf to; `none` where the library reverts. -/
  computeOutputsMerkleRoot : OutputValidityProof → Bytes32 → Option Bytes32
  /-- `abi.decode(arguments, (address, uint256, bytes))`; `none` where it reverts. -/
  decodeVoucher : Bytes → Option Voucher

/-- A voucher call that succeeded: the output with the root it was proven under, and the storage
    of the validator when it was asked about that root. -/
structure Performed where
  index : ℕ
  output : Bytes
  voucher : Voucher
  outputsMerkleRoot : Bytes32
  validator : Validator

/-- The storage of both contracts, with the events and the voucher calls performed. -/
structure World where
  validator : Validator
  executed : ℕ → Bool
  /-- `OutputExecuted`: index and root. -/
  events : List (ℕ × Bytes32)
  performed : List Performed

/-- Both contracts as deployed. -/
def World.deployed : World := ⟨.deployed, fun _ => false, [], []⟩

/-- Why `executeOutput` reverts (`OutputExecutor.sol:36-41`), the failures of what it calls
    included. -/
inductive ExecuteError
  | siblingsLengthInvalid (got : ℕ)
  | proofReverted
  | outputsMerkleRootNotValid (outputsMerkleRoot : Bytes32)
  | outputAlreadyExecuted (outputIndex : ℕ)
  | outputTooShort
  | argumentsReverted
  | voucherFailed (returnData : Bytes)
  | unsupportedOutput (selector : Bytes)
  deriving DecidableEq

section

variable (L : Library) (P : ProofLibrary) (cfg : Settings) (app : Address)

/-- The selector of a function signature. -/
def selectorOf (signature : String) : Bytes :=
  (L.keccak256 (App.stringToBytes signature)).val.take 4

/-- `Outputs.Voucher.selector`. -/
def voucherSelector : Bytes := selectorOf L "Voucher(address,uint256,bytes)"

/-- `Outputs.Notice.selector`. -/
def noticeSelector : Bytes := selectorOf L "Notice(bytes)"

/-- `validateOutput` (`OutputExecutor.sol:75-88`), in a world with the validator's storage `s`. -/
def validateOutput (s : Validator) (output : Bytes) (proof : OutputValidityProof) :
    Except ExecuteError Bytes32 := do
  require (P.isSiblingsArrayLengthValid proof = true)
    (.siblingsLengthInvalid proof.outputHashesSiblings.length)
  let outputsMerkleRoot ← expect (P.computeOutputsMerkleRoot proof (L.keccak256 output))
    .proofReverted
  require (isOutputsMerkleRootValid cfg s app outputsMerkleRoot = true)
    (.outputsMerkleRootNotValid outputsMerkleRoot)
  return outputsMerkleRoot

/-- `destination.call`: a callee that reverts is answered `false` and has changed nothing. -/
def externalCall (callee : EStateM Bytes World Bytes) : EStateM ExecuteError World (Bool × Bytes) :=
  fun w =>
    match callee.run w with
    | .ok returnData w' => .ok (true, returnData) w'
    | .error returnData _ => .ok (false, returnData) w

/-- `executed[index] = true`. -/
def World.mark (w : World) (index : ℕ) : World :=
  { w with executed := Function.update w.executed index true }

@[simp] theorem World.mark_self (w : World) (index : ℕ) : (w.mark index).executed index = true := by
  simp only [World.mark, Function.update_self]

theorem World.mark_of_ne (w : World) {i index : ℕ} (h : i ≠ index) :
    (w.mark index).executed i = w.executed i := by
  simp only [World.mark, Function.update_of_ne h]

theorem World.mark_mono (w : World) {i : ℕ} (index : ℕ) (h : w.executed i = true) :
    (w.mark index).executed i = true := by
  by_cases hi : i = index
  · rw [hi, World.mark_self]
  · rw [w.mark_of_ne hi, h]

/-- The record of a performed voucher call. -/
def World.log (w : World) (p : Performed) : World := { w with performed := w.performed ++ [p] }

/-- `emit OutputExecuted(index, root)`. -/
def World.emit (w : World) (index : ℕ) (outputsMerkleRoot : Bytes32) : World :=
  { w with events := w.events ++ [(index, outputsMerkleRoot)] }

/-- `executeOutput` (`OutputExecutor.sol:53-72`). `callee` is what the destination of a voucher
    does when it is called. -/
def executeOutput (callee : Voucher → EStateM Bytes World Bytes) (output : Bytes)
    (proof : OutputValidityProof) : EStateM ExecuteError World Unit := do
  let w ← get
  let outputsMerkleRoot ← check (validateOutput L P cfg app w.validator output proof)
  check (require (w.executed proof.outputIndex = false) (.outputAlreadyExecuted proof.outputIndex))
  modify fun w => w.mark proof.outputIndex
  -- `output[:4]` and `output[4:]`
  check (require (4 ≤ output.length) .outputTooShort)
  if output.take 4 = voucherSelector L then
    let voucher ← check (expect (P.decodeVoucher (output.drop 4)) .argumentsReverted)
    let (ok, returnData) ← externalCall (callee voucher)
    check (require (ok = true) (.voucherFailed returnData))
    modify fun w' => w'.log ⟨proof.outputIndex, output, voucher, outputsMerkleRoot, w.validator⟩
  else
    check (require (output.take 4 = noticeSelector L) (.unsupportedOutput (output.take 4)))
  modify fun w => w.emit proof.outputIndex outputsMerkleRoot

/-! ## Transactions -/

/-- A message call: to the validator, to the executor, or to any other contract. `inner` are the
    calls made by the contract called, or by the destination of the voucher, before it returns or
    reverts. -/
inductive Call
  | accept (call : AcceptCall)
  | executeOutput (output : Bytes) (proof : OutputValidityProof) (inner : List Call) (ok : Bool)
      (returnData : Bytes)
  | other (inner : List Call) (ok : Bool)

/-- A contract that does `body` and then returns or reverts. -/
def contract (body : World → World) (ok : Bool) (returnData : Bytes) : EStateM Bytes World Bytes :=
  fun w => if ok then .ok returnData (body w) else .error returnData (body w)

/-- A message call as its caller sees it: a revert undoes everything the call did. -/
def frame {ε α : Type} (x : EStateM ε World α) (w : World) : World :=
  match x.run w with
  | .ok _ w' => w'
  | .error _ _ => w

mutual

/-- The world after a call. -/
def perform : Call → World → World
  | .accept call, w => { w with validator := transact L cfg w.validator call }
  | .executeOutput output proof inner ok returnData, w =>
    frame (executeOutput L P cfg app (fun _ => contract (performAll inner) ok returnData) output
      proof) w
  | .other inner ok, w => frame (contract (performAll inner) ok []) w

/-- The world after a sequence of calls. -/
def performAll : List Call → World → World
  | [], w => w
  | call :: calls, w => performAll calls (perform call w)

end

end

/-! ## What one execution does -/

section

variable {L : Library} {P : ProofLibrary} {cfg : Settings} {app : Address}
  {proof : OutputValidityProof} {body : World → World} {w w' : World} {ok : Bool}

theorem validateOutput_eq_ok {s : Validator} {output : Bytes} {root : Bytes32}
    (h : validateOutput L P cfg app s output proof = .ok root) :
    P.computeOutputsMerkleRoot proof (L.keccak256 output) = some root ∧
      isOutputsMerkleRootValid cfg s app root = true := by
  simp only [validateOutput, except_bind_eq_ok, expect_eq_ok, require_eq_ok] at h
  obtain ⟨_, _, root', hroot, _, hvalid, hret⟩ := h
  cases hret
  exact ⟨hroot, hvalid⟩

theorem check_eq_ok {ε σ α : Type} {x : Except ε α} {a : α} {s s' : σ} :
    (check x : EStateM ε σ α).run s = .ok a s' ↔ x = .ok a ∧ s = s' := by
  cases x with
  | ok b =>
    rw [check_ok]
    constructor
    · rintro ⟨⟩
      exact ⟨rfl, rfl⟩
    · rintro ⟨⟨⟩, rfl⟩
      rfl
  | error e =>
    rw [check_error]
    simp

theorem externalCall_eq_ok {callee : EStateM Bytes World Bytes} {data : Bytes}
    (h : (externalCall callee).run w = .ok (ok, data) w') (hok : ok = true) :
    callee.run w = .ok data w' := by
  subst hok
  simp only [externalCall, EStateM.run] at h ⊢
  split at h
  · rename_i heq
    cases h
    exact heq
  · cases h

/-- An execution that returns: its output was proven under a root valid when it began, its flag
    was clear, and between setting the flag and the event it either made the voucher's call or,
    for a notice, nothing. -/
theorem executeOutput_eq_ok {callee : Voucher → EStateM Bytes World Bytes} {output : Bytes}
    (h : (executeOutput L P cfg app callee output proof).run w = .ok () w') :
    ∃ root, P.computeOutputsMerkleRoot proof (L.keccak256 output) = some root ∧
      isOutputsMerkleRootValid cfg w.validator app root = true ∧
      w.executed proof.outputIndex = false ∧
      ((∃ voucher data w₁, output.take 4 = voucherSelector L ∧
          (callee voucher).run (w.mark proof.outputIndex) = .ok data w₁ ∧
          w' = (w₁.log ⟨proof.outputIndex, output, voucher, root, w.validator⟩).emit
            proof.outputIndex root) ∨
        (output.take 4 ≠ voucherSelector L ∧
          w' = (w.mark proof.outputIndex).emit proof.outputIndex root)) := by
  rw [executeOutput, bind_ok (get_run w)] at h
  obtain ⟨root, _, hcheck, h⟩ := bind_eq_ok.1 h
  obtain ⟨hvalidate, rfl⟩ := check_eq_ok.1 hcheck
  obtain ⟨_, _, hcheck, h⟩ := bind_eq_ok.1 h
  obtain ⟨hclear, rfl⟩ := check_eq_ok.1 hcheck
  rw [bind_ok (modify_run _ _)] at h
  obtain ⟨_, _, hcheck, h⟩ := bind_eq_ok.1 h
  obtain ⟨-, rfl⟩ := check_eq_ok.1 hcheck
  obtain ⟨hroot, hvalid⟩ := validateOutput_eq_ok hvalidate
  refine ⟨root, hroot, hvalid, require_eq_ok.1 hclear, ?_⟩
  split_ifs at h with hsel
  · left
    obtain ⟨voucher, _, hcheck, h⟩ := bind_eq_ok.1 h
    obtain ⟨-, rfl⟩ := check_eq_ok.1 hcheck
    obtain ⟨⟨ok, data⟩, w₁, hcall, h⟩ := bind_eq_ok.1 h
    dsimp only at h
    obtain ⟨_, _, hcheck, h⟩ := bind_eq_ok.1 h
    obtain ⟨hok, rfl⟩ := check_eq_ok.1 hcheck
    rw [bind_ok (modify_run _ _), modify_run] at h
    cases h
    exact ⟨voucher, data, w₁, hsel, externalCall_eq_ok hcall (require_eq_ok.1 hok), rfl⟩
  · right
    obtain ⟨_, _, hcheck, h⟩ := bind_eq_ok.1 h
    obtain ⟨-, rfl⟩ := check_eq_ok.1 hcheck
    rw [modify_run] at h
    cases h
    exact ⟨hsel, rfl⟩

/-! ## What any call does -/

/-- The voucher was performed with a proof under a root that was valid, in a state the validator
    reached from `s`. -/
structure Proven (L : Library) (P : ProofLibrary) (cfg : Settings) (app : Address) (s : Validator)
    (p : Performed) : Prop where
  proof : ∃ proof, proof.outputIndex = p.index ∧
    P.computeOutputsMerkleRoot proof (L.keccak256 p.output) = some p.outputsMerkleRoot
  valid : isOutputsMerkleRootValid cfg p.validator app p.outputsMerkleRoot = true
  reached : ∃ accepts, p.validator = run L cfg s accepts

/-- What a call does to the two contracts. -/
structure Advance (L : Library) (P : ProofLibrary) (cfg : Settings) (app : Address)
    (w w' : World) : Prop where
  accepts : ∃ accepts, w'.validator = run L cfg w.validator accepts
  executed : ∀ i, w.executed i = true → w'.executed i = true
  performed : ∃ new, w'.performed = w.performed ++ new ∧ (new.map Performed.index).Nodup ∧
    ∀ p ∈ new, w.executed p.index = false ∧ w'.executed p.index = true ∧
      Proven L P cfg app w.validator p

theorem Advance.refl (w : World) : Advance L P cfg app w w where
  accepts := ⟨[], rfl⟩
  executed _ h := h
  performed := ⟨[], by simp, by simp, by simp⟩

theorem run_run (s : Validator) (before after : List AcceptCall) :
    run L cfg (run L cfg s before) after = run L cfg s (before ++ after) := by
  rw [run, run, run, List.foldl_append]

theorem Proven.earlier {s : Validator} {before : List AcceptCall} {p : Performed}
    (h : Proven L P cfg app (run L cfg s before) p) : Proven L P cfg app s p := by
  obtain ⟨accepts, haccepts⟩ := h.reached
  exact ⟨h.proof, h.valid, before ++ accepts, by rw [haccepts, run_run]⟩

theorem Advance.trans {w₁ w₂ w₃ : World} (h : Advance L P cfg app w₁ w₂)
    (h' : Advance L P cfg app w₂ w₃) : Advance L P cfg app w₁ w₃ := by
  obtain ⟨before, hbefore⟩ := h.accepts
  obtain ⟨after, hafter⟩ := h'.accepts
  obtain ⟨new, hnew, hnodup, hall⟩ := h.performed
  obtain ⟨new', hnew', hnodup', hall'⟩ := h'.performed
  refine ⟨⟨before ++ after, by rw [hafter, hbefore, run_run]⟩,
    fun i hi => h'.executed i (h.executed i hi), new ++ new',
    by rw [hnew', hnew, List.append_assoc], ?_, ?_⟩
  · rw [List.map_append]
    refine hnodup.append hnodup' ?_
    -- what the first call performed is flagged, what the second performed was not
    intro i hi hi'
    obtain ⟨p, hp, rfl⟩ := List.mem_map.1 hi
    obtain ⟨p', hp', hindex⟩ := List.mem_map.1 hi'
    have hset := (hall p hp).2.1
    have hclear := (hall' p' hp').1
    rw [hindex, hset] at hclear
    cases hclear
  · intro p hp
    rcases List.mem_append.1 hp with hp | hp
    · obtain ⟨hclear, hset, hproven⟩ := hall p hp
      exact ⟨hclear, h'.executed _ hset, hproven⟩
    · obtain ⟨hclear, hset, hproven⟩ := hall' p hp
      rw [hbefore] at hproven
      refine ⟨?_, hset, hproven.earlier⟩
      cases hfirst : w₁.executed p.index with
      | false => rfl
      | true => rw [h.executed _ hfirst] at hclear; cases hclear

theorem Advance.mark {w : World} {index : ℕ} :
    Advance L P cfg app w (w.mark index) where
  accepts := ⟨[], rfl⟩
  executed _ h := w.mark_mono index h
  performed := ⟨[], (List.append_nil _).symm, by simp, by simp⟩

theorem Advance.emit {w : World} {index : ℕ} {root : Bytes32} :
    Advance L P cfg app w (w.emit index root) where
  accepts := ⟨[], rfl⟩
  executed _ h := h
  performed := ⟨[], (List.append_nil _).symm, by simp, by simp⟩

/-- The flag set before the voucher's call keeps its index out of everything the call performs. -/
theorem Advance.voucher {w w₁ : World} {p : Performed} (hclear : w.executed p.index = false)
    (hinner : Advance L P cfg app (w.mark p.index) w₁) (hp : Proven L P cfg app w.validator p) :
    Advance L P cfg app w (w₁.log p) := by
  obtain ⟨new, hnew, hnodup, hall⟩ := hinner.performed
  have hset : w₁.executed p.index = true := hinner.executed _ (w.mark_self _)
  refine ⟨hinner.accepts, fun i hi => hinner.executed i (w.mark_mono _ hi), new ++ [p],
    ?_, ?_, ?_⟩
  · show w₁.performed ++ [p] = w.performed ++ (new ++ [p])
    rw [hnew, List.append_assoc]
    rfl
  · rw [List.map_append]
    refine hnodup.append (List.nodup_singleton _) ?_
    intro i hi hi'
    obtain ⟨q, hq, rfl⟩ := List.mem_map.1 hi
    have hindex : q.index = p.index := List.mem_singleton.1 hi'
    have hfalse := (hall q hq).1
    rw [hindex, World.mark_self] at hfalse
    cases hfalse
  · intro q hq
    rcases List.mem_append.1 hq with hq | hq
    · obtain ⟨hfalse, htrue, hproven⟩ := hall q hq
      refine ⟨?_, htrue, hproven⟩
      by_cases hindex : q.index = p.index
      · rw [hindex, hclear]
      · rw [← w.mark_of_ne hindex, hfalse]
    · rw [List.mem_singleton.1 hq]
      exact ⟨hclear, hset, hp⟩

theorem frame_advance {ε α : Type} {x : EStateM ε World α} {w : World}
    (h : ∀ a w', x.run w = .ok a w' → Advance L P cfg app w w') :
    Advance L P cfg app w (frame x w) := by
  rw [frame]
  cases hx : x.run w with
  | ok a w' => exact h a w' hx
  | error e w' => exact Advance.refl w

theorem contract_eq_ok {returnData data : Bytes}
    (h : (contract body ok returnData).run w = .ok data w') : ok = true ∧ w' = body w := by
  cases ok <;> cases h
  exact ⟨rfl, rfl⟩

theorem executeOutput_advance
    (hbody : ∀ w, Advance L P cfg app w (body w)) {returnData output : Bytes}
    (h : (executeOutput L P cfg app (fun _ => contract body ok returnData) output proof).run w =
      .ok () w') : Advance L P cfg app w w' := by
  obtain ⟨root, hroot, hvalid, hclear, hcase⟩ := executeOutput_eq_ok h
  rcases hcase with ⟨voucher, data, w₁, -, hcall, rfl⟩ | ⟨-, rfl⟩
  · obtain ⟨-, rfl⟩ := contract_eq_ok hcall
    exact (Advance.voucher (p := ⟨proof.outputIndex, output, voucher, root, w.validator⟩) hclear
      (hbody _) ⟨⟨proof, rfl, hroot⟩, hvalid, [], rfl⟩).trans Advance.emit
  · exact Advance.mark.trans Advance.emit

mutual

/-- One call, with every call made inside it. -/
theorem perform_advance (call : Call) (w : World) :
    Advance L P cfg app w (perform L P cfg app call w) := by
  match call with
  | .accept call =>
    rw [perform]
    exact ⟨⟨[call], rfl⟩, fun _ h => h, [], by simp, by simp, by simp⟩
  | .executeOutput output proof inner ok returnData =>
    rw [perform]
    exact frame_advance fun _ _ h => executeOutput_advance (performAll_advance inner) h
  | .other inner ok =>
    rw [perform]
    refine frame_advance fun _ _ h => ?_
    rw [(contract_eq_ok h).2]
    exact performAll_advance inner w

theorem performAll_advance (calls : List Call) (w : World) :
    Advance L P cfg app w (performAll L P cfg app calls w) := by
  match calls with
  | [] =>
    rw [performAll]
    exact Advance.refl w
  | call :: calls =>
    rw [performAll]
    exact (perform_advance call w).trans (performAll_advance calls _)

end

/-- A voucher whose call fails makes the whole execution revert. -/
theorem executeOutput_reverts {returnData output : Bytes} {w : World}
    (hsel : output.take 4 = voucherSelector L) :
    frame (executeOutput L P cfg app (fun _ => contract body false returnData) output proof) w =
      w := by
  rw [frame]
  cases hx : (executeOutput L P cfg app (fun _ => contract body false returnData) output
    proof).run w with
  | error e w' => rfl
  | ok a w' =>
    obtain ⟨_, _, _, _, hcase⟩ := executeOutput_eq_ok hx
    rcases hcase with ⟨_, _, _, _, hcall, _⟩ | ⟨hne, _⟩
    · cases (contract_eq_ok hcall).1
    · exact (hne hsel).elim

/-- For every sequence of transactions on the deployed contracts, whatever the contracts called do
    and call in turn: the voucher calls performed have pairwise different output indices; each is
    of the output its root binds at its index, below `2^63`, under a root that a state reached by
    the validator reported valid to the executor; and from any state, an execution whose voucher
    call fails leaves everything as it was. -/
theorem executeOutput_once (L : Library) (P : ProofLibrary) (cfg : Settings) (app : Address)
    (bound : Bytes32 → ℕ → Option Bytes32)
    (hbound : ∀ proof leaf root, P.computeOutputsMerkleRoot proof leaf = some root →
      proof.outputIndex < 2 ^ 63 ∧ bound root proof.outputIndex = some leaf)
    (calls : List Call) :
    ((performAll L P cfg app calls .deployed).performed.map Performed.index).Nodup ∧
    (∀ p ∈ (performAll L P cfg app calls .deployed).performed,
      p.index < 2 ^ 63 ∧ bound p.outputsMerkleRoot p.index = some (L.keccak256 p.output) ∧
      isOutputsMerkleRootValid cfg p.validator app p.outputsMerkleRoot = true ∧
      ∃ accepts, p.validator = run L cfg .deployed accepts) ∧
    (∀ output proof inner returnData, output.take 4 = voucherSelector L →
      perform L P cfg app (.executeOutput output proof inner false returnData)
        (performAll L P cfg app calls .deployed) = performAll L P cfg app calls .deployed) := by
  obtain ⟨new, hnew, hnodup, hall⟩ :=
    (performAll_advance calls .deployed : Advance L P cfg app _ _).performed
  have hperformed : (performAll L P cfg app calls .deployed).performed = new := hnew
  refine ⟨by rw [hperformed]; exact hnodup, ?_, ?_⟩
  · rw [hperformed]
    intro p hp
    obtain ⟨⟨proof, hindex, hroot⟩, hvalid, hreached⟩ := (hall p hp).2.2
    obtain ⟨hlt, hbinds⟩ := hbound _ _ _ hroot
    rw [hindex] at hlt hbinds
    exact ⟨hlt, hbinds, hvalid, hreached⟩
  · intro output proof inner returnData hsel
    rw [perform]
    exact executeOutput_reverts hsel

end

/-! ## A voucher that calls back -/

/-- A hash that tells the signatures of the two kinds of output apart. -/
def lengthHash (b : Bytes) : Bytes32 := ⟨beBytes 4 b.length ++ zeros 28, by simp⟩

/-- Trees of one output: the leaf is the root, at index 0. -/
def singleLeaf : ProofLibrary where
  isSiblingsArrayLengthValid _ := true
  computeOutputsMerkleRoot proof leaf := if proof.outputIndex = 0 then some leaf else none
  decodeVoucher arguments := some ⟨App.addressOf 0xb, 0, arguments⟩

/-- A voucher with an empty payload. -/
def emptyVoucher : Bytes := [0, 0, 0, 30]

/-- The library with a trie that holds the root of the tree of `emptyVoucher`. -/
def voucherLibrary : Library :=
  ⟨lengthHash, fun _ _ _ => some (0xa0 :: (lengthHash emptyVoucher).val)⟩

/-- The proposal that commits to that tree. -/
def voucherProposal : AcceptCall :=
  { proposalCall 4 with
    gameAtIndex := some (1, ⟨some 0, some 3, some (lengthHash (proposalCall 4).proof.encode),
      some 4⟩) }

/-- An execution of the voucher whose destination makes the calls `inner`. -/
def executeVoucher (inner : List Call) : Call := .executeOutput emptyVoucher ⟨0, []⟩ inner true []

/-- The proposal, the voucher whose destination executes it again, and once more after that. -/
def callbackRun : List Call :=
  [.accept voucherProposal, executeVoucher [executeVoucher []], executeVoucher []]

theorem executeOutput_once_callback :
    (performAll voucherLibrary singleLeaf openSettings openSettings.appContract callbackRun
      .deployed).performed.map Performed.index = [0] ∧
    ((performAll voucherLibrary singleLeaf openSettings openSettings.appContract callbackRun
      .deployed).performed.map Performed.index).Nodup := by
  refine ⟨by decide +kernel, (executeOutput_once voucherLibrary singleLeaf openSettings
    openSettings.appContract (fun root i => if i = 0 then some root else none) ?_ callbackRun).1⟩
  intro proof leaf root h
  simp only [singleLeaf] at h
  split_ifs at h with hindex
  cases h
  exact ⟨by omega, if_pos hindex⟩

end OpCartesi.Contracts
