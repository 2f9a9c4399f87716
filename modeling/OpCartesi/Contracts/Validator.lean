import OpCartesi.Common.Bytes
import OpCartesi.Common.Exec
import OpCartesi.App.Types

/-!
# The outputs root validator (`OPOutputsMerkleRootValidator.sol`)

`accept` opens the root claim of a dispute game: four words whose hash is the claim, and a storage
proof of the slot that holds the outputs root. What it records answers
`isOutputsMerkleRootValid` and `getLastFinalizedMachineMerkleRoot`.

* `readBytes`: the RLP reader for strings (`RLPReader.sol`).
* `readOutputsRoot`: the storage proof, the RLP framing and the padding back to a word;
  `readOutputsRoot_eq_ok` says that the memory behind the decoded bytes does not matter.
* `opening`: every check of `accept`, in its order. `record`: its writes.
* `run`: any sequence of `accept` transactions, those that revert included.
* `Tally`: the two records are running maxima of the L2 block numbers opened (`run_tally`).
* `acceptedRoots_exact`: with no game of block 0, the roots reported valid are those opened, and
  the machine root is the one of the highest proposal. A game of block 0 is accepted and leaves no
  record (`acceptedRoots_blockZero`).
-/

namespace OpCartesi.Contracts

open Exec

/-- A `bytes32` value. -/
abbrev Bytes32 := { b : Bytes // b.length = 32 }

/-- `bytes32(0)`. -/
def zeroWord : Bytes32 := ⟨zeros 32, zeros_length 32⟩

/-- `w >> bits` on a `bytes32`. -/
def Bytes32.shiftRight (w : Bytes32) (bits : ℕ) : Bytes32 :=
  ⟨beBytes 32 (beNat w.val / 2 ^ bits), beBytes_length _ _⟩

theorem Bytes32.shiftRight_val (w : Bytes32) (bits : ℕ) :
    (w.shiftRight bits).val = beBytes 32 (beNat w.val / 2 ^ bits) := rfl

/-! ## The RLP reader -/

/-- `RLPErrors.sol`. -/
inductive RLPError
  | emptyItem
  | contentLengthMismatch
  | invalidHeader
  | unexpectedList
  | invalidDataRemainder
  deriving DecidableEq

/-- `RLPItemType` (`RLPReader.sol:26-29`). -/
inductive RLPItemType
  | dataItem
  | listItem
  deriving DecidableEq

/-- The branches of `_decodeLength` for a payload whose length is written in `lenOfLen` bytes
    (`RLPReader.sol:171-193`, `202-225`). -/
def decodeLong (item content : Bytes) (lenOfLen : ℕ) (type : RLPItemType) :
    Except RLPError (ℕ × ℕ × RLPItemType) := do
  require (lenOfLen < item.length) .contentLengthMismatch
  require (content.headD 0 ≠ 0) .invalidHeader
  let len := beNat (content.take lenOfLen)
  require (55 < len) .invalidHeader
  require (lenOfLen + len < item.length) .contentLengthMismatch
  return (1 + lenOfLen, len, type)

/-- `_decodeLength` (`RLPReader.sol:136-226`). -/
def decodeLength (item : Bytes) : Except RLPError (ℕ × ℕ × RLPItemType) :=
  match item with
  | [] => .error .emptyItem
  | lead :: content =>
    if lead.val ≤ 0x7f then
      .ok (0, 1, .dataItem)
    else if lead.val ≤ 0xb7 then do
      let strLen := lead.val - 0x80
      require (strLen < item.length) .contentLengthMismatch
      require (¬(strLen = 1 ∧ (content.headD 0).val < 0x80)) .invalidHeader
      return (1, strLen, .dataItem)
    else if lead.val ≤ 0xbf then
      decodeLong item content (lead.val - 0xb7) .dataItem
    else if lead.val ≤ 0xf7 then do
      let listLen := lead.val - 0xc0
      require (listLen < item.length) .contentLengthMismatch
      return (1, listLen, .listItem)
    else
      decodeLong item content (lead.val - 0xf7) .listItem

/-- `readBytes(toRLPItem(value))` (`RLPReader.sol:107-122`, `45-55`): an empty value is no item,
    which `_decodeLength` says too. -/
def readBytes (value : Bytes) : Except RLPError Bytes := do
  let (itemOffset, itemLength, itemType) ← decodeLength value
  require (itemType = .dataItem) .unexpectedList
  require (value.length = itemOffset + itemLength) .invalidDataRemainder
  return sub value itemOffset itemLength

/-! ## The contract -/

/-- `OutputRootProof` (`OPOutputsMerkleRootValidator.sol:14-19`). -/
structure OutputRootProof where
  version : Bytes32
  stateRoot : Bytes32
  messagePasserStorageRoot : Bytes32
  latestBlockhash : Bytes32
  deriving DecidableEq

/-- `abi.encode` of the four words. -/
def OutputRootProof.encode (p : OutputRootProof) : Bytes :=
  p.version.val ++ p.stateRoot.val ++ p.messagePasserStorageRoot.val ++ p.latestBlockhash.val

/-- What the static calls to a dispute game answer (`IDisputeGame.sol:5-10`), `none` for a call
    that reverts. -/
structure Game where
  status : Option ℕ
  createdAt : Option ℕ
  rootClaim : Option Bytes32
  l2BlockNumber : Option ℕ
  deriving DecidableEq

/-- The functions the contract takes from its libraries. -/
structure Library where
  keccak256 : Bytes → Bytes32
  /-- `SecureMerkleTrie.get`: key, proof and root; `none` where it reverts. -/
  trieGet : Bytes → List Bytes → Bytes32 → Option Bytes

/-- The immutables (`OPOutputsMerkleRootValidator.sol:60-78`). The factory is what answers
    `gameAtIndex` in each call. -/
structure Settings where
  gameType : ℕ
  appContract : Address
  maturityDelay : ℕ
  requireDefenderWins : Bool

/-- The storage (`OPOutputsMerkleRootValidator.sol:81-93`) with the events emitted. -/
structure Validator where
  acceptedAtL2Block : Bytes32 → ℕ
  lastFinalizedMachineRoot : Bytes32
  lastFinalizedL2Block : ℕ
  /-- `OutputsMerkleRootAccepted`: root, game index and L2 block. -/
  events : List (Bytes32 × ℕ × ℕ)

/-- The validator as deployed. -/
def Validator.deployed : Validator := ⟨fun _ => 0, zeroWord, 0, []⟩

/-- A transaction that calls `accept`: its arguments, what the world answers it, and the memory
    its decoded bytes are followed by. -/
structure AcceptCall where
  timestamp : ℕ
  gameIndex : ℕ
  gameAtIndex : Option (ℕ × Game)
  proof : OutputRootProof
  outputsRootProof : List Bytes
  memory : Image

/-- The L2 block number the game of a call answers. -/
def AcceptCall.l2Block (call : AcceptCall) : Option ℕ :=
  call.gameAtIndex.bind fun answer => answer.2.l2BlockNumber

/-- Why `accept` reverts (`OPOutputsMerkleRootValidator.sol:95-100`), the failures of the calls it
    makes included. -/
inductive AcceptError
  | callReverted
  | arithmeticOverflow
  | wrongGameType (got want : ℕ)
  | gameNotResolved (status : ℕ)
  | gameChallenged
  | gameTooYoung (createdAt maturesAt : ℕ)
  | proofDoesNotMatchClaim (computed claimed : Bytes32)
  | outputsRootValueTooLong (length : ℕ)
  | trie
  | rlp (e : RLPError)
  deriving DecidableEq

def CHALLENGER_WINS : ℕ := 1

def DEFENDER_WINS : ℕ := 2

section

variable (L : Library) (cfg : Settings)

/-- `OUTPUTS_ROOT_SLOT` (`OPOutputsMerkleRootValidator.sol:53`). -/
def outputsRootSlot : Bytes32 := L.keccak256 (App.stringToBytes "op-cartesi.outputsMerkleRoot")

/-- `mload(add(decoded, 32))`: the first word of the decoded bytes, which runs into the memory
    behind them when they are shorter. -/
def firstWord (decoded : Bytes) (memory : Image) : Bytes32 :=
  ⟨(decoded ++ slice memory 0 32).take 32, by simp⟩

/-- `_readOutputsRoot` (`OPOutputsMerkleRootValidator.sol:173-186`). -/
def readOutputsRoot (memory : Image) (withdrawalsRoot : Bytes32) (outputsRootProof : List Bytes) :
    Except AcceptError Bytes32 := do
  let value ← expect (L.trieGet (outputsRootSlot L).val outputsRootProof withdrawalsRoot) .trie
  let decoded ← (readBytes value).mapError .rlp
  require (decoded.length ≤ 32) (.outputsRootValueTooLong decoded.length)
  return (firstWord decoded memory).shiftRight (8 * (32 - decoded.length))

/-- The checks of `accept` (`OPOutputsMerkleRootValidator.sol:130-159`): the outputs root opened
    and the game's L2 block. -/
def opening (call : AcceptCall) : Except AcceptError (Bytes32 × ℕ) := do
  let (gt, game) ← expect call.gameAtIndex .callReverted
  require (gt = cfg.gameType) (.wrongGameType gt cfg.gameType)
  let status ← expect game.status .callReverted
  require (status ≠ CHALLENGER_WINS) .gameChallenged
  require (¬(cfg.requireDefenderWins = true ∧ status ≠ DEFENDER_WINS)) (.gameNotResolved status)
  let createdAt ← expect game.createdAt .callReverted
  -- the addition is checked in this version of the language
  require (createdAt + cfg.maturityDelay < 2 ^ 256) .arithmeticOverflow
  require (createdAt + cfg.maturityDelay ≤ call.timestamp)
    (.gameTooYoung createdAt (createdAt + cfg.maturityDelay))
  let computed := L.keccak256 call.proof.encode
  let claimed ← expect game.rootClaim .callReverted
  require (computed = claimed) (.proofDoesNotMatchClaim computed claimed)
  let outputsMerkleRoot ← readOutputsRoot L call.memory call.proof.messagePasserStorageRoot
    call.outputsRootProof
  let l2Block ← expect game.l2BlockNumber .callReverted
  return (outputsMerkleRoot, l2Block)

/-- The writes of `accept` (`OPOutputsMerkleRootValidator.sol:160-167`). -/
def Validator.record (s : Validator) (call : AcceptCall) (outputsMerkleRoot : Bytes32)
    (l2Block : ℕ) : Validator where
  acceptedAtL2Block :=
    if l2Block > s.acceptedAtL2Block outputsMerkleRoot then
      Function.update s.acceptedAtL2Block outputsMerkleRoot l2Block
    else s.acceptedAtL2Block
  lastFinalizedMachineRoot :=
    if l2Block > s.lastFinalizedL2Block then call.proof.stateRoot else s.lastFinalizedMachineRoot
  lastFinalizedL2Block := if l2Block > s.lastFinalizedL2Block then l2Block else s.lastFinalizedL2Block
  events := s.events ++ [(outputsMerkleRoot, call.gameIndex, l2Block)]

/-- `accept` (`OPOutputsMerkleRootValidator.sol:127-168`). -/
def accept (call : AcceptCall) : EStateM AcceptError Validator Unit := do
  let (outputsMerkleRoot, l2Block) ← check (opening L cfg call)
  modify fun s => s.record call outputsMerkleRoot l2Block

/-- `isOutputsMerkleRootValid` (`OPOutputsMerkleRootValidator.sol:189-196`). -/
def isOutputsMerkleRootValid (s : Validator) (appContract : Address) (outputsMerkleRoot : Bytes32) :
    Bool :=
  appContract == cfg.appContract && s.acceptedAtL2Block outputsMerkleRoot != 0

/-- `getLastFinalizedMachineMerkleRoot` (`OPOutputsMerkleRootValidator.sol:205-213`). -/
def getLastFinalizedMachineMerkleRoot (s : Validator) (appContract : Address) : Bytes32 :=
  if appContract ≠ cfg.appContract then zeroWord else s.lastFinalizedMachineRoot

/-- One transaction: a revert undoes what the call wrote. -/
def transact (s : Validator) (call : AcceptCall) : Validator :=
  match (accept L cfg call).run s with
  | .ok _ s' => s'
  | .error _ _ => s

/-- A sequence of transactions. -/
def run (s : Validator) (calls : List AcceptCall) : Validator := calls.foldl (transact L cfg) s

end

/-! ## Reading the outputs root -/

section

variable {L : Library} {cfg : Settings}

theorem leNat_append (lo hi : Bytes) :
    leNat (lo ++ hi) = leNat lo + 256 ^ lo.length * leNat hi := by
  induction lo with
  | nil => simp [leNat]
  | cons b lo ih =>
    rw [List.cons_append, leNat, leNat, ih, List.length_cons, pow_succ']
    ring

/-- Dividing by the width of the low bytes drops them. -/
theorem beNat_append_div (hi lo : Bytes) : beNat (hi ++ lo) / 256 ^ lo.length = beNat hi := by
  have hlo : leNat lo.reverse < 256 ^ lo.length := by
    have := leNat_lt lo.reverse
    rwa [List.length_reverse] at this
  rw [beNat, List.reverse_append, leNat_append, List.length_reverse,
    Nat.add_mul_div_left _ _ (by positivity), Nat.div_eq_of_lt hlo, Nat.zero_add, beNat]

/-- The big-endian bytes of a short string are the string padded on the left. -/
theorem beBytes_beNat_of_le {bs : Bytes} {w : ℕ} (h : bs.length ≤ w) :
    beBytes w (beNat bs) = zeros (w - bs.length) ++ bs := by
  have hpad : leNat (bs.reverse ++ zeros (w - bs.length)) = leNat bs.reverse := by
    rw [leNat_append, leNat_zeros, Nat.mul_zero, Nat.add_zero]
  have hlen : (bs.reverse ++ zeros (w - bs.length)).length = w := by
    simp only [List.length_append, List.length_reverse, zeros_length]
    omega
  have hback := leBytes_leNat (bs.reverse ++ zeros (w - bs.length))
  rw [hlen, hpad] at hback
  rw [beBytes, beNat, hback, List.reverse_append, List.reverse_reverse, zeros,
    List.reverse_replicate]

/-- The shift leaves the decoded bytes, padded on the left, whatever the memory behind them. -/
theorem shiftRight_firstWord {decoded : Bytes} (h : decoded.length ≤ 32) (memory : Image) :
    ((firstWord decoded memory).shiftRight (8 * (32 - decoded.length))).val =
      zeros (32 - decoded.length) ++ decoded := by
  have hword : (firstWord decoded memory).val =
      decoded ++ (slice memory 0 32).take (32 - decoded.length) := by
    show (decoded ++ slice memory 0 32).take 32 = _
    rw [List.take_append, List.take_of_length_le h]
  have htail : ((slice memory 0 32).take (32 - decoded.length)).length = 32 - decoded.length := by
    rw [List.length_take, slice_length]
    omega
  have hshift : beNat (firstWord decoded memory).val / 2 ^ (8 * (32 - decoded.length)) =
      beNat decoded := by
    have hdrop := beNat_append_div decoded ((slice memory 0 32).take (32 - decoded.length))
    rw [htail, ← hword] at hdrop
    rw [pow_mul, show (2 : ℕ) ^ 8 = 256 by norm_num, hdrop]
  rw [Bytes32.shiftRight_val, hshift]
  exact beBytes_beNat_of_le h

/-- The word the reserved slot's value stands for: an RLP string of at most 32 bytes, padded on
    the left. -/
def StoredWord (value : Bytes) (word : Bytes32) : Prop :=
  ∃ decoded, readBytes value = .ok decoded ∧ decoded.length ≤ 32 ∧
    word.val = zeros (32 - decoded.length) ++ decoded

theorem readOutputsRoot_eq_ok {memory : Image} {withdrawalsRoot root : Bytes32}
    {proof : List Bytes} : readOutputsRoot L memory withdrawalsRoot proof = .ok root ↔
      ∃ value, L.trieGet (outputsRootSlot L).val proof withdrawalsRoot = some value ∧
        StoredWord value root := by
  simp only [readOutputsRoot, except_bind_eq_ok, expect_eq_ok, mapError_eq_ok, require_eq_ok,
    StoredWord]
  constructor
  · rintro ⟨value, hget, decoded, hread, _, hlen, hroot⟩
    cases hroot
    exact ⟨value, hget, decoded, hread, hlen, shiftRight_firstWord hlen memory⟩
  · rintro ⟨value, hget, decoded, hread, hlen, hroot⟩
    refine ⟨value, hget, decoded, hread, (), hlen, congrArg Except.ok (Subtype.ext ?_)⟩
    rw [hroot, shiftRight_firstWord hlen memory]

/-! ## What one call does -/

/-- A call that passes every check opens a value of the proposal's trie, at the block its game
    answers. -/
theorem opening_eq_ok {call : AcceptCall} {root : Bytes32} {n : ℕ}
    (h : opening L cfg call = .ok (root, n)) :
    readOutputsRoot L call.memory call.proof.messagePasserStorageRoot call.outputsRootProof =
      .ok root ∧ call.l2Block = some n := by
  simp only [opening, except_bind_eq_ok, expect_eq_ok, require_eq_ok] at h
  obtain ⟨⟨gt, game⟩, hgame, _, _, status, _, _, _, _, _, createdAt, _, _, _, _, _, claimed, _, _,
    _, root', hroot, l2Block, hblock, hret⟩ := h
  cases hret
  refine ⟨hroot, ?_⟩
  rw [AcceptCall.l2Block, hgame]
  exact hblock

theorem accept_ok {call : AcceptCall} {root : Bytes32} {n : ℕ} (s : Validator)
    (h : opening L cfg call = .ok (root, n)) :
    (accept L cfg call).run s = .ok () (s.record call root n) := by
  rw [accept, h, bind_ok (check_ok _ _), modify_run]

theorem accept_error {call : AcceptCall} {e : AcceptError} (s : Validator)
    (h : opening L cfg call = .error e) : (accept L cfg call).run s = .error e s := by
  rw [accept, h, bind_error (check_error _ _)]

/-- Whether a call is accepted does not depend on what was accepted before. -/
theorem accept_returns_iff {call : AcceptCall} {s : Validator} :
    (∃ s', (accept L cfg call).run s = .ok () s') ↔
      ∃ root n, opening L cfg call = .ok (root, n) := by
  constructor
  · rintro ⟨s', h⟩
    match ho : opening L cfg call with
    | .ok (root, n) => exact ⟨root, n, rfl⟩
    | .error e =>
      rw [accept_error s ho] at h
      cases h
  · rintro ⟨root, n, h⟩
    exact ⟨_, accept_ok s h⟩

theorem transact_ok {call : AcceptCall} {root : Bytes32} {n : ℕ} (s : Validator)
    (h : opening L cfg call = .ok (root, n)) : transact L cfg s call = s.record call root n := by
  rw [transact, accept_ok s h]

theorem transact_error {call : AcceptCall} {e : AcceptError} (s : Validator)
    (h : opening L cfg call = .error e) : transact L cfg s call = s := by
  rw [transact, accept_error s h]

theorem Validator.record_acceptedAtL2Block (s : Validator) (call : AcceptCall) (root r : Bytes32)
    (n : ℕ) : (s.record call root n).acceptedAtL2Block r =
      if r = root then max (s.acceptedAtL2Block r) n else s.acceptedAtL2Block r := by
  simp only [Validator.record]
  by_cases hr : r = root
  · subst hr
    rw [if_pos rfl]
    split_ifs with hn
    · rw [Function.update_self, max_eq_right (by omega)]
    · rw [max_eq_left (by omega)]
  · rw [if_neg hr]
    split_ifs with hn
    · rw [Function.update_of_ne hr]
    · rfl

/-! ## Sequences of calls -/

/-- `call` is one of the transactions of `calls`, and it did not revert. -/
def Accepted (L : Library) (cfg : Settings) (calls : List AcceptCall) (call : AcceptCall) : Prop :=
  ∃ before after, calls = before ++ call :: after ∧
    ∃ s, (accept L cfg call).run (run L cfg .deployed before) = .ok () s

theorem accepted_iff {calls : List AcceptCall} {call : AcceptCall} :
    Accepted L cfg calls call ↔ call ∈ calls ∧ ∃ root n, opening L cfg call = .ok (root, n) := by
  constructor
  · rintro ⟨before, after, rfl, hs⟩
    exact ⟨by simp, accept_returns_iff.1 hs⟩
  · rintro ⟨hmem, hopen⟩
    obtain ⟨before, after, rfl⟩ := List.append_of_mem hmem
    exact ⟨before, after, rfl, accept_returns_iff.2 hopen⟩

/-- What the storage says after `calls`: both records are the greatest block opened. -/
structure Tally (L : Library) (cfg : Settings) (calls : List AcceptCall) (s : Validator) : Prop where
  root_le : ∀ call ∈ calls, ∀ root n, opening L cfg call = .ok (root, n) →
    n ≤ s.acceptedAtL2Block root
  root_of : ∀ root, s.acceptedAtL2Block root ≠ 0 →
    ∃ call ∈ calls, opening L cfg call = .ok (root, s.acceptedAtL2Block root)
  last_le : ∀ call ∈ calls, ∀ root n, opening L cfg call = .ok (root, n) →
    n ≤ s.lastFinalizedL2Block
  last_of : s.lastFinalizedL2Block ≠ 0 → ∃ call ∈ calls, ∃ root,
    opening L cfg call = .ok (root, s.lastFinalizedL2Block) ∧
      s.lastFinalizedMachineRoot = call.proof.stateRoot

theorem Tally.deployed : Tally L cfg [] .deployed where
  root_le := by simp
  root_of := by simp [Validator.deployed]
  last_le := by simp
  last_of := by simp [Validator.deployed]

/-- A call that reverts adds nothing to open. -/
theorem Tally.reverted {calls : List AcceptCall} {s : Validator} (h : Tally L cfg calls s)
    {call : AcceptCall} {e : AcceptError} (he : opening L cfg call = .error e) :
    Tally L cfg (calls ++ [call]) s := by
  have hold : ∀ c ∈ calls ++ [call], ∀ root n, opening L cfg c = .ok (root, n) → c ∈ calls := by
    intro c hc root n ho
    rcases List.mem_append.1 hc with hc | hc
    · exact hc
    · rw [List.mem_singleton.1 hc, he] at ho
      cases ho
  refine ⟨?_, ?_, ?_, ?_⟩
  · intro c hc root n ho
    exact h.root_le c (hold c hc root n ho) root n ho
  · intro root hroot
    obtain ⟨c, hc, ho⟩ := h.root_of root hroot
    exact ⟨c, List.mem_append_left _ hc, ho⟩
  · intro c hc root n ho
    exact h.last_le c (hold c hc root n ho) root n ho
  · intro hlast
    obtain ⟨c, hc, root, ho⟩ := h.last_of hlast
    exact ⟨c, List.mem_append_left _ hc, root, ho⟩

theorem Tally.record {calls : List AcceptCall} {s : Validator} (h : Tally L cfg calls s)
    {call : AcceptCall} {root : Bytes32} {n : ℕ} (ho : opening L cfg call = .ok (root, n)) :
    Tally L cfg (calls ++ [call]) (s.record call root n) := by
  have hself : call ∈ calls ++ [call] := by simp
  refine ⟨?_, ?_, ?_, ?_⟩
  · intro c hc r m hm
    rw [Validator.record_acceptedAtL2Block]
    rcases List.mem_append.1 hc with hc | hc
    · have hle := h.root_le c hc r m hm
      split_ifs <;> omega
    · rw [List.mem_singleton.1 hc, ho] at hm
      cases hm
      rw [if_pos rfl]
      exact le_max_right _ _
  · intro r hr
    rw [Validator.record_acceptedAtL2Block] at hr ⊢
    by_cases hroot : r = root
    · subst hroot
      rw [if_pos rfl] at hr ⊢
      rcases le_total n (s.acceptedAtL2Block r) with hn | hn
      · rw [max_eq_left hn] at hr ⊢
        obtain ⟨c, hc, hopen⟩ := h.root_of r hr
        exact ⟨c, List.mem_append_left _ hc, hopen⟩
      · rw [max_eq_right hn]
        exact ⟨call, hself, ho⟩
    · rw [if_neg hroot] at hr ⊢
      obtain ⟨c, hc, hopen⟩ := h.root_of r hr
      exact ⟨c, List.mem_append_left _ hc, hopen⟩
  · intro c hc r m hm
    show m ≤ if n > s.lastFinalizedL2Block then n else s.lastFinalizedL2Block
    rcases List.mem_append.1 hc with hc | hc
    · have hle := h.last_le c hc r m hm
      split_ifs <;> omega
    · rw [List.mem_singleton.1 hc, ho] at hm
      cases hm
      split_ifs <;> omega
  · simp only [Validator.record]
    by_cases hn : n > s.lastFinalizedL2Block
    · rw [if_pos hn, if_pos hn]
      intro _
      exact ⟨call, hself, root, ho, rfl⟩
    · rw [if_neg hn, if_neg hn]
      intro hlast
      obtain ⟨c, hc, r, hopen⟩ := h.last_of hlast
      exact ⟨c, List.mem_append_left _ hc, r, hopen⟩

theorem run_concat (s : Validator) (calls : List AcceptCall) (call : AcceptCall) :
    run L cfg s (calls ++ [call]) = transact L cfg (run L cfg s calls) call := by
  rw [run, List.foldl_append]
  rfl

theorem run_tally (L : Library) (cfg : Settings) (calls : List AcceptCall) :
    Tally L cfg calls (run L cfg .deployed calls) := by
  induction calls using List.reverseRecOn with
  | nil => exact Tally.deployed
  | append_singleton calls call ih =>
    rw [run_concat]
    match ho : opening L cfg call with
    | .ok (root, n) =>
      rw [transact_ok _ ho]
      exact ih.record ho
    | .error e =>
      rw [transact_error _ ho]
      exact ih.reverted ho

/-! ## The roots reported valid -/

/-- The proposal's message passer trie binds `root` at the reserved slot, `bound` giving the value
    a trie root commits to under a key. -/
def Opens (L : Library) (bound : Bytes32 → Bytes → Option Bytes) (call : AcceptCall)
    (root : Bytes32) : Prop :=
  ∃ value, bound call.proof.messagePasserStorageRoot (outputsRootSlot L).val = some value ∧
    StoredWord value root

theorem StoredWord.unique {value : Bytes} {r r' : Bytes32} (h : StoredWord value r)
    (h' : StoredWord value r') : r = r' := by
  obtain ⟨decoded, hread, _, hr⟩ := h
  obtain ⟨decoded', hread', _, hr'⟩ := h'
  rw [hread] at hread'
  cases hread'
  exact Subtype.ext (hr.trans hr'.symm)

/-- An accepted call reads the one root its proposal commits to. -/
theorem opens_iff {bound : Bytes32 → Bytes → Option Bytes}
    (hbound : ∀ key proof root value, L.trieGet key proof root = some value →
      bound root key = some value)
    {call : AcceptCall} {root r : Bytes32} {n : ℕ} (ho : opening L cfg call = .ok (root, n)) :
    Opens L bound call r ↔ r = root := by
  obtain ⟨value, hget, hword⟩ := readOutputsRoot_eq_ok.1 (opening_eq_ok ho).1
  have hval := hbound _ _ _ _ hget
  constructor
  · rintro ⟨value', hval', hword'⟩
    rw [hval] at hval'
    cases hval'
    exact hword'.unique hword
  · rintro rfl
    exact ⟨value, hval, hword⟩

/-- For every sequence of `accept` transactions in which no game answers block 0: a root is
    reported valid for an application exactly when that is the configured one and some accepted
    proposal commits to the root, and once a proposal was accepted the machine root is the state
    root of an accepted proposal with the greatest L2 block. -/
theorem acceptedRoots_exact (L : Library) (cfg : Settings) (bound : Bytes32 → Bytes → Option Bytes)
    (hbound : ∀ key proof root value, L.trieGet key proof root = some value →
      bound root key = some value)
    (calls : List AcceptCall) (hpos : ∀ call ∈ calls, call.l2Block ≠ some 0) :
    (∀ app root, isOutputsMerkleRootValid cfg (run L cfg .deployed calls) app root = true ↔
      app = cfg.appContract ∧ ∃ call, Accepted L cfg calls call ∧ Opens L bound call root) ∧
    ((∃ call, Accepted L cfg calls call) → ∃ call n, Accepted L cfg calls call ∧
      call.l2Block = some n ∧
      getLastFinalizedMachineMerkleRoot cfg (run L cfg .deployed calls) cfg.appContract =
        call.proof.stateRoot ∧
      ∀ call' n', Accepted L cfg calls call' → call'.l2Block = some n' → n' ≤ n) := by
  have htally := run_tally L cfg calls
  have hne : ∀ call ∈ calls, ∀ root n, opening L cfg call = .ok (root, n) → n ≠ 0 := by
    rintro call hmem root n ho rfl
    exact hpos call hmem (opening_eq_ok ho).2
  refine ⟨?_, ?_⟩
  · intro app root
    rw [isOutputsMerkleRootValid, Bool.and_eq_true, beq_iff_eq, bne_iff_ne]
    refine and_congr_right fun _ => ?_
    constructor
    · intro hroot
      obtain ⟨call, hmem, ho⟩ := htally.root_of root hroot
      exact ⟨call, accepted_iff.2 ⟨hmem, _, _, ho⟩, (opens_iff hbound ho).2 rfl⟩
    · rintro ⟨call, hacc, hopens⟩
      obtain ⟨hmem, root', n, ho⟩ := accepted_iff.1 hacc
      cases (opens_iff hbound ho).1 hopens
      have hle := htally.root_le call hmem _ n ho
      have := hne call hmem _ n ho
      omega
  · rintro ⟨call₀, hacc₀⟩
    obtain ⟨hmem₀, root₀, n₀, ho₀⟩ := accepted_iff.1 hacc₀
    have hlast : (run L cfg .deployed calls).lastFinalizedL2Block ≠ 0 := by
      have hle := htally.last_le call₀ hmem₀ _ n₀ ho₀
      have := hne call₀ hmem₀ _ n₀ ho₀
      omega
    obtain ⟨call, hmem, root, ho, hmachine⟩ := htally.last_of hlast
    refine ⟨call, _, accepted_iff.2 ⟨hmem, root, _, ho⟩, (opening_eq_ok ho).2, ?_, ?_⟩
    · rw [getLastFinalizedMachineMerkleRoot, if_neg (by simp), hmachine]
    · intro call' n' hacc' hblock'
      obtain ⟨hmem', root', m, ho'⟩ := accepted_iff.1 hacc'
      rw [(opening_eq_ok ho').2] at hblock'
      cases hblock'
      exact htally.last_le call' hmem' root' _ ho'

end

/-! ## A proposal of block 0 -/

/-- A library whose trie holds one byte at every key. -/
def byteLibrary : Library := ⟨fun _ => zeroWord, fun _ _ _ => some [5]⟩

/-- A permissioned chain's validator: no delay, no resolution needed. -/
def openSettings : Settings := ⟨1, App.addressOf 0xa, 0, false⟩

/-- A proposal for block `n`, and the call that opens it. -/
def proposalCall (n : ℕ) : AcceptCall where
  timestamp := 10
  gameIndex := 0
  gameAtIndex := some (1, ⟨some 0, some 3, some zeroWord, some n⟩)
  proof := ⟨zeroWord, ⟨beBytes 32 (7 + n), beBytes_length _ _⟩, zeroWord, zeroWord⟩
  outputsRootProof := []
  memory := fun _ => 9

/-- The root `byteLibrary` reads. -/
def byteRoot : Bytes32 := ⟨zeros 31 ++ [5], by simp [zeros]⟩

theorem acceptedRoots_exact_sample :
    isOutputsMerkleRootValid openSettings
      (run byteLibrary openSettings .deployed [proposalCall 4, proposalCall 2])
      openSettings.appContract byteRoot = true := by
  have h := acceptedRoots_exact byteLibrary openSettings (fun _ _ => some [5])
    (fun _ _ _ _ h => h) [proposalCall 4, proposalCall 2] (by decide)
  exact (h.1 _ _).2 ⟨rfl, proposalCall 4, ⟨[], [proposalCall 2], rfl, _, rfl⟩, [5], rfl, [5], rfl,
    by decide, rfl⟩

/-- The proposal of block 0 is accepted, its event emitted, and its root is not reported valid
    nor its state root as the machine root. -/
theorem acceptedRoots_blockZero :
    Accepted byteLibrary openSettings [proposalCall 0] (proposalCall 0) ∧
    Opens byteLibrary (fun _ _ => some [5]) (proposalCall 0) byteRoot ∧
    (run byteLibrary openSettings .deployed [proposalCall 0]).events = [(byteRoot, 0, 0)] ∧
    isOutputsMerkleRootValid openSettings (run byteLibrary openSettings .deployed [proposalCall 0])
      openSettings.appContract byteRoot = false ∧
    getLastFinalizedMachineMerkleRoot openSettings
      (run byteLibrary openSettings .deployed [proposalCall 0]) openSettings.appContract ≠
        (proposalCall 0).proof.stateRoot := by
  refine ⟨⟨[], [], rfl, _, rfl⟩, ⟨[5], rfl, [5], rfl, by decide, rfl⟩, ?_, ?_, ?_⟩
  · decide +kernel
  · decide +kernel
  · decide +kernel

end OpCartesi.Contracts
