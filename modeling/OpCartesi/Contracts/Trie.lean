import OpCartesi.Contracts.Validator

/-!
# Trie proofs (`MerkleTrie.sol`, `SecureMerkleTrie.sol`)

The storage proof that `accept` takes is a list of RLP nodes from the root of a hexary trie down to
a value. A caller chooses every byte of it; what ties it to the root are the comparisons of each
node with the ID its parent gives it.

* `readList`: the RLP reader for lists (`RLPReader.sol`), with its bound of 32 items.
* `MerkleTrie.get`, `SecureMerkleTrie.get`: the verifier, error by error.
* `checkNode_unique`, `walk_unique`: an ID admits one node, so two walks see the same nodes.
* `get_proof_unique`: a root and a key have one proof and one value.
* `rootClaim_commits`: with this verifier in the place of `trieGet`, a root claim has one opening.

Both are up to a collision of `keccak256` among the nodes, their hashes and the proposals.
-/

namespace OpCartesi.Contracts

open Exec

/-! ## Lists of RLP items -/

/-- Why a proof is refused: a message of `MerkleTrie`, an error of `RLPReader`, or an index out of
    bounds. -/
inductive TrieError
  | message (reason : String)
  | rlp (e : RLPError)
  | unexpectedString
  | panic
  deriving DecidableEq

def MAX_LIST_LENGTH : ℕ := 32

/-- The loop of `readList` (`RLPReader.sol:75-89`) on the bytes from an offset on; `room` are the
    places left in the array of items. -/
def readItems : ℕ → Bytes → Except TrieError (List Bytes)
  | _, [] => .ok []
  | 0, rest => do
    let _ ← (decodeLength rest).mapError .rlp
    .error .panic
  | room + 1, rest => do
    let (itemOffset, itemLength, _) ← (decodeLength rest).mapError .rlp
    let items ← readItems room (rest.drop (itemOffset + itemLength))
    return rest.take (itemOffset + itemLength) :: items

/-- `readList(toRLPItem(value))` (`RLPReader.sol:60-102`). -/
def readList (value : Bytes) : Except TrieError (List Bytes) := do
  let (listOffset, listLength, itemType) ← (decodeLength value).mapError .rlp
  require (itemType = .listItem) .unexpectedString
  require (listOffset + listLength = value.length) (.rlp .invalidDataRemainder)
  readItems MAX_LIST_LENGTH (value.drop listOffset)

/-! ## The verifier -/

/-- `TrieNode` (`MerkleTrie.sol:16-19`). -/
structure TrieNode where
  encoded : Bytes
  decoded : List Bytes
  parsed : readList encoded = .ok decoded

/-- `_parseProof` (`MerkleTrie.sol:183-192`). -/
def parseProof : List Bytes → Except TrieError (List TrieNode)
  | [] => .ok []
  | encoded :: proof =>
    match h : readList encoded with
    | .error e => .error e
    | .ok decoded => do
      let nodes ← parseProof proof
      return ⟨encoded, decoded, h⟩ :: nodes

/-- `Bytes.toNibbles` (`Bytes.sol:94-135`). -/
def toNibbles (bs : Bytes) : List ℕ := bs.flatMap fun b => [b.val / 16, b.val % 16]

/-- `_getNodeID` (`MerkleTrie.sol:198-200`). -/
def getNodeID (item : Bytes) : Except TrieError Bytes :=
  if item.length < 32 then .ok item else (readBytes item).mapError .rlp

/-- `_getNodePath` (`MerkleTrie.sol:205-207`). -/
def getNodePath (decoded : List Bytes) : Except TrieError (List ℕ) :=
  ((readBytes (decoded.getD 0 [])).mapError .rlp).map toNibbles

/-- `_getSharedNibbleLength` (`MerkleTrie.sol:213-220`). -/
def getSharedNibbleLength : List ℕ → List ℕ → ℕ
  | a :: as, b :: bs => if a = b then getSharedNibbleLength as bs + 1 else 0
  | _, _ => 0

def TREE_RADIX : ℕ := 16

def BRANCH_NODE_LENGTH : ℕ := TREE_RADIX + 1

def LEAF_OR_EXTENSION_NODE_LENGTH : ℕ := 2

def PREFIX_EXTENSION_EVEN : ℕ := 0

def PREFIX_EXTENSION_ODD : ℕ := 1

def PREFIX_LEAF_EVEN : ℕ := 2

def PREFIX_LEAF_ODD : ℕ := 3

section

variable (keccak256 : Bytes → Bytes32)

/-- `Bytes.equal` (`Bytes.sol:141-143`) compares the hashes. -/
def bytesEqual (a b : Bytes) : Bool := decide (keccak256 a = keccak256 b)

/-- The comparison of a node with its ID (`MerkleTrie.sol:84-99`). -/
def checkNode (index : ℕ) (id encoded : Bytes) : Except TrieError Unit :=
  if index = 0 then
    require (bytesEqual keccak256 (keccak256 encoded).val id = true)
      (.message "MerkleTrie: invalid root hash")
  else if 32 ≤ encoded.length then
    require (bytesEqual keccak256 (keccak256 encoded).val id = true)
      (.message "MerkleTrie: invalid large internal hash")
  else
    require (bytesEqual keccak256 encoded id = true)
      (.message "MerkleTrie: invalid internal node hash")

/-- What a node is to a key: its value, with the message for a proof that goes on behind it, or the
    key index and the ID of the next node. -/
inductive Visit
  | value (value : Bytes) (trailing : String)
  | next (index : ℕ) (id : Bytes)

/-- The value of a node, which must not be empty (`MerkleTrie.sol:108-109`, `155-156`). -/
def readValue (item : Bytes) (kind : String) : Except TrieError Visit := do
  let value ← (readBytes item).mapError .rlp
  require (0 < value.length)
    (.message s!"MerkleTrie: value length must be greater than zero ({kind})")
  return .value value s!"MerkleTrie: value node must be last node in proof ({kind})"

/-- The branches of `get` on a node that fits its ID (`MerkleTrie.sol:101-173`). -/
def visit (key : List ℕ) (index : ℕ) (decoded : List Bytes) : Except TrieError Visit := do
  if decoded.length = BRANCH_NODE_LENGTH then
    if index = key.length then readValue (decoded.getD TREE_RADIX []) "branch"
    else
      let id ← getNodeID (decoded.getD (key.getD index 0) [])
      return .next (index + 1) id
  else if decoded.length = LEAF_OR_EXTENSION_NODE_LENGTH then
    let path ← getNodePath decoded
    let lead ← expect path.head? .panic
    let pathRemainder := path.drop (2 - lead % 2)
    let keyRemainder := key.drop index
    let shared := getSharedNibbleLength pathRemainder keyRemainder
    require (pathRemainder.length = shared)
      (.message "MerkleTrie: path remainder must share all nibbles with key")
    if lead = PREFIX_LEAF_EVEN ∨ lead = PREFIX_LEAF_ODD then
      require (keyRemainder.length = shared)
        (.message "MerkleTrie: key remainder must be identical to path remainder")
      readValue (decoded.getD 1 []) "leaf"
    else if lead = PREFIX_EXTENSION_EVEN ∨ lead = PREFIX_EXTENSION_ODD then
      let id ← getNodeID (decoded.getD 1 [])
      return .next (index + shared) id
    else .error (.message "MerkleTrie: received a node with an unknown prefix")
  else .error (.message "MerkleTrie: received an unparseable node")

/-- The loop of `get` (`MerkleTrie.sol:77-176`) from `currentKeyIndex` and `currentNodeID` on. -/
def walk (key : List ℕ) : ℕ → Bytes → List TrieNode → Except TrieError Bytes
  | _, _, [] => .error (.message "MerkleTrie: ran out of proof elements")
  | index, id, node :: rest => do
    require (index ≤ key.length) (.message "MerkleTrie: key index exceeds total key length")
    checkNode keccak256 index id node.encoded
    match ← visit key index node.decoded with
    | .value value trailing => do
      require (rest = []) (.message trailing)
      return value
    | .next index id => walk key index id rest

/-- `MerkleTrie.get` (`MerkleTrie.sol:69-177`). -/
def MerkleTrie.get (key : Bytes) (proof : List Bytes) (root : Bytes32) : Except TrieError Bytes := do
  require (0 < key.length) (.message "MerkleTrie: empty key")
  let nodes ← parseProof proof
  walk keccak256 (toNibbles key) 0 root.val nodes

/-- `SecureMerkleTrie.get` (`SecureMerkleTrie.sol:39-49`). -/
def SecureMerkleTrie.get (key : Bytes) (proof : List Bytes) (root : Bytes32) :
    Except TrieError Bytes :=
  MerkleTrie.get keccak256 (keccak256 key).val proof root

/-- The library the validator is deployed with. -/
def vendored : Library where
  keccak256 := keccak256
  trieGet key proof root := (SecureMerkleTrie.get keccak256 key proof root).toOption

/-- No two of the strings and of their hashes have the same hash. -/
abbrev NoCollision (l : List Bytes) : Prop :=
  let hashed := l ++ l.map fun n => (keccak256 n).val
  ∀ a ∈ hashed, ∀ b ∈ hashed, keccak256 a = keccak256 b → a = b

end

/-! ## A root has one proof of a key -/

section

variable {keccak256 : Bytes → Bytes32} {key : List ℕ}

/-- The hash of a large node is no small node, so an ID admits one node. -/
theorem checkNode_unique {l : List Bytes} (hl : NoCollision keccak256 l)
    {index : ℕ} {id n n' : Bytes} (hn : n ∈ l) (hn' : n' ∈ l)
    (h : checkNode keccak256 index id n = .ok ()) (h' : checkNode keccak256 index id n' = .ok ()) :
    n = n' := by
  have hnode : ∀ {m}, m ∈ l → m ∈ l ++ l.map fun n => (keccak256 n).val := List.mem_append_left _
  have hhash : ∀ {m}, m ∈ l → (keccak256 m).val ∈ l ++ l.map fun n => (keccak256 n).val :=
    fun hm => List.mem_append_right _ (List.mem_map_of_mem hm)
  have hlarge (hsame : keccak256 (keccak256 n).val = keccak256 (keccak256 n').val) : n = n' :=
    hl _ (hnode hn) _ (hnode hn') (Subtype.ext (hl _ (hhash hn) _ (hhash hn') hsame))
  have hmixed {a b : Bytes} (ha : a ∈ l) (hb : b ∈ l) (hlt : b.length < 32)
      (hsame : keccak256 (keccak256 a).val = keccak256 b) : False := by
    have hlen := congrArg List.length (hl _ (hhash ha) _ (hnode hb) hsame)
    rw [(keccak256 a).property] at hlen
    omega
  unfold checkNode at h h'
  split_ifs at h h' with hzero hle hle' hle' <;>
    simp only [require_eq_ok, bytesEqual, decide_eq_true_eq] at h h'
  · exact hlarge (h.trans h'.symm)
  · exact hlarge (h.trans h'.symm)
  · exact (hmixed hn hn' (by omega) (h.trans h'.symm)).elim
  · exact (hmixed hn' hn (by omega) (h'.trans h.symm)).elim
  · exact hl _ (hnode hn) _ (hnode hn') (h.trans h'.symm)

theorem TrieNode.ext_encoded {node node' : TrieNode} (h : node.encoded = node'.encoded) :
    node = node' := by
  obtain ⟨encoded, decoded, hparsed⟩ := node
  obtain ⟨encoded', decoded', hparsed'⟩ := node'
  cases h
  cases hparsed.symm.trans hparsed'
  rfl

/-- Two walks from one ID see the same nodes and end with the same value. -/
theorem walk_unique {l : List Bytes} (hl : NoCollision keccak256 l)
    {v v' : Bytes} (nodes : List TrieNode) : ∀ {nodes' : List TrieNode} {index : ℕ} {id : Bytes},
    (∀ n ∈ nodes, n.encoded ∈ l) → (∀ n ∈ nodes', n.encoded ∈ l) →
    walk keccak256 key index id nodes = .ok v → walk keccak256 key index id nodes' = .ok v' →
      nodes = nodes' ∧ v = v' := by
  induction nodes with
  | nil =>
    intro nodes' index id _ _ h _
    cases h
  | cons node rest ih =>
    intro nodes' index id hin hin' h h'
    cases nodes' with
    | nil => cases h'
    | cons node' rest' =>
      simp only [walk, except_bind_eq_ok, require_eq_ok] at h h'
      obtain ⟨-, -, ⟨⟩, hcheck, found, hvisit, h⟩ := h
      obtain ⟨-, -, ⟨⟩, hcheck', found', hvisit', h'⟩ := h'
      obtain rfl : node = node' := TrieNode.ext_encoded
        (checkNode_unique hl (hin _ List.mem_cons_self) (hin' _ List.mem_cons_self) hcheck hcheck')
      cases hvisit.symm.trans hvisit'
      cases found with
      | value value trailing =>
        simp only [except_bind_eq_ok, require_eq_ok] at h h'
        obtain ⟨-, rfl, ⟨⟩⟩ := h
        obtain ⟨-, rfl, ⟨⟩⟩ := h'
        exact ⟨rfl, rfl⟩
      | next index id =>
        obtain ⟨rfl, hv⟩ := ih (fun n hn => hin n (List.mem_cons_of_mem _ hn))
          (fun n hn => hin' n (List.mem_cons_of_mem _ hn)) h h'
        exact ⟨rfl, hv⟩

theorem parseProof_encoded (proof : List Bytes) : ∀ {nodes : List TrieNode},
    parseProof proof = .ok nodes → nodes.map TrieNode.encoded = proof := by
  induction proof with
  | nil =>
    rintro nodes ⟨⟩
    rfl
  | cons encoded proof ih =>
    intro nodes h
    unfold parseProof at h
    split at h
    · cases h
    · obtain ⟨rest, hrest, ⟨⟩⟩ := except_bind_eq_ok.1 h
      rw [List.map_cons, ih hrest]

/-- A root has one proof of a key, and one value. -/
theorem get_proof_unique {l : List Bytes} (hl : NoCollision keccak256 l)
    {key : Bytes} {proof proof' : List Bytes} {root : Bytes32} {v v' : Bytes}
    (hin : ∀ n ∈ proof, n ∈ l) (hin' : ∀ n ∈ proof', n ∈ l)
    (h : MerkleTrie.get keccak256 key proof root = .ok v)
    (h' : MerkleTrie.get keccak256 key proof' root = .ok v') : proof = proof' ∧ v = v' := by
  obtain ⟨-, -, h⟩ := except_bind_eq_ok.1 h
  obtain ⟨-, -, h'⟩ := except_bind_eq_ok.1 h'
  obtain ⟨nodes, hnodes, h⟩ := except_bind_eq_ok.1 h
  obtain ⟨nodes', hnodes', h'⟩ := except_bind_eq_ok.1 h'
  have hproof := parseProof_encoded _ hnodes
  have hproof' := parseProof_encoded _ hnodes'
  obtain ⟨rfl, hv⟩ := walk_unique hl nodes
    (fun n hn => hin _ (hproof ▸ List.mem_map_of_mem hn))
    (fun n hn => hin' _ (hproof' ▸ List.mem_map_of_mem hn)) h h'
  exact ⟨hproof.symm.trans hproof', hv⟩

/-! ## A claim has one opening -/

/-- The root claim of the game of a call. -/
def AcceptCall.rootClaim (call : AcceptCall) : Option Bytes32 :=
  call.gameAtIndex.bind fun answer => answer.2.rootClaim

theorem opening_claim {L : Library} {cfg : Settings} {call : AcceptCall} {opened : Bytes32 × ℕ}
    (h : opening L cfg call = .ok opened) : call.rootClaim = some (L.keccak256 call.proof.encode) := by
  simp only [opening, except_bind_eq_ok, expect_eq_ok, require_eq_ok] at h
  obtain ⟨⟨gt, game⟩, hgame, _, _, status, _, _, _, _, _, createdAt, _, _, _, _, _, claimed, hclaim,
    _, heq, _⟩ := h
  rw [AcceptCall.rootClaim, hgame, heq]
  exact hclaim

theorem OutputRootProof.encode_injective : Function.Injective OutputRootProof.encode := by
  intro p q h
  obtain ⟨⟨a, ha⟩, ⟨b, hb⟩, ⟨c, hc⟩, d, hd⟩ := p
  obtain ⟨⟨a', ha'⟩, ⟨b', hb'⟩, ⟨c', hc'⟩, d', hd'⟩ := q
  obtain ⟨h, rfl⟩ := List.append_inj' h (hd.trans hd'.symm)
  obtain ⟨h, rfl⟩ := List.append_inj' h (hc.trans hc'.symm)
  obtain ⟨rfl, rfl⟩ := List.append_inj' h (hb.trans hb'.symm)
  rfl

theorem vendored_trieGet {key v : Bytes} {proof : List Bytes} {root : Bytes32}
    (h : (vendored keccak256).trieGet key proof root = some v) :
    MerkleTrie.get keccak256 (keccak256 key).val proof root = .ok v := by
  simp only [vendored, SecureMerkleTrie.get] at h
  cases hget : MerkleTrie.get keccak256 (keccak256 key).val proof root with
  | error e =>
    rw [hget] at h
    cases h
  | ok value =>
    rw [hget] at h
    cases h
    rfl

/-- What a caller can open of a root claim is fixed by the claim: two calls whose games make the same
    claim, at any time and in any state, open the same outputs root with the same four words and the
    same proof, unless what they hash shows a collision. -/
theorem rootClaim_commits {cfg cfg' : Settings} {call call' : AcceptCall} {root root' : Bytes32}
    {n n' : ℕ} (hclaim : call.rootClaim = call'.rootClaim)
    (hl : NoCollision keccak256 (call.proof.encode :: call'.proof.encode ::
      (call.outputsRootProof ++ call'.outputsRootProof)))
    (h : opening (vendored keccak256) cfg call = .ok (root, n))
    (h' : opening (vendored keccak256) cfg' call' = .ok (root', n')) :
    root = root' ∧ call.proof = call'.proof ∧ call.outputsRootProof = call'.outputsRootProof := by
  rw [opening_claim h, opening_claim h'] at hclaim
  have hproof : call.proof = call'.proof :=
    OutputRootProof.encode_injective (hl _ (by simp) _ (by simp) (Option.some.inj hclaim))
  obtain ⟨value, hget, decoded, hread, -, hroot⟩ := readOutputsRoot_eq_ok.1 (opening_eq_ok h).1
  obtain ⟨value', hget', decoded', hread', -, hroot'⟩ := readOutputsRoot_eq_ok.1 (opening_eq_ok h').1
  rw [hproof] at hget
  obtain ⟨hsame, rfl⟩ := get_proof_unique hl (fun _ hn => by simp [hn]) (fun _ hn => by simp [hn])
    (vendored_trieGet hget) (vendored_trieGet hget')
  cases hread.symm.trans hread'
  exact ⟨Subtype.ext (hroot.trans hroot'.symm), hproof, hsame⟩

namespace Sample

/-- A hash that adds up the bytes and their number. -/
def sumHash (b : Bytes) : Bytes32 := ⟨beBytes 32 ((b.map Fin.val).sum + b.length), beBytes_length _ _⟩

/-- A trie of one leaf, which holds the outputs root 5. -/
def leaf : Bytes :=
  [0xe3, 0xa1, 0x20] ++ (sumHash (outputsRootSlot (vendored sumHash)).val).val ++ [0x05]

def proposal : OutputRootProof := ⟨zeroWord, zeroWord, sumHash leaf, zeroWord⟩

/-- A call to `accept` for a game over the proposal. -/
def claimed (gameIndex l2Block : ℕ) : AcceptCall where
  timestamp := 7
  gameIndex := gameIndex
  gameAtIndex := some (1, ⟨some 0, some 7, some (sumHash proposal.encode), some l2Block⟩)
  proof := proposal
  outputsRootProof := [leaf]
  memory _ := 0xff

def settings : Settings := ⟨1, App.ZERO_ADDRESS, 0, false⟩

def opened : Bytes32 := ⟨zeros 31 ++ [5], rfl⟩

theorem opening_claimed : opening (vendored sumHash) settings (claimed 3 8) = .ok (opened, 8) ∧
    opening (vendored sumHash) settings (claimed 4 9) = .ok (opened, 9) := by decide +kernel

/-- Two games over one proposal, at different blocks. -/
theorem rootClaim_commits_sample :
    opening (vendored sumHash) settings (claimed 3 8) = .ok (opened, 8) ∧
      (claimed 3 8).outputsRootProof = (claimed 4 9).outputsRootProof :=
  ⟨opening_claimed.1,
    (rootClaim_commits (by rfl) (by decide +kernel) opening_claimed.1 opening_claimed.2).2.2⟩

end Sample

end

end OpCartesi.Contracts
