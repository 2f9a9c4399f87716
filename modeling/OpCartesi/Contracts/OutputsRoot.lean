import OpCartesi.Contracts.Validator
import OpCartesi.Chain.Execution

/-!
# The outputs root in storage and back

The chain stores the outputs root in a slot of the passer trie the way geth stores a word: without
its leading zeros, as an RLP string. Go reads it back for `GetOutputProof`, Solidity for `accept`.

* `rlpDecodeBytes`, `PasserTrie.slotValue`, `bytesToHash`: the Go reader.
* `zeros_append_trimLeftZeroes`: padding undoes trimming.
* `rlpDecodeBytes_rlpString`, `readBytes_rlpString`: both readers undo the RLP framing of a string of
  at most 55 bytes.
* `outputsRoot_round_trip`: both read back every root that is stored.
-/

namespace OpCartesi.Node

open Exec

/-! ## The Go reader -/

/-- Why `rlp.DecodeBytes` fails. -/
inductive RlpError
  | unexpectedEOF
  | canonSize
  | valueTooLarge
  | moreThanOneValue
  | expectedString
  deriving DecidableEq

/-- `rlp.DecodeBytes` into a byte slice. -/
def rlpDecodeBytes (b : Bytes) : Except RlpError Bytes :=
  match b with
  | [] => .error .unexpectedEOF
  | lead :: rest =>
    if lead.val < 0x80 then do
      require (rest = []) .moreThanOneValue
      pure [lead]
    else if lead.val < 0xb8 then do
      let size := lead.val - 0x80
      require (size ≤ rest.length) .valueTooLarge
      require (¬(size = 1 ∧ (rest.headD 0).val < 0x80)) .canonSize
      require (rest.length = size) .moreThanOneValue
      pure rest
    else if lead.val < 0xc0 then do
      let lenOfLen := lead.val - 0xb7
      require (lenOfLen ≤ rest.length) .unexpectedEOF
      require (rest.headD 0 ≠ 0) .canonSize
      let size := beNat (rest.take lenOfLen)
      require (55 < size) .canonSize
      require (lenOfLen + size ≤ rest.length) .valueTooLarge
      require (rest.length = lenOfLen + size) .moreThanOneValue
      pure (rest.drop lenOfLen)
    else .error .expectedString

/-- `SlotValue` (`passertrie.go:114-124`): nothing for an empty slot. -/
def PasserTrie.slotValue {τ : Type} (G : Geth τ) (p : PasserTrie) (slot : Hash) :
    Except RlpError (Option Bytes) :=
  match p.slots (G.keccak256 slot) with
  | none => .ok none
  | some encoded =>
    if encoded = [] then .ok none
    else (rlpDecodeBytes encoded).map some

/-- `common.BytesToHash`: padded on the left, or cropped from it. -/
def bytesToHash (b : Bytes) : Hash := zeros (32 - b.length) ++ b.drop (b.length - 32)

/-! ## Trimming and framing -/

theorem trimLeftZeroes_length_le (b : Bytes) : (trimLeftZeroes b).length ≤ b.length :=
  List.Sublist.length_le (List.dropWhile_sublist _)

/-- Padding a trimmed string to its length gives the string. -/
theorem zeros_append_trimLeftZeroes (b : Bytes) :
    zeros (b.length - (trimLeftZeroes b).length) ++ trimLeftZeroes b = b := by
  have hsplit : b.takeWhile (· == 0) ++ trimLeftZeroes b = b := List.takeWhile_append_dropWhile
  have hzeros : b.takeWhile (· == 0) = zeros (b.takeWhile (· == 0)).length := by
    refine List.eq_replicate_iff.2 ⟨rfl, fun x hx => ?_⟩
    exact eq_of_beq (List.mem_takeWhile_imp (p := (· == 0)) hx)
  have hlen : b.length - (trimLeftZeroes b).length = (b.takeWhile (· == 0)).length := by
    have hsum := congrArg List.length hsplit
    rw [List.length_append] at hsum
    omega
  rw [hlen, ← hzeros, hsplit]

theorem bytesToHash_trimLeftZeroes {r : Bytes} (hr : r.length = 32) :
    bytesToHash (trimLeftZeroes r) = r := by
  have hle := trimLeftZeroes_length_le r
  have hpad := zeros_append_trimLeftZeroes r
  rw [hr] at hle hpad
  rw [bytesToHash, Nat.sub_eq_zero_of_le hle, List.drop_zero, hpad]

/-- A short string is its own encoding, if it is one byte below `0x80`, or has its length in front. -/
theorem rlpString_cases (hb : b.length ≤ 55) :
    (∃ x : Byte, x.val < 0x80 ∧ b = [x] ∧ rlpString b = [x]) ∨
    (¬(b.length = 1 ∧ (b.headD 0).val < 0x80) ∧
      ∃ lead : Byte, lead.val = 0x80 + b.length ∧ rlpString b = lead :: b) := by
  by_cases hone : b.length = 1 ∧ (b.headD 0).val < 0x80
  · obtain ⟨x, rfl⟩ := List.length_eq_one_iff.1 hone.1
    exact Or.inl ⟨x, hone.2, rfl, if_pos hone⟩
  · refine Or.inr ⟨hone, Fin.ofNat 256 (0x80 + b.length), ?_, ?_⟩
    · rw [Fin.val_ofNat, Nat.mod_eq_of_lt (by omega)]
    · rw [rlpString, if_neg hone, if_pos hb]

theorem rlpString_ne_nil (hb : b.length ≤ 55) : rlpString b ≠ [] := by
  rcases rlpString_cases hb with ⟨x, -, -, henc⟩ | ⟨-, lead, -, henc⟩
  · rw [henc]
    exact List.cons_ne_nil _ _
  · rw [henc]
    exact List.cons_ne_nil _ _

/-- Go's reader undoes the framing of a short string. -/
theorem rlpDecodeBytes_rlpString (hb : b.length ≤ 55) : rlpDecodeBytes (rlpString b) = .ok b := by
  rcases rlpString_cases hb with ⟨x, hx, rfl, henc⟩ | ⟨hone, lead, hlead, henc⟩
  · rw [henc, rlpDecodeBytes, if_pos hx]
    rfl
  · have hsize : lead.val - 0x80 = b.length := by omega
    rw [henc, rlpDecodeBytes, if_neg (by omega), if_pos (by omega), hsize]
    simp only [except_bind_eq_ok, require_eq_ok]
    exact ⟨(), le_rfl, (), hone, (), trivial, rfl⟩

end OpCartesi.Node

namespace OpCartesi.Contracts

open Exec Node

/-- Solidity's reader undoes it too. -/
theorem readBytes_rlpString (hb : b.length ≤ 55) : readBytes (rlpString b) = .ok b := by
  rcases rlpString_cases hb with ⟨x, hx, rfl, henc⟩ | ⟨hone, lead, hlead, henc⟩
  · rw [henc, readBytes, decodeLength, if_pos (by omega)]
    rfl
  · have hsize : lead.val - 0x80 = b.length := by omega
    have hdecode : decodeLength (lead :: b) = .ok (1, b.length, .dataItem) := by
      rw [decodeLength, if_neg (by omega), if_pos (by omega), hsize]
      simp only [except_bind_eq_ok, require_eq_ok]
      exact ⟨(), Nat.lt_succ_self _, (), hone, rfl⟩
    have hcontent : sub (lead :: b) 1 b.length = b := List.take_length
    rw [henc, readBytes]
    simp only [except_bind_eq_ok, require_eq_ok]
    exact ⟨_, hdecode, (), rfl, (), Nat.add_comm _ 1, congrArg Except.ok hcontent⟩

variable {τ : Type} {G : Geth τ} {L : Library} {b : Bytes}

/-- The outputs root survives its storage encoding: of every 32-byte root, `SlotValue` padded to 32
    bytes gives the root back, and so does the contract from the bytes stored in the slot, whatever
    lies in memory behind the decoded ones. -/
theorem outputsRoot_round_trip (p : PasserTrie) (r : Bytes32) :
    (∃ value, (p.setOutputsRoot G r.val).slotValue G (Node.outputsRootSlot G) = .ok (some value) ∧
      bytesToHash value = r.val) ∧
    ∀ (memory : Image) (withdrawalsRoot : Bytes32) (outputsRootProof : List Bytes),
      L.trieGet (outputsRootSlot L).val outputsRootProof withdrawalsRoot =
        (p.setOutputsRoot G r.val).slots (G.keccak256 (Node.outputsRootSlot G)) →
      readOutputsRoot L memory withdrawalsRoot outputsRootProof = .ok r := by
  have hle := trimLeftZeroes_length_le r.val
  rw [r.property] at hle
  have hshort : (trimLeftZeroes r.val).length ≤ 55 := by omega
  have hslot : (p.setOutputsRoot G r.val).slots (G.keccak256 (Node.outputsRootSlot G)) =
      some (rlpString (trimLeftZeroes r.val)) := Function.update_self ..
  refine ⟨⟨trimLeftZeroes r.val, ?_, bytesToHash_trimLeftZeroes r.property⟩, ?_⟩
  · simp only [PasserTrie.slotValue, hslot, if_neg (rlpString_ne_nil hshort),
      rlpDecodeBytes_rlpString hshort]
    rfl
  · intro memory withdrawalsRoot outputsRootProof hget
    have hpad := zeros_append_trimLeftZeroes r.val
    rw [r.property] at hpad
    exact readOutputsRoot_eq_ok.2 ⟨_, hget.trans hslot, _, readBytes_rlpString hshort, hle, hpad.symm⟩

/-- A root of one significant byte. -/
def lastByteRoot (b : Byte) : Bytes32 := ⟨zeros 31 ++ [b], rfl⟩

/-- The zero root and the two sides of `0x80`, with nonzero memory behind the decoded bytes. -/
theorem outputsRoot_round_trip_bytes :
    readOutputsRoot ⟨fun _ => zeroWord, fun _ _ _ => some [0x80]⟩ (fun _ => 0xff) zeroWord [] =
        .ok zeroWord ∧
      readOutputsRoot ⟨fun _ => zeroWord, fun _ _ _ => some [0x7f]⟩ (fun _ => 0xff) zeroWord [] =
        .ok (lastByteRoot 0x7f) ∧
      readOutputsRoot ⟨fun _ => zeroWord, fun _ _ _ => some [0x81, 0x80]⟩ (fun _ => 0xff) zeroWord
        [] = .ok (lastByteRoot 0x80) :=
  ⟨(outputsRoot_round_trip (G := Sample.geth) newPasserTrie zeroWord).2 _ _ _ (by decide +kernel),
    (outputsRoot_round_trip (G := Sample.geth) newPasserTrie (lastByteRoot 0x7f)).2 _ _ _ (by decide +kernel),
    (outputsRoot_round_trip (G := Sample.geth) newPasserTrie (lastByteRoot 0x80)).2 _ _ _ (by decide +kernel)⟩

end OpCartesi.Contracts
