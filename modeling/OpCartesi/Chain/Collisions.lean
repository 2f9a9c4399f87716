import OpCartesi.Chain.Steps
import OpCartesi.Common.Codes

/-!
# Hashes without collisions

* `Geth.HeadersDiffer`, `Geth.TxsDiffer`: headers, and lists of non-empty transactions, with one hash
  are one. A header is hashed as a store keeps it, and the trie of a transactions root skips empty
  values.
* `Geth.OutputsDiffer`: withdrawal tries with one root have the root of one list of outputs.
* `Sample.exact`: go-ethereum with codes in the place of the first two hashes, which has both.
  `Sample.committing`: with codes for the outputs as well.
-/

namespace OpCartesi.Node

open Drive Codes

variable {τ : Type}

/-- Headers with one hash are stored alike. -/
def Geth.HeadersDiffer (G : Geth τ) : Prop :=
  ∀ h h' : Header, h.hash G = h'.hash G → h.stored = h'.stored

/-- Headers with one hash agree in what a store keeps. -/
theorem Geth.HeadersDiffer.field {G : Geth τ} (hG : G.HeadersDiffer) {h h' : Header}
    (hhash : h.hash G = h'.hash G) {α : Type} (f : Header → α)
    (hf : ∀ h : Header, f h.stored = f h) : f h = f h' := by
  rw [← hf h, hG h h' hhash, hf]

/-- Lists of non-empty transactions with one root are one list. -/
def Geth.TxsDiffer (G : Geth τ) : Prop :=
  ∀ l l' : List Bytes, [] ∉ l → [] ∉ l' → txsRoot G l = txsRoot G l' → l = l'

/-- Withdrawal tries with one root have the root of one list of outputs. -/
def Geth.OutputsDiffer (G : Geth τ) : Prop :=
  ∀ (p p' : PasserTrie) (l l' : List Bytes), l.length < 2 ^ OutputTreeHeight →
    l'.length < 2 ^ OutputTreeHeight →
    (p.setOutputsRoot G (naiveRoot G (l.map (outputLeaf G)))).root G =
      (p'.setOutputsRoot G (naiveRoot G (l'.map (outputLeaf G)))).root G → l = l'

namespace Sample

/-- The fields of a header. -/
def headerFields (h : Header) : List Bytes :=
  [h.parentHash, h.uncleHash, h.coinbase.val, h.root, h.txHash, h.receiptHash, h.bloom,
    natCode h.difficulty, natCode h.number, natCode h.gasLimit, natCode h.gasUsed, natCode h.time,
    h.extra, h.mixDigest, h.nonce, optionCode (h.baseFee.map natCode), optionCode h.withdrawalsHash,
    optionCode (h.blobGasUsed.map natCode), optionCode (h.excessBlobGas.map natCode),
    h.parentBeaconRoot, h.requestsHash]

theorem headerFields_injective : Function.Injective headerFields := by
  have hnat : ∀ {a b : Option ℕ}, optionCode (a.map natCode) = optionCode (b.map natCode) → a = b :=
    fun h => Option.map_injective natCode_injective (optionCode_injective h)
  intro h h' heq
  simp only [headerFields, List.cons.injEq, and_true] at heq
  obtain ⟨h1, h2, h3, h4, h5, h6, h7, h8, h9, h10, h11, h12, h13, h14, h15, h16, h17, h18, h19, h20,
    h21⟩ := heq
  cases h
  cases h'
  simp only [Header.mk.injEq]
  exact ⟨h1, h2, Subtype.ext h3, h4, h5, h6, h7, natCode_injective h8, natCode_injective h9,
    natCode_injective h10, natCode_injective h11, natCode_injective h12, h13, h14, h15, hnat h16,
    optionCode_injective h17, hnat h18, hnat h19, h20, h21⟩

/-- Headers and transactions are hashed to their codes; empty transactions are skipped. -/
def exact : Geth Bytes where
  __ := geth
  hashRLP h := codes (headerFields h)
  deriveSha txs :=
    match txs.filter fun tx => tx ≠ [] with
    | [] => EmptyTxsHash
    | kept => codes kept

theorem exact_headersDiffer : exact.HeadersDiffer := by
  intro h h' heq
  exact headerFields_injective (codes_injective heq)

theorem exact_txsRoot {l : List Bytes} (hl : [] ∉ l) :
    txsRoot exact l = if l = [] then EmptyTxsHash else codes l := by
  have hkept : l.filter (fun tx => tx ≠ []) = l := by
    rw [List.filter_eq_self]
    intro tx htx
    have : tx ≠ [] := fun h => hl (h ▸ htx)
    simpa using this
  cases l with
  | nil => rfl
  | cons tx l =>
    rw [txsRoot, if_neg (by simp), if_neg (by simp)]
    show (match (tx :: l).filter (fun tx => tx ≠ []) with
      | [] => EmptyTxsHash
      | kept => codes kept) = _
    rw [hkept]

theorem emptyTxsHash_ne_codes (tx : Bytes) (l : List Bytes) : EmptyTxsHash ≠ codes (tx :: l) := by
  intro h
  have hhead : EmptyTxsHash.head? = some 0x56 := by decide +kernel
  rw [h] at hhead
  simp [codes] at hhead

theorem exact_txsDiffer : exact.TxsDiffer := by
  intro l l' hl hl' heq
  rw [exact_txsRoot hl, exact_txsRoot hl'] at heq
  cases l with
  | nil =>
    cases l' with
    | nil => rfl
    | cons tx l' =>
      rw [if_pos rfl, if_neg (by simp)] at heq
      exact absurd heq (emptyTxsHash_ne_codes tx l')
  | cons tx l =>
    cases l' with
    | nil =>
      rw [if_neg (by simp), if_pos rfl] at heq
      exact absurd heq.symm (emptyTxsHash_ne_codes tx l)
    | cons tx' l' =>
      rw [if_neg (by simp), if_neg (by simp)] at heq
      exact codes_injective heq

/-! ### Outputs -/

/-- Bytes are hashed to their code, and a trie to what it has as the outputs root. -/
def committing : Geth Bytes where
  __ := exact
  keccak256 b := 1 :: code b
  trieHash slots := (slots (1 :: code
    (1 :: code (App.stringToBytes "op-cartesi.outputsMerkleRoot")))).getD []

/-- A long string can be told from its RLP encoding. -/
theorem rlpString_long_inj {a b : Bytes} (ha : 55 < a.length) (hb : 55 < b.length)
    (heq : rlpString a = rlpString b) : a = b := by
  have hlong : ∀ c : Bytes, 55 < c.length → rlpString c =
      Fin.ofNat 256 (0xb7 + ((beBytes 8 c.length).dropWhile (· == 0)).length) ::
        ((beBytes 8 c.length).dropWhile (· == 0) ++ c) := by
    intro c hc
    rw [rlpString, if_neg (by omega), if_neg (by omega)]
  have hshort : ∀ c : Bytes, ((beBytes 8 c.length).dropWhile (· == 0)).length ≤ 8 := by
    intro c
    calc ((beBytes 8 c.length).dropWhile (· == 0)).length
        ≤ (beBytes 8 c.length).length := (List.dropWhile_sublist _).length_le
      _ = 8 := by simp
  rw [hlong a ha, hlong b hb] at heq
  obtain ⟨hlead, hrest⟩ := List.cons.inj heq
  refine (List.append_inj hrest ?_).2
  have hval := congrArg Fin.val hlead
  have ha8 := hshort a
  have hb8 := hshort b
  simp only [Fin.ofNat] at hval
  omega

/-- The nodes of the outputs tree. -/
def IsNode (a : Hash) : Prop := a = zeroHash ∨ ∃ b, a = 1 :: code b

theorem isNode_append_inj {a b a' b' : Hash} (ha : IsNode a) (ha' : IsNode a')
    (heq : a ++ b = a' ++ b') : a = a' ∧ b = b' := by
  have hhead : ∀ r : Bytes, (zeroHash ++ r).head? = some 0 := fun r => rfl
  rcases ha with rfl | ⟨c, rfl⟩
  · rcases ha' with rfl | ⟨c', rfl⟩
    · exact ⟨rfl, List.append_cancel_left heq⟩
    · have := hhead b
      rw [heq] at this
      cases this
  · rcases ha' with rfl | ⟨c', rfl⟩
    · have := hhead b'
      rw [← heq] at this
      cases this
    · obtain ⟨rfl, hb⟩ := code_append_inj c (List.cons.inj heq).2
      exact ⟨rfl, hb⟩

theorem hashPair_committing_inj {a b a' b' : Hash} (ha : IsNode a) (ha' : IsNode a')
    (heq : hashPair committing a b = hashPair committing a' b') : a = a' ∧ b = b' :=
  isNode_append_inj ha ha' (code_injective (List.cons.inj heq).2)

theorem le_length_node (leaf : ℕ → Hash) (h : ℕ) : ∀ i,
    h ≤ (Merkle.node (hashPair committing) leaf h i).length := by
  have hcode : ∀ l : Bytes, l.length < (code l).length := by
    intro l
    induction l with
    | nil => decide
    | cons b l ih =>
      simp only [code, List.length_cons]
      omega
  induction h with
  | zero => exact fun _ => Nat.zero_le _
  | succ h ih =>
    intro i
    have hleft := ih (2 * i)
    show h + 1 ≤ (1 :: code (_ ++ _)).length
    refine le_trans ?_ (Nat.le_succ _)
    refine le_trans (Nat.succ_le_succ hleft) (lt_of_le_of_lt ?_ (hcode _))
    rw [List.length_append]
    exact Nat.le_add_right _ _

theorem committing_outputsDiffer : committing.OutputsDiffer := by
  intro p p' l l' hl hl' heq
  have hleaf : ∀ (l : List Bytes) (i : ℕ),
      IsNode ((l.map (outputLeaf committing)).getD i zeroHash) := by
    intro l i
    rw [List.getD_eq_getElem?_getD, List.getElem?_map]
    cases l[i]? with
    | none => exact .inl rfl
    | some o => exact .inr ⟨o, rfl⟩
  have hslot : ∀ (p : PasserTrie) (r : Hash),
      (p.setOutputsRoot committing r).root committing = rlpString (trimLeftZeroes r) := by
    intro p r
    exact congrArg (fun v : Option Bytes => v.getD [])
      (Function.update_self (committing.keccak256 (outputsRootSlot committing)) _ p.slots)
  have hlength : ∀ leaves : List Hash, 55 < (naiveRoot committing leaves).length := by
    intro leaves
    rw [naiveRoot, Merkle.levelRoot_eq]
    exact lt_of_lt_of_le (by decide) (le_length_node _ OutputTreeHeight 0)
  have htrim : ∀ leaves : List Hash, trimLeftZeroes (naiveRoot committing leaves) =
      naiveRoot committing leaves := by
    intro leaves
    rw [naiveRoot, Merkle.levelRoot_eq]
    rfl
  rw [hslot, hslot, htrim, htrim] at heq
  have hroot := rlpString_long_inj (hlength _) (hlength _) heq
  rw [naiveRoot, naiveRoot, Merkle.levelRoot_eq, Merkle.levelRoot_eq] at hroot
  have hsame := Merkle.node_injOn (S := {a | IsNode a}) (fun a _ b _ => .inr ⟨a ++ b, rfl⟩)
    (fun a ha b _ a' ha' b' _ h => hashPair_committing_inj ha ha' h) (hleaf l) (hleaf l')
    OutputTreeHeight 0 hroot
  apply List.ext_getElem?
  intro j
  rcases Nat.lt_or_ge j (2 ^ OutputTreeHeight) with hj | hj
  · have heq := hsame j (by omega) (by omega)
    rw [List.getD_eq_getElem?_getD, List.getD_eq_getElem?_getD, List.getElem?_map,
      List.getElem?_map] at heq
    cases ho : l[j]? with
    | none =>
      cases ho' : l'[j]? with
      | none => rfl
      | some o' =>
        rw [ho, ho'] at heq
        cases heq
    | some o =>
      cases ho' : l'[j]? with
      | none =>
        rw [ho, ho'] at heq
        cases heq
      | some o' =>
        rw [ho, ho'] at heq
        rw [code_injective (List.cons.inj heq).2]
  · rw [List.getElem?_eq_none (by omega), List.getElem?_eq_none (by omega)]

end Sample

end OpCartesi.Node
