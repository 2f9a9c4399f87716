import OpCartesi.Chain.Types
import OpCartesi.Common.Exec

/-!
# Headers and payloads (`block.go`)

* `Config.extraData`: the Holocene EIP-1559 parameters of a header, with op-geth's codec for them.
* `buildHeader`, `executableData`, `headerFromPayload`: the header a builder makes, the payload that
  carries it and the header a verifier reads back. `headerFromPayload_executableData`: reading back
  what was built gives the header that was built.
* `extraData_surjective`: every extra data a verifier accepts comes from some parameters.
-/

namespace OpCartesi.Node

open Drive Exec

/-! ## Extra data (`block.go:54-76`) -/

/-- The refusals of op-geth's EIP-1559 checks. -/
inductive HoloceneError
  | paramsLength (n : ℕ)
  | paramsDenominator
  | extraLength (n : ℕ)
  | extraVersion (b : Byte)
  | extraDenominator
  deriving DecidableEq

/-- `eip1559.DecodeHolocene1559Params`: two big-endian 32-bit numbers. -/
def decodeHolocene1559Params (params : Bytes) : ℕ × ℕ :=
  (beNat (sub params 0 4), beNat (sub params 4 4))

/-- `eip1559.ValidateHolocene1559Params`. -/
def validateHolocene1559Params (params : Bytes) : Except HoloceneError Unit := do
  require (params.length = 8) (.paramsLength params.length)
  let de := decodeHolocene1559Params params
  require (¬(de.2 ≠ 0 ∧ de.1 = 0)) .paramsDenominator

/-- `eip1559.EncodeHoloceneExtraData`, which panics on parameters over 32 bits. -/
def encodeHoloceneExtraData (denominator elasticity : ℕ) : Option Bytes :=
  if denominator < 2 ^ 32 ∧ elasticity < 2 ^ 32 then
    some (0 :: (beBytes 4 denominator ++ beBytes 4 elasticity))
  else none

/-- `eip1559.ValidateHoloceneExtraData`. -/
def validateHoloceneExtraData (extra : Bytes) : Except HoloceneError Unit := do
  require (extra.length = 9) (.extraLength extra.length)
  require (extra.headD 0 = 0) (.extraVersion (extra.headD 0))
  require (beNat (sub extra 1 4) ≠ 0) .extraDenominator

/-- The errors of the chain's calls. -/
inductive ChainError
  | holocene (e : HoloceneError)
  | chainIDUnset
  | panicked
  | marshalAttributes
  | unknownParentState (parent : Hash)
  | forkFailed
  | noInputCounter (parent : Hash)
  | encodingEvmAdvance
  | depositFailed
  | rootHashFailed
  | noAccumulator (parent : Hash)
  | noWithdrawalCommitment (parent : Hash)
  | buildingPayload (e : ChainError)
  | invalidForkChoiceState
  | invalidPayloadAttributes
  deriving DecidableEq

namespace Config

/-- `encodeExtraData` (`block.go:74-76`): Holocene is active and Jovian is not. -/
def encodeExtraData (_c : Config) (denominator elasticity : ℕ) : Except ChainError Bytes :=
  expect (encodeHoloceneExtraData denominator elasticity) .panicked

/-- `extraData` (`block.go:59-68`). -/
def extraData (c : Config) (params : Bytes) : Except ChainError Bytes := do
  (validateHolocene1559Params params).mapError .holocene
  let de := decodeHolocene1559Params params
  if de.1 = 0 then c.encodeExtraData c.eip1559Denominator c.eip1559Elasticity
  else c.encodeExtraData de.1 de.2

/-- `genesisExtraData` (`block.go:70-72`). -/
def genesisExtraData (c : Config) : Except ChainError Bytes :=
  c.encodeExtraData c.eip1559Denominator c.eip1559Elasticity

/-- `Validate` (`config.go:83-88`). -/
def validate (c : Config) : Except ChainError Unit := require (c.chainID ≠ 0) .chainIDUnset

end Config

/-! ## Headers (`block.go:78-191`) -/

section

variable {τ : Type} (G : Geth τ)

/-- `txsRoot` (`block.go:43-48`). -/
def txsRoot (txs : List Bytes) : Hash := if txs = [] then EmptyTxsHash else G.deriveSha txs

/-- `buildHeader` (`block.go:84-117`). -/
def buildHeader (parent : Header) (attrs : PayloadAttributes) (stateRoot : Hash)
    (txs : List Bytes) (gasUsed gasLimit : ℕ) (baseFee : Option ℕ) (extra : Bytes)
    (outputsRoot : Hash) : Header where
  parentHash := parent.hash G
  uncleHash := EmptyUncleHash
  coinbase := attrs.suggestedFeeRecipient
  root := stateRoot
  txHash := txsRoot G txs
  receiptHash := EmptyReceiptsHash
  bloom := zeros BloomByteLength
  difficulty := 0
  number := parent.number + 1
  gasLimit := gasLimit
  gasUsed := gasUsed
  time := attrs.timestamp
  extra := extra
  mixDigest := attrs.random
  nonce := zeros 8
  baseFee := baseFee
  withdrawalsHash := some outputsRoot
  blobGasUsed := some 0
  excessBlobGas := some 0
  parentBeaconRoot := attrs.beaconRoot.getD zeroHash
  requestsHash := EmptyRequestsHash

/-- `executableData` (`block.go:119-142`). -/
def executableData (h : Header) (txs : List Bytes) : ExecutableData where
  withdrawalsRoot := h.withdrawalsHash
  parentHash := h.parentHash
  feeRecipient := h.coinbase
  stateRoot := h.root
  receiptsRoot := h.receiptHash
  logsBloom := h.bloom
  random := h.mixDigest
  number := h.number
  gasLimit := h.gasLimit
  gasUsed := h.gasUsed
  timestamp := h.time
  extraData := h.extra
  baseFeePerGas := h.baseFee
  blockHash := h.hash G
  transactions := txs
  withdrawals := some []
  blobGasUsed := h.blobGasUsed
  excessBlobGas := h.excessBlobGas

/-- The refusals of `headerFromPayload`. -/
inductive PayloadError
  | logsBloomLength (n : ℕ)
  | withdrawalsNotEmpty
  | missingBaseFee
  | invalidExtraData (e : HoloceneError)
  | missingWithdrawalsRoot
  deriving DecidableEq

/-- The checks of `headerFromPayload` (`block.go:149-163`). -/
def checkPayload (data : ExecutableData) : Except PayloadError Unit := do
  require (data.logsBloom.length = BloomByteLength) (.logsBloomLength data.logsBloom.length)
  require (data.withdrawals = some []) .withdrawalsNotEmpty
  require (data.baseFeePerGas ≠ none) .missingBaseFee
  (validateHoloceneExtraData data.extraData).mapError .invalidExtraData
  require (data.withdrawalsRoot ≠ none) .missingWithdrawalsRoot

/-- The header `headerFromPayload` assembles (`block.go:164-190`). -/
def payloadHeader (data : ExecutableData) (beaconRoot : Option Hash) : Header where
  parentHash := data.parentHash
  uncleHash := EmptyUncleHash
  coinbase := data.feeRecipient
  root := data.stateRoot
  txHash := txsRoot G data.transactions
  receiptHash := data.receiptsRoot
  bloom := data.logsBloom
  difficulty := 0
  number := data.number
  gasLimit := data.gasLimit
  gasUsed := data.gasUsed
  time := data.timestamp
  extra := data.extraData
  mixDigest := data.random
  nonce := zeros 8
  baseFee := data.baseFeePerGas
  withdrawalsHash := data.withdrawalsRoot
  blobGasUsed := data.blobGasUsed
  excessBlobGas := data.excessBlobGas
  parentBeaconRoot := beaconRoot.getD zeroHash
  requestsHash := EmptyRequestsHash

/-- `headerFromPayload` (`block.go:148-191`). -/
def headerFromPayload (data : ExecutableData) (beaconRoot : Option Hash) :
    Except PayloadError Header := do
  checkPayload data
  pure (payloadHeader G data beaconRoot)

variable {G}

theorem headerFromPayload_eq_ok {data : ExecutableData} {beaconRoot : Option Hash} {h : Header} :
    headerFromPayload G data beaconRoot = .ok h ↔
      checkPayload data = .ok () ∧ h = payloadHeader G data beaconRoot := by
  unfold headerFromPayload
  rw [except_bind_eq_ok]
  constructor
  · rintro ⟨⟨⟩, hcheck, hpure⟩
    cases hpure
    exact ⟨hcheck, rfl⟩
  · rintro ⟨hcheck, rfl⟩
    exact ⟨(), hcheck, rfl⟩

theorem checkPayload_eq_ok {data : ExecutableData} : checkPayload data = .ok () ↔
    data.logsBloom.length = BloomByteLength ∧ data.withdrawals = some [] ∧
      data.baseFeePerGas ≠ none ∧ validateHoloceneExtraData data.extraData = .ok () ∧
      data.withdrawalsRoot ≠ none := by
  unfold checkPayload
  simp only [except_bind_eq_ok, require_eq_ok, mapError_eq_ok, exists_const]
  constructor
  · rintro ⟨hbloom, hwith, hfee, ⟨⟩, hextra, hroot⟩
    exact ⟨hbloom, hwith, hfee, hextra, hroot⟩
  · rintro ⟨hbloom, hwith, hfee, hextra, hroot⟩
    exact ⟨hbloom, hwith, hfee, (), hextra, hroot⟩

/-! ## Reading back -/

/-- What a builder makes a verifier reads back. -/
theorem headerFromPayload_executableData {parent : Header} {attrs : PayloadAttributes}
    {stateRoot outputsRoot : Hash} {txs : List Bytes} {gasUsed gasLimit fee : ℕ} {extra : Bytes}
    (hextra : validateHoloceneExtraData extra = .ok ()) :
    headerFromPayload G
      (executableData G (buildHeader G parent attrs stateRoot txs gasUsed gasLimit (some fee) extra
        outputsRoot) txs) (some (attrs.beaconRoot.getD zeroHash)) =
      .ok (buildHeader G parent attrs stateRoot txs gasUsed gasLimit (some fee) extra
        outputsRoot) := by
  rw [headerFromPayload_eq_ok, checkPayload_eq_ok]
  refine ⟨⟨?_, rfl, ?_, hextra, ?_⟩, rfl⟩ <;> simp [executableData, buildHeader]

end

/-! ## What the extra data codec guarantees -/

theorem beBytes_beNat {bs : Bytes} {w : ℕ} (h : bs.length = w) : beBytes w (beNat bs) = bs := by
  rw [beBytes, beNat, ← h, ← List.length_reverse, leBytes_leNat, List.reverse_reverse]

theorem encodeHoloceneExtraData_valid {d e : ℕ} {extra : Bytes} (hd : d ≠ 0)
    (h : encodeHoloceneExtraData d e = some extra) :
    validateHoloceneExtraData extra = .ok () := by
  unfold encodeHoloceneExtraData at h
  split_ifs at h with hlt
  cases h
  have hden : sub (0 :: (beBytes 4 d ++ beBytes 4 e)) 1 4 = beBytes 4 d := by
    simp [sub]
  unfold validateHoloceneExtraData
  simp only [except_bind_eq_ok, require_eq_ok, exists_const]
  refine ⟨by simp, by simp, ?_⟩
  rwa [hden, beNat_beBytes_of_lt (by omega)]

/-- The extra data of a built header passes the verifier's check, the configured denominator being
    nonzero. -/
theorem extraData_valid {c : Config} {params extra : Bytes} (hden : c.eip1559Denominator ≠ 0)
    (h : c.extraData params = .ok extra) : validateHoloceneExtraData extra = .ok () := by
  unfold Config.extraData at h
  obtain ⟨-, -, h⟩ := except_bind_eq_ok.1 h
  unfold Config.encodeExtraData at h
  simp only at h
  split_ifs at h with hzero
  · exact encodeHoloceneExtraData_valid hden (expect_eq_ok.1 h)
  · exact encodeHoloceneExtraData_valid hzero (expect_eq_ok.1 h)

/-- Every extra data a verifier accepts is what some parameters give. -/
theorem extraData_surjective (c : Config) {extra : Bytes}
    (h : validateHoloceneExtraData extra = .ok ()) : c.extraData (extra.drop 1) = .ok extra := by
  unfold validateHoloceneExtraData at h
  simp only [except_bind_eq_ok, require_eq_ok, exists_const] at h
  obtain ⟨hlen, hversion, hden⟩ := h
  obtain ⟨v, rest, rfl⟩ : ∃ v rest, extra = v :: rest := by
    cases extra with
    | nil => cases hlen
    | cons v rest => exact ⟨v, rest, rfl⟩
  obtain rfl : v = 0 := hversion
  have hrest : rest.length = 8 := by simpa using hlen
  have hden' : beNat (sub rest 0 4) ≠ 0 := hden
  have hd := beNat_lt (sub rest 0 4)
  have he := beNat_lt (sub rest 4 4)
  have hd4 : (sub rest 0 4).length = 4 := by simp [sub, hrest]
  have he4 : (sub rest 4 4).length = 4 := by simp [sub, hrest]
  rw [hd4] at hd
  rw [he4] at he
  unfold Config.extraData
  rw [except_bind_eq_ok]
  refine ⟨(), ?_, ?_⟩
  · rw [mapError_eq_ok]
    unfold validateHolocene1559Params
    simp only [except_bind_eq_ok, require_eq_ok, exists_const, List.drop_one, List.tail_cons]
    exact ⟨hrest, fun hboth => hden' hboth.2⟩
  · simp only [List.drop_one, List.tail_cons]
    rw [if_neg (show ¬(decodeHolocene1559Params rest).1 = 0 from hden')]
    unfold Config.encodeExtraData encodeHoloceneExtraData
    rw [if_pos ⟨hd, he⟩, expect_eq_ok]
    change some (0 :: (beBytes 4 (beNat (sub rest 0 4)) ++ beBytes 4 (beNat (sub rest 4 4)))) = _
    rw [beBytes_beNat hd4, beBytes_beNat he4]
    congr 2
    simp only [sub, List.drop_zero]
    rw [List.take_of_length_le (l := rest.drop 4) (by simp [hrest]), List.take_append_drop]

theorem Config.withDefaults_denominator (c : Config) : c.withDefaults.eip1559Denominator ≠ 0 := by
  unfold Config.withDefaults
  simp only
  split_ifs with h <;> simp [h]

end OpCartesi.Node
