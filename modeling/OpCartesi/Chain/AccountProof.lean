import OpCartesi.Chain.Steps
import OpCartesi.Drive.Canonical

/-!
# Provable account reads (`accountproof.go`)

`AccountProofAt` walks the accounts table of a block's machine itself, and returns the pages of
the drive that the walk touched, so that a verifier can repeat it inside proven bytes.

* `walkLoop`, `decodeAccountSlot`: the second implementation of the lookup
  (`accountproof.go:117-149`, `accountproof.go:229-237`).
* `addRange`, `walkOffsets`: the pages of a cyclic range of slots (`accountproof.go:155-177`).
* `PageStore`: a store that has nothing but pages, for the verifier's side.
* `accountProofAt_selfContained`: on every drive that operations produce, the proof reports what
  `GetAccount` reports, and the lookup repeated on its pages alone ends the same.
-/

namespace OpCartesi.Node

open Drive Exec

/-! ## What a machine can be asked -/

/-- `machine.MerkleProof` (`machine/jsonrpc.go:523-530`). -/
structure MerkleProof where
  targetAddress : ℕ
  log2TargetSize : ℕ
  targetHash : Hash
  log2RootSize : ℕ
  rootHash : Hash
  siblingHashes : List Hash

/-- The reads of a parked machine: `ReadMemory`, and the optional capabilities `driveLocator`
    (`account.go:33-35`) and `proofReader` (`accountproof.go:28-30`). A call may fail; a locator
    may also find no drive. -/
structure MachineReader (σ : Type) where
  readMemory : σ → ℕ → ℕ → Option Bytes
  accountsDriveStart : Option (σ → Option (Option ℕ))
  getProof : Option (σ → ℕ → ℕ → Option MerkleProof)

/-- Why a provable read is refused. -/
inductive ReadError
  | noSnapshot
  | noAccountsDrive
  | discovering
  | opening (e : DriveError)
  | readingSlot (i : ℕ)
  | readingPage (off : ℕ)
  | proofsUnsupported
  | proving (off : ℕ)
  | rootMismatch (computed claims : Hash)
  | panic
  | diverged
  deriving DecidableEq

/-- The cached answer of `accountsDriveBase` (`account.go:23-27`). -/
inductive DriveState
  | unresolved
  | found (base : ℕ)
  | absent
  deriving DecidableEq

abbrev ReadM (α : Type) := EStateM ReadError DriveState α

/-- `accountsDriveBase` (`account.go:41-66`). -/
def accountsDriveBase {σ : Type} (R : MachineReader σ) (m : σ) : ReadM ℕ := do
  match ← get with
  | .found base => return base
  | .absent => throw .noAccountsDrive
  | .unresolved =>
    match R.accountsDriveStart with
    | none =>
      set DriveState.absent
      throw .noAccountsDrive
    | some start =>
      match start m with
      | none => throw .discovering
      | some none =>
        set DriveState.absent
        throw .noAccountsDrive
      | some (some base) =>
        set (DriveState.found base)
        return base

/-- `MachineStore` (`store.go:110-137`): a drive inside a machine's memory, read-only. -/
structure MachineStore where
  base : ℕ
  readMemory : ℕ → ℕ → Option Bytes

instance : Drive.Store MachineStore where
  readAt off n := fun s =>
    match s.readMemory ((s.base + off) % 2 ^ 64) n with
    | some data => if data.length = n then .ok data s else .error .bounds s
    | none => .error .bounds s
  writeAt _ _ := fun s => .error .bounds s

/-! ## The walk -/

/-- `ProvenPage` (`accountproof.go:36-41`). -/
structure ProvenPage where
  driveOffset : ℕ
  address : ℕ
  data : Bytes
  proof : Option MerkleProof

/-- `AccountProof` (`accountproof.go:50-72`). -/
structure AccountProof where
  driveBase : ℕ
  config : Geometry
  found : Bool
  nonce : ℕ
  balance : ℕ
  record : Bytes
  slotIndex : ℕ
  homeSlot : ℕ
  walkLength : ℕ
  headerPage : ProvenPage
  walkPages : List ProvenPage

def pageSize : ℕ := 2 ^ 12

variable (P : Platform) {pages : List ProvenPage} {root : Hash}

/-- A slice of the host's own code: a panic is not a drive error. -/
def hostSlice (b : Bytes) (lo n : ℕ) : Except ReadError Bytes :=
  (P.slice b lo n).mapError fun _ => .panic

/-- `decodeAccountSlot` (`accountproof.go:229-237`). -/
def decodeAccountSlot (cfg : Geometry) (slot : Bytes) : Except ReadError (ℕ × ℕ) := do
  if cfg.profile = profileSingleAsset ∧ cfg.slotSize = 32 then
    let n ← hostSlice P slot 20 4
    let b ← hostSlice P slot 24 8
    return (leNat n, beNat b)
  else
    let n ← hostSlice P slot 24 8
    let b ← hostSlice P slot 32 32
    return (leNat n, beNat b)

/-- What the walk leaves: the slot of the record, its bytes, nonce and balance if it was found,
    and how many slots were examined. -/
structure Walk where
  found : Option (ℕ × Bytes × ℕ × ℕ)
  walkLength : ℕ

/-- The loop of the walk (`accountproof.go:127-147`) from distance `dist` on, `n` rounds left. -/
def walkLoop (readMemory : ℕ → ℕ → Option Bytes) (base : ℕ) (cfg : Geometry) (addr : Address)
    (homeSlot : ℕ) : ℕ → ℕ → ℕ → Except ReadError Walk
  | 0, _, walkLength => .ok ⟨none, walkLength⟩
  | n + 1, dist, _ => do
    let i := P.add homeSlot dist % cfg.capacity
    let slot ← expect (readMemory (P.add (P.add base cfg.tableOffset) (P.mul cfg.slotSize i))
      cfg.slotSize) (.readingSlot i)
    let key ← hostSlice P slot 0 20
    if isZero key then return ⟨none, dist + 1⟩
    else if key = addr.val then
      let r ← decodeAccountSlot P cfg slot
      return ⟨some (i, slot, r), dist + 1⟩
    else if P.sub (P.add i cfg.capacity) (home P cfg key cfg.capacity) % cfg.capacity < dist then
      return ⟨none, dist + 1⟩
    else walkLoop readMemory base cfg addr homeSlot n (dist + 1) (dist + 1)

/-- The pages from `p` up to `stop` (`accountproof.go:159-161`). There are `2^52` pages; a page
    offset that wraps starts over. -/
def pageLoop (stop : ℕ) : ℕ → ℕ → Except ReadError (List ℕ)
  | 0, _ => .error .diverged
  | n + 1, p =>
    if p < stop then do
      let rest ← pageLoop stop n (P.add p pageSize)
      return p :: rest
    else return []

/-- `addRange` (`accountproof.go:156-162`). -/
def addRange (cfg : Geometry) (firstSlot slots : ℕ) : Except ReadError (List ℕ) :=
  let start := P.add cfg.tableOffset (P.mul cfg.slotSize firstSlot)
  pageLoop P (P.add start (P.mul cfg.slotSize slots)) (2 ^ 52 + 1) (start - start % pageSize)

/-- The offsets of the walk's pages, without duplicates and ascending
    (`accountproof.go:163-177`). -/
def walkOffsets (cfg : Geometry) (homeSlot walkLength : ℕ) : Except ReadError (List ℕ) := do
  let wrap := P.add homeSlot walkLength
  if cfg.capacity < wrap then
    let upper ← addRange P cfg homeSlot (cfg.capacity - homeSlot)
    let lower ← addRange P cfg 0 (wrap - cfg.capacity)
    return (upper ++ lower).toFinset.sort
  else
    let pages ← addRange P cfg homeSlot walkLength
    return pages.toFinset.sort

/-- `readPage` (`accountproof.go:179-185`). -/
def readPage (readMemory : ℕ → ℕ → Option Bytes) (base off : ℕ) : Except ReadError ProvenPage := do
  let data ← expect (readMemory (P.add base off) pageSize) (.readingPage off)
  return ⟨off, P.add base off, data, none⟩

/-- The pages of a list of offsets. -/
def readPages (readMemory : ℕ → ℕ → Option Bytes) (base : ℕ) :
    List ℕ → Except ReadError (List ProvenPage)
  | [] => return []
  | off :: rest => do
    let page ← readPage P readMemory base off
    let pages ← readPages readMemory base rest
    return page :: pages

/-- `prove` (`accountproof.go:201-216`). -/
def provePage (getProof : ℕ → ℕ → Option MerkleProof) (root : Hash) (p : ProvenPage) :
    Except ReadError ProvenPage := do
  let proof ← expect (getProof p.address 12) (.proving p.driveOffset)
  require (proof.rootHash = root) (.rootMismatch proof.rootHash root)
  return { p with proof := some proof }

def provePages (getProof : ℕ → ℕ → Option MerkleProof) (root : Hash) :
    List ProvenPage → Except ReadError (List ProvenPage)
  | [] => return []
  | p :: rest => do
    let p ← provePage getProof root p
    let pages ← provePages getProof root rest
    return p :: pages

/-- `drive.Open` with the errors of `AccountProofAt` (`accountproof.go:97-108`). -/
def openAccounts (s : MachineStore) : Except ReadError (Drive MachineStore) :=
  (openDrive P s).mapError fun e => if e = .notFormatted then .noAccountsDrive else .opening e

/-- The record, the walk and the pages (`accountproof.go:97-194`). -/
def accountWalk (readMemory : ℕ → ℕ → Option Bytes) (base : ℕ) (addr : Address) :
    Except ReadError AccountProof := do
  let d ← openAccounts P ⟨base, readMemory⟩
  let cfg := d.cfg
  require (cfg.capacity ≠ 0) .panic
  let homeSlot := home P cfg addr.val cfg.capacity
  let w ← walkLoop P readMemory base cfg addr homeSlot cfg.capacity 0 0
  let offsets ← walkOffsets P cfg homeSlot w.walkLength
  let headerPage ← readPage P readMemory base 0
  let walkPages ← readPages P readMemory base offsets
  return {
    driveBase := base
    config := cfg
    found := w.found.isSome
    nonce := w.found.elim 0 fun r => r.2.2.1
    balance := w.found.elim 0 fun r => r.2.2.2
    record := w.found.elim [] fun r => r.2.1
    slotIndex := w.found.elim 0 fun r => r.1
    homeSlot := homeSlot
    walkLength := w.walkLength
    headerPage := headerPage
    walkPages := walkPages }

/-- The proofs of the pages (`accountproof.go:196-219`). -/
def proveWalk (getProof : Option (ℕ → ℕ → Option MerkleProof)) (root : Hash) (out : AccountProof) :
    Except ReadError AccountProof := do
  let prover ← expect getProof .proofsUnsupported
  let headerPage ← provePage prover root out.headerPage
  let walkPages ← provePages prover root out.walkPages
  return { out with headerPage, walkPages }

/-- `AccountProofAt` (`accountproof.go:82-218`). -/
def accountProofAt {σ τ : Type} (R : MachineReader σ) (c : Chain σ τ) (blockHash : Hash)
    (addr : Address) (withProofs : Bool) : ReadM AccountProof := do
  let b ← check (expect (c.blocks blockHash) .noSnapshot)
  let m ← check (expect (c.machines blockHash) .noSnapshot)
  let base ← accountsDriveBase R m
  let out ← check (accountWalk P (R.readMemory m) base addr)
  if withProofs then check (proveWalk (R.getProof.map fun f => f m) b.header.root out)
  else return out

/-! ## The verifier's store -/

/-- A drive of which only some pages are known. -/
structure PageStore where
  pages : List ProvenPage

/-- A byte of the drive, if a page has it. -/
def PageStore.byte (s : PageStore) (a : ℕ) : Option Byte :=
  s.pages.findSome? fun p => if p.driveOffset ≤ a then p.data[a - p.driveOffset]? else none

/-- A read that touches a byte outside the pages is refused. -/
instance : Drive.Store PageStore where
  readAt off n := fun s =>
    match (List.range n).mapM fun k => s.byte (off + k) with
    | some data => .ok data s
    | none => .error .bounds s
  writeAt _ _ := fun s => .error .bounds s

/-- The verifier's drive: the pages of a proof, under the geometry of its header page. -/
def AccountProof.verifier (out : AccountProof) : Drive PageStore where
  store := ⟨out.headerPage :: out.walkPages⟩
  cfg := out.config
  tokens := []
  colOff := []

/-- What the proof says about the account. -/
def AccountProof.account (out : AccountProof) (addr : Address) : Option Account :=
  if out.found then some ⟨addr, out.nonce, out.balance⟩ else none

/-! ## Pages -/

theorem slice_eq_map (img : Image) (off n : ℕ) :
    slice img off n = (List.range n).map fun k => img (off + k) := by
  apply List.ext_getElem
  · simp
  · intro i h1 h2
    simp [slice]

theorem mapM_eq_map {α β : Type} {f : α → Option β} {g : α → β} {l : List α}
    (h : ∀ a ∈ l, f a = some (g a)) : l.mapM f = some (l.map g) := by
  induction l with
  | nil => rfl
  | cons a l ih =>
    rw [List.mapM_cons, h a List.mem_cons_self, ih fun b hb => h b (List.mem_cons_of_mem _ hb)]
    rfl

/-- Pages of one image read as the image where they have the bytes. -/
theorem PageStore.byte_eq {img : Image} {a : ℕ}
    (hdata : ∀ p ∈ pages, p.data = slice img p.driveOffset pageSize)
    (hcover : ∃ p ∈ pages, p.driveOffset ≤ a ∧ a < p.driveOffset + pageSize) :
    PageStore.byte ⟨pages⟩ a = some (img a) := by
  have hread : ∀ p ∈ pages, (if p.driveOffset ≤ a then p.data[a - p.driveOffset]? else none) =
      if p.driveOffset ≤ a ∧ a < p.driveOffset + pageSize then some (img a) else none := by
    intro p hp
    by_cases h1 : p.driveOffset ≤ a
    · rw [if_pos h1, hdata p hp, slice_eq_map, List.getElem?_map]
      by_cases h2 : a < p.driveOffset + pageSize
      · rw [if_pos ⟨h1, h2⟩, List.getElem?_range (by omega), Option.map_some,
          Nat.add_sub_cancel' h1]
      · rw [if_neg fun h => h2 h.2, List.getElem?_eq_none (by rw [List.length_range]; omega)]
        rfl
    · rw [if_neg h1, if_neg fun h => h1 h.1]
  unfold PageStore.byte
  simp only
  induction pages with
  | nil =>
    obtain ⟨p, hp, -⟩ := hcover
    cases hp
  | cons q pages ih =>
    rw [List.findSome?_cons, hread q List.mem_cons_self]
    by_cases hq : q.driveOffset ≤ a ∧ a < q.driveOffset + pageSize
    · rw [if_pos hq]
    · rw [if_neg hq]
      refine ih (fun p hp => hdata p (List.mem_cons_of_mem _ hp)) ?_
        (fun p hp => hread p (List.mem_cons_of_mem _ hp))
      obtain ⟨p, hp, hin⟩ := hcover
      rcases List.mem_cons.1 hp with rfl | hp
      · exact absurd hin hq
      · exact ⟨p, hp, hin⟩

theorem PageStore.readAt_eq {img : Image} (off n : ℕ)
    (hdata : ∀ p ∈ pages, p.data = slice img p.driveOffset pageSize)
    (hcover : ∀ a, off ≤ a → a < off + n →
      ∃ p ∈ pages, p.driveOffset ≤ a ∧ a < p.driveOffset + pageSize) :
    (Drive.Store.readAt off n).run (⟨pages⟩ : PageStore) = .ok (slice img off n) ⟨pages⟩ := by
  have hbytes : (List.range n).mapM (fun k => PageStore.byte ⟨pages⟩ (off + k)) =
      some (slice img off n) := by
    rw [slice_eq_map]
    refine mapM_eq_map fun k hk => PageStore.byte_eq hdata (hcover _ (by omega) ?_)
    have := List.mem_range.1 hk
    omega
  show (match (List.range n).mapM fun k => PageStore.byte ⟨pages⟩ (off + k) with
    | some data => EStateM.Result.ok data (⟨pages⟩ : PageStore)
    | none => EStateM.Result.error DriveError.bounds ⟨pages⟩) = _
  rw [hbytes]

section Offsets

variable {P} {stop size : ℕ}

/-- The loop collects the pages from `p` up to `stop`. -/
theorem pageLoop_ok (hsize : pageSize ∣ size) (hstop : stop ≤ size) (hb : size < P.bound) :
    ∀ {n p : ℕ}, n ≠ 0 → pageSize ∣ p → stop + pageSize ≤ p + pageSize * n →
      ∃ l, pageLoop P stop n p = .ok l ∧ ∀ q, q ∈ l ↔ pageSize ∣ q ∧ p ≤ q ∧ q < stop := by
  intro n
  induction n with
  | zero => intro p h0; exact absurd rfl h0
  | succ n ih =>
    intro p _ hp hn
    rw [pageLoop]
    have hpos : 0 < pageSize := by decide
    rw [Nat.mul_succ] at hn
    split_ifs with hlt
    · have hle : p + pageSize ≤ size := by
        obtain ⟨a, rfl⟩ := hp
        obtain ⟨b, rfl⟩ := hsize
        have hab : a < b := Nat.lt_of_mul_lt_mul_left (lt_of_lt_of_le hlt hstop)
        have := Nat.mul_le_mul_left pageSize (Nat.succ_le_of_lt hab)
        rw [Nat.mul_succ] at this
        exact this
      have hn0 : n ≠ 0 := by
        rintro rfl
        omega
      obtain ⟨l, hl, hmem⟩ := ih hn0 (p := p + pageSize)
        (Nat.dvd_add hp (Nat.dvd_refl _)) (by omega)
      rw [P.add_eq (by omega), hl]
      refine ⟨p :: l, rfl, fun q => ?_⟩
      rw [List.mem_cons, hmem]
      constructor
      · rintro (rfl | ⟨h1, h2, h3⟩)
        · exact ⟨hp, le_rfl, hlt⟩
        · exact ⟨h1, by omega, h3⟩
      · rintro ⟨h1, h2, h3⟩
        rcases Nat.eq_or_lt_of_le h2 with rfl | h2
        · exact Or.inl rfl
        · refine Or.inr ⟨h1, ?_, h3⟩
          obtain ⟨a, rfl⟩ := hp
          obtain ⟨b, rfl⟩ := h1
          have hab : a < b := Nat.lt_of_mul_lt_mul_left h2
          have := Nat.mul_le_mul_left pageSize (Nat.succ_le_of_lt hab)
          rw [Nat.mul_succ] at this
          exact this
    · refine ⟨[], rfl, fun q => ?_⟩
      simp only [List.not_mem_nil, false_iff]
      omega

/-- The page at `q` holds a part of slot `i` of the accounts table. -/
def Touches (cfg : Geometry) (i q : ℕ) : Prop :=
  q < cfg.tableOffset + cfg.slotSize * i + cfg.slotSize ∧
    cfg.tableOffset + cfg.slotSize * i < q + pageSize

/-- An aligned page starts before a byte range ends and not before the page of its start exactly
    if it holds a part of one of the slots in the range. -/
theorem touches_iff {cfg : Geometry} {first slots q : ℕ} (hs : 0 < cfg.slotSize)
    (hslots : 0 < slots) (hq : pageSize ∣ q) :
    ((cfg.tableOffset + cfg.slotSize * first) -
        (cfg.tableOffset + cfg.slotSize * first) % pageSize ≤ q ∧
      q < cfg.tableOffset + cfg.slotSize * first + cfg.slotSize * slots) ↔
    ∃ k < slots, Touches cfg (first + k) q := by
  have hpos : 0 < pageSize := by decide
  generalize hstart : cfg.tableOffset + cfg.slotSize * first = start
  have hslot : ∀ k, cfg.tableOffset + cfg.slotSize * (first + k) = start + cfg.slotSize * k := by
    intro k
    rw [Nat.mul_add, ← Nat.add_assoc, hstart]
  have hpage : start - start % pageSize ≤ q ↔ start < q + pageSize := by
    obtain ⟨a, rfl⟩ := hq
    have h1 := Nat.div_add_mod start pageSize
    have h2 := Nat.mod_lt start hpos
    rw [show start - start % pageSize = pageSize * (start / pageSize) by omega,
      Nat.mul_le_mul_left_iff hpos, ← Nat.mul_succ, Nat.le_iff_lt_add_one,
      Nat.div_lt_iff_lt_mul hpos, Nat.mul_comm (a + 1)]
  rw [hpage]
  unfold Touches
  constructor
  · rintro ⟨h1, h2⟩
    -- the first byte the page and the range share lies in this slot
    refine ⟨(max q start - start) / cfg.slotSize, ?_, ?_⟩
    · rw [Nat.div_lt_iff_lt_mul hs, Nat.mul_comm]
      have : 0 < cfg.slotSize * slots := Nat.mul_pos hs hslots
      omega
    · rw [hslot]
      have h3 := Nat.div_add_mod (max q start - start) cfg.slotSize
      have h4 := Nat.mod_lt (max q start - start) hs
      omega
  · rintro ⟨k, hk, h1, h2⟩
    rw [hslot] at h1 h2
    have h3 : cfg.slotSize * (k + 1) ≤ cfg.slotSize * slots := Nat.mul_le_mul_left _ hk
    rw [Nat.mul_succ] at h3
    omega

theorem addRange_ok {cfg : Geometry} (hf : (accountsTable cfg).Fits P size)
    (hsize : pageSize ∣ size) (hb : size < P.bound) (first slots : ℕ) (hslots : 0 < slots)
    (hle : first + slots ≤ cfg.capacity) :
    ∃ l, addRange P cfg first slots = .ok l ∧
      ∀ q, q ∈ l ↔ pageSize ∣ q ∧ ∃ k < slots, Touches cfg (first + k) q := by
  have hword := hf.word
  have hs : 0 < cfg.slotSize := by
    have h : 0 + 20 ≤ cfg.slotSize := hf.slot
    omega
  have hinside : cfg.tableOffset + cfg.slotSize * cfg.capacity ≤ size := hf.inside
  have hend : cfg.tableOffset + cfg.slotSize * first + cfg.slotSize * slots ≤ size := by
    have := Nat.mul_le_mul_left cfg.slotSize hle
    rw [Nat.mul_add] at this
    omega
  have hstart : P.add cfg.tableOffset (cfg.slotSize * first) =
      cfg.tableOffset + cfg.slotSize * first := P.add_eq (by omega)
  rw [addRange, P.mul_eq (by omega), P.mul_eq (by omega), hstart, P.add_eq (by omega)]
  have hpos : 0 < pageSize := by decide
  have hpages : pageSize * (2 ^ 52 + 1) = 2 ^ 64 + pageSize := by decide
  obtain ⟨l, hl, hmem⟩ := pageLoop_ok (P := P) hsize hend hb (n := 2 ^ 52 + 1)
    (p := cfg.tableOffset + cfg.slotSize * first -
      (cfg.tableOffset + cfg.slotSize * first) % pageSize) (by omega) (Nat.dvd_sub_mod _)
    (by rw [hpages]; omega)
  refine ⟨l, hl, fun q => ?_⟩
  rw [hmem]
  constructor
  · rintro ⟨h1, h2⟩
    exact ⟨h1, (touches_iff hs hslots h1).1 h2⟩
  · rintro ⟨h1, h2⟩
    exact ⟨h1, (touches_iff hs hslots h1).2 h2⟩

/-- The pages of a walk are the aligned pages that hold a part of an examined slot. -/
theorem walkOffsets_ok {cfg : Geometry} (hf : (accountsTable cfg).Fits P size)
    (hsize : pageSize ∣ size) (hb : size < P.bound) {homeSlot len : ℕ}
    (hhome : homeSlot < cfg.capacity) (hlen : 0 < len) (hle : len ≤ cfg.capacity) :
    ∃ l, walkOffsets P cfg homeSlot len = .ok l ∧ l.Pairwise (· < ·) ∧
      ∀ q, q ∈ l ↔ pageSize ∣ q ∧
        ∃ dist < len, Touches cfg ((homeSlot + dist) % cfg.capacity) q := by
  have htwo : 2 * cfg.capacity ≤ size := hf.two_mul_le
  rw [walkOffsets, P.add_eq (by omega)]
  split_ifs with hwrap
  · obtain ⟨upper, hu, humem⟩ := addRange_ok hf hsize hb homeSlot
      (cfg.capacity - homeSlot) (by omega) (by omega)
    obtain ⟨lower, hl, hlmem⟩ := addRange_ok hf hsize hb 0
      (homeSlot + len - cfg.capacity) (by omega) (by omega)
    rw [hu, hl]
    refine ⟨_, rfl, (Finset.sortedLT_sort _).pairwise, fun q => ?_⟩
    rw [Finset.mem_sort, List.mem_toFinset, List.mem_append, humem, hlmem, ← and_or_left]
    refine and_congr_right fun _ => ⟨?_, ?_⟩
    · rintro (⟨k, hk, h⟩ | ⟨k, hk, h⟩)
      · exact ⟨k, by omega, by rwa [Nat.mod_eq_of_lt (by omega)]⟩
      · refine ⟨cfg.capacity - homeSlot + k, by omega, ?_⟩
        rwa [show homeSlot + (cfg.capacity - homeSlot + k) = 0 + k + cfg.capacity by omega,
          Nat.add_mod_right, Nat.mod_eq_of_lt (by omega)]
    · rintro ⟨dist, hd, h⟩
      by_cases hlt : homeSlot + dist < cfg.capacity
      · rw [Nat.mod_eq_of_lt hlt] at h
        exact Or.inl ⟨dist, by omega, h⟩
      · refine Or.inr ⟨homeSlot + dist - cfg.capacity, by omega, ?_⟩
        rw [Nat.mod_eq_sub_mod (by omega), Nat.mod_eq_of_lt (by omega)] at h
        rwa [Nat.zero_add]
  · obtain ⟨pages, hp, hmem⟩ := addRange_ok hf hsize hb homeSlot len hlen (by omega)
    rw [hp]
    refine ⟨_, rfl, (Finset.sortedLT_sort _).pairwise, fun q => ?_⟩
    rw [Finset.mem_sort, List.mem_toFinset, hmem]
    refine and_congr_right fun _ => exists_congr fun k => and_congr_right fun hk => ?_
    rw [Nat.mod_eq_of_lt (by omega)]

end Offsets

/-! ## The walk is the lookup -/

theorem hostSlice_eq {P : Platform} {b : Bytes} {lo n : ℕ} (h : lo + n ≤ b.length) :
    hostSlice P b lo n = .ok (sub b lo n) := by
  rw [hostSlice, P.slice_eq h]
  rfl

theorem decodeAccountSlot_eq {P : Platform} {cfg : Geometry} {slot : Bytes}
    (h : cfg.recordSize ≤ slot.length) : decodeAccountSlot P cfg slot = .ok (cfg.fields slot) := by
  have hc := cfg.compact_iff
  rw [Geometry.recordSize] at h
  rw [decodeAccountSlot, Geometry.fields]
  split_ifs at h ⊢ with h1 h2 h2
  · rw [hostSlice_eq (by omega), hostSlice_eq (by omega)]
    rfl
  · exact absurd (hc.2 h1) h2
  · exact absurd (hc.1 h2) h1
  · rw [hostSlice_eq (by omega), hostSlice_eq (by omega)]
    rfl

theorem ok_bind {ε α β : Type} (a : α) (f : α → Except ε β) : (Except.ok a >>= f) = f a := rfl

section Walks

variable {keccak256 : Bytes → Bytes → Bytes} {cfg : Geometry} {size base : ℕ} {img : Image}
  {readMemory : ℕ → ℕ → Option Bytes} {addr : Address}

/-- Where the walk reads slot `i`. -/
theorem slotAddress_eq (base off size i : ℕ) :
    (Go.platform keccak256).add ((Go.platform keccak256).add base off)
      ((Go.platform keccak256).mul size i) = (base + (off + size * i)) % 2 ^ 64 := by
  show ((base + off) % 2 ^ 64 + size * i % 2 ^ 64) % 2 ^ 64 = _
  rw [Nat.mod_add_mod, Nat.add_mod_mod, Nat.add_assoc]

/-- The walk finds what the library's lookup finds, and counts the slots it examines. -/
theorem walkLoop_eq (hf : (accountsTable cfg).Fits (Go.platform keccak256) size)
    (hread : ∀ i < cfg.capacity,
      readMemory ((base + (cfg.tableOffset + cfg.slotSize * i)) % 2 ^ 64) cfg.slotSize =
        some ((accountsTable cfg).slots img i))
    (hrec : cfg.recordSize ≤ cfg.slotSize) {h : ℕ} (hh : h < cfg.capacity) {n dist : ℕ}
    (hd : dist + n ≤ cfg.capacity) :
    walkLoop (Go.platform keccak256) readMemory base cfg addr h n dist dist =
      .ok ⟨(((accountsTable cfg).layout (Go.platform keccak256) cfg hf.two_le).lookupLoop
          ((accountsTable cfg).slots img) addr.val h n dist).map fun i =>
            (i, (accountsTable cfg).slots img i, cfg.fields ((accountsTable cfg).slots img i)),
        dist + ((accountsTable cfg).layout (Go.platform keccak256) cfg hf.two_le).walk
          ((accountsTable cfg).slots img) addr.val h n dist⟩ := by
  have htwo : 2 * cfg.capacity ≤ size := hf.two_mul_le
  have hexact := hf.exact
  induction n generalizing dist with
  | zero => rfl
  | succ n ih =>
    have hi : (h + dist) % cfg.capacity < cfg.capacity := Nat.mod_lt _ (by omega)
    have hslot : 0 + 20 ≤ cfg.slotSize := hf.slot
    have hlen : ((accountsTable cfg).slots img ((h + dist) % cfg.capacity)).length = cfg.slotSize :=
      Table.slots_length hi
    have hdisp := hf.displacement_eq (g := cfg)
      ((accountsTable cfg).slots img ((h + dist) % cfg.capacity)) hi
    rw [walkLoop, RobinHood.Layout.lookupLoop, RobinHood.Layout.walk,
      (Go.platform keccak256).add_eq (a := h) (b := dist) (by omega), slotAddress_eq, hread _ hi,
      expect_some, ok_bind, hostSlice_eq (by omega), ok_bind]
    by_cases hl : isZero (sub ((accountsTable cfg).slots img ((h + dist) % cfg.capacity)) 0 20) = true
    · have hl' : (!isZero (sub ((accountsTable cfg).slots img ((h + dist) % cfg.capacity)) 0 20)) =
          false := congrArg not hl
      rw [if_pos hl, if_pos (by exact hl'), if_pos (by exact hl')]
      rfl
    have hl' : ¬(!isZero (sub ((accountsTable cfg).slots img ((h + dist) % cfg.capacity)) 0 20)) =
        false := by simpa using hl
    by_cases hk : sub ((accountsTable cfg).slots img ((h + dist) % cfg.capacity)) 0 20 = addr.val
    · rw [if_neg hl, if_pos hk, if_neg (by exact hl'), if_pos (by exact hk), if_neg (by exact hl'),
        if_pos (by exact hk), decodeAccountSlot_eq (by omega)]
      rfl
    by_cases hdl : displacement (Go.platform keccak256) cfg (accountsTable cfg)
        ((accountsTable cfg).slots img ((h + dist) % cfg.capacity)) ((h + dist) % cfg.capacity) < dist
    · rw [if_neg hl, if_neg hk, if_pos (by exact hdl)]
      rw [hdisp] at hdl
      rw [if_neg (by exact hl'), if_neg (by exact hk), if_pos (by exact hdl), if_neg (by exact hl'),
        if_neg (by exact hk), if_pos (by exact hdl)]
      rfl
    · rw [if_neg hl, if_neg hk, if_neg (by exact hdl), ih (by omega)]
      rw [hdisp] at hdl
      rw [if_neg (by exact hl'), if_neg (by exact hk), if_neg (by exact hdl), if_neg (by exact hl'),
        if_neg (by exact hk), if_neg (by exact hdl)]
      refine congrArg Except.ok (congrArg (Walk.mk _) ?_)
      omega

end Walks

/-! ## Drives in a machine -/

/-- The drive lies in a machine's memory, at an aligned base. -/
structure Placed {σ : Type} [Drive.Store σ] [LawfulStore σ] (d : Drive σ) (base : ℕ)
    (readMemory : ℕ → ℕ → Option Bytes) : Prop where
  aligned : pageSize ∣ base
  reads : ∀ off n, off + n ≤ d.size →
    readMemory ((base + off) % 2 ^ 64) n = some (slice d.image off n)

/-- The accounts drive of the machine is known, or found, to start at `base`. -/
def Located {σ : Type} (R : MachineReader σ) (m : σ) (base : ℕ) (st : DriveState) : Prop :=
  st = .found base ∨
    st = .unresolved ∧ ∃ start, R.accountsDriveStart = some start ∧ start m = some (some base)

theorem accountsDriveBase_run {σ : Type} {R : MachineReader σ} {m : σ} {base : ℕ} {st : DriveState}
    (h : Located R m base st) : (accountsDriveBase R m).run st = .ok base (.found base) := by
  rcases h with rfl | ⟨rfl, start, hstart, hbase⟩
  · rfl
  · rw [accountsDriveBase, bind_ok (get_run _)]
    simp only [hstart, hbase]
    rfl

/-- The part of a page that a proof does not change. -/
def ProvenPage.content (p : ProvenPage) : ℕ × ℕ × Bytes := (p.driveOffset, p.address, p.data)

/-- The page of a drive at an offset. -/
def pageAt (img : Image) (base off : ℕ) : ProvenPage :=
  ⟨off, (base + off) % 2 ^ 64, slice img off pageSize, none⟩

theorem provePage_content {getProof : ℕ → ℕ → Option MerkleProof} {p p' : ProvenPage}
    (h : provePage getProof root p = .ok p') : p'.content = p.content := by
  obtain ⟨proof, -, h⟩ := except_bind_eq_ok.1 h
  obtain ⟨⟨⟩, -, h⟩ := except_bind_eq_ok.1 h
  cases h
  rfl

theorem provePages_content {getProof : ℕ → ℕ → Option MerkleProof} :
    ∀ {ps ps' : List ProvenPage}, provePages getProof root ps = .ok ps' →
      ps'.map ProvenPage.content = ps.map ProvenPage.content := by
  intro ps
  induction ps with
  | nil =>
    intro ps' h
    cases h
    rfl
  | cons p ps ih =>
    intro ps' h
    rw [provePages] at h
    obtain ⟨q, hq, h⟩ := except_bind_eq_ok.1 h
    obtain ⟨qs, hqs, h⟩ := except_bind_eq_ok.1 h
    cases h
    rw [List.map_cons, List.map_cons, provePage_content hq, ih hqs]

/-- Proving replaces the pages by pages of the same content. -/
theorem proveWalk_pages {getProof : Option (ℕ → ℕ → Option MerkleProof)} {out out' : AccountProof}
    (h : proveWalk getProof root out = .ok out') :
    ∃ headerPage walkPages, out' = { out with headerPage, walkPages } ∧
      headerPage.content = out.headerPage.content ∧
      walkPages.map ProvenPage.content = out.walkPages.map ProvenPage.content := by
  obtain ⟨prover, -, h⟩ := except_bind_eq_ok.1 h
  obtain ⟨headerPage, hh, h⟩ := except_bind_eq_ok.1 h
  obtain ⟨walkPages, hw, h⟩ := except_bind_eq_ok.1 h
  cases h
  exact ⟨headerPage, walkPages, rfl, provePage_content hh, provePages_content hw⟩

/-- What a proof of `addr` has to show about the drive `d` at `base`. -/
structure SelfContained {σ : Type} [Drive.Store σ] [LawfulStore σ] (d : Drive σ) (base : ℕ)
    (addr : Address) (out : AccountProof) : Prop where
  /-- It reports the presence, nonce and balance that `GetAccount` reports. -/
  reports : (getAccount P addr).run d = .ok (out.account addr) d
  /-- The header page holds the geometry. -/
  header : out.headerPage.driveOffset = 0 ∧
    decodeHeader P out.headerPage.data = .ok out.config ∧ out.config = d.cfg
  /-- The lookup reads nothing but the pages and finds the record or its absence there. -/
  lookup : (lookup P (accountsTable out.config) addr.val).run out.verifier =
    .ok (if out.found then some (out.slotIndex, out.record) else none) out.verifier
  replays : (getAccount P addr).run out.verifier = .ok (out.account addr) out.verifier
  /-- The pages are those of the drive. -/
  pages : ∀ p ∈ out.headerPage :: out.walkPages,
    p.data = slice d.image p.driveOffset pageSize ∧ p.address = (base + p.driveOffset) % 2 ^ 64
  aligned : ∀ p ∈ out.walkPages, pageSize ∣ p.driveOffset ∧ pageSize ∣ p.address
  ascending : (out.walkPages.map ProvenPage.driveOffset).Pairwise (· < ·)
  walkLength : out.walkLength = slotsExamined P (accountsTable d.cfg) addr.val d
  /-- Each page holds a part of a slot that the lookup examines. -/
  touched : ∀ p ∈ out.walkPages, ∃ dist < out.walkLength,
    Touches d.cfg ((home P d.cfg addr.val d.cfg.capacity + dist) % d.cfg.capacity) p.driveOffset

section Proofs

variable {P}

/-- `GetAccount` on a store that has the slots its lookup examines. -/
theorem getAccount_serves {σ : Type} [Drive.Store σ] {d : Drive σ} {img : Image} {size : ℕ}
    (hg : d.cfg.Valid P size) {addr : Address} (h0 : isZero addr.val = false)
    (hlookup : (Drive.lookup P (accountsTable d.cfg) addr.val).run d =
      .ok ((((accountsTable d.cfg).layout P d.cfg hg.accounts.two_le).lookup
        ((accountsTable d.cfg).slots img) addr.val).map
          fun i => (i, (accountsTable d.cfg).slots img i)) d) :
    (getAccount P addr).run d =
      .ok ((((accountsTable d.cfg).layout P d.cfg hg.accounts.two_le).lookup
        ((accountsTable d.cfg).slots img) addr.val).map fun i =>
          ⟨addr, (d.cfg.fields ((accountsTable d.cfg).slots img i)).1,
            (d.cfg.fields ((accountsTable d.cfg).slots img i)).2⟩) d := by
  rw [getAccount, if_neg (by simp [h0]), bind_ok (get_run d), bind_ok hlookup]
  cases hl : ((accountsTable d.cfg).layout P d.cfg hg.accounts.two_le).lookup
      ((accountsTable d.cfg).slots img) addr.val with
  | none => rfl
  | some i =>
    have hi : i < (accountsTable d.cfg).capacity := (RobinHood.Layout.lookup_eq_some hl).1
    have hlen : ((accountsTable d.cfg).slots img i).length = d.cfg.slotSize :=
      Table.slots_length hi
    have hdec := decodeAccount_eq P d.cfg (hlen ▸ hg.recordSize_le :
      d.cfg.recordSize ≤ ((accountsTable d.cfg).slots img i).length)
    simp only [Option.map_some, hdec, bind_ok (check_ok _ d)]
    rfl

variable {σ : Type} [Drive.Store σ] [LawfulStore σ] {d : Drive σ} {base : ℕ}
  {readMemory : ℕ → ℕ → Option Bytes} {addr : Address}

/-- The store of the machine reads as the drive. -/
theorem Placed.readsAs (hp : Placed d base readMemory) :
    ReadsAs (⟨base, readMemory⟩ : MachineStore) d.image d.size := by
  intro off n h
  show (match readMemory ((base + off) % 2 ^ 64) n with
    | some data => if data.length = n then EStateM.Result.ok data (⟨base, readMemory⟩ : MachineStore)
      else .error DriveError.bounds ⟨base, readMemory⟩
    | none => .error DriveError.bounds ⟨base, readMemory⟩) = _
  rw [hp.reads off n h]
  exact if_pos (slice_length _ _ _)

/-- What the walk of the drive `d` for `addr` finds, the pages apart. -/
structure Walked (hf : (accountsTable d.cfg).Fits P d.size) (addr : Address) (out : AccountProof) :
    Prop where
  config : out.config = d.cfg
  found : (if out.found then some (out.slotIndex, out.record) else none) =
    (((accountsTable d.cfg).layout P d.cfg hf.two_le).lookup
      ((accountsTable d.cfg).slots d.image) addr.val).map
        fun i => (i, (accountsTable d.cfg).slots d.image i)
  account : out.account addr =
    (((accountsTable d.cfg).layout P d.cfg hf.two_le).lookup
      ((accountsTable d.cfg).slots d.image) addr.val).map fun i =>
        ⟨addr, (d.cfg.fields ((accountsTable d.cfg).slots d.image i)).1,
          (d.cfg.fields ((accountsTable d.cfg).slots d.image i)).2⟩
  walkLength : out.walkLength = ((accountsTable d.cfg).layout P d.cfg hf.two_le).walk
    ((accountsTable d.cfg).slots d.image) addr.val (home P d.cfg addr.val d.cfg.capacity)
      d.cfg.capacity 0

/-- The offsets of the pages that hold a part of one of the first `len` slots of the probe for
    `addr`. -/
def PageOffsets (P : Platform) (cfg : Geometry) (addr : Address) (len : ℕ) (l : List ℕ) : Prop :=
  l.Pairwise (· < ·) ∧ ∀ q, q ∈ l ↔ pageSize ∣ q ∧
    ∃ dist < len, Touches cfg ((home P cfg addr.val cfg.capacity + dist) % cfg.capacity) q

/-- The pages are inside the drive. -/
theorem PageOffsets.le_size (hf : (accountsTable d.cfg).Fits P d.size) (hsize : pageSize ∣ d.size)
    {len : ℕ} {l : List ℕ} (hl : PageOffsets P d.cfg addr len l) {q : ℕ} (hq : q ∈ l) :
    q + pageSize ≤ d.size := by
  obtain ⟨hdvd, dist, -, htouch, -⟩ := (hl.2 q).1 hq
  have hcap : 2 ≤ d.cfg.capacity := hf.two_le
  have h1 : d.cfg.tableOffset + d.cfg.slotSize * _ + d.cfg.slotSize ≤ d.size :=
    (Table.slot_inside (t := accountsTable d.cfg)
      (i := (home P d.cfg addr.val d.cfg.capacity + dist) % d.cfg.capacity)
      (Nat.mod_lt _ (by omega))).trans hf.inside
  have hlt : q < d.size := by omega
  obtain ⟨a, rfl⟩ := hdvd
  obtain ⟨b, hb⟩ := hsize
  rw [hb] at hlt ⊢
  have hab : a < b := Nat.lt_of_mul_lt_mul_left hlt
  have hle := Nat.mul_le_mul_left pageSize (Nat.succ_le_of_lt hab)
  rwa [Nat.mul_succ] at hle

theorem readPage_eq {keccak256 : Bytes → Bytes → Bytes} (hp : Placed d base readMemory) {q : ℕ}
    (hq : q + pageSize ≤ d.size) :
    readPage (Go.platform keccak256) readMemory base q = .ok (pageAt d.image base q) := by
  rw [readPage, show (Go.platform keccak256).add base q = (base + q) % 2 ^ 64 from rfl,
    hp.reads q pageSize hq]
  rfl

theorem readPages_eq (keccak256 : Bytes → Bytes → Bytes) (hp : Placed d base readMemory) :
    ∀ {l : List ℕ}, (∀ q ∈ l, q + pageSize ≤ d.size) →
      readPages (Go.platform keccak256) readMemory base l = .ok (l.map (pageAt d.image base)) := by
  intro l
  induction l with
  | nil => intro _; rfl
  | cons q l ih =>
    intro h
    rw [readPages, readPage_eq hp (h q List.mem_cons_self), ih fun q' hq' => h q' (List.mem_cons_of_mem _ hq')]
    rfl

/-- The record, the walk and the pages of a placed drive. -/
theorem accountWalk_ok {keccak256 : Bytes → Bytes → Bytes} (hv : Valid (Go.platform keccak256) d)
    (hgr : d.cfg.InRange (Go.platform keccak256)) (hsize : pageSize ∣ d.size)
    (hb : d.size < 2 ^ 64) (hp : Placed d base readMemory) (addr : Address) :
    ∃ out l, accountWalk (Go.platform keccak256) readMemory base addr = .ok out ∧
      Walked hv.geometry.accounts addr out ∧
      PageOffsets (Go.platform keccak256) d.cfg addr out.walkLength l ∧
      out.headerPage = pageAt d.image base 0 ∧ out.walkPages = l.map (pageAt d.image base) := by
  have hf := hv.geometry.accounts
  have hcap : 2 ≤ d.cfg.capacity := hf.two_le
  have hopen : openAccounts (Go.platform keccak256) ⟨base, readMemory⟩ =
      .ok ⟨⟨base, readMemory⟩, d.cfg, d.tokens, d.colOff⟩ := by
    rw [openAccounts, openDrive_reads hp.readsAs hv.geometry hgr hv.header hv.registry]
    rfl
  have hhome : home (Go.platform keccak256) d.cfg addr.val d.cfg.capacity < d.cfg.capacity :=
    home_lt (by omega)
  have hread : ∀ i < d.cfg.capacity,
      readMemory ((base + (d.cfg.tableOffset + d.cfg.slotSize * i)) % 2 ^ 64) d.cfg.slotSize =
        some ((accountsTable d.cfg).slots d.image i) := by
    intro i hi
    rw [Table.slots, if_pos (by exact hi)]
    exact hp.reads _ _ ((Table.slot_inside (t := accountsTable d.cfg) hi).trans hf.inside)
  have hwalk : walkLoop (Go.platform keccak256) readMemory base d.cfg addr
      (home (Go.platform keccak256) d.cfg addr.val d.cfg.capacity) d.cfg.capacity 0 0 =
      .ok ⟨(((accountsTable d.cfg).layout (Go.platform keccak256) d.cfg hf.two_le).lookup
          ((accountsTable d.cfg).slots d.image) addr.val).map fun i =>
            (i, (accountsTable d.cfg).slots d.image i,
              d.cfg.fields ((accountsTable d.cfg).slots d.image i)),
        0 + _⟩ :=
    walkLoop_eq hf hread hv.geometry.recordSize_le hhome (Nat.zero_add d.cfg.capacity).le
  rw [Nat.zero_add] at hwalk
  obtain ⟨l, hl, hsorted, hmem⟩ := walkOffsets_ok hf hsize hb hhome
    (RobinHood.Layout.walk_pos (L := (accountsTable d.cfg).layout (Go.platform keccak256) d.cfg
      hf.two_le) ((accountsTable d.cfg).slots d.image) addr.val
      (home (Go.platform keccak256) d.cfg addr.val d.cfg.capacity) 0 (by omega))
    (RobinHood.Layout.walk_le _ _ _ _ _)
  have hoff : PageOffsets (Go.platform keccak256) d.cfg addr _ l := ⟨hsorted, hmem⟩
  have hheader : 0 + pageSize ≤ d.size := by
    have h1 : pageSize ≤ d.cfg.tableOffset := hv.geometry.tableOffset_le
    have h2 : d.cfg.tableOffset + d.cfg.slotSize * d.cfg.capacity ≤ d.size := hf.inside
    omega
  have hreq : require (d.cfg.capacity ≠ 0) ReadError.panic = .ok () := if_pos (by omega)
  have hpages := readPages_eq keccak256 hp fun q hq => hoff.le_size hf hsize hq
  simp only [accountWalk, hopen, ok_bind, hreq, hwalk, hl, readPage_eq hp hheader, hpages]
  refine ⟨_, l, rfl, ⟨rfl, ?_, ?_, rfl⟩, hoff, rfl, rfl⟩
  · simp only
    generalize ((accountsTable d.cfg).layout (Go.platform keccak256) d.cfg hf.two_le).lookup
      ((accountsTable d.cfg).slots d.image) addr.val = found
    cases found <;> rfl
  · simp only [AccountProof.account]
    generalize ((accountsTable d.cfg).layout (Go.platform keccak256) d.cfg hf.two_le).lookup
      ((accountsTable d.cfg).slots d.image) addr.val = found
    cases found <;> rfl

/-- The lookup repeated on pages that hold the slots it examines. -/
theorem replay_lookup {cfg : Geometry} {img : Image} {size : ℕ}
    (addr : Address) (hf : (accountsTable cfg).Fits P size)
    (hdata : ∀ p ∈ pages, p.data = slice img p.driveOffset pageSize)
    (hcover : ∀ dist < ((accountsTable cfg).layout P cfg hf.two_le).walk
        ((accountsTable cfg).slots img) addr.val (home P cfg addr.val cfg.capacity) cfg.capacity 0,
      ∀ q, pageSize ∣ q →
        Touches cfg ((home P cfg addr.val cfg.capacity + dist) % cfg.capacity) q →
        ∃ p ∈ pages, p.driveOffset = q) :
    (lookup P (accountsTable cfg) addr.val).run (⟨⟨pages⟩, cfg, [], []⟩ : Drive PageStore) =
      .ok ((((accountsTable cfg).layout P cfg hf.two_le).lookup
        ((accountsTable cfg).slots img) addr.val).map fun i =>
          (i, (accountsTable cfg).slots img i)) ⟨⟨pages⟩, cfg, [], []⟩ := by
  have hcap : 2 ≤ cfg.capacity := hf.two_le
  refine lookup_serves (d := (⟨⟨pages⟩, cfg, [], []⟩ : Drive PageStore)) hf fun dist hdist => ?_
  have hi : (home P cfg addr.val cfg.capacity + dist) % cfg.capacity < cfg.capacity :=
    Nat.mod_lt _ (by omega)
  have hread := PageStore.readAt_eq (cfg.tableOffset + cfg.slotSize *
    ((home P cfg addr.val cfg.capacity + dist) % cfg.capacity)) cfg.slotSize hdata
    fun a h1 h2 => by
      -- the page of a byte of an examined slot holds a part of the slot
      have h3 := Nat.mod_lt a (show 0 < pageSize by decide)
      have h4 := Nat.mod_le a pageSize
      obtain ⟨p, hp, hq⟩ := hcover dist hdist (a - a % pageSize) (Nat.dvd_sub_mod _)
        ⟨by omega, by omega⟩
      exact ⟨p, hp, by omega, by omega⟩
  show (readSlot P (accountsTable cfg)
    ((home P cfg addr.val cfg.capacity + dist) % cfg.capacity)).run _ =
    .ok ((accountsTable cfg).slots img ((home P cfg addr.val cfg.capacity + dist) % cfg.capacity)) _
  rw [readSlot, hf.offset_eq hi, readAt, Table.slots, if_pos (by exact hi)]
  exact zoom_ok hread

/-- A walk with the pages of its slots is self-contained. -/
theorem Walked.selfContained {out : AccountProof} {l : List ℕ} (hv : Valid P d)
    (hgr : d.cfg.InRange P) (hbase : pageSize ∣ base) (h0 : isZero addr.val = false)
    (hw : Walked hv.geometry.accounts addr out) (hl : PageOffsets P d.cfg addr out.walkLength l)
    (hheader : out.headerPage.content = (pageAt d.image base 0).content)
    (hpages : out.walkPages.map ProvenPage.content =
      (l.map (pageAt d.image base)).map ProvenPage.content) :
    SelfContained P d base addr out := by
  have hf := hv.geometry.accounts
  have hcontent : ∀ p q : ProvenPage, p.content = q.content →
      p.driveOffset = q.driveOffset ∧ p.address = q.address ∧ p.data = q.data := by
    intro p q h
    exact ⟨congrArg Prod.fst h, congrArg (fun c => c.2.1) h, congrArg (fun c => c.2.2) h⟩
  have hmem : ∀ p ∈ out.walkPages, ∃ q ∈ l, p.content = (pageAt d.image base q).content := by
    intro p hp
    have h := List.mem_map_of_mem (f := ProvenPage.content) hp
    rw [hpages, List.map_map] at h
    obtain ⟨q, hq, h⟩ := List.mem_map.1 h
    exact ⟨q, hq, h.symm⟩
  have hoffsets : out.walkPages.map ProvenPage.driveOffset = l := by
    have h := congrArg (List.map Prod.fst) hpages
    rw [List.map_map, List.map_map, List.map_map] at h
    exact h.trans (List.map_id l)
  obtain ⟨hh1, hh2, hh3⟩ := hcontent _ _ hheader
  have hall : ∀ p ∈ out.headerPage :: out.walkPages,
      p.data = slice d.image p.driveOffset pageSize ∧
        p.address = (base + p.driveOffset) % 2 ^ 64 := by
    intro p hp
    rcases List.mem_cons.1 hp with rfl | hp
    · rw [hh1, hh2, hh3]
      simp only [pageAt, and_self]
    · obtain ⟨q, -, h⟩ := hmem p hp
      obtain ⟨h1, h2, h3⟩ := hcontent _ _ h
      rw [h1, h2, h3]
      simp only [pageAt, and_self]
  have hver : out.verifier = ⟨⟨out.headerPage :: out.walkPages⟩, d.cfg, [], []⟩ := by
    rw [AccountProof.verifier, hw.config]
  have hreplay := replay_lookup addr hf (fun p hp => (hall p hp).1)
    fun dist hdist q hq htouch => by
      rw [← hw.walkLength] at hdist
      have hin := (hl.2 q).2 ⟨hq, dist, hdist, htouch⟩
      rw [← hoffsets] at hin
      obtain ⟨p, hp, h⟩ := List.mem_map.1 hin
      exact ⟨p, List.mem_cons_of_mem _ hp, h⟩
  refine ⟨?_, ⟨hh1, ?_, hw.config⟩, ?_, ?_, hall, fun p hp => ?_, ?_, ?_, fun p hp => ?_⟩
  · rw [hw.account]
    exact getAccount_serves hv.geometry h0 (lookup_run hf addr.val)
  · rw [hw.config, hh3]
    simp only [pageAt]
    rw [show pageSize = headerSize from rfl]
    exact decodeHeader_eq hgr hv.header
  · rw [hw.config, hver, hw.found]
    exact hreplay
  · rw [hver, hw.account]
    exact getAccount_serves (d := (⟨⟨out.headerPage :: out.walkPages⟩, d.cfg, [], []⟩ :
      Drive PageStore)) hv.geometry h0 hreplay
  · obtain ⟨q, hq, h⟩ := hmem p hp
    obtain ⟨h1, h2, -⟩ := hcontent _ _ h
    have hdvd := ((hl.2 q).1 hq).1
    rw [h1, h2]
    exact ⟨hdvd, (Nat.dvd_mod_iff (by decide)).2 (Nat.dvd_add hbase hdvd)⟩
  · rw [hoffsets]
    exact hl.1
  · rw [hw.walkLength, slotsExamined_eq hf]
    rfl
  · obtain ⟨q, hq, h⟩ := hmem p hp
    rw [(hcontent _ _ h).1]
    exact ((hl.2 q).1 hq).2

end Proofs

/-- Whatever operations made the drive, a provable read of an account answers, reports what
    `GetAccount` reports and returns the pages that suffice to check it. -/
theorem accountProofAt_selfContained (keccak256 : Bytes → Bytes → Bytes) {σ τ : Type}
    (R : MachineReader σ) (c : Chain σ τ) {blockHash : Hash} {b : Block} {m : σ} {base : ℕ}
    {st : DriveState} {cfg : Go.Config} {d₀ : Drive MemStore} (ops : List Go.Op) {addr : Address}
    (hfmt : Go.format keccak256 (MemStore.new cfg.DriveLength.toNat) cfg = .ok d₀)
    (hwrap : cfg.toConfig.defaults.NoWrap (Go.platform keccak256))
    (hblock : c.blocks blockHash = some b) (hm : c.machines blockHash = some m)
    (hbase : Located R m base st)
    (hplaced : Placed (Go.run (Go.platform keccak256) d₀ ops).2 base (R.readMemory m))
    (h0 : isZero addr.val = false) :
    (∃ out, (accountProofAt (Go.platform keccak256) R c blockHash addr false).run st =
      .ok out (.found base)) ∧
    ∀ withProofs out st',
      (accountProofAt (Go.platform keccak256) R c blockHash addr withProofs).run st = .ok out st' →
        SelfContained (Go.platform keccak256) (Go.run (Go.platform keccak256) d₀ ops).2 base addr
          out := by
  have hval := format_ok_validate hfmt
  obtain ⟨d₁, hd₁, hv₁, -, hcfg₁, hsize₁, -⟩ := format_run (cfg.inRange keccak256) hwrap hval
    (s := MemStore.new cfg.DriveLength.toNat) (fun _ => rfl) rfl
  rw [Go.format, hd₁] at hfmt
  obtain rfl := Except.ok.inj hfmt
  obtain ⟨hv, hcfg, -⟩ := Go.run_valid hv₁ ops
  have hsize := (Go.run_size hv₁ ops).trans hsize₁
  generalize (Go.run (Go.platform keccak256) d₁ ops).2 = d at *
  have hgr : d.cfg.InRange (Go.platform keccak256) := by
    rw [hcfg, hcfg₁]
    exact (cfg.inRange keccak256).defaults.geometry (Config.slotSize_ne hval)
  have hdvd : pageSize ∣ d.size := by
    rw [hsize]
    show headerSize ∣ cfg.toConfig.defaults.driveLength
    exact Config.headerSize_dvd hval
  have hlt : d.size < 2 ^ 64 := by
    rw [hsize]
    exact cfg.DriveLength.toNat_lt
  obtain ⟨out, l, hwalk, hw, hl, hheader, hpages⟩ := accountWalk_ok hv hgr hdvd hlt hplaced addr
  have hrun : ∀ withProofs, (accountProofAt (Go.platform keccak256) R c blockHash addr
      withProofs).run st = (if withProofs then
        check (proveWalk (R.getProof.map fun f => f m) b.header.root out) else pure out : ReadM
          AccountProof).run (.found base) := by
    intro withProofs
    rw [accountProofAt, hblock, expect_some, bind_ok (check_ok _ _), hm, expect_some,
      bind_ok (check_ok _ _), bind_ok (accountsDriveBase_run hbase), hwalk, bind_ok (check_ok _ _)]
  refine ⟨⟨out, hrun false⟩, fun withProofs out' st' h => ?_⟩
  rw [hrun] at h
  cases withProofs with
  | false =>
    cases h
    exact hw.selfContained hv hgr hplaced.aligned h0 hl (congrArg _ hheader) (congrArg _ hpages)
  | true =>
    rw [if_pos rfl] at h
    cases hprove : proveWalk (R.getProof.map fun f => f m) b.header.root out with
    | error e =>
      rw [hprove] at h
      cases h
    | ok out'' =>
      rw [hprove] at h
      cases h
      obtain ⟨headerPage, walkPages, rfl, hh, hp⟩ := proveWalk_pages hprove
      refine Walked.selfContained hv hgr hplaced.aligned h0
        ⟨hw.config, hw.found, hw.account, hw.walkLength⟩ hl ?_ ?_
      · rw [← hheader]
        exact hh
      · rw [← hpages]
        exact hp

namespace Sample

/-- A drive with one account. -/
def drive : Drive MemStore :=
  (Go.run (Go.platform fun _ key => key) (Go.blank Go.sampleConfig)
    [.setAccount Go.sampleAddress 1 (some 5)]).2

/-- Machines that all have the drive at `2^40`. -/
def driveReader : MachineReader ℕ where
  readMemory _ a n := if 2 ^ 40 ≤ a then some (slice drive.image (a - 2 ^ 40) n) else none
  accountsDriveStart := some fun _ => some (some (2 ^ 40))
  getProof := none

theorem drive_placed : Placed drive (2 ^ 40) (driveReader.readMemory 0) where
  aligned := by decide
  reads off n h := by
    have hsize : drive.size = 16384 := by decide +kernel
    rw [hsize] at h
    have hmod : (2 ^ 40 + off) % 2 ^ 64 = 2 ^ 40 + off := Nat.mod_eq_of_lt (by omega)
    rw [hmod]
    simp only [driveReader]
    rw [if_pos (Nat.le_add_right _ _), Nat.add_sub_cancel_left]

end Sample

open Sample in
theorem accountProofAt_selfContained_sample : ∃ out,
    (accountProofAt (Go.platform fun _ key => key) driveReader (start geth none)
      ((genesisBlock geth).block.hash geth) Go.sampleAddress false).run .unresolved =
        .ok out (.found (2 ^ 40)) ∧
    SelfContained (Go.platform fun _ key => key) drive (2 ^ 40) Go.sampleAddress out := by
  have hblock : (start geth none).blocks ((genesisBlock geth).block.hash geth) =
      some (genesisBlock geth).block := by decide +kernel
  have hm : (start geth none).machines ((genesisBlock geth).block.hash geth) = some 0 := by
    decide +kernel
  obtain ⟨⟨out, hrun⟩, h⟩ := accountProofAt_selfContained (fun _ key => key) driveReader
    (start geth none) [.setAccount Go.sampleAddress 1 (some 5)] (Go.format_new (by decide))
    Go.sampleConfig_noWrap hblock hm (.inr ⟨rfl, _, rfl, rfl⟩) drive_placed
    (show isZero Go.sampleAddress.val = false by decide)
  exact ⟨out, hrun, h false out _ hrun⟩

end OpCartesi.Node
