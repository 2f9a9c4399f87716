import OpCartesi.Drive.Store

/-!
# The accounts drive: records, hash tables and operations

The operations of `drive.go:330-807` and `drive.ts:466-855`, which the two
libraries write statement for statement alike, over a `Store` and a `Platform`.
A drive caches the geometry of its header and its token registry and reads and
writes everything else through its store.

* `lookup`, `insert`, `remove`: the probing loops of `drive.go:416-494`. The two
  unbounded loops take `capacity` rounds of fuel and throw `diverged` after it.
* `getAccount`, `deleteAccount`, `registerToken`, `getTokenBalance`,
  `setTokenBalance`: the operations of both libraries.
* `Go.setAccount`, `Ts.setAccount`: the one operation whose parameters differ; both are
  `setRecord` applied to the library's own record encoder.

A short slot makes Go panic where the liveness test or a decoder slices it, which is
`Platform.slice`; the records an operation writes are taken to fit their slot.
-/

namespace OpCartesi

open Exec

/-- A 20-byte address. -/
abbrev Address := { b : Bytes // b.length = 20 }

instance Address.lawfulBEq : LawfulBEq Address := Subtype.instLawfulBEq

instance : Fintype Address := inferInstanceAs (Fintype (List.Vector Byte 20))

namespace Drive

/-! ## Header layout and constants (`drive.go:23-58`) -/

def profileSingleAsset : ℕ := 0
def profileWide : ℕ := 1
def profileSparse : ℕ := 2

def headerSize : ℕ := 4096

def offLiveCount : ℕ := 0x28
def offTokenCount : ℕ := 0x68
def offSparseLiveCount : ℕ := 0x88

/-! ## The open drive -/

/-- The geometry a drive caches when it is opened (`drive.go:79-95`). -/
structure Geometry where
  capacity : ℕ
  loadLimit : ℕ
  seed : Bytes
  profile : ℕ
  slotSize : ℕ
  tableOffset : ℕ
  registryOffset : ℕ
  registryCapacity : ℕ
  sparseOffset : ℕ
  sparseCapacity : ℕ
  sparseLoadLimit : ℕ
  sparseSlotSize : ℕ
  deriving DecidableEq

/-- `Token` (`drive.go:206-209`). -/
structure Token where
  address : Address
  width : ℕ
  deriving DecidableEq

end Drive

/-- `Drive` (`drive.go:215-220`, `drive.ts:414-425`). -/
structure Drive (σ : Type) where
  store : σ
  cfg : Drive.Geometry
  tokens : List Drive.Token
  /-- The byte offset of each token's column in the wide profile. -/
  colOff : List ℕ

namespace Drive

abbrev DriveM (σ α : Type) := EStateM DriveError (Drive σ) α

variable {σ : Type} [Store σ] (P : Platform)

def readAt (off n : ℕ) : DriveM σ Bytes :=
  zoom Drive.store (fun s d => { d with store := s }) id (Store.readAt off n)

def writeAt (off : ℕ) (p : Bytes) : DriveM σ Unit :=
  zoom Drive.store (fun s d => { d with store := s }) id (Store.writeAt off p)

/-- `counter` (`drive.go:330-336`). -/
def counter (off : ℕ) : DriveM σ ℕ := do
  let b ← readAt off 8
  return leNat b

/-- `setCounter` (`drive.go:338-342`); values wrap at 64 bits. -/
def setCounter (off v : ℕ) : DriveM σ Unit := writeAt off (leBytes 8 v)

/-- `LiveCount`, `SparseLiveCount`, `TokenCount` (`drive.go:345-351`). -/
def liveCount : DriveM σ ℕ := counter offLiveCount
def sparseLiveCount : DriveM σ ℕ := counter offSparseLiveCount
def tokenCount : DriveM σ ℕ := counter offTokenCount

/-! ## Tables -/

/-- `table` (`drive.go:358-366`). -/
structure Table where
  base : ℕ
  capacity : ℕ
  slotSize : ℕ
  countOff : ℕ
  limit : ℕ
  key : Bytes → Bytes
  liveOff : ℕ

def accountsTable (g : Geometry) : Table where
  base := g.tableOffset
  capacity := g.capacity
  slotSize := g.slotSize
  countOff := offLiveCount
  limit := g.loadLimit
  key s := sub s 0 20
  liveOff := 0

def sparseTable (g : Geometry) : Table where
  base := g.sparseOffset
  capacity := g.sparseCapacity
  slotSize := g.sparseSlotSize
  countOff := offSparseLiveCount
  limit := g.sparseLoadLimit
  key s := sub s 0 2 ++ sub s 4 20
  liveOff := 4

/-- `home` (`drive.go:394-397`): the first eight bytes of the hash, modulo the capacity. -/
def home (g : Geometry) (key : Bytes) (capacity : ℕ) : ℕ :=
  leNat ((P.keccak256 g.seed key).take 8) % capacity

/-- `readSlot` (`drive.go:399-403`). -/
def readSlot (t : Table) (i : ℕ) : DriveM σ Bytes :=
  readAt (P.add t.base (P.mul t.slotSize i)) t.slotSize

/-- `writeSlot` (`drive.go:405-407`). -/
def writeSlot (t : Table) (i : ℕ) (s : Bytes) : DriveM σ Unit :=
  writeAt (P.add t.base (P.mul t.slotSize i)) s

/-- `live` (`drive.go:409`). -/
def live (t : Table) (slot : Bytes) : Except DriveError Bool := do
  let b ← P.slice slot t.liveOff 20
  return !isZero b

/-- `displacement` (`drive.go:411-413`). -/
def displacement (g : Geometry) (t : Table) (slot : Bytes) (i : ℕ) : ℕ :=
  P.sub (P.add i t.capacity) (home P g (t.key slot) t.capacity) % t.capacity

/-- The loop of `lookup` (`drive.go:418-433`) from distance `dist` on, `n` rounds left. -/
def lookupLoop (g : Geometry) (t : Table) (key : Bytes) (h : ℕ) :
    ℕ → ℕ → DriveM σ (Option (ℕ × Bytes))
  | 0, _ => return none
  | n + 1, dist => do
    let i := P.add h dist % t.capacity
    let slot ← readSlot P t i
    let alive ← check (live P t slot)
    if alive = false then return none
    else if t.key slot = key then return some (i, slot)
    else if displacement P g t slot i < dist then return none
    else lookupLoop g t key h n (dist + 1)

/-- `lookup` (`drive.go:416-435`). The remainder by a zero capacity panics. -/
def lookup (t : Table) (key : Bytes) : DriveM σ (Option (ℕ × Bytes)) := do
  let d ← get
  if t.capacity = 0 then throw .panic
  else lookupLoop P d.cfg t key (home P d.cfg key t.capacity) t.capacity 0

/-- The loop of `insert` (`drive.go:443-468`). -/
def insertLoop (g : Geometry) (t : Table) : ℕ → Bytes → ℕ → ℕ → DriveM σ Unit
  | 0, _, _, _ => throw .diverged
  | n + 1, carry, h, dist => do
    let i := P.add h dist % t.capacity
    let slot ← readSlot P t i
    let alive ← check (live P t slot)
    if alive = false then
      writeSlot P t i carry
      let c ← counter t.countOff
      setCounter t.countOff (c + 1)
    else if displacement P g t slot i < dist then
      writeSlot P t i carry
      insertLoop g t n slot (home P g (t.key slot) t.capacity)
        (displacement P g t slot i + 1)
    else insertLoop g t n carry h (dist + 1)

/-- `insert` (`drive.go:439-469`). -/
def insert (t : Table) (record : Bytes) : DriveM σ Unit := do
  let d ← get
  insertLoop P d.cfg t t.capacity record (home P d.cfg (t.key record) t.capacity) 0

/-- The loop of `remove` (`drive.go:473-493`). Decrementing a zero counter wraps. -/
def removeLoop (g : Geometry) (t : Table) : ℕ → ℕ → DriveM σ Unit
  | 0, _ => throw .diverged
  | n + 1, i => do
    let j := P.add i 1 % t.capacity
    let next ← readSlot P t j
    let alive ← check (live P t next)
    if alive = false ∨ displacement P g t next j = 0 then
      writeSlot P t i (zeros t.slotSize)
      let c ← counter t.countOff
      setCounter t.countOff (c + (2 ^ 64 - 1))
    else
      writeSlot P t i next
      removeLoop g t n j

/-- `remove` (`drive.go:472-494`). -/
def remove (t : Table) (i : ℕ) : DriveM σ Unit := do
  let d ← get
  removeLoop P d.cfg t t.capacity i

/-! ## Account records -/

/-- `compact` (`drive.go:506-508`): the 32-byte profile-0 record. -/
def Geometry.compact (g : Geometry) : Bool := g.profile = profileSingleAsset ∧ g.slotSize = 32

/-- `decodeAccount` (`drive.go:511-516`). -/
def decodeAccount (g : Geometry) (slot : Bytes) : Except DriveError (ℕ × ℕ) := do
  if g.compact then
    let n ← P.slice slot 20 4
    let b ← P.slice slot 24 8
    return (leNat n, beNat b)
  else
    let n ← P.slice slot 24 8
    let b ← P.slice slot 32 32
    return (leNat n, beNat b)

/-- `putBE` (`drive.go:798-807`): `v` as `w` big-endian bytes. -/
def putBE (w : ℕ) (v : ℤ) : Except DriveError Bytes :=
  if v < 0 ∨ 256 ^ w ≤ v then .error .overflow else .ok (beBytes w v.toNat)

/-- The 32-byte compact record and the 64-byte standard one (`drive.go:520-540`), from
    the bytes of the nonce and the balance. -/
def compactRecord (addr : Address) (nonce balance : Bytes) : Bytes := addr.val ++ nonce ++ balance
def standardRecord (addr : Address) (nonce balance : Bytes) : Bytes :=
  addr.val ++ zeros 4 ++ nonce ++ balance

/-- `encodeAccount` (`drive.go:520-540`); a nil balance leaves its bytes zero. -/
def Go.encodeAccount (g : Geometry) (addr : Address) (nonce : UInt64) (balance : Option ℤ) :
    Except DriveError Bytes := do
  if g.compact then
    if 0xffffffff < nonce.toNat then throw .overflow
    else
      let b ← putBE 8 (balance.getD 0)
      return compactRecord addr (leBytes 4 nonce.toNat) b
  else
    let b ← putBE 32 (balance.getD 0)
    return standardRecord addr (leBytes 8 nonce.toNat) b

/-- `encodeAccount` (`drive.ts:619-634`): the nonce is a BigInt, and `setUint32` and
    `setBigUint64` store it modulo the field's width. -/
def Ts.encodeAccount (g : Geometry) (addr : Address) (nonce balance : ℤ) :
    Except DriveError Bytes := do
  if g.compact then
    if 0xffffffff < nonce then throw .overflow
    else
      -- `Number(nonce)` is rounded before it is reduced
      let n : ℤ := if nonce < 0 then -(toNumber nonce.natAbs) else toNumber nonce.natAbs
      let b ← putBE 8 balance
      return compactRecord addr (leBytes 4 (n % 2 ^ 32).toNat) b
  else
    let b ← putBE 32 balance
    return standardRecord addr (leBytes 8 (nonce % 2 ^ 64).toNat) b

/-- `Account` (`drive.go:499-503`). -/
structure Account where
  address : Address
  nonce : ℕ
  balance : ℕ
  deriving DecidableEq

/-! ## Accounts -/

/-- `GetAccount` (`drive.go:544-555`). -/
def getAccount (addr : Address) : DriveM σ (Option Account) := do
  if isZero addr.val then throw .zeroAddress
  else
    let d ← get
    match ← lookup P (accountsTable d.cfg) addr.val with
    | none => return none
    | some (_, slot) =>
      let (nonce, balance) ← check (decodeAccount P d.cfg slot)
      return some ⟨addr, nonce, balance⟩

/-- `SetAccount` past its encoder (`drive.go:560-589`): update the record in place, touching
    the record bytes only, or insert it. -/
def setRecord (addr : Address) (encoded : Geometry → Except DriveError Bytes) : DriveM σ Unit := do
  if isZero addr.val then throw .zeroAddress
  else
    let d ← get
    let record ← check (encoded d.cfg)
    let t := accountsTable d.cfg
    match ← lookup P t addr.val with
    | some (i, slot) => writeSlot P t i (splice slot 0 record)
    | none =>
      let n ← counter t.countOff
      if t.limit ≤ n then throw .tableFull
      else insert P t (splice (zeros t.slotSize) 0 record)

/-- `SetAccount` (`drive.go:560-589`). -/
def Go.setAccount (addr : Address) (nonce : UInt64) (balance : Option ℤ) : DriveM σ Unit :=
  setRecord P addr fun g => Go.encodeAccount g addr nonce balance

/-- `setAccount` (`drive.ts:655-680`). -/
def Ts.setAccount (addr : Address) (nonce balance : ℤ) : DriveM σ Unit :=
  setRecord P addr fun g => Ts.encodeAccount g addr nonce balance

/-- `DeleteAccount` (`drive.go:595-609`). -/
def deleteAccount (addr : Address) (force : Bool) : DriveM σ Bool := do
  if isZero addr.val then throw .zeroAddress
  else
    let d ← get
    let t := accountsTable d.cfg
    match ← lookup P t addr.val with
    | none => return false
    | some (i, slot) =>
      let (nonce, _) ← check (decodeAccount P d.cfg slot)
      if force = false ∧ nonce ≠ 0 then throw .nonceProtected
      else
        remove P t i
        return true

/-! ## Registry -/

/-- `TokenByAddress` (`drive.go:614-621`): the first token with the address. -/
def tokenByAddress (tokens : List Token) (addr : Address) : Option ℕ :=
  tokens.findIdx? (fun t => t.address = addr)

/-- The end of the last token column in a wide slot (`drive.go:643-646`). -/
def columnsEnd (tokens : List Token) : ℕ := 64 + (tokens.map Token.width).sum

/-- The offset of the next column from the cached ones (`drive.go:664-667`). -/
def nextColumn (colOff : List ℕ) (tokens : List Token) : ℕ :=
  match colOff.getLast?, tokens.getLast? with
  | some c, some t => c + t.width
  | _, _ => 64

/-- A registry entry (`drive.go:657-659`): address, width, zeros. -/
def registryEntry (addr : Address) (width : ℕ) : Bytes :=
  addr.val ++ leBytes 1 width ++ zeros 11

/-- `RegisterToken` (`drive.go:626-671`). -/
def registerToken (addr : Address) (width : ℕ) : DriveM σ ℕ := do
  let d ← get
  let n := d.tokens.length
  if d.cfg.registryOffset = 0 then throw .profile
  else if width ≠ 8 ∧ width ≠ 16 ∧ width ≠ 32 then throw .badWidth
  else if (tokenByAddress d.tokens addr).isSome then throw .duplicateToken
  else if d.cfg.registryCapacity ≤ n then throw .registryFull
  else if d.cfg.profile = profileWide ∧ d.cfg.slotSize < columnsEnd d.tokens + width then
    throw .tableFull
  else if d.cfg.profile = profileSparse ∧ d.cfg.sparseSlotSize = 32 ∧ width ≠ 8 then
    throw .badWidth
  else if d.cfg.compact ∧ width ≠ 8 then throw .badWidth
  else
    writeAt (P.add d.cfg.registryOffset (P.mul 32 n)) (registryEntry addr width)
    setCounter offTokenCount (n + 1)
    modify fun d => { d with
      tokens := d.tokens ++ [⟨addr, width⟩], colOff := d.colOff ++ [nextColumn d.colOff d.tokens] }
    return n

/-- `RegisterToken` in Go takes an `int` and returns the id as a `uint16`. -/
def Go.registerToken (addr : Address) (width : ℤ) : DriveM σ ℕ := do
  let n ← Drive.registerToken P addr width.toNat
  return n % 2 ^ 16

/-! ## Token balances -/

/-- `sparseKey` (`drive.go:790-795`). -/
def sparseKey (id : ℕ) (addr : Address) : Bytes := leBytes 2 id ++ addr.val

/-- Where a sparse record keeps its balance, and on how many bytes (`drive.go:697-700`). -/
def Geometry.sparseBalance (g : Geometry) : ℕ × ℕ :=
  if g.sparseSlotSize = 32 then (24, 8) else (32, 32)

/-- `putSparseBalance` (`drive.go:782-788`, `drive.ts:849-855`). -/
def putSparseBalance (g : Geometry) (slot : Bytes) (v : ℤ) : Except DriveError Bytes := do
  let b ← putBE g.sparseBalance.2 v
  return splice slot g.sparseBalance.1 b

/-- `GetTokenBalance` (`drive.go:677-704`). -/
def getTokenBalance (addr : Address) (id : ℕ) : DriveM σ ℕ := do
  if isZero addr.val then throw .zeroAddress
  else
    let d ← get
    match d.tokens[id]? with
    | none => throw .unknownToken
    | some token =>
      if d.cfg.profile = profileWide then
        match ← lookup P (accountsTable d.cfg) addr.val with
        | none => return 0
        | some (_, slot) =>
          let b ← check (P.slice slot (d.colOff.getD id 0) token.width)
          return beNat b
      else if d.cfg.profile = profileSparse then
        match ← lookup P (sparseTable d.cfg) (sparseKey id addr) with
        | none => return 0
        | some (_, slot) =>
          let b ← check (P.slice slot d.cfg.sparseBalance.1 d.cfg.sparseBalance.2)
          return beNat b
      else throw .profile

/-- The wide branch of `SetTokenBalance` (`drive.go:722-750`). -/
def setWideBalance (addr : Address) (off width : ℕ) (value : ℤ) : DriveM σ Unit := do
  let d ← get
  let t := accountsTable d.cfg
  match ← lookup P t addr.val with
  | none =>
    if value = 0 then return ()
    else
      let n ← counter t.countOff
      if t.limit ≤ n then throw .tableFull
      else
        let full := splice (zeros t.slotSize) 0 addr.val
        insert P t (splice full off (beBytes width value.toNat))
  | some (i, slot) => writeSlot P t i (splice slot off (beBytes width value.toNat))

/-- The sparse branch of `SetTokenBalance` (`drive.go:751-776`). -/
def setSparseBalance (addr : Address) (id : ℕ) (value : ℤ) : DriveM σ Unit := do
  let d ← get
  let t := sparseTable d.cfg
  let found ← lookup P t (sparseKey id addr)
  if value = 0 then
    match found with
    | none => return ()
    | some (i, _) => remove P t i
  else
    match found with
    | some (i, slot) =>
      let slot ← check (putSparseBalance d.cfg slot value)
      writeSlot P t i slot
    | none =>
      let n ← counter t.countOff
      if t.limit ≤ n then throw .tableFull
      else
        let record := splice (splice (zeros t.slotSize) 0 (leBytes 2 id)) 4 addr.val
        let record ← check (putSparseBalance d.cfg record value)
        insert P t record

/-- `SetTokenBalance` (`drive.go:711-780`). -/
def setTokenBalance (addr : Address) (id : ℕ) (value : ℤ) : DriveM σ Unit := do
  if isZero addr.val then throw .zeroAddress
  else
    let d ← get
    match d.tokens[id]? with
    | none => throw .unknownToken
    | some token =>
      if value < 0 ∨ 256 ^ token.width ≤ value then throw .overflow
      else if d.cfg.profile = profileWide then
        setWideBalance P addr (d.colOff.getD id 0) token.width value
      else if d.cfg.profile = profileSparse then setSparseBalance P addr id value
      else throw .profile

end Drive

end OpCartesi
