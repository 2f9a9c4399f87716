import OpCartesi.Drive.Config

/-!
# The ABI drive (`abi-drive/go/abidrive.go`)

A header, an index of fixed-size entries and a heap of JSON texts, over the store of the accounts
drive. The drive is opened with a copy of the header's counters; `Register` updates both.

* `format`, `openDrive`: `Format` and `Open` (`abidrive.go:78-124`).
* `entryAt`, `entries`, `lookup`: the reader (`abidrive.go:129-172`).
* `register`: the writer (`abidrive.go:176-212`).

All the fields are `uint32`; a sum of them wraps where it is computed on 32 bits.
-/

namespace OpCartesi.Abi

open Exec
open Drive (Store DriveError)

/-- ASCII "ctsiabis". -/
def Magic : Bytes := [0x63, 0x74, 0x73, 0x69, 0x61, 0x62, 0x69, 0x73]

def Version : ℕ := 1
def headerLength : ℕ := 64
def entryLength : ℕ := 32

/-- `Entry` (`abidrive.go:52-57`). -/
structure Entry where
  address : Address
  kind : Byte
  abi : Bytes
  deriving DecidableEq

/-- `Config` (`abidrive.go:60-64`). -/
structure Config where
  DriveLength : UInt32
  Capacity : UInt32
  HeapOffset : UInt32

/-- The errors of the package (`abidrive.go:37-49`), those of the store and the refusal of a
    geometry. -/
inductive AbiError
  | store (e : DriveError)
  | badGeometry (heapOffset indexEnd : ℕ)
  | notFormatted
  | badVersion (v : ℕ)
  | registryFull
  | heapFull
  | duplicate (addr : Address)
  deriving DecidableEq

/-- `Drive` (`abidrive.go:67-75`). -/
structure AbiDrive (σ : Type) where
  store : σ
  capacity : ℕ
  count : ℕ
  indexOffset : ℕ
  heapOffset : ℕ
  heapLength : ℕ
  heapUsed : ℕ

abbrev AbiM (σ α : Type) := EStateM AbiError (AbiDrive σ) α

section

variable {σ : Type} [Store σ]

def readAt (off n : ℕ) : AbiM σ Bytes :=
  zoom AbiDrive.store (fun s d => { d with store := s }) AbiError.store (Store.readAt off n)

def writeAt (off : ℕ) (p : Bytes) : AbiM σ Unit :=
  zoom AbiDrive.store (fun s d => { d with store := s }) AbiError.store (Store.writeAt off p)

/-- The header `Format` writes (`abidrive.go:83-91`). -/
def header (capacity heapOffset heapLength : ℕ) : Bytes :=
  Magic ++ leBytes 2 Version ++ zeros 2 ++ leBytes 4 capacity ++ leBytes 4 0 ++
    leBytes 4 headerLength ++ leBytes 4 heapOffset ++ leBytes 4 heapLength ++ leBytes 4 0 ++ zeros 28

/-- `Format` (`abidrive.go:78-102`). -/
def format (s : σ) (cfg : Config) : Except AbiError (AbiDrive σ) :=
  let indexEnd := (headerLength + cfg.Capacity.toNat * entryLength) % 2 ^ 32
  if cfg.HeapOffset.toNat < indexEnd ∨ cfg.DriveLength.toNat ≤ cfg.HeapOffset.toNat then
    .error (.badGeometry cfg.HeapOffset.toNat indexEnd)
  else
    let heapLength := cfg.DriveLength.toNat - cfg.HeapOffset.toNat
    match (Store.writeAt 0 (header cfg.Capacity.toNat cfg.HeapOffset.toNat heapLength)).run s with
    | .error e _ => .error (.store e)
    | .ok _ s => .ok {
        store := s
        capacity := cfg.Capacity.toNat
        count := 0
        indexOffset := headerLength
        heapOffset := cfg.HeapOffset.toNat
        heapLength
        heapUsed := 0 }

/-- `Open` (`abidrive.go:105-124`). -/
def openDrive (s : σ) : Except AbiError (AbiDrive σ) :=
  match (Store.readAt 0 headerLength).run s with
  | .error e _ => .error (.store e)
  | .ok h s =>
    if sub h 0 8 ≠ Magic then .error .notFormatted
    else if leNat (sub h 8 2) ≠ Version then .error (.badVersion (leNat (sub h 8 2)))
    else .ok {
      store := s
      capacity := leNat (sub h 12 4)
      count := leNat (sub h 16 4)
      indexOffset := leNat (sub h 20 4)
      heapOffset := leNat (sub h 24 4)
      heapLength := leNat (sub h 28 4)
      heapUsed := leNat (sub h 32 4) }

/-- `entryAt` (`abidrive.go:129-144`). -/
def entryAt (i : ℕ) : AbiM σ Entry := do
  let d ← get
  let raw ← readAt (d.indexOffset + i * entryLength) entryLength
  let abi ← readAt (leNat (sub raw 22 4)) (leNat (sub raw 26 4))
  return ⟨Drive.toAddress (sub raw 0 20), raw.getD 20 0, abi⟩

/-- The loop of `Entries`, `n` entries from entry `i` on. -/
def entriesLoop : ℕ → ℕ → AbiM σ (List Entry)
  | 0, _ => return []
  | n + 1, i => do
    let e ← entryAt i
    let rest ← entriesLoop n (i + 1)
    return e :: rest

/-- `Entries` (`abidrive.go:147-157`). -/
def entries : AbiM σ (List Entry) := do
  let d ← get
  entriesLoop d.count 0

/-- The loop of `Lookup`, `n` entries from entry `i` on. -/
def lookupLoop (addr : Address) : ℕ → ℕ → AbiM σ (Option Entry)
  | 0, _ => return none
  | n + 1, i => do
    let e ← entryAt i
    if e.address = addr then return some e
    else lookupLoop addr n (i + 1)

/-- `Lookup` (`abidrive.go:160-172`). -/
def lookup (addr : Address) : AbiM σ (Option Entry) := do
  let d ← get
  lookupLoop addr d.count 0

/-- The index entry of a contract (`abidrive.go:195-199`). -/
def indexEntry (addr : Address) (kind : Byte) (abiOffset abiLength : ℕ) : Bytes :=
  addr.val ++ [kind, 0] ++ leBytes 4 abiOffset ++ leBytes 4 abiLength ++ zeros 2

/-- `Register` past its checks (`abidrive.go:191-211`): the text, the entry, and then the two
    counters, cached and stored. -/
def append (e : Entry) : AbiM σ Unit := do
  let d ← get
  let abiOffset := (d.heapOffset + d.heapUsed) % 2 ^ 32
  writeAt abiOffset e.abi
  writeAt (d.indexOffset + d.count * entryLength)
    (indexEntry e.address e.kind abiOffset e.abi.length)
  modify fun d => { d with
    count := (d.count + 1) % 2 ^ 32
    heapUsed := (d.heapUsed + e.abi.length) % 2 ^ 32 }
  let d ← get
  writeAt 16 (leBytes 4 d.count)
  writeAt 32 (leBytes 4 d.heapUsed)

/-- `Register` (`abidrive.go:176-212`). -/
def register (e : Entry) : AbiM σ Unit := do
  match ← lookup e.address with
  | some found =>
    if found.kind = e.kind ∧ found.abi = e.abi then return ()
    else throw (.duplicate e.address)
  | none =>
    let d ← get
    if d.capacity ≤ d.count then throw .registryFull
    else if d.heapLength < d.heapUsed + e.abi.length then throw .heapFull
    else append e

/-- A sequence of calls of `Register`: the answers, and the drive it ends with. -/
def run : AbiDrive σ → List Entry → List (Except AbiError Unit) × AbiDrive σ
  | d, [] => ([], d)
  | d, e :: es =>
    let r := (register e).run d
    let rest := run (endState r) es
    (answer r :: rest.1, rest.2)

end

end OpCartesi.Abi
