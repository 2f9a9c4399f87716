import OpCartesi.Drive.Basic

/-!
# Formatting and opening a drive

`Config.defaults`, `Config.validate`, `Format`, `Open` and `ReloadRegistry`
(`drive.go:97-327`, `drive.ts:264-399`, `drive.ts:439-462`, `drive.ts:865-927`) over a
platform. The region sizes and ends are computed with the platform's arithmetic, so in Go a
huge capacity can wrap; `Config.NoWrap` says that it does not.
-/

namespace OpCartesi.Drive

open Exec

/-! ## Header fields (`drive.go:30-58`) -/

/-- ASCII "ctsiacct". -/
def magic : Bytes := [0x63, 0x74, 0x73, 0x69, 0x61, 0x63, 0x63, 0x74]

def version : ℕ := 1

def offMagic : ℕ := 0x00
def offVersion : ℕ := 0x08
def offFlags : ℕ := 0x0c
def offCapacity : ℕ := 0x10
def offTableOffset : ℕ := 0x18
def offLoadLimit : ℕ := 0x20
def offSeed : ℕ := 0x30
def offProfile : ℕ := 0x50
def offSlotSize : ℕ := 0x54
def offRegistryOffset : ℕ := 0x58
def offRegistryCap : ℕ := 0x60
def offSparseOffset : ℕ := 0x70
def offSparseCapacity : ℕ := 0x78
def offSparseLoadLimit : ℕ := 0x80
def offSparseSlotSize : ℕ := 0x90
def minRegistryOffset : ℕ := 0x100

/-! ## Configurations -/

/-- `Config` (`drive.go:79-95`, `drive.ts:80-97`). -/
structure Config extends Geometry where
  driveLength : ℕ
  deriving DecidableEq

namespace Config

/-- `defaults` (`drive.go:102-120`, `drive.ts:264-294`). -/
def defaults (c : Config) : Config := { c with
  slotSize := if c.slotSize = 0 then 64 else c.slotSize
  tableOffset := if c.tableOffset = 0 then headerSize else c.tableOffset
  loadLimit := if c.loadLimit = 0 ∧ 0 < c.capacity then c.capacity - c.capacity / 8
    else c.loadLimit
  sparseSlotSize := if c.profile = profileSparse ∧ c.sparseSlotSize = 0 then 64
    else c.sparseSlotSize
  sparseLoadLimit :=
    if c.profile = profileSparse ∧ c.sparseLoadLimit = 0 ∧ 0 < c.sparseCapacity then
      c.sparseCapacity - c.sparseCapacity / 8
    else c.sparseLoadLimit }

/-- `region` (`drive.go:97-100`). -/
structure Region where
  name : String
  off : ℕ
  len : ℕ

variable (P : Platform)

/-- The regions of `validate` (`drive.go:151-189`): an in-header registry is not one. -/
def regions (c : Config) : List Region :=
  [⟨"header", 0, headerSize⟩, ⟨"accounts table", c.tableOffset, P.mul c.capacity c.slotSize⟩] ++
  (if c.registryOffset ≠ 0 ∧ headerSize ≤ c.registryOffset then
    [⟨"registry", c.registryOffset, P.mul 32 c.registryCapacity⟩] else []) ++
  (if c.profile = profileSparse then
    [⟨"sparse table", c.sparseOffset, P.mul c.sparseCapacity c.sparseSlotSize⟩] else [])

/-- One check of `validate`. -/
def refuse (bad : Prop) [Decidable bad] (e : ConfigError) : Except ConfigError Unit :=
  if bad then .error e else .ok ()

/-- Every region ends inside the drive (`drive.go:190-194`, `drive.ts:382-388`). -/
def checkInside (length : ℕ) : List Region → Except ConfigError Unit
  | [] => .ok ()
  | r :: rs => do
    refuse (length < P.add r.off r.len ∨ P.wrapped r.off r.len = true) (.outside r.name)
    checkInside length rs

/-- A region overlaps none of a list (`drive.go:196-200`). -/
def checkApart (a : Region) : List Region → Except ConfigError Unit
  | [] => .ok ()
  | b :: bs => do
    refuse (a.off < P.add b.off b.len ∧ b.off < P.add a.off a.len) (.overlaps a.name b.name)
    checkApart a bs

/-- No two regions overlap (`drive.go:195-201`, `drive.ts:389-398`). -/
def checkDisjoint : List Region → Except ConfigError Unit
  | [] => .ok ()
  | a :: rs => do
    checkApart P a rs
    checkDisjoint rs

/-- The registry checks of `validate` (`drive.go:158-173`). -/
def validateRegistry (c : Config) : Except ConfigError Unit :=
  if c.registryOffset = 0 then .ok ()
  else do
    refuse (c.registryCapacity = 0 ∨ 65536 < c.registryCapacity) .registryCapacity
    refuse (c.registryOffset % 32 ≠ 0) .registryOffset
    refuse (c.registryOffset < headerSize ∧ (c.registryOffset < minRegistryOffset ∨
      headerSize < P.add c.registryOffset (P.mul 32 c.registryCapacity))) .inHeaderRegistry

/-- The sparse-table checks of `validate` (`drive.go:174-189`). -/
def validateSparse (c : Config) : Except ConfigError Unit :=
  if c.profile ≠ profileSparse then .ok ()
  else do
    refuse (c.sparseSlotSize ≠ 64 ∧ c.sparseSlotSize ≠ 32) .sparseSlotSize
    refuse (c.sparseCapacity < 2) .sparseCapacity
    refuse (c.sparseLoadLimit < 1 ∨ c.sparseCapacity ≤ c.sparseLoadLimit) .sparseLoadLimit
    refuse (c.sparseOffset < headerSize ∨ c.sparseOffset % c.sparseSlotSize ≠ 0) .sparseOffset

/-- `validate` (`drive.go:122-203`, `drive.ts:297-399`). -/
def validate (c : Config) : Except ConfigError Unit := do
  refuse (c.driveLength = 0 ∨ c.driveLength &&& (c.driveLength - 1) ≠ 0) .driveLength
  refuse (profileSparse < c.profile) .unknownProfile
  refuse (c.profile = profileWide ∧ (c.slotSize < 128 ∨ c.slotSize &&& (c.slotSize - 1) ≠ 0))
    .slotSize
  refuse (c.profile = profileSingleAsset ∧ c.slotSize ≠ 64 ∧ c.slotSize ≠ 32) .slotSize
  refuse (c.profile = profileSparse ∧ c.slotSize ≠ 64) .slotSize
  refuse (c.capacity < 2) .capacity
  refuse (c.loadLimit < 1 ∨ c.capacity ≤ c.loadLimit) .loadLimit
  refuse (c.tableOffset < headerSize ∨ c.tableOffset % c.slotSize ≠ 0) .tableOffset
  refuse (c.profile ≠ profileSingleAsset ∧ c.registryOffset = 0) .registryRequired
  validateRegistry P c
  validateSparse c
  checkInside P c.driveLength (regions P c)
  checkDisjoint P (regions P c)

/-- The sizes of the two table regions are exact. -/
structure NoWrap (c : Config) : Prop where
  accounts : c.capacity * c.slotSize < P.bound
  sparse : c.profile = profileSparse → c.sparseCapacity * c.sparseSlotSize < P.bound

end Config

/-! ## The header -/

/-- The geometry a header describes: `Format` leaves the sparse fields zero outside the
    sparse profile. -/
def Config.geometry (c : Config) : Geometry :=
  if c.profile = profileSparse then c.toGeometry
  else { c.toGeometry with
    sparseOffset := 0, sparseCapacity := 0, sparseLoadLimit := 0, sparseSlotSize := 0 }

/-- The header page `Format` builds (`drive.go:230-246`, `drive.ts:868-886`). -/
def headerImage (g : Geometry) : Image :=
  let h : Image := fun _ => 0
  let h := blit h offMagic magic
  let h := blit h offVersion (leBytes 4 version)
  let h := blit h offCapacity (leBytes 8 g.capacity)
  let h := blit h offTableOffset (leBytes 8 g.tableOffset)
  let h := blit h offLoadLimit (leBytes 8 g.loadLimit)
  let h := blit h offSeed g.seed
  let h := blit h offProfile (leBytes 4 g.profile)
  let h := blit h offSlotSize (leBytes 4 g.slotSize)
  let h := blit h offRegistryOffset (leBytes 8 g.registryOffset)
  let h := blit h offRegistryCap (leBytes 8 g.registryCapacity)
  let h := blit h offSparseOffset (leBytes 8 g.sparseOffset)
  let h := blit h offSparseCapacity (leBytes 8 g.sparseCapacity)
  let h := blit h offSparseLoadLimit (leBytes 8 g.sparseLoadLimit)
  blit h offSparseSlotSize (leBytes 4 g.sparseSlotSize)

/-- An address from the first twenty bytes of a string. -/
def toAddress (b : Bytes) : Address := ⟨(b ++ zeros 20).take 20, by simp⟩

section

variable {σ : Type} [Store σ] (P : Platform)

/-- The loop of `ReloadRegistry` (`drive.go:311-325`), `n` entries from entry `i` on. -/
def reloadLoop (regOff : ℕ) : ℕ → ℕ → ℕ → DriveM σ Unit
  | 0, _, _ => return ()
  | n + 1, i, col => do
    let e ← readAt (P.add regOff (P.mul 32 i)) 32
    let width := leNat (sub e 20 1)
    if width ≠ 8 ∧ width ≠ 16 ∧ width ≠ 32 then throw .badWidth
    else
      modify fun d => { d with
        tokens := d.tokens ++ [⟨toAddress (sub e 0 20), width⟩], colOff := d.colOff ++ [col] }
      reloadLoop regOff n (i + 1) (col + width)

/-- `ReloadRegistry` (`drive.go:298-327`, `drive.ts:439-462`). -/
def reloadRegistry : DriveM σ Unit := do
  modify fun d => { d with tokens := [], colOff := [] }
  let d ← get
  if d.cfg.registryOffset = 0 then return ()
  else
    let n ← counter offTokenCount
    if d.cfg.registryCapacity < P.ofU64 n then throw .tokenCount
    else reloadLoop P d.cfg.registryOffset (P.ofU64 n) 0 64

/-- The geometry in a header page (`drive.go:259-284`); a zero slot size reads as 64. -/
def decodeHeader (h : Bytes) : Except DriveError Geometry :=
  if sub h offMagic 8 ≠ magic then .error .notFormatted
  else if leNat (sub h offVersion 4) ≠ version then .error .version
  else if leNat (sub h offFlags 4) ≠ 0 then .error .version
  else .ok {
    capacity := P.ofU64 (leNat (sub h offCapacity 8))
    tableOffset := P.ofU64 (leNat (sub h offTableOffset 8))
    loadLimit := P.ofU64 (leNat (sub h offLoadLimit 8))
    seed := sub h offSeed 32
    profile := leNat (sub h offProfile 4)
    slotSize := if leNat (sub h offSlotSize 4) = 0 then 64 else leNat (sub h offSlotSize 4)
    registryOffset := P.ofU64 (leNat (sub h offRegistryOffset 8))
    registryCapacity := P.ofU64 (leNat (sub h offRegistryCap 8))
    sparseOffset := P.ofU64 (leNat (sub h offSparseOffset 8))
    sparseCapacity := P.ofU64 (leNat (sub h offSparseCapacity 8))
    sparseLoadLimit := P.ofU64 (leNat (sub h offSparseLoadLimit 8))
    sparseSlotSize := leNat (sub h offSparseSlotSize 4) }

/-- `Open` (`drive.go:254-289`, `drive.ts:893-927`). -/
def openDrive (s : σ) : Except DriveError (Drive σ) :=
  match (Store.readAt 0 headerSize).run s with
  | .error e _ => .error e
  | .ok h s => do
    let g ← decodeHeader P h
    match (reloadRegistry P).run ⟨s, g, [], []⟩ with
    | .ok _ d => .ok d
    | .error e _ => .error e

/-- `Format` (`drive.go:225-251`, `drive.ts:865-888`). -/
def format (s : σ) (config : Config) : Except DriveError (Drive σ) :=
  let c := config.defaults
  match c.validate P with
  | .error e => .error (.config e)
  | .ok _ =>
    match (Store.writeAt 0 (slice (headerImage c.geometry) 0 headerSize)).run s with
    | .error e _ => .error e
    | .ok _ s => openDrive P s

end

/-! ## Go -/

namespace Go

/-- `Config` with its Go types (`drive.go:79-95`). -/
structure Config where
  DriveLength : UInt64
  Capacity : UInt64
  LoadLimit : UInt64
  Seed : { b : Bytes // b.length = 32 }
  Profile : UInt32
  SlotSize : UInt32
  TableOffset : UInt64
  RegistryOffset : UInt64
  RegistryCapacity : UInt64
  SparseOffset : UInt64
  SparseCapacity : UInt64
  SparseLoadLimit : UInt64
  SparseSlotSize : UInt32

def Config.toConfig (c : Config) : Drive.Config where
  driveLength := c.DriveLength.toNat
  capacity := c.Capacity.toNat
  loadLimit := c.LoadLimit.toNat
  seed := c.Seed.val
  profile := c.Profile.toNat
  slotSize := c.SlotSize.toNat
  tableOffset := c.TableOffset.toNat
  registryOffset := c.RegistryOffset.toNat
  registryCapacity := c.RegistryCapacity.toNat
  sparseOffset := c.SparseOffset.toNat
  sparseCapacity := c.SparseCapacity.toNat
  sparseLoadLimit := c.SparseLoadLimit.toNat
  sparseSlotSize := c.SparseSlotSize.toNat

/-- `Format` (`drive.go:225-251`). -/
def format {σ : Type} [Store σ] (keccak256 : Bytes → Bytes → Bytes) (s : σ) (c : Config) :
    Except DriveError (Drive σ) :=
  Drive.format (Go.platform keccak256) s c.toConfig

end Go

/-- `format` (`drive.ts:865-888`). -/
def Ts.format {σ : Type} [Store σ] (keccak256 : Bytes → Bytes → Bytes) (s : σ) (c : Config) :
    Except DriveError (Drive σ) :=
  Drive.format (Ts.platform keccak256) s c

end OpCartesi.Drive
