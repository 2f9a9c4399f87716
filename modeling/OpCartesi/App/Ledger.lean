import OpCartesi.App.Types

/-!
# The journaled ledger (`ledger.ts`)

The accounts drive over a store that records a before-image of every write, and
the in-RAM state that rides with it. The restore closures of the source are the
constructors of `Restore`; a journal is their list, newest first.

* `Journal.rollbackTo`, `afterRollback`: undoing back to a mark.
* `creditEther`, `debitEther`, `creditToken`, `debitToken`, `registerToken` and the
  configuration and message methods.
* `bumpNonceAndCharge`: the charge of a transaction.
-/

namespace OpCartesi.App

open Drive Exec

/-! ## State -/

structure TokenMetadata where
  name : String
  symbol : String
  decimals : ℕ
  deriving DecidableEq

/-- `CrossDomainConfig` (`ledger.ts:93-97`). -/
structure CrossDomainConfig where
  l1Messenger : Address
  l1MessengerAliased : Address
  l1Bridge : Address
  deriving DecidableEq

inductive MessageStatus
  | successful
  | failed
  deriving DecidableEq

/-- A journal entry: what its closure puts back. -/
inductive Restore
  | bytes (off : ℕ) (before : Bytes)
  | facade (l2Token : Address)
  | total (id : ℕ) (before : ℤ)
  | metadata (id : ℕ) (before : Option TokenMetadata)
  | portal (key : Address) (before : Option ℕ)
  | fee (before : ℤ)
  | crossDomain (before : Option CrossDomainConfig)
  | msgNonce (before : ℕ)
  | message (key : Bytes) (before : Option MessageStatus)

/-- `JournaledStore` (`ledger.ts:72-87`) with the journal it notes into. -/
structure JournaledStore where
  inner : MemStore
  entries : List Restore

namespace JournaledStore

def onInner {α : Type} (x : EStateM DriveError MemStore α) : EStateM DriveError JournaledStore α :=
  zoom inner (fun m s => { s with inner := m }) id x

instance : Store JournaledStore where
  readAt off n := onInner (Store.readAt off n)
  writeAt off p := do
    let before ← onInner (Store.readAt off p.length)
    modify fun s => { s with entries := .bytes off before :: s.entries }
    onInner (Store.writeAt off p)

end JournaledStore

/-- The in-RAM state of the ledger that journals itself (`ledger.ts:131-148`). `totals` is
    only read with the default `0`. -/
structure Ram where
  totals : ℕ → ℤ
  metadata : ℕ → Option TokenMetadata
  /-- The kind of each aliased portal. -/
  portals : Address → Option ℕ
  fee : ℤ
  crossDomainConfig : Option CrossDomainConfig
  msgNonce : ℕ
  messages : Bytes → Option MessageStatus

def Ram.new : Ram where
  totals _ := 0
  metadata _ := none
  portals _ := none
  fee := 0
  crossDomainConfig := none
  msgNonce := 0
  messages _ := none

/-- `Ledger` (`ledger.ts:124-148`). -/
structure Ledger where
  drive : Drive JournaledStore
  ram : Ram
  /-- Derived façade address to token id. -/
  facades : Address → Option ℕ

abbrev LedgerM (α : Type) := EStateM AppError Ledger α

/-- `ResolvedFacade` (`ledger.ts:105-109`). -/
structure ResolvedFacade where
  id : ℕ
  l1Token : Address
  width : ℕ
  deriving DecidableEq

namespace Ledger

def entries (l : Ledger) : List Restore := l.drive.store.entries

def onDrive {α : Type} (x : DriveM JournaledStore α) : LedgerM α :=
  zoom Ledger.drive (fun d l => { l with drive := d }) AppError.drive x

/-! ## The journal (`ledger.ts:41-66`) -/

/-- `note`. -/
def note (r : Restore) : LedgerM Unit :=
  modify fun l => { l with drive.store.entries := r :: l.entries }

/-- `mark`. -/
def mark : LedgerM ℕ := do
  let l ← get
  return l.entries.length

/-- What an entry's closure does. -/
def restore : Restore → LedgerM Unit
  | .bytes off before =>
    onDrive (zoom Drive.store (fun s d => { d with store := s }) id
      (JournaledStore.onInner (Store.writeAt off before)))
  | .facade l2Token => modify fun l => { l with facades := Function.update l.facades l2Token none }
  | .total id before =>
    modify fun l => { l with ram.totals := Function.update l.ram.totals id before }
  | .metadata id before =>
    modify fun l => { l with ram.metadata := Function.update l.ram.metadata id before }
  | .portal key before =>
    modify fun l => { l with ram.portals := Function.update l.ram.portals key before }
  | .fee before => modify fun l => { l with ram.fee := before }
  | .crossDomain before => modify fun l => { l with ram.crossDomainConfig := before }
  | .msgNonce before => modify fun l => { l with ram.msgNonce := before }
  | .message key before =>
    modify fun l => { l with ram.messages := Function.update l.ram.messages key before }

/-- Pop and undo `n` entries. -/
def undoLoop : ℕ → LedgerM Unit
  | 0 => return ()
  | n + 1 => do
    let l ← get
    match l.entries with
    | [] => return ()
    | r :: rs =>
      set { l with drive.store.entries := rs }
      restore r
      undoLoop n

/-- `rollbackTo`: undo back to, and excluding, the mark. -/
def rollbackTo (mark : ℕ) : LedgerM Unit := do
  let l ← get
  undoLoop (l.entries.length - mark)

/-- `commit`. -/
def commit : LedgerM Unit := modify fun l => { l with drive.store.entries := [] }

/-! ## Caches over the drive's bytes -/

section

variable (V : Viem)

/-- The map `rebuildFacades` builds (`ledger.ts:182-188`). -/
def facadesOf (tokens : List Token) : Address → Option ℕ :=
  tokens.zipIdx.foldl (fun f t => Function.update f (V.l2TokenAddress t.1.address) (some t.2))
    fun _ => none

/-- `rebuildFacades`. -/
def rebuildFacades : LedgerM Unit :=
  modify fun l => { l with facades := facadesOf V l.drive.tokens }

/-- `afterRollback` (`ledger.ts:177-180`). -/
def afterRollback : LedgerM Unit := do
  onDrive (reloadRegistry V.platform)
  rebuildFacades V

/-! ## Accounts (`ledger.ts:192-219`) -/

/-- `account`: nonce and balance. -/
def account (addr : Address) : LedgerM (ℕ × ℕ) := do
  match ← onDrive (Drive.getAccount V.platform addr) with
  | some a => return (a.nonce, a.balance)
  | none => return (0, 0)

/-- `creditEther`. -/
def creditEther (addr : Address) (amount : ℤ) : LedgerM Unit := do
  if amount = 0 then return ()
  else
    let a ← account V addr
    onDrive (Ts.setAccount V.platform addr a.1 (a.2 + amount))

/-- `debitEther`. -/
def debitEther (addr : Address) (amount : ℤ) : LedgerM Unit := do
  if amount = 0 then return ()
  else
    let a ← account V addr
    if a.2 < amount then throw (.insufficientFunds "ether balance")
    else onDrive (Ts.setAccount V.platform addr a.1 (a.2 - amount))

/-- `bumpNonceAndCharge`. -/
def bumpNonceAndCharge (addr : Address) (fee : ℤ) : LedgerM Unit := do
  let a ← account V addr
  if a.2 < fee then throw (.insufficientFunds "fee")
  else onDrive (Ts.setAccount V.platform addr (a.1 + 1) (a.2 - fee))

/-! ## Tokens (`ledger.ts:226-307`) -/

/-- `setMetadata`. -/
def setMetadata (id : ℕ) (m : TokenMetadata) : LedgerM Unit := do
  let l ← get
  note (.metadata id (l.ram.metadata id))
  modify fun l => { l with ram.metadata := Function.update l.ram.metadata id (some m) }

/-- `registerToken`: the id and the façade address. -/
def registerToken (l1Token : Address) (metadata : Option TokenMetadata) :
    LedgerM (ℕ × Address) := do
  let id ← onDrive (Drive.registerToken V.platform l1Token 32)
  let l2Token := V.l2TokenAddress l1Token
  modify fun l => { l with facades := Function.update l.facades l2Token (some id) }
  note (.facade l2Token)
  match metadata with
  | some m =>
    setMetadata id m
    return (id, l2Token)
  | none => return (id, l2Token)

/-- `tokenByL2Address`. -/
def tokenByL2Address (addr : Address) (l : Ledger) : Option ResolvedFacade := do
  let id ← l.facades addr
  let t ← l.drive.tokens[id]?
  return ⟨id, t.address, t.width⟩

/-- `tokenByL1Address`. -/
def tokenByL1Address (l1Token : Address) (l : Ledger) : Option ResolvedFacade := do
  let id ← tokenByAddress l.drive.tokens l1Token
  let t ← l.drive.tokens[id]?
  return ⟨id, l1Token, t.width⟩

/-- `tokenBalance`. -/
def tokenBalance (addr : Address) (id : ℕ) : LedgerM ℕ :=
  onDrive (Drive.getTokenBalance V.platform addr id)

/-- `addTotal`. -/
def addTotal (id : ℕ) (delta : ℤ) : LedgerM Unit := do
  let l ← get
  note (.total id (l.ram.totals id))
  modify fun l' => { l' with ram.totals := Function.update l'.ram.totals id (l.ram.totals id + delta) }

/-- `creditToken`. -/
def creditToken (addr : Address) (id : ℕ) (amount : ℤ) : LedgerM Unit := do
  if amount = 0 then return ()
  else
    let b ← tokenBalance V addr id
    onDrive (Drive.setTokenBalance V.platform addr id (b + amount))
    addTotal id amount

/-- `debitToken`. -/
def debitToken (addr : Address) (id : ℕ) (amount : ℤ) : LedgerM Unit := do
  if amount = 0 then return ()
  else
    let b ← tokenBalance V addr id
    if b < amount then throw (.insufficientFunds "token balance")
    else
      onDrive (Drive.setTokenBalance V.platform addr id (b - amount))
      addTotal id (-amount)

/-- `totalSupply`. -/
def totalSupply (id : ℕ) (l : Ledger) : ℤ := l.ram.totals id

/-- `metadataOf` (`ledger.ts:299-307`). -/
def metadataOf (id : ℕ) (l : Ledger) : TokenMetadata :=
  (l.ram.metadata id).getD
    ⟨"UNREGISTERED-" ++ toString id, "UNREG-" ++ toString id, 0⟩

/-! ## Configuration and messages (`ledger.ts:311-389`) -/

/-- `registerPortal`. -/
def registerPortal (aliasedPortal : Address) (kind : ℕ) : LedgerM Unit := do
  let l ← get
  note (.portal aliasedPortal (l.ram.portals aliasedPortal))
  modify fun l => { l with ram.portals := Function.update l.ram.portals aliasedPortal (some kind) }

/-- `setFee`. -/
def setFee (fee : ℤ) : LedgerM Unit := do
  let l ← get
  note (.fee l.ram.fee)
  modify fun l => { l with ram.fee := fee }

/-- `registerCrossDomain`. -/
def registerCrossDomain (cfg : CrossDomainConfig) : LedgerM Unit := do
  let l ← get
  note (.crossDomain l.ram.crossDomainConfig)
  modify fun l => { l with ram.crossDomainConfig := some cfg }

/-- `hasErc20Portal`. -/
def hasErc20Portal (l : Ledger) : Bool := decide (∃ a, l.ram.portals a = some PORTAL_ERC20)

/-- `nextMessageNonce`. -/
def nextMessageNonce : LedgerM ℕ := do
  let l ← get
  note (.msgNonce l.ram.msgNonce)
  modify fun l' => { l' with ram.msgNonce := l.ram.msgNonce + 1 }
  return l.ram.msgNonce

/-- `setMessageStatus`. -/
def setMessageStatus (hash : Bytes) (status : MessageStatus) : LedgerM Unit := do
  let l ← get
  note (.message hash (l.ram.messages hash))
  modify fun l => { l with ram.messages := Function.update l.ram.messages hash (some status) }

/-! ## Creation (`ledger.ts:114-164`) -/

/-- `DEVNET_DRIVE_CONFIG`; the other fields are the defaults of `drive.ts:264-294`. -/
def DEVNET_DRIVE_CONFIG : Drive.Config where
  driveLength := 1048576
  profile := profileSparse
  capacity := 4096
  loadLimit := 0
  seed := zeros 32
  slotSize := 0
  tableOffset := 0
  registryOffset := 0x100
  registryCapacity := 8
  sparseOffset := 266240
  sparseCapacity := 4096
  sparseLoadLimit := 0
  sparseSlotSize := 0

/-- `create`: open a formatted drive, format any other. -/
def create (backing : MemStore) : Except DriveError Ledger :=
  match (Store.readAt 0 8).run backing with
  | .error e _ => .error e
  | .ok head _ => do
    let store : JournaledStore := ⟨backing, []⟩
    let drive ← if head = magic then openDrive V.platform store
      else Drive.format V.platform store DEVNET_DRIVE_CONFIG
    return { drive := { drive with store := { drive.store with entries := [] } }
             ram := Ram.new
             facades := facadesOf V drive.tokens }

/-- `inMemory`. -/
def inMemory : Except DriveError Ledger := create V (MemStore.new DEVNET_DRIVE_CONFIG.driveLength)

end

end Ledger

end OpCartesi.App
