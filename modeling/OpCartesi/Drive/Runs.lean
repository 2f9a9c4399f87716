import OpCartesi.Drive.Format
import OpCartesi.Drive.RefineTokens

/-!
# Runs of the Go drive

Any sequence of write operations, succeeding or failing, on a freshly formatted
in-memory drive:

* `Go.run_valid`: every drive it reaches is valid, and its answers and its book
  are those of the same operations on the abstract book.
* `Go.tables_invariant`: both hash tables satisfy the format's ordering
  invariant, and the live counters count the live slots.
* `Go.refines_book`: the drive cannot be told from the book by any operation.
-/

namespace OpCartesi.Drive

open Exec RobinHood

/-! ## The ordering invariant in the words of the format -/

/-- The guarantees of the format about one hash table of an image. -/
structure TableInvariant (P : Platform) (g : Geometry) (t : Table) (img : Image) : Prop where
  /-- No two live slots hold the same key. -/
  unique : ∀ i < t.capacity, ∀ j < t.capacity, live P t (t.slots img i) = .ok true →
    live P t (t.slots img j) = .ok true → t.key (t.slots img i) = t.key (t.slots img j) → i = j
  /-- Every slot from a record's home to its slot is live. -/
  probe : ∀ i < t.capacity, live P t (t.slots img i) = .ok true →
    ∀ k ≤ displacement P g t (t.slots img i) i,
      live P t (t.slots img ((home P g (t.key (t.slots img i)) t.capacity + k) % t.capacity)) =
        .ok true
  /-- Displacement grows by at most one from a slot to the next. -/
  step : ∀ i < t.capacity, live P t (t.slots img i) = .ok true →
    live P t (t.slots img ((i + 1) % t.capacity)) = .ok true →
    displacement P g t (t.slots img ((i + 1) % t.capacity)) ((i + 1) % t.capacity) ≤
      displacement P g t (t.slots img i) i + 1
  /-- A record after an empty slot is at home. -/
  afterEmpty : ∀ i < t.capacity, live P t (t.slots img i) ≠ .ok true →
    live P t (t.slots img ((i + 1) % t.capacity)) = .ok true →
    displacement P g t (t.slots img ((i + 1) % t.capacity)) ((i + 1) % t.capacity) = 0
  /-- Slots that are not live are all zero. -/
  blank : ∀ i < t.capacity, live P t (t.slots img i) ≠ .ok true →
    t.slots img i = zeros t.slotSize
  /-- The counter is the number of live slots. -/
  count : leNat (slice img t.countOff 8) =
    ((Finset.range t.capacity).filter fun i => live P t (t.slots img i) = .ok true).card
  le_limit : leNat (slice img t.countOff 8) ≤ t.limit

theorem Table.Ok.invariant {P : Platform} {g : Geometry} {t : Table} {n : ℕ}
    (hf : t.Fits P n) {img : Image} (hok : t.Ok P g hf.two_le img) :
    TableInvariant P g t img := by
  have hcap : 0 < t.capacity := by have := hf.two_le; omega
  have hlive : ∀ i < t.capacity, live P t (t.slots img i) =
      .ok ((t.layout P g hf.two_le).live (t.slots img i)) := fun i hi =>
    hf.live_eq (Table.slots_length hi)
  have hl : ∀ i < t.capacity, live P t (t.slots img i) = .ok true ↔
      (t.layout P g hf.two_le).live (t.slots img i) = true := fun i hi => by
    rw [hlive i hi, Except.ok.injEq]
  have hdead : ∀ i < t.capacity, live P t (t.slots img i) ≠ .ok true →
      (t.layout P g hf.two_le).live (t.slots img i) = false := fun i hi h =>
    Bool.eq_false_iff.2 fun h' => h ((hl i hi).2 h')
  have hnext : ∀ i, (i + 1) % t.capacity < t.capacity := fun i => Nat.mod_lt _ hcap
  refine ⟨fun i hi j hj hi' hj' hk => ?_, fun i hi hi' k hk => ?_, fun i hi hi' hj' => ?_,
    fun i hi hi' hj' => ?_, fun i hi hi' => ?_, ?_, hok.le_limit⟩
  · exact Layout.slot_unique hok.good.nodup hi hj ((hl i hi).1 hi') ((hl j hj).1 hj') hk
  · rw [hl _ (Nat.mod_lt _ hcap)]
    rw [hf.displacement_eq (g := g) _ hi] at hk
    exact hok.good.ordered.live_of_probe hi ((hl i hi).1 hi') hk
  · rw [hf.displacement_eq (g := g) _ hi, hf.displacement_eq (g := g) _ (hnext i)]
    exact hok.good.ordered.disp_next_le hi ((hl i hi).1 hi') ((hl _ (hnext i)).1 hj')
  · rw [hf.displacement_eq (g := g) _ (hnext i)]
    exact hok.good.ordered.disp_after_empty hi (hdead i hi hi') ((hl _ (hnext i)).1 hj')
  · exact hok.good.blank i hi (hdead i hi hi')
  · rw [show leNat (slice img t.countOff 8) = t.count img from rfl, hok.count,
      Layout.card_contents]
    refine congrArg Finset.card (Finset.filter_congr fun i hi => ?_)
    exact (hl i (Finset.mem_range.1 hi)).symm

/-! ## Operations and their answers -/

/-- What a write operation returns. -/
inductive Answer
  | done
  | deleted (found : Bool)
  | registered (id : ℕ)
  deriving DecidableEq

namespace Go

/-- A call of one of the four write operations. -/
inductive Op
  | setAccount (addr : Address) (nonce : UInt64) (balance : Option ℤ)
  | deleteAccount (addr : Address) (force : Bool)
  | registerToken (addr : Address) (width : ℤ)
  | setTokenBalance (addr : Address) (id : UInt16) (value : ℤ)

/-- The call on a drive. -/
def Op.exec {σ : Type} [Store σ] (P : Platform) : Op → DriveM σ Answer
  | .setAccount addr nonce balance => do
    Go.setAccount P addr nonce balance
    return .done
  | .deleteAccount addr force => do
    let found ← Drive.deleteAccount P addr force
    return .deleted found
  | .registerToken addr width => do
    let id ← Go.registerToken P addr width
    return .registered id
  | .setTokenBalance addr id value => do
    Drive.setTokenBalance P addr id.toNat value
    return .done

/-- The call on a book. -/
def Op.spec (g : Geometry) (b : Book) : Op → Except DriveError (Answer × Book)
  | .setAccount addr nonce balance =>
    (b.setAccount g addr (recordOf g nonce.toNat (balance.getD 0))).map fun r => (.done, r.2)
  | .deleteAccount addr force =>
    (b.deleteAccount g addr force).map fun r => (.deleted r.1, r.2)
  | .registerToken addr width =>
    (b.registerToken g addr width.toNat).map fun r => (.registered r.1, r.2)
  | .setTokenBalance addr id value =>
    (b.setTokenBalance g addr id.toNat value).map fun r => (.done, r.2)

/-- A sequence of calls on a drive: the answers, and the drive it ends with. A call that
    fails keeps what it has written, and the sequence goes on. -/
def run {σ : Type} [Store σ] (P : Platform) :
    Drive σ → List Op → List (Except DriveError Answer) × Drive σ
  | d, [] => ([], d)
  | d, op :: ops =>
    match (op.exec P).run d with
    | .ok a d' => (.ok a :: (run P d' ops).1, (run P d' ops).2)
    | .error e d' => (.error e :: (run P d' ops).1, (run P d' ops).2)

/-- The same sequence on a book. -/
def runBook (g : Geometry) : Book → List Op → List (Except DriveError Answer) × Book
  | b, [] => ([], b)
  | b, op :: ops =>
    match op.spec g b with
    | .ok (a, b') => (.ok a :: (runBook g b' ops).1, (runBook g b' ops).2)
    | .error e => (.error e :: (runBook g b ops).1, (runBook g b ops).2)

end Go

section

variable {σ : Type} [Store σ] [LawfulStore σ] {P : Platform} {d : Drive σ}

theorem Refines.map {α β : Type} {x : DriveM σ α} {spec : Except DriveError (α × Book)}
    (h : Refines P d x spec) (f : α → β) :
    Refines P d (do let r ← x; return f r) (spec.map fun r => (f r.1, r.2)) := by
  cases spec with
  | error e => exact bind_error h
  | ok r =>
    obtain ⟨d', hrun, hv, hb, hl⟩ := h
    exact ⟨d', by rw [bind_ok hrun]; rfl, hv, hb, hl⟩

/-- Ids below the registry capacity are not changed by the conversion to `uint16`. -/
theorem Go.registerToken_refines (hv : Valid P d) (a : Address) (width : ℤ) :
    Refines P d (Go.registerToken P a width)
      ((book P d).registerToken d.cfg a width.toNat) := by
  have h := Drive.registerToken_refines hv a width.toNat
  have hcap := hv.geometry.registryCapacity_le
  have htok : (book P d).tokens = d.tokens := rfl
  rw [Book.registerToken, htok] at h ⊢
  split_ifs at h ⊢ with h0 h1 h2 h3 h4 h5 h6
  case neg =>
    obtain ⟨d', hrun, hv', hb, hl⟩ := h
    refine ⟨d', ?_, hv', hb, hl⟩
    rw [Go.registerToken, bind_ok hrun]
    have := hcap h0
    rw [Nat.mod_eq_of_lt (by omega)]
    rfl
  all_goals exact bind_error h

/-- One call. -/
theorem Go.Op.exec_refines (hv : Valid P d) (op : Go.Op) :
    Refines P d (op.exec P) (op.spec d.cfg (book P d)) := by
  cases op with
  | setAccount addr nonce balance =>
    exact (Go.setAccount_refines hv addr nonce balance).map fun _ => Answer.done
  | deleteAccount addr force => exact (deleteAccount_refines hv addr force).map Answer.deleted
  | registerToken addr width =>
    exact (Go.registerToken_refines hv addr width).map Answer.registered
  | setTokenBalance addr id value =>
    exact (setTokenBalance_refines hv addr id.toNat value).map fun _ => Answer.done

/-- A sequence of calls. -/
theorem Go.run_valid (hv : Valid P d) (ops : List Go.Op) :
    Valid P (Go.run P d ops).2 ∧ (Go.run P d ops).2.cfg = d.cfg ∧
      (Go.run P d ops).1 = (Go.runBook d.cfg (book P d) ops).1 ∧
      book P (Go.run P d ops).2 = (Go.runBook d.cfg (book P d) ops).2 := by
  induction ops generalizing d with
  | nil => exact ⟨hv, rfl, rfl, rfl⟩
  | cons op ops ih =>
    have h := op.exec_refines hv
    rw [Go.run, Go.runBook]
    cases hs : op.spec d.cfg (book P d) with
    | error e =>
      rw [hs] at h
      obtain ⟨h1, h2, h3, h4⟩ := ih hv
      rw [show (op.exec P).run d = .error e d from h]
      exact ⟨h1, h2, congrArg _ h3, h4⟩
    | ok r =>
      rw [hs] at h
      obtain ⟨d', hrun, hv', hb, hl⟩ := h
      obtain ⟨h1, h2, h3, h4⟩ := ih hv'
      rw [hrun]
      rw [hl.cfg, hb] at h3 h4
      exact ⟨h1, h2.trans hl.cfg, congrArg _ h3, h4⟩

/-- No call changes the size of the store. -/
theorem Go.run_size (hv : Valid P d) (ops : List Go.Op) : (Go.run P d ops).2.size = d.size := by
  induction ops generalizing d with
  | nil => rfl
  | cons op ops ih =>
    have h := op.exec_refines hv
    rw [Go.run]
    cases hs : op.spec d.cfg (book P d) with
    | error e =>
      rw [hs] at h
      rw [show (op.exec P).run d = .error e d from h]
      exact ih hv
    | ok r =>
      rw [hs] at h
      obtain ⟨d', hrun, hv', -, hl⟩ := h
      rw [hrun]
      exact (ih hv').trans hl.size

end

/-! ## Freshly formatted drives -/

namespace Go

theorem Config.inRange (keccak256 : Bytes → Bytes → Bytes) (c : Config) :
    c.toConfig.InRange (Go.platform keccak256) where
  driveLength := c.DriveLength.toNat_lt
  capacity := c.Capacity.toNat_lt
  loadLimit := c.LoadLimit.toNat_lt
  seed := c.Seed.2
  profile := c.Profile.toNat_lt
  slotSize := c.SlotSize.toNat_lt
  tableOffset := c.TableOffset.toNat_lt
  registryOffset := c.RegistryOffset.toNat_lt
  registryCapacity := c.RegistryCapacity.toNat_lt
  sparseOffset := c.SparseOffset.toNat_lt
  sparseCapacity := c.SparseCapacity.toNat_lt
  sparseLoadLimit := c.SparseLoadLimit.toNat_lt
  sparseSlotSize := c.SparseSlotSize.toNat_lt

variable {keccak256 : Bytes → Bytes → Bytes} {c : Config}

/-- The drive `Format` makes of a zeroed store. -/
theorem formatted_valid {σ : Type} [Store σ] [LawfulStore σ] {s : σ} {d : Drive σ}
    (hz : ∀ a, LawfulStore.image s a = 0) (hsize : LawfulStore.size s = c.DriveLength.toNat)
    (hfmt : Go.format keccak256 s c = .ok d)
    (hw : c.toConfig.defaults.NoWrap (Go.platform keccak256)) :
    Valid (Go.platform keccak256) d ∧ book (Go.platform keccak256) d = Book.empty ∧
      d.cfg = c.toConfig.defaults.geometry := by
  obtain ⟨d', hd', hv, hb, hcfg, -, -⟩ := format_run (c.inRange keccak256) hw
    (format_ok_validate hfmt) hz hsize
  rw [Go.format, hd'] at hfmt
  obtain rfl := Except.ok.inj hfmt
  exact ⟨hv, hb, hcfg⟩

variable {d : Drive MemStore}

/-- The drive `Format` makes of a zeroed in-memory store. -/
theorem format_valid (hfmt : Go.format keccak256 (MemStore.new c.DriveLength.toNat) c = .ok d)
    (hw : c.toConfig.defaults.NoWrap (Go.platform keccak256)) :
    Valid (Go.platform keccak256) d ∧ book (Go.platform keccak256) d = Book.empty ∧
      d.cfg = c.toConfig.defaults.geometry :=
  formatted_valid (fun _ => rfl) rfl hfmt hw

/-- A sparse drive of eight accounts and eight compact token balances. -/
def sampleConfig : Config where
  DriveLength := 16384
  Capacity := 8
  LoadLimit := 0
  Seed := ⟨zeros 32, rfl⟩
  Profile := 2
  SlotSize := 0
  TableOffset := 0
  RegistryOffset := 0x100
  RegistryCapacity := 4
  SparseOffset := 8192
  SparseCapacity := 8
  SparseLoadLimit := 0
  SparseSlotSize := 32

def sampleStore : MemStore := MemStore.new sampleConfig.DriveLength.toNat

def sampleAddress : Address := ⟨List.replicate 20 7, rfl⟩

/-- A run that fills, updates and deletes. -/
def sampleOps : List Op :=
  [.setAccount sampleAddress 1 (some 5), .registerToken sampleAddress 8,
    .setTokenBalance sampleAddress 0 9, .deleteAccount sampleAddress false,
    .deleteAccount sampleAddress true]

theorem sampleConfig_noWrap :
    sampleConfig.toConfig.defaults.NoWrap (Go.platform fun _ key => key) where
  accounts := by decide
  sparse _ := by decide

theorem sampleConfig_format :
    ∃ d, Go.format (fun _ key => key) sampleStore sampleConfig = .ok d := by
  obtain ⟨d, hd, -⟩ := format_run (sampleConfig.inRange fun _ key => key) sampleConfig_noWrap
    (by decide) (s := sampleStore) (fun _ => rfl) rfl
  exact ⟨d, hd⟩

/-- Whatever write operations follow a `Format`, both hash tables keep the invariant of the
    format. -/
theorem tables_invariant
    (hfmt : Go.format keccak256 (MemStore.new c.DriveLength.toNat) c = .ok d)
    (hw : c.toConfig.defaults.NoWrap (Go.platform keccak256)) (ops : List Op) :
    let g := c.toConfig.defaults.geometry
    let d' := (Go.run (Go.platform keccak256) d ops).2
    TableInvariant (Go.platform keccak256) g (accountsTable g) d'.store.bytes ∧
    (g.profile = profileSparse →
      TableInvariant (Go.platform keccak256) g (sparseTable g) d'.store.bytes) := by
  obtain ⟨hv, -, hcfg⟩ := format_valid hfmt hw
  obtain ⟨hv', hcfg', -, -⟩ := Go.run_valid hv ops
  intro g d'
  have hg : d'.cfg = g := hcfg'.trans hcfg
  rw [← hg]
  exact ⟨hv'.accounts.invariant hv'.geometry.accounts,
    fun hp => (hv'.sparse hp).invariant (hv'.geometry.sparse hp)⟩

theorem tables_invariant_sample :
    let P := Go.platform fun _ key => key
    let g := sampleConfig.toConfig.defaults.geometry
    ∃ d, Go.format (fun _ key => key) sampleStore sampleConfig = .ok d ∧
      TableInvariant P g (accountsTable g) (Go.run P d sampleOps).2.store.bytes ∧
      TableInvariant P g (sparseTable g) (Go.run P d sampleOps).2.store.bytes := by
  obtain ⟨d, hd⟩ := sampleConfig_format
  obtain ⟨h1, h2⟩ := tables_invariant hd sampleConfig_noWrap sampleOps
  exact ⟨d, hd, h1, h2 rfl⟩

/-- Whatever write operations follow a `Format`, they answer as they do on the empty book, and
    so do the read operations after them. -/
theorem refines_book (hfmt : Go.format keccak256 (MemStore.new c.DriveLength.toNat) c = .ok d)
    (hw : c.toConfig.defaults.NoWrap (Go.platform keccak256)) (ops : List Op) :
    let g := c.toConfig.defaults.geometry
    let d' := (Go.run (Go.platform keccak256) d ops).2
    let b' := (runBook g Book.empty ops).2
    (Go.run (Go.platform keccak256) d ops).1 = (runBook g Book.empty ops).1 ∧
    (∀ a, (getAccount (Go.platform keccak256) a).run d' = returns d' (b'.getAccount a)) ∧
    ∀ a id, (getTokenBalance (Go.platform keccak256) a id).run d' =
      returns d' (b'.getTokenBalance g a id) := by
  obtain ⟨hv, hb, hg⟩ := format_valid hfmt hw
  obtain ⟨hv', hcfg, hans, hbook⟩ := Go.run_valid hv ops
  rw [hb, hg] at hans hbook
  refine ⟨hans, fun a => ?_, fun a id => ?_⟩
  · rw [getAccount_refines hv', hbook]
  · rw [getTokenBalance_refines hv', hbook, hcfg, hg]

theorem refines_book_sample :
    let P := Go.platform fun _ key => key
    let g := sampleConfig.toConfig.defaults.geometry
    let b' := (runBook g Book.empty sampleOps).2
    ∃ d, Go.format (fun _ key => key) sampleStore sampleConfig = .ok d ∧
      (Go.run P d sampleOps).1 = (runBook g Book.empty sampleOps).1 ∧
      (getTokenBalance P sampleAddress 0).run (Go.run P d sampleOps).2 =
        returns (Go.run P d sampleOps).2 (b'.getTokenBalance g sampleAddress 0) := by
  obtain ⟨d, hd⟩ := sampleConfig_format
  obtain ⟨h1, -, h3⟩ := refines_book hd sampleConfig_noWrap sampleOps
  exact ⟨d, hd, h1, h3 sampleAddress 0⟩

end Go

end OpCartesi.Drive
