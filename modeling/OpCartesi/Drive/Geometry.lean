import OpCartesi.Drive.Runs

/-!
# What Format lets through

`Config.validate` compares the ends of the regions after it computed their sizes with
`uint64` (`drive.go:151-201`), so a table of `2^58 + 1` slots of 64 bytes passes as one of
64 bytes.

* `Config.Sound`: what the format promises about an accepted geometry, in exact integers.
* `Go.geometry_sound_iff`: an accepted configuration is sound exactly when the sizes of its
  tables do not wrap.
* `RoundTrip`, `Go.format_round_trip_iff`: what `Format` should return, and when it does: the
  registry capacity of a drive without a registry is kept, which the format forbids.
* `Go.failed_unchanged`: on a drive formatted with such a configuration, a write operation
  that returns an error has changed nothing.

`Go.wrapped` is a configuration with a wrapped size that `Format` accepts. On its drive an
insertion displaces a record and then leaves the drive with it (`Go.wrapped_loses_record`).
-/

namespace OpCartesi.Drive

open Exec

namespace Config

/-- The bytes of a region. -/
def Region.span (r : Region) : Set ℕ := Set.Ico r.off (r.off + r.len)

/-- The promises of the format about a geometry (`docs/ACCOUNTS-DRIVE-SPEC.md:124-142`). -/
structure Sound (c : Config) : Prop where
  accountsSlot : ∀ i < c.capacity, c.tableOffset + c.slotSize * i + c.slotSize ≤ c.driveLength
  sparseSlot : c.profile = profileSparse → ∀ i < c.sparseCapacity,
    c.sparseOffset + c.sparseSlotSize * i + c.sparseSlotSize ≤ c.driveLength
  registryEntry : c.registryOffset ≠ 0 → ∀ i < c.registryCapacity,
    c.registryOffset + 32 * i + 32 ≤ c.driveLength
  /-- Header, accounts table, out-of-header registry and sparse table share no byte. -/
  apart : (exactRegions c).Pairwise fun a b => Disjoint a.span b.span
  inHeader : c.registryOffset ≠ 0 → c.registryOffset < headerSize →
    minRegistryOffset ≤ c.registryOffset ∧
      c.registryOffset + 32 * c.registryCapacity ≤ headerSize

/-- The last of `n` items of `k` bytes ends where the items end. -/
theorem items_inside {base k n len : ℕ} (h : base + k * n ≤ len) {i : ℕ} (hi : i < n) :
    base + k * i + k ≤ len := by
  have hle : k * (i + 1) ≤ k * n := Nat.mul_le_mul_left k hi
  rw [Nat.mul_succ] at hle
  omega

theorem items_end {base k n len : ℕ} (hn : 0 < n)
    (h : ∀ i < n, base + k * i + k ≤ len) : base + k * n ≤ len := by
  have hlast := h (n - 1) (by omega)
  have hsucc : k * n = k * (n - 1) + k := by
    rw [← Nat.mul_succ, Nat.succ_eq_add_one, Nat.sub_add_cancel hn]
  omega

theorem Region.disjoint_span {a b : Region}
    (h : b.off + b.len ≤ a.off ∨ a.off + a.len ≤ b.off) : Disjoint a.span b.span := by
  rw [Region.span, Region.span, Set.disjoint_left]
  intro x hxa hxb
  have ha := Set.mem_Ico.1 hxa
  have hb := Set.mem_Ico.1 hxb
  omega

variable {P : Platform} {c : Config}

/-- An accepted drive is a whole number of pages. -/
theorem headerSize_dvd (h : c.validate P = .ok ()) : headerSize ∣ c.driveLength := by
  obtain ⟨n, hn⟩ := Nat.ne_zero_and_sub_one_eq_zero_iff_isPowerOfTwo.1 (validate_ok h).1
  have hle : 2 ^ 12 ≤ c.driveLength := headerSize_le h
  rw [hn] at hle ⊢
  exact Nat.pow_dvd_pow 2 ((Nat.pow_le_pow_iff_right (by decide)).1 hle)

/-- Exact sizes make an accepted geometry sound. -/
theorem NoWrap.sound (hw : c.NoWrap P) (hr : c.InRange P) (h : c.validate P = .ok ()) :
    c.Sound := by
  obtain ⟨-, -, -, -, -, -, -, -, -, hreg, -, -, -⟩ := validate_ok h
  obtain ⟨-, hdis⟩ := exactRegions_ok hr hw h
  obtain ⟨hacc, hext, hspa, -⟩ := exactRegions_apart hr hw h
  have hhead := headerSize_le h
  refine ⟨fun i hi => items_inside hacc hi, fun hp i hi => items_inside (hspa hp).1 hi,
    fun h0 i hi => ?_, hdis.imp fun hab => Region.disjoint_span hab,
    fun h0 hlt => (validateRegistry_ok hreg h0).2.2 hlt⟩
  refine items_inside (n := c.registryCapacity) ?_ hi
  by_cases hle : headerSize ≤ c.registryOffset
  · exact (hext ⟨h0, hle⟩).1
  · exact ((validateRegistry_ok hreg h0).2.2 (not_le.1 hle)).2.trans hhead

/-- In a sound geometry the tables end inside the drive, so their sizes are exact. -/
theorem Sound.noWrap (hs : c.Sound) (hr : c.InRange P) (h : c.validate P = .ok ()) :
    c.NoWrap P := by
  obtain ⟨-, -, -, -, -, hcap, -, -, -, -, hspr, -, -⟩ := validate_ok h
  have hlen := hr.driveLength
  constructor
  · have hend := items_end (by omega) hs.accountsSlot
    rw [Nat.mul_comm]
    omega
  · intro hp
    have hcap' := (validateSparse_ok hspr hp).2.1
    have hend := items_end (by omega) (hs.sparseSlot hp)
    rw [Nat.mul_comm]
    omega

end Config

/-! ## The bytes of a header -/

/-- Offset and size of the header fields in use (`docs/ACCOUNTS-DRIVE-SPEC.md:98-122`). -/
def Geometry.headerFields (g : Geometry) : List (ℕ × ℕ) :=
  [(offMagic, 8), (offVersion, 4), (offCapacity, 8), (offTableOffset, 8), (offLoadLimit, 8),
    (offSeed, 32), (offProfile, 4), (offSlotSize, 4)] ++
  (if g.registryOffset ≠ 0 then [(offRegistryOffset, 8), (offRegistryCap, 8)] else []) ++
  (if g.profile = profileSparse then [(offSparseOffset, 8), (offSparseCapacity, 8),
    (offSparseLoadLimit, 8), (offSparseSlotSize, 4)] else [])

/-- A drive as `Format` should return it. -/
structure RoundTrip {σ : Type} [Store σ] [LawfulStore σ] (P : Platform) (c : Config)
    (d : Drive σ) : Prop where
  geometry : d.cfg = c.defaults.geometry
  reopen : openDrive P d.store = .ok d
  liveCount : liveCount.run d = .ok 0 d
  sparseLiveCount : sparseLiveCount.run d = .ok 0 d
  tokenCount : tokenCount.run d = .ok 0 d
  registry : d.tokens = [] ∧ d.colOff = []
  unused : ∀ a < headerSize, (∀ f ∈ d.cfg.headerFields, a < f.1 ∨ f.1 + f.2 ≤ a) → d.image a = 0
  registryCapacity : d.cfg.registryCapacity = 0 ↔ d.cfg.registryOffset = 0

/-- The header page is zero outside the fields in use. -/
theorem headerImage_unused {g : Geometry} (hs : g.seed.length = 32)
    (hreg : g.registryOffset = 0 → g.registryCapacity = 0)
    (hspr : g.profile ≠ profileSparse → g.sparseOffset = 0 ∧ g.sparseCapacity = 0 ∧
      g.sparseLoadLimit = 0 ∧ g.sparseSlotSize = 0) {a : ℕ}
    (ha : ∀ f ∈ g.headerFields, a < f.1 ∨ f.1 + f.2 ≤ a) : headerImage g a = 0 := by
  -- a field is in use, or its value is zero
  have hfield : ∀ {used : Prop} {off w v : ℕ}, (used → (off, w) ∈ g.headerFields) →
      (¬used → v = 0) →
      (a < off ∨ off + (leBytes w v).length ≤ a) ∨ leBytes w v = zeros (leBytes w v).length := by
    intro used off w v hin hzero
    by_cases hu : used
    · rw [leBytes_length]
      exact Or.inl (ha _ (hin hu))
    · rw [hzero hu, leBytes_length]
      exact Or.inr (leBytes_zero w)
  have hplain : ∀ {off w v : ℕ}, (off, w) ∈ g.headerFields →
      (a < off ∨ off + (leBytes w v).length ≤ a) ∨ leBytes w v = zeros (leBytes w v).length := by
    intro off w v hin
    rw [leBytes_length]
    exact Or.inl (ha _ hin)
  have hr : ∀ {off : ℕ}, off = offRegistryOffset ∨ off = offRegistryCap →
      g.registryOffset ≠ 0 → (off, 8) ∈ g.headerFields := by
    intro off hoff h0
    rcases hoff with rfl | rfl <;> simp [Geometry.headerFields, h0]
  have hsp : ∀ {f : ℕ × ℕ}, f ∈ [(offSparseOffset, 8), (offSparseCapacity, 8),
      (offSparseLoadLimit, 8), (offSparseSlotSize, 4)] → g.profile = profileSparse →
      f ∈ g.headerFields := by
    intro f hf hp
    rw [Geometry.headerFields, if_pos hp]
    exact List.mem_append_right _ hf
  have hbase : ∀ {f : ℕ × ℕ}, f ∈ [(offMagic, 8), (offVersion, 4), (offCapacity, 8),
      (offTableOffset, 8), (offLoadLimit, 8), (offSeed, 32), (offProfile, 4), (offSlotSize, 4)] →
      f ∈ g.headerFields := by
    intro f hf
    rw [Geometry.headerFields]
    exact List.mem_append_left _ (List.mem_append_left _ hf)
  rw [headerImage]
  refine blit_zero (blit_zero (blit_zero (blit_zero (blit_zero (blit_zero (blit_zero (blit_zero
    (blit_zero (blit_zero (blit_zero (blit_zero (blit_zero (blit_zero rfl ?_) ?_) ?_) ?_) ?_) ?_)
    ?_) ?_) ?_) ?_) ?_) ?_) ?_) ?_
  · exact Or.inl (ha (offMagic, 8) (hbase (by decide)))
  · exact hplain (hbase (by decide))
  · exact hplain (hbase (by decide))
  · exact hplain (hbase (by decide))
  · exact hplain (hbase (by decide))
  · rw [hs]
    exact Or.inl (ha (offSeed, 32) (hbase (by decide)))
  · exact hplain (hbase (by decide))
  · exact hplain (hbase (by decide))
  · exact hfield (hr (Or.inl rfl)) not_not.1
  · exact hfield (hr (Or.inr rfl)) fun h => hreg (not_not.1 h)
  · exact hfield (hsp (by decide)) fun h => (hspr h).1
  · exact hfield (hsp (by decide)) fun h => (hspr h).2.1
  · exact hfield (hsp (by decide)) fun h => (hspr h).2.2.1
  · exact hfield (hsp (by decide)) fun h => (hspr h).2.2.2

namespace Go

variable {keccak256 : Bytes → Bytes → Bytes} {c : Config}

/-! ## Accepted geometries -/

/-- `Format` keeps the promises of the format exactly for the configurations whose table sizes
    fit a `uint64`. -/
theorem geometry_sound_iff {σ : Type} [Store σ] {s : σ} {d : Drive σ}
    (hfmt : Go.format keccak256 s c = .ok d) :
    c.toConfig.defaults.Sound ↔ c.toConfig.defaults.NoWrap (Go.platform keccak256) := by
  have hval := format_ok_validate hfmt
  have hr := (c.inRange keccak256).defaults
  exact ⟨fun hs => hs.noWrap hr hval, fun hw => hw.sound hr hval⟩

theorem geometry_sound_iff_sample : sampleConfig.toConfig.defaults.Sound := by
  obtain ⟨d, hd⟩ := sampleConfig_format
  exact (geometry_sound_iff hd).2 sampleConfig_noWrap

/-- `2^58 + 1` slots of 64 bytes: the size of the table wraps to 64. -/
def wrapped : Config where
  DriveLength := 8192
  Capacity := 288230376151711745
  LoadLimit := 0
  Seed := sampleConfig.Seed
  Profile := 0
  SlotSize := 0
  TableOffset := 0
  RegistryOffset := 0
  RegistryCapacity := 0
  SparseOffset := 0
  SparseCapacity := 0
  SparseLoadLimit := 0
  SparseSlotSize := 0

def wrappedStore : MemStore := MemStore.new wrapped.DriveLength.toNat

/-- The drive `Format` makes of a zeroed store. -/
def blank (c : Config) : Drive MemStore where
  store := ⟨c.DriveLength.toNat, headerImage c.toConfig.defaults.geometry⟩
  cfg := c.toConfig.defaults.geometry
  tokens := []
  colOff := []

theorem format_new (hval : c.toConfig.defaults.validate (Go.platform keccak256) = .ok ()) :
    Go.format keccak256 (MemStore.new c.DriveLength.toNat) c = .ok (blank c) := by
  obtain ⟨s, hs, himg, hsize, -⟩ := format_header (c.inRange keccak256) hval
    (s := MemStore.new c.DriveLength.toNat) (fun _ => rfl) rfl
  have hstore : s = (blank c).store := by
    cases s
    exact congrArg₂ MemStore.mk hsize himg
  rw [hstore] at hs
  exact hs

theorem wrapped_format :
    Go.format (fun _ key => key) wrappedStore wrapped = .ok (blank wrapped) :=
  format_new (by decide)

/-- Slot `2^57` of the accepted table starts far outside the drive of 8192 bytes. -/
theorem wrapped_unsound :
    Go.format (fun _ key => key) wrappedStore wrapped = .ok (blank wrapped) ∧
      ¬wrapped.toConfig.defaults.Sound := by
  refine ⟨wrapped_format, fun hs => ?_⟩
  have hslot := hs.accountsSlot (2 ^ 57) (by decide)
  revert hslot
  decide

/-! ## The header of a formatted drive -/

/-- `Format` writes a header that reads back, with every byte zero that is not in use, exactly
    when the configuration gives no capacity to a registry it does not have. -/
theorem format_round_trip_iff {σ : Type} [Store σ] [LawfulStore σ] {s : σ} {d : Drive σ}
    (hz : ∀ a, LawfulStore.image s a = 0) (hsize : LawfulStore.size s = c.DriveLength.toNat)
    (hfmt : Go.format keccak256 s c = .ok d) :
    RoundTrip (Go.platform keccak256) c.toConfig d ↔
      (c.RegistryOffset = 0 → c.RegistryCapacity = 0) := by
  have hval := format_ok_validate hfmt
  obtain ⟨s', hs', himg, hlen, hgr, -⟩ := format_header (c.inRange keccak256) hval hz hsize
  rw [Go.format, hs'] at hfmt
  obtain rfl := Except.ok.inj hfmt
  obtain ⟨-, -, -, -, -, hoff, hcap, -⟩ := c.toConfig.defaults.geometry_fields
  have hhead : headerSize ≤ LawfulStore.size s' := by
    have hle : headerSize ≤ c.toConfig.defaults.driveLength := Config.headerSize_le hval
    rw [hlen]
    exact hle
  have hiff : (c.RegistryOffset = 0 → c.RegistryCapacity = 0) ↔
      (c.toConfig.defaults.geometry.registryOffset = 0 →
        c.toConfig.defaults.geometry.registryCapacity = 0) := by
    rw [hoff, hcap]
    show _ ↔ (c.RegistryOffset.toNat = 0 → c.RegistryCapacity.toNat = 0)
    rw [← UInt64.toNat_inj, ← UInt64.toNat_inj]
    rfl
  rw [hiff]
  constructor
  · intro h h0
    exact h.registryCapacity.2 h0
  · intro hreg
    obtain ⟨-, -, -, -, -, -, f7, -, -, -, -, -, f13, -, -, -, f17, -⟩ :=
      headerImage_fields _ hgr.seed
    have hcount : ∀ {off : ℕ}, off + 8 ≤ headerSize →
        slice (headerImage c.toConfig.defaults.geometry) off 8 = zeros 8 →
        (counter off).run (⟨s', c.toConfig.defaults.geometry, [], []⟩ : Drive σ) =
          .ok 0 ⟨s', c.toConfig.defaults.geometry, [], []⟩ := by
      intro off hle hzero
      rw [counter_run (show off + 8 ≤ LawfulStore.size s' by omega)]
      show EStateM.Result.ok (leNat (slice (LawfulStore.image s') off 8)) _ = _
      rw [himg, hzero, leNat_zeros]
    refine ⟨rfl, openDrive_blank hgr himg hhead, hcount (by decide) f7, hcount (by decide) f17,
      hcount (by decide) f13, ⟨rfl, rfl⟩, fun a _ hunused => ?_, fun h => ?_, hreg⟩
    · show LawfulStore.image s' a = 0
      rw [himg]
      refine headerImage_unused hgr.seed hreg (fun hp => ?_) hunused
      rw [Config.geometry] at hp ⊢
      split_ifs at hp ⊢ with hsp
      · exact absurd hsp hp
      · exact ⟨rfl, rfl, rfl, rfl⟩
    · -- a registry that is there has a capacity
      by_contra h0
      obtain ⟨-, -, -, -, -, -, -, -, -, hvr, -, -, -⟩ := Config.validate_ok hval
      have hpos := (Config.validateRegistry_ok hvr (hoff ▸ h0)).1
      have h' : c.toConfig.defaults.registryCapacity = 0 := hcap ▸ h
      omega

theorem format_round_trip_iff_sample :
    ∃ d, Go.format (fun _ key => key) sampleStore sampleConfig = .ok d ∧
      RoundTrip (Go.platform fun _ key => key) sampleConfig.toConfig d := by
  obtain ⟨d, hd⟩ := sampleConfig_format
  exact ⟨d, hd, (format_round_trip_iff (fun _ => rfl) rfl hd).2 (by decide)⟩

/-- A single-asset drive without a registry, for which a registry capacity is given. -/
def orphanCapacity : Config := { wrapped with
  Capacity := 8
  RegistryCapacity := 4 }

/-- `Format` accepts it and keeps the capacity, in the drive and in the header bytes. -/
theorem orphanCapacity_kept :
    orphanCapacity.toConfig.defaults.NoWrap (Go.platform fun _ key => key) ∧
    Go.format (fun _ key => key) (MemStore.new orphanCapacity.DriveLength.toNat) orphanCapacity =
        .ok (blank orphanCapacity) ∧
      (blank orphanCapacity).cfg.registryOffset = 0 ∧
      (blank orphanCapacity).cfg.registryCapacity = 4 ∧
      (blank orphanCapacity).store.bytes offRegistryCap = 4 :=
  ⟨⟨by decide, fun h => absurd h (by decide)⟩, format_new (by decide), by decide, by decide,
    by decide +kernel⟩

/-! ## Failed operations -/

/-- On every drive that a run reaches from a formatted one, an operation that returns an error
    leaves the store and the caches as they were. -/
theorem failed_unchanged {σ : Type} [Store σ] [LawfulStore σ] {s : σ} {d : Drive σ}
    (hz : ∀ a, LawfulStore.image s a = 0) (hsize : LawfulStore.size s = c.DriveLength.toNat)
    (hfmt : Go.format keccak256 s c = .ok d)
    (hw : c.toConfig.defaults.NoWrap (Go.platform keccak256)) (ops : List Op) (op : Op)
    {e : DriveError} {d' : Drive σ}
    (herr : (op.exec (Go.platform keccak256)).run (Go.run (Go.platform keccak256) d ops).2 =
      .error e d') :
    d' = (Go.run (Go.platform keccak256) d ops).2 := by
  have hv := (Go.run_valid (formatted_valid hz hsize hfmt hw).1 ops).1
  have hrefines := op.exec_refines hv
  cases hs : op.spec (Go.run (Go.platform keccak256) d ops).2.cfg
      (book (Go.platform keccak256) (Go.run (Go.platform keccak256) d ops).2) with
  | error e' =>
    rw [hs] at hrefines
    rw [show (op.exec _).run _ = .error e' _ from hrefines] at herr
    cases herr
    rfl
  | ok r =>
    rw [hs] at hrefines
    obtain ⟨d₁, hrun, -⟩ := hrefines
    rw [hrun] at herr
    cases herr

/-- Deleting a record with a nonce is refused, and the record stays. -/
theorem failed_unchanged_sample :
    let P := Go.platform fun _ key => key
    let d := (Go.run P (blank sampleConfig) [.setAccount sampleAddress 1 (some 5)]).2
    ∃ d', ((Op.deleteAccount sampleAddress false).exec P).run d = .error .nonceProtected d' ∧
      d' = d := by
  have hfmt : Go.format (fun _ key => key) sampleStore sampleConfig = .ok (blank sampleConfig) :=
    format_new (by decide)
  have herr := eq_of_answer_error (show answer (((Op.deleteAccount sampleAddress false).exec
    (Go.platform fun _ key => key)).run (Go.run (Go.platform fun _ key => key)
      (blank sampleConfig) [.setAccount sampleAddress 1 (some 5)]).2) = .error .nonceProtected by
    decide +kernel)
  exact ⟨_, herr, failed_unchanged (fun _ => rfl) rfl hfmt sampleConfig_noWrap _ _ herr⟩

/-- An address whose key has the home slot `n`, when the hash is the key itself. -/
def addressAt (n tag : Byte) : Address := ⟨n :: (zeros 18 ++ [tag]), rfl⟩

/-- The last two slots of the drive are taken by their own records. -/
def wrappedOps : List Op :=
  [.setAccount (addressAt 62 1) 0 none, .setAccount (addressAt 63 1) 0 none]

/-- A second record for slot 62 takes slot 63, and the record it displaces has no slot left in
    the drive: the call fails after it wrote. -/
theorem wrapped_loses_record :
    Go.format (fun _ key => key) wrappedStore wrapped = .ok (blank wrapped) ∧
    let P := Go.platform fun _ key => key
    let d := (Go.run P (blank wrapped) wrappedOps).2
    ∃ d', ((Op.setAccount (addressAt 62 2) 0 none).exec P).run d = .error .bounds d' ∧
      d'.store.bytes 8128 ≠ d.store.bytes 8128 :=
  ⟨wrapped_format, _, eq_of_answer_error (by decide +kernel), by decide +kernel⟩

end Go

end OpCartesi.Drive
