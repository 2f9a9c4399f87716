import OpCartesi.Drive.View

/-!
# A formatted drive is valid and empty

* `validate_valid`: a configuration that `validate` accepts and whose region sizes
  do not wrap has a sound geometry.
* `decodeHeader_eq`: `Open` reads back the geometry `Format` wrote.
* `format_run`: formatting a zeroed store gives a valid drive with an empty book.
* `reloadRegistry_run`: reloading restores the cached registry from the bytes.
-/

namespace OpCartesi.Drive

open Exec

/-! ## What validate checks -/

namespace Config

variable {P : Platform} {c : Config}

theorem refuse_ok {bad : Prop} [Decidable bad] {e : ConfigError} {r : Unit} :
    refuse bad e = .ok r ↔ ¬bad := by
  rw [refuse]
  split_ifs with h
  · simp [h]
  · simp [h]

theorem bind_ok_unit {α : Type} {x : Except ConfigError Unit} {k : Unit → Except ConfigError α}
    {r : α} : (x >>= k) = .ok r ↔ x = .ok () ∧ k () = .ok r := by
  cases x with
  | error e => simp [bind, Except.bind]
  | ok u => simp [bind, Except.bind]

theorem checkInside_ok {n : ℕ} {rs : List Region} (h : checkInside P n rs = .ok ()) :
    ∀ r ∈ rs, P.add r.off r.len ≤ n ∧ P.wrapped r.off r.len = false := by
  induction rs with
  | nil => simp
  | cons r rs ih =>
    rw [checkInside, bind_ok_unit, refuse_ok] at h
    intro r' hr'
    rcases List.mem_cons.1 hr' with rfl | hr'
    · obtain ⟨h1, h2⟩ := not_or.1 h.1
      exact ⟨not_lt.1 h1, by simpa using h2⟩
    · exact ih h.2 r' hr'

theorem checkApart_ok {a : Region} {rs : List Region} (h : checkApart P a rs = .ok ()) :
    ∀ b ∈ rs, P.add b.off b.len ≤ a.off ∨ P.add a.off a.len ≤ b.off := by
  induction rs with
  | nil => simp
  | cons b rs ih =>
    rw [checkApart, bind_ok_unit, refuse_ok] at h
    intro b' hb'
    rcases List.mem_cons.1 hb' with rfl | hb'
    · have := h.1
      omega
    · exact ih h.2 b' hb'

theorem checkDisjoint_ok {rs : List Region} (h : checkDisjoint P rs = .ok ()) :
    rs.Pairwise fun a b => P.add b.off b.len ≤ a.off ∨ P.add a.off a.len ≤ b.off := by
  induction rs with
  | nil => exact List.Pairwise.nil
  | cons a rs ih =>
    rw [checkDisjoint, bind_ok_unit] at h
    exact List.Pairwise.cons (checkApart_ok h.1) (ih h.2)

/-- The fields of a configuration are in the range of their types. -/
structure InRange (P : Platform) (c : Config) : Prop where
  driveLength : c.driveLength < P.bound
  capacity : c.capacity < P.bound
  loadLimit : c.loadLimit < P.bound
  seed : c.seed.length = 32
  profile : c.profile < 2 ^ 32
  slotSize : c.slotSize < 2 ^ 32
  tableOffset : c.tableOffset < P.bound
  registryOffset : c.registryOffset < P.bound
  registryCapacity : c.registryCapacity < P.bound
  sparseOffset : c.sparseOffset < P.bound
  sparseCapacity : c.sparseCapacity < P.bound
  sparseLoadLimit : c.sparseLoadLimit < P.bound
  sparseSlotSize : c.sparseSlotSize < 2 ^ 32

theorem validate_ok (h : c.validate P = .ok ()) :
    (c.driveLength ≠ 0 ∧ c.driveLength &&& (c.driveLength - 1) = 0) ∧
    c.profile ≤ profileSparse ∧
    (c.profile = profileWide → 128 ≤ c.slotSize) ∧
    (c.profile = profileSingleAsset → c.slotSize = 64 ∨ c.slotSize = 32) ∧
    (c.profile = profileSparse → c.slotSize = 64) ∧
    2 ≤ c.capacity ∧ (1 ≤ c.loadLimit ∧ c.loadLimit < c.capacity) ∧ headerSize ≤ c.tableOffset ∧
    (c.profile ≠ profileSingleAsset → c.registryOffset ≠ 0) ∧
    validateRegistry P c = .ok () ∧ validateSparse c = .ok () ∧
    checkInside P c.driveLength (regions P c) = .ok () ∧
    checkDisjoint P (regions P c) = .ok () := by
  simp only [validate, bind_ok_unit, refuse_ok] at h
  obtain ⟨h1, h2, h3, h4, h5, h6, h7, h8, h9, h10, h11, h12, h13⟩ := h
  refine ⟨by omega, not_lt.1 h2, fun hw => ?_, fun hs => ?_, fun hs => ?_, by omega, by omega,
    by omega, fun hs h0 => h9 ⟨hs, h0⟩, h10, h11, h12, h13⟩
  · by_contra hc
    exact h3 ⟨hw, Or.inl (by omega)⟩
  · by_contra hc
    exact h4 ⟨hs, not_or.1 hc⟩
  · by_contra hc
    exact h5 ⟨hs, hc⟩

theorem validateRegistry_ok (h : validateRegistry P c = .ok ()) (h0 : c.registryOffset ≠ 0) :
    1 ≤ c.registryCapacity ∧ c.registryCapacity ≤ 65536 ∧
    (c.registryOffset < headerSize → minRegistryOffset ≤ c.registryOffset ∧
      c.registryOffset + 32 * c.registryCapacity ≤ headerSize) := by
  rw [validateRegistry, if_neg h0] at h
  simp only [bind_ok_unit, refuse_ok] at h
  obtain ⟨h1, -, h3⟩ := h
  have hb := P.le_bound
  refine ⟨by omega, by omega, fun hlt => ?_⟩
  have hlt' : c.registryOffset < 4096 := hlt
  rw [P.mul_eq (by omega), P.add_eq (by omega)] at h3
  omega

theorem validateSparse_ok (h : validateSparse c = .ok ()) (hp : c.profile = profileSparse) :
    (c.sparseSlotSize = 64 ∨ c.sparseSlotSize = 32) ∧ 2 ≤ c.sparseCapacity ∧
    c.sparseLoadLimit < c.sparseCapacity ∧ headerSize ≤ c.sparseOffset := by
  rw [validateSparse, if_neg (by simp [hp])] at h
  simp only [bind_ok_unit, refuse_ok] at h
  obtain ⟨h1, h2, h3, h4⟩ := h
  omega

theorem slotSize_ne (h : c.validate P = .ok ()) : c.slotSize ≠ 0 := by
  obtain ⟨-, hprofile, hwide, hsingle, hsparse, -⟩ := validate_ok h
  simp only [profileSingleAsset, profileWide, profileSparse] at hprofile hwide hsingle hsparse
  omega

/-- The header page lies in the drive. -/
theorem headerSize_le (h : c.validate P = .ok ()) : headerSize ≤ c.driveLength := by
  obtain ⟨-, -, -, -, -, -, -, -, -, -, -, hin, -⟩ := validate_ok h
  have hhead : headerSize < P.bound := lt_of_lt_of_le (by decide) P.le_bound
  have hle : P.add 0 headerSize ≤ c.driveLength :=
    (checkInside_ok hin ⟨"header", 0, headerSize⟩ (by simp [regions])).1
  rwa [P.add_eq (by omega), Nat.zero_add] at hle

/-- The regions with exact sizes. -/
def exactRegions (c : Config) : List Region :=
  [⟨"header", 0, headerSize⟩, ⟨"accounts table", c.tableOffset, c.slotSize * c.capacity⟩] ++
  (if c.registryOffset ≠ 0 ∧ headerSize ≤ c.registryOffset then
    [⟨"registry", c.registryOffset, 32 * c.registryCapacity⟩] else []) ++
  (if c.profile = profileSparse then
    [⟨"sparse table", c.sparseOffset, c.sparseSlotSize * c.sparseCapacity⟩] else [])

theorem regions_eq (hw : c.NoWrap P) (h : c.validate P = .ok ()) :
    regions P c = exactRegions c := by
  have hb := P.le_bound
  obtain ⟨-, -, -, -, -, -, -, -, -, hreg, -, -, -⟩ := validate_ok h
  rw [regions, exactRegions, P.mul_eq hw.accounts, Nat.mul_comm c.capacity]
  congr 1
  · congr 1
    split_ifs with h0
    · have := (validateRegistry_ok hreg h0.1).2.1
      rw [P.mul_eq (by omega)]
    · rfl
  · split_ifs with hp
    · rw [P.mul_eq (hw.sparse hp), Nat.mul_comm]
    · rfl

/-- The regions lie in the drive, pairwise apart. -/
theorem exactRegions_ok (hr : c.InRange P) (hw : c.NoWrap P) (h : c.validate P = .ok ()) :
    (∀ r ∈ exactRegions c, r.off + r.len ≤ c.driveLength) ∧
    (exactRegions c).Pairwise fun a b => b.off + b.len ≤ a.off ∨ a.off + a.len ≤ b.off := by
  have hb := P.le_bound
  have hb' := P.bound_le
  obtain ⟨-, -, -, -, -, -, -, -, -, hreg, -, hin, hdis⟩ := validate_ok h
  rw [regions_eq hw h] at hin hdis
  have hsmall : ∀ r ∈ exactRegions c, r.off < P.bound ∧ r.len < P.bound := by
    intro r hr'
    simp only [exactRegions, List.mem_append, List.mem_cons, List.not_mem_nil, or_false] at hr'
    rcases hr' with ((rfl | rfl) | hr') | hr'
    · exact ⟨by simp only; omega, by simp only [headerSize]; omega⟩
    · exact ⟨hr.tableOffset, by simp only; rw [Nat.mul_comm]; exact hw.accounts⟩
    · split_ifs at hr' with h0
      · rw [List.mem_singleton] at hr'
        subst hr'
        have := (validateRegistry_ok hreg h0.1).2.1
        exact ⟨hr.registryOffset, by simp only; omega⟩
      · simp at hr'
    · split_ifs at hr' with hp
      · rw [List.mem_singleton] at hr'
        subst hr'
        exact ⟨hr.sparseOffset, by simp only; rw [Nat.mul_comm]; exact hw.sparse hp⟩
      · simp at hr'
  have hinside : ∀ r ∈ exactRegions c, r.off + r.len ≤ c.driveLength := by
    intro r hr'
    obtain ⟨h1, h2⟩ := checkInside_ok hin r hr'
    obtain ⟨h3, h4⟩ := hsmall r hr'
    exact P.add_le (by omega) (by omega) h2 h1 hr.driveLength
  refine ⟨hinside, (checkDisjoint_ok hdis).imp_of_mem fun {a b} ha hb h => ?_⟩
  have h1 := hinside a ha
  have h2 := hinside b hb
  have h3 := hr.driveLength
  rwa [P.add_eq (by omega), P.add_eq (by omega)] at h

theorem geometry_fields (c : Config) :
    c.geometry.capacity = c.capacity ∧ c.geometry.loadLimit = c.loadLimit ∧
    c.geometry.profile = c.profile ∧ c.geometry.slotSize = c.slotSize ∧
    c.geometry.tableOffset = c.tableOffset ∧ c.geometry.registryOffset = c.registryOffset ∧
    c.geometry.registryCapacity = c.registryCapacity ∧ c.geometry.seed = c.seed := by
  rw [geometry]
  split_ifs <;> simp

theorem geometry_sparse (h : c.profile = profileSparse) : c.geometry = c.toGeometry := if_pos h

/-- Where the regions of a validated configuration lie. -/
theorem exactRegions_apart (hr : c.InRange P) (hw : c.NoWrap P) (h : c.validate P = .ok ()) :
    c.tableOffset + c.slotSize * c.capacity ≤ c.driveLength ∧
    (c.registryOffset ≠ 0 ∧ headerSize ≤ c.registryOffset →
      c.registryOffset + 32 * c.registryCapacity ≤ c.driveLength ∧
      (c.registryOffset + 32 * c.registryCapacity ≤ c.tableOffset ∨
        c.tableOffset + c.slotSize * c.capacity ≤ c.registryOffset)) ∧
    (c.profile = profileSparse →
      c.sparseOffset + c.sparseSlotSize * c.sparseCapacity ≤ c.driveLength ∧
      (c.sparseOffset + c.sparseSlotSize * c.sparseCapacity ≤ c.tableOffset ∨
        c.tableOffset + c.slotSize * c.capacity ≤ c.sparseOffset)) ∧
    (c.registryOffset ≠ 0 ∧ headerSize ≤ c.registryOffset → c.profile = profileSparse →
      c.sparseOffset + c.sparseSlotSize * c.sparseCapacity ≤ c.registryOffset ∨
        c.registryOffset + 32 * c.registryCapacity ≤ c.sparseOffset) := by
  obtain ⟨hin, hdis⟩ := exactRegions_ok hr hw h
  have : Std.Symm fun a b : Region => b.off + b.len ≤ a.off ∨ a.off + a.len ≤ b.off :=
    ⟨fun a b h => h.symm⟩
  have hacc : ⟨"accounts table", c.tableOffset, c.slotSize * c.capacity⟩ ∈ exactRegions c := by
    simp [exactRegions]
  have hreg : c.registryOffset ≠ 0 ∧ headerSize ≤ c.registryOffset →
      ⟨"registry", c.registryOffset, 32 * c.registryCapacity⟩ ∈ exactRegions c := fun h => by
    simp [exactRegions, h]
  have hspa : c.profile = profileSparse →
      ⟨"sparse table", c.sparseOffset, c.sparseSlotSize * c.sparseCapacity⟩ ∈ exactRegions c :=
    fun h => by simp [exactRegions, h]
  refine ⟨hin _ hacc, fun h => ⟨hin _ (hreg h), ?_⟩, fun h => ⟨hin _ (hspa h), ?_⟩, fun h hp => ?_⟩
  · exact hdis.forall hacc (hreg h) (by simp)
  · exact hdis.forall hacc (hspa h) (by simp)
  · exact hdis.forall (hreg h) (hspa hp) (by simp)

/-- A validated configuration has a sound geometry. -/
theorem validate_valid (hr : c.InRange P) (hw : c.NoWrap P) (h : c.validate P = .ok ()) :
    c.geometry.Valid P c.driveLength := by
  obtain ⟨-, hprofile, hwide, hsingle, hsparse, hcap, hlim, htable, hneed, hreg, hspr, -, -⟩ :=
    validate_ok h
  have hslot : 32 ≤ c.slotSize := by
    simp only [profileSingleAsset, profileWide, profileSparse] at hprofile hwide hsingle hsparse
    omega
  obtain ⟨hacc, hext, hspa, hregspa⟩ := exactRegions_apart hr hw h
  have hb' := P.bound_le
  have hlen := hr.driveLength
  have hhead : minRegistryOffset ≤ headerSize := by decide
  obtain ⟨gcap, glim, gprof, gslot, gtab, groff, grcap, -⟩ := c.geometry_fields
  -- an in-header registry ends before the tables start
  have hin : c.registryOffset ≠ 0 → ¬headerSize ≤ c.registryOffset →
      minRegistryOffset ≤ c.registryOffset ∧
      c.registryOffset + 32 * c.registryCapacity ≤ headerSize :=
    fun h0 hlt => (validateRegistry_ok hreg h0).2.2 (not_le.1 hlt)
  have hword : c.driveLength < 2 ^ 64 := hlen.trans_le hb'
  refine ⟨?_, ⟨?_, ?_, ?_, ?_, ?_, hlen.le, hword⟩, ?_, ?_, ?_, ?_, fun hp => ?_, fun hp => ?_,
    fun hp => ?_, fun hp => ?_, ?_, ?_, ?_, ?_, ?_, ?_⟩ <;>
    simp only [accountsTable, gcap, glim, gprof, gslot, gtab, groff, grcap] at *
  · exact hprofile
  · exact hcap
  · exact hlim.2
  · exact (show 0 + 20 ≤ 32 by decide).trans hslot
  · exact (show offLiveCount + 8 ≤ headerSize by decide).trans htable
  · exact hacc
  · exact htable
  · exact hsingle
  · exact hwide
  · exact hsparse
  · obtain ⟨h1, h2, h3, h4⟩ := validateSparse_ok hspr hp
    rw [geometry_sparse hp]
    refine ⟨h2, h3, ?_, (sparse_counter_le _).trans h4, (hspa hp).1, hlen.le, hword⟩
    show 4 + 20 ≤ c.sparseSlotSize
    rcases h1 with h1 | h1 <;> rw [h1] <;> decide
  · rw [geometry_sparse hp]
    exact (validateSparse_ok hspr hp).2.2.2
  · rw [geometry_sparse hp]
    exact (validateSparse_ok hspr hp).1
  · rw [geometry_sparse hp]
    exact (hspa hp).2.symm
  · exact hneed
  · exact fun h0 => (validateRegistry_ok hreg h0).2.1
  · intro h0
    by_cases hle : headerSize ≤ c.registryOffset
    · exact hhead.trans hle
    · exact (hin h0 hle).1
  · intro h0
    by_cases hle : headerSize ≤ c.registryOffset
    · exact (hext ⟨h0, hle⟩).1
    · exact (hin h0 hle).2.trans (htable.trans ((Nat.le_add_right _ _).trans hacc))
  · intro h0
    by_cases hle : headerSize ≤ c.registryOffset
    · exact (hext ⟨h0, hle⟩).2
    · exact Or.inl ((hin h0 hle).2.trans htable)
  · intro h0 hp
    rw [geometry_sparse hp]
    by_cases hle : headerSize ≤ c.registryOffset
    · exact (hregspa ⟨h0, hle⟩ hp).symm
    · exact Or.inl ((hin h0 hle).2.trans (validateSparse_ok hspr hp).2.2.2)

end Config

/-! ## The header round trip -/

theorem slice_blit_eq {img : Image} {off n : ℕ} {p : Bytes} (h : p.length = n) :
    slice (blit img off p) off n = p := by
  subst h
  exact slice_blit_self img off p

/-- The fields of the header page. -/
theorem headerImage_fields (g : Geometry) (hs : g.seed.length = 32) :
    slice (headerImage g) offMagic 8 = magic ∧
    slice (headerImage g) offVersion 4 = leBytes 4 version ∧
    slice (headerImage g) offFlags 4 = zeros 4 ∧
    slice (headerImage g) offCapacity 8 = leBytes 8 g.capacity ∧
    slice (headerImage g) offTableOffset 8 = leBytes 8 g.tableOffset ∧
    slice (headerImage g) offLoadLimit 8 = leBytes 8 g.loadLimit ∧
    slice (headerImage g) offLiveCount 8 = zeros 8 ∧
    slice (headerImage g) offSeed 32 = g.seed ∧
    slice (headerImage g) offProfile 4 = leBytes 4 g.profile ∧
    slice (headerImage g) offSlotSize 4 = leBytes 4 g.slotSize ∧
    slice (headerImage g) offRegistryOffset 8 = leBytes 8 g.registryOffset ∧
    slice (headerImage g) offRegistryCap 8 = leBytes 8 g.registryCapacity ∧
    slice (headerImage g) offTokenCount 8 = zeros 8 ∧
    slice (headerImage g) offSparseOffset 8 = leBytes 8 g.sparseOffset ∧
    slice (headerImage g) offSparseCapacity 8 = leBytes 8 g.sparseCapacity ∧
    slice (headerImage g) offSparseLoadLimit 8 = leBytes 8 g.sparseLoadLimit ∧
    slice (headerImage g) offSparseLiveCount 8 = zeros 8 ∧
    slice (headerImage g) offSparseSlotSize 4 = leBytes 4 g.sparseSlotSize := by
  have hm : magic.length = 8 := rfl
  refine ⟨?_, ?_, ?_, ?_, ?_, ?_, ?_, ?_, ?_, ?_, ?_, ?_, ?_, ?_, ?_, ?_, ?_, ?_⟩ <;>
    simp only [headerImage]
  all_goals
    simp only [offMagic, offVersion, offFlags, offCapacity, offTableOffset, offLoadLimit, offSeed,
      offProfile, offSlotSize, offRegistryOffset, offRegistryCap, offSparseOffset,
      offSparseCapacity, offSparseLoadLimit, offSparseSlotSize, offLiveCount, offTokenCount,
      offSparseLiveCount]
    -- the later fields are written elsewhere; then this field itself, or nothing
    repeat rw [slice_blit_disjoint (by simp only [leBytes_length, hs, hm]; omega)]
    first
    | rw [slice_blit_eq (by simp [hm, hs])]
    | rw [slice_zero]

/-- The page is zero past its last field. -/
theorem headerImage_zero (g : Geometry) (hs : g.seed.length = 32) {a : ℕ}
    (ha : minRegistryOffset ≤ a) : headerImage g a = 0 := by
  have hm : magic.length = 8 := rfl
  have ha' : 256 ≤ a := ha
  simp only [headerImage, offMagic, offVersion, offCapacity, offTableOffset, offLoadLimit, offSeed,
    offProfile, offSlotSize, offRegistryOffset, offRegistryCap, offSparseOffset,
    offSparseCapacity, offSparseLoadLimit, offSparseSlotSize]
  repeat rw [blit_outside (by simp only [leBytes_length, hs, hm]; omega)]

/-- The fields of a geometry are in the range of the header's. -/
structure Geometry.InRange (P : Platform) (g : Geometry) : Prop where
  capacity : g.capacity < P.bound
  loadLimit : g.loadLimit < P.bound
  seed : g.seed.length = 32
  profile : g.profile < 2 ^ 32
  slotSize : g.slotSize < 2 ^ 32
  slotSize_ne : g.slotSize ≠ 0
  tableOffset : g.tableOffset < P.bound
  registryOffset : g.registryOffset < P.bound
  registryCapacity : g.registryCapacity < P.bound
  sparseOffset : g.sparseOffset < P.bound
  sparseCapacity : g.sparseCapacity < P.bound
  sparseLoadLimit : g.sparseLoadLimit < P.bound
  sparseSlotSize : g.sparseSlotSize < 2 ^ 32

theorem leNat_leBytes_eight {P : Platform} {v : ℕ} (h : v < P.bound) :
    P.ofU64 (leNat (leBytes 8 v)) = v := by
  have hb := P.bound_le
  rw [leNat_leBytes_of_lt (by omega), P.ofU64_eq h]

/-- `Open` reads the geometry `Format` wrote, whatever the counters and the rest of the page
    hold. -/
theorem decodeHeader_eq {P : Platform} {g : Geometry} (hr : g.InRange P) {img : Image}
    (himg : HeaderOk g img) : decodeHeader P (slice img 0 headerSize) = .ok g := by
  obtain ⟨f1, f2, f3, f4, f5, f6, -, f8, f9, f10, f11, f12, -, f14, f15, f16, -, f18⟩ :=
    headerImage_fields g hr.seed
  have hsub : ∀ off n, off + n ≤ minRegistryOffset →
      (off + n ≤ offLiveCount ∨ offLiveCount + 8 ≤ off) →
      (off + n ≤ offTokenCount ∨ offTokenCount + 8 ≤ off) →
      (off + n ≤ offSparseLiveCount ∨ offSparseLiveCount + 8 ≤ off) →
      sub (slice img 0 headerSize) off n = slice (headerImage g) off n := by
    intro off n h1 h2 h3 h4
    have hle : minRegistryOffset ≤ headerSize := by decide
    rw [sub_slice (by omega), Nat.zero_add]
    exact slice_congr fun a ha hb => himg a (by omega) (by omega) (by omega) (by omega)
  rw [decodeHeader, hsub offMagic 8 (by decide) (by decide) (by decide) (by decide), f1,
    if_neg (by simp), hsub offVersion 4 (by decide) (by decide) (by decide) (by decide), f2,
    leNat_leBytes_of_lt (by decide), if_neg (by simp),
    hsub offFlags 4 (by decide) (by decide) (by decide) (by decide), f3, leNat_zeros,
    if_neg (by simp),
    hsub offCapacity 8 (by decide) (by decide) (by decide) (by decide), f4,
    hsub offTableOffset 8 (by decide) (by decide) (by decide) (by decide), f5,
    hsub offLoadLimit 8 (by decide) (by decide) (by decide) (by decide), f6,
    hsub offSeed 32 (by decide) (by decide) (by decide) (by decide), f8,
    hsub offProfile 4 (by decide) (by decide) (by decide) (by decide), f9,
    hsub offSlotSize 4 (by decide) (by decide) (by decide) (by decide), f10,
    hsub offRegistryOffset 8 (by decide) (by decide) (by decide) (by decide), f11,
    hsub offRegistryCap 8 (by decide) (by decide) (by decide) (by decide), f12,
    hsub offSparseOffset 8 (by decide) (by decide) (by decide) (by decide), f14,
    hsub offSparseCapacity 8 (by decide) (by decide) (by decide) (by decide), f15,
    hsub offSparseLoadLimit 8 (by decide) (by decide) (by decide) (by decide), f16,
    hsub offSparseSlotSize 4 (by decide) (by decide) (by decide) (by decide), f18]
  rw [leNat_leBytes_eight hr.capacity, leNat_leBytes_eight hr.tableOffset,
    leNat_leBytes_eight hr.loadLimit, leNat_leBytes_eight hr.registryOffset,
    leNat_leBytes_eight hr.registryCapacity, leNat_leBytes_eight hr.sparseOffset,
    leNat_leBytes_eight hr.sparseCapacity, leNat_leBytes_eight hr.sparseLoadLimit,
    leNat_leBytes_of_lt (by simpa using hr.profile),
    leNat_leBytes_of_lt (by simpa using hr.slotSize),
    leNat_leBytes_of_lt (by simpa using hr.sparseSlotSize), if_neg hr.slotSize_ne]

/-! ## Format -/

theorem Config.InRange.defaults {P : Platform} {c : Config} (h : c.InRange P) :
    c.defaults.InRange P := by
  have hb := P.le_bound
  have hhead : headerSize < P.bound := lt_of_lt_of_le (by decide) hb
  refine { h with loadLimit := ?_, slotSize := ?_, tableOffset := ?_, sparseLoadLimit := ?_,
                  sparseSlotSize := ?_ } <;> simp only [Config.defaults] <;> split_ifs
  · exact lt_of_le_of_lt (Nat.sub_le _ _) h.capacity
  · exact h.loadLimit
  · norm_num
  · exact h.slotSize
  · exact hhead
  · exact h.tableOffset
  · exact lt_of_le_of_lt (Nat.sub_le _ _) h.sparseCapacity
  · exact h.sparseLoadLimit
  · norm_num
  · exact h.sparseSlotSize

theorem Config.InRange.geometry {P : Platform} {c : Config} (h : c.InRange P)
    (hs : c.slotSize ≠ 0) : c.geometry.InRange P := by
  have hb := P.le_bound
  rw [Config.geometry]
  split_ifs
  · exact ⟨h.capacity, h.loadLimit, h.seed, h.profile, h.slotSize, hs, h.tableOffset,
      h.registryOffset, h.registryCapacity, h.sparseOffset, h.sparseCapacity, h.sparseLoadLimit,
      h.sparseSlotSize⟩
  · exact ⟨h.capacity, h.loadLimit, h.seed, h.profile, h.slotSize, hs, h.tableOffset,
      h.registryOffset, h.registryCapacity, by simp only; omega, by simp only; omega,
      by simp only; omega, by simp only; omega⟩

theorem blit_slice_apply (img img' : Image) (n a : ℕ) :
    blit img 0 (slice img' 0 n) a = if a < n then img' a else img a := by
  split_ifs with h
  · have hlen : a < (slice img' 0 n).length := by rw [slice_length]; exact h
    have hin : blit img 0 (slice img' 0 n) (0 + a) = (slice img' 0 n).getD a 0 := blit_inside hlen
    rw [Nat.zero_add] at hin
    rw [hin, List.getD_eq_getElem _ _ hlen]
    simp [slice]
  · exact blit_outside (by rw [slice_length]; omega)

theorem Table.slots_blank {t : Table} {img : Image} (h : ∀ a, t.base ≤ a → img a = 0) {i : ℕ}
    (hi : i < t.capacity) : t.slots img i = zeros t.slotSize := by
  rw [Table.slots, if_pos hi, ← slice_zero (t.base + t.slotSize * i) t.slotSize]
  exact slice_congr fun a h1 _ => h a (by omega)

/-- A table of a blank image. -/
theorem Table.ok_blank (P : Platform) (g : Geometry) {t : Table} (h2 : 2 ≤ t.capacity)
    (img : Image) (hslots : ∀ i < t.capacity, t.slots img i = zeros t.slotSize)
    (hcount : t.count img = 0) :
    t.Ok P g h2 img ∧ ∀ k, t.find P g h2 img k = none := by
  have hblank : ∀ i < (t.layout P g h2).cap, t.slots img i = (t.layout P g h2).empty := hslots
  obtain ⟨hgood, hcont⟩ := RobinHood.Layout.good_of_blank hblank
  refine ⟨⟨hgood, ?_, ?_⟩, fun k => ?_⟩
  · rw [hcount, hcont]
    rfl
  · rw [hcount]
    exact Nat.zero_le _
  · rw [Table.find, hgood.find_eq_none_iff, hcont]
    simp

theorem format_ok_validate {σ : Type} [Store σ] {P : Platform} {s : σ} {c : Config} {d : Drive σ}
    (h : format P s c = .ok d) :
    c.defaults.validate P = .ok () := by
  rw [format] at h
  cases hv : c.defaults.validate P with
  | ok u => rfl
  | error e =>
    simp only [hv] at h
    cases h

section

variable {σ : Type} [Store σ] [LawfulStore σ] {P : Platform}

/-- A drive that holds nothing but its header. -/
theorem valid_blank {d : Drive σ} (hg : d.cfg.Valid P d.size) (hr : d.cfg.InRange P)
    (himg : d.image = headerImage d.cfg) (ht : d.tokens = []) (hc : d.colOff = []) :
    Valid P d ∧ book P d = Book.empty := by
  obtain ⟨-, -, -, -, -, -, f7, -, -, -, -, -, f13, -, -, -, f17, -⟩ :=
    headerImage_fields d.cfg hr.seed
  have hmin : minRegistryOffset ≤ headerSize := by decide
  have hzero : ∀ off, headerSize ≤ off → ∀ a, off ≤ a → d.image a = 0 := by
    intro off hoff a ha
    rw [himg]
    exact headerImage_zero _ hr.seed (hmin.trans (hoff.trans ha))
  obtain ⟨haok, hafind⟩ := Table.ok_blank P d.cfg hg.accounts.two_le d.image
    (fun i hi => Table.slots_blank (hzero _ hg.tableOffset_le) hi)
    (by rw [Table.count, himg]; exact (congrArg leNat f7).trans (leNat_zeros 8))
  have hsp := fun hp : d.cfg.profile = profileSparse =>
    Table.ok_blank P d.cfg (hg.sparse hp).two_le d.image
      (fun i hi => Table.slots_blank (hzero _ (hg.sparseOffset_le hp)) hi)
      (by rw [Table.count, himg]; exact (congrArg leNat f17).trans (leNat_zeros 8))
  have hv : Valid P d := by
    refine ⟨hg, ?_, haok, fun hp => (hsp hp).1, ?_, ?_, ?_⟩
    · intro a _ _ _ _
      rw [himg]
    · intro _ k s hk
      rw [hafind] at hk
      cases hk
    · intro hp k s hk
      rw [(hsp hp).2] at hk
      cases hk
    · rw [ht, hc, himg]
      refine ⟨by simp, by simp, by simp, fun _ => rfl, by simp, fun hw => ?_, by simp, ?_,
        by simp⟩
      · have := hg.wide hw
        simp only [columnsEnd, List.map_nil, List.sum_nil]
        omega
      · rw [f13, leNat_zeros]
        rfl
  refine ⟨hv, Book.ext ?_ ?_ ht⟩
  · funext a
    show accountOf P d a = none
    rw [accountOf_eq hv, show hv.record a = none from hafind _]
    rfl
  · funext id a
    show holdingOf P d id a = 0
    rw [holdingOf]
    cases h0 : isZero a.val with
    | true => rw [getTokenBalance_zero h0]
    | false => rw [getTokenBalance_unknown h0 (by rw [ht]; rfl)]

/-- Opening a store that holds nothing but a header. -/
theorem openDrive_blank {s : σ} {g : Geometry} (hr : g.InRange P)
    (himg : LawfulStore.image s = headerImage g) (hsize : headerSize ≤ LawfulStore.size s) :
    openDrive P s = .ok ⟨s, g, [], []⟩ := by
  obtain ⟨-, -, -, -, -, -, -, -, -, -, -, -, f13, -, -, -, -, -⟩ := headerImage_fields g hr.seed
  have hhead : offTokenCount + 8 ≤ headerSize := by decide
  have hread : (Store.readAt 0 headerSize).run s =
      .ok (slice (headerImage g) 0 headerSize) s := by
    rw [LawfulStore.readAt_eq (by omega), himg]
  have hcount : (counter offTokenCount).run (⟨s, g, [], []⟩ : Drive σ) =
      .ok 0 (⟨s, g, [], []⟩ : Drive σ) := by
    rw [counter_run (show offTokenCount + 8 ≤ LawfulStore.size s by omega)]
    show EStateM.Result.ok (leNat (slice (LawfulStore.image s) offTokenCount 8)) _ = _
    rw [himg, f13, leNat_zeros]
  have hreload : (reloadRegistry P).run (⟨s, g, [], []⟩ : Drive σ) =
      .ok () (⟨s, g, [], []⟩ : Drive σ) := by
    rw [reloadRegistry, bind_ok (modify_run _ _), bind_ok (get_run _)]
    split_ifs with h0
    · rfl
    · rw [bind_ok hcount, P.ofU64_eq (lt_of_lt_of_le (by norm_num) P.le_bound),
        if_neg (by omega)]
      rfl
  rw [openDrive, hread]
  simp only [decodeHeader_eq hr (fun _ _ _ _ _ => rfl), bind, Except.bind, hreload]

/-- Formatting a zeroed store of the configured length writes the header and nothing else,
    whether or not the region sizes wrap. -/
theorem format_header {s : σ} {c : Config} (hr : c.InRange P)
    (hval : c.defaults.validate P = .ok ()) (hz : ∀ a, LawfulStore.image s a = 0)
    (hsize : LawfulStore.size s = c.driveLength) :
    ∃ s', format P s c = .ok ⟨s', c.defaults.geometry, [], []⟩ ∧
      LawfulStore.image s' = headerImage c.defaults.geometry ∧
      LawfulStore.size s' = c.driveLength ∧ c.defaults.geometry.InRange P ∧
      LawfulStore.Extends s s' := by
  have hgr := hr.defaults.geometry (Config.slotSize_ne hval)
  have hhead : headerSize ≤ c.defaults.driveLength := Config.headerSize_le hval
  have hlen : (slice (headerImage c.defaults.geometry) 0 headerSize).length = headerSize :=
    slice_length _ _ _
  have hfit : 0 + (slice (headerImage c.defaults.geometry) 0 headerSize).length ≤
      LawfulStore.size s := by
    rw [hlen, hsize, Nat.zero_add]
    exact hhead
  obtain ⟨s', hs', himg, hsz, hext⟩ := LawfulStore.writeAt_eq hfit
  have himg' : LawfulStore.image s' = headerImage c.defaults.geometry := by
    rw [himg]
    funext a
    rw [blit_slice_apply]
    split_ifs with h
    · rfl
    · rw [hz, headerImage_zero _ hgr.seed]
      exact le_trans (by decide) (not_lt.1 h)
  have hopen := openDrive_blank hgr himg' (by rw [hsz, hsize]; exact hhead)
  refine ⟨s', ?_, himg', hsz.trans hsize, hgr, hext⟩
  rw [format]
  simp only [hval, hs', hopen]

/-- Formatting a zeroed store of the configured length with a configuration that `validate`
    accepts gives a valid drive with an empty book. -/
theorem format_run {s : σ} {c : Config} (hr : c.InRange P) (hw : c.defaults.NoWrap P)
    (hval : c.defaults.validate P = .ok ()) (hz : ∀ a, LawfulStore.image s a = 0)
    (hsize : LawfulStore.size s = c.driveLength) :
    ∃ d, format P s c = .ok d ∧ Valid P d ∧ book P d = Book.empty ∧
      d.cfg = c.defaults.geometry ∧ d.size = c.driveLength ∧
      LawfulStore.Extends s d.store := by
  have hg := Config.validate_valid hr.defaults hw hval
  obtain ⟨s', hfmt, himg, hdsize, hgr, hext⟩ := format_header hr hval hz hsize
  obtain ⟨hv, hb⟩ := valid_blank (P := P) (d := ⟨s', c.defaults.geometry, [], []⟩)
    (by show c.defaults.geometry.Valid P (LawfulStore.size s'); rw [hdsize]; exact hg) hgr himg
    rfl rfl
  exact ⟨_, hfmt, hv, hb, rfl, hdsize, hext⟩

/-! ## Reloading the registry -/

theorem toAddress_val (a : Address) : toAddress a.val = a := by
  refine Subtype.ext ?_
  exact List.take_left' a.2

theorem registryEntry_fields (t : Token) (h : t.width < 256) :
    sub (registryEntry t.address t.width) 0 20 = t.address.val ∧
      leNat (sub (registryEntry t.address t.width) 20 1) = t.width := by
  constructor
  · rw [registryEntry, List.append_assoc, sub, List.drop_zero, List.take_left' t.address.2]
  · rw [registryEntry, sub, List.append_assoc, List.drop_left' t.address.2,
      List.take_left' (leBytes_length _ _), leNat_leBytes_of_lt (by simpa using h)]

end

section

variable {σ : Type} [Store σ] {P : Platform} {d : Drive σ} {img : Image} {size : ℕ}
  {tokens : List Token} {colOff : List ℕ}

/-- The loop reads the entries from entry `i` on and appends what the registry holds there. -/
theorem reloadLoop_reads (hr : ReadsAs d.store img size)
    (hreg : Registry d.cfg tokens colOff img)
    (hin : d.cfg.registryOffset + 32 * tokens.length ≤ size) (hb : size ≤ P.bound)
    (n i : ℕ) (hn : i + n = tokens.length) :
    (reloadLoop P d.cfg.registryOffset n i (column tokens i)).run
        { d with tokens := tokens.take i, colOff := (List.range i).map (column tokens) } =
      .ok () { d with tokens, colOff } := by
  induction n generalizing i with
  | zero =>
    obtain rfl : i = tokens.length := hn
    rw [reloadLoop, List.take_length, ← hreg.colOff]
    rfl
  | succ n ih =>
    have hi : i < tokens.length := by omega
    have ht : tokens[i]? = some tokens[i] := List.getElem?_eq_getElem hi
    have hw := hreg.widths _ (List.getElem_mem hi)
    obtain ⟨haddr, hwidth⟩ := registryEntry_fields tokens[i] (by omega)
    have hread : (readAt (d.cfg.registryOffset + 32 * i) 32).run { d with
        tokens := tokens.take i, colOff := (List.range i).map (column tokens) } =
        .ok (registryEntry tokens[i].address tokens[i].width) { d with
          tokens := tokens.take i, colOff := (List.range i).map (column tokens) } := by
      rw [← hreg.entries i _ ht]
      refine readAt_reads (n := size) ?_ (by omega)
      exact hr
    rw [reloadLoop, P.mul_eq (by omega), P.add_eq (by omega), bind_ok hread]
    simp only [hwidth, haddr, toAddress_val]
    rw [if_neg (by omega), bind_ok (modify_run _ _)]
    have hstep := ih (i + 1) (by omega)
    rw [column_succ ht, List.take_add_one, ht, List.range_succ, List.map_append] at hstep
    exact hstep

/-- Reloading restores the caches of a drive from its bytes. -/
theorem reloadRegistry_reads (hr : ReadsAs d.store img size) (hg : d.cfg.Valid P size)
    (hreg : Registry d.cfg tokens colOff img) :
    (reloadRegistry P).run d = .ok () { d with tokens, colOff } := by
  have hb := hg.accounts.exact
  have hsize : offTokenCount + 8 ≤ size := by
    have h1 := hg.tableOffset_le
    have h2 : d.cfg.tableOffset + _ ≤ size := hg.accounts.inside
    have h3 : offTokenCount + 8 ≤ headerSize := by decide
    omega
  rw [reloadRegistry, bind_ok (modify_run _ _), bind_ok (get_run _)]
  simp only
  split_ifs with h0
  · obtain rfl := hreg.absent h0
    rw [hreg.colOff]
    rfl
  · have hle := hreg.bounded h0
    have hin := hg.registry_inside h0
    have hcap := hg.registryCapacity_le h0
    have hcount : (counter offTokenCount).run { d with tokens := [], colOff := [] } =
        .ok tokens.length { d with tokens := [], colOff := [] } := by
      rw [← hreg.count]
      refine counter_reads ?_ hsize
      exact hr
    have hbound := P.le_bound
    rw [bind_ok hcount, P.ofU64_eq (by omega), if_neg (by omega)]
    have h := reloadLoop_reads hr hreg (by omega) hb tokens.length 0 (by omega)
    exact h

/-- Opening a store that reads as a drive's image reads back the drive's geometry and caches. -/
theorem openDrive_reads {s : σ} {g : Geometry} (hr : ReadsAs s img size) (hg : g.Valid P size)
    (hgr : g.InRange P) (hh : HeaderOk g img) (hreg : Registry g tokens colOff img) :
    openDrive P s = .ok ⟨s, g, tokens, colOff⟩ := by
  have h1 := hg.tableOffset_le
  have h2 : g.tableOffset + _ ≤ size := hg.accounts.inside
  have hread : (Store.readAt 0 headerSize).run s = .ok (slice img 0 headerSize) s :=
    hr _ _ (by omega)
  have hreload := reloadRegistry_reads (d := ⟨s, g, [], []⟩) hr hg hreg
  rw [openDrive, hread]
  simp only [decodeHeader_eq hgr hh, bind, Except.bind, hreload]

end

/-- Reloading a drive. -/
theorem reloadRegistry_run {σ : Type} [Store σ] [LawfulStore σ] {P : Platform} {d : Drive σ}
    {tokens : List Token} {colOff : List ℕ} (hg : d.cfg.Valid P d.size)
    (hreg : Registry d.cfg tokens colOff d.image) :
    (reloadRegistry P).run d = .ok () { d with tokens, colOff } :=
  reloadRegistry_reads (readsAs d.store) hg hreg

end OpCartesi.Drive
