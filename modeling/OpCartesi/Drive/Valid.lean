import OpCartesi.Drive.Config
import OpCartesi.Drive.Table

/-!
# The invariant of a drive

`Valid P d` says what every drive reached from `Format` satisfies: the geometry is
consistent with the size of the store, both hash tables are well formed, the
records hold what the profile allows, and the cached registry is the one in the
registry bytes. Every write of an operation goes to one of three areas (the
accounts table, the sparse table, the registry, each with its counter):

* `Valid.of_accountsStep`, `Valid.of_sparseStep`: a step of one table keeps the
  invariant and the other table's records.
* `Valid.of_register`: so does appending a registry entry.
-/

namespace OpCartesi.Drive

open Exec

/-! ## Geometry -/

/-- What `validate` guarantees about a drive of `n` bytes. -/
structure Geometry.Valid (P : Platform) (g : Geometry) (n : ℕ) : Prop where
  profile_le : g.profile ≤ profileSparse
  accounts : (accountsTable g).Fits P n
  tableOffset_le : headerSize ≤ g.tableOffset
  single : g.profile = profileSingleAsset → g.slotSize = 64 ∨ g.slotSize = 32
  wide : g.profile = profileWide → 128 ≤ g.slotSize
  sparseSlot : g.profile = profileSparse → g.slotSize = 64
  sparse : g.profile = profileSparse → (sparseTable g).Fits P n
  sparseOffset_le : g.profile = profileSparse → headerSize ≤ g.sparseOffset
  sparseSlotSize : g.profile = profileSparse → g.sparseSlotSize = 64 ∨ g.sparseSlotSize = 32
  tables_apart : g.profile = profileSparse →
    g.tableOffset + g.slotSize * g.capacity ≤ g.sparseOffset ∨
    g.sparseOffset + g.sparseSlotSize * g.sparseCapacity ≤ g.tableOffset
  registry_of_profile : g.profile ≠ profileSingleAsset → g.registryOffset ≠ 0
  registryCapacity_le : g.registryOffset ≠ 0 → g.registryCapacity ≤ 65536
  le_registryOffset : g.registryOffset ≠ 0 → minRegistryOffset ≤ g.registryOffset
  registry_inside : g.registryOffset ≠ 0 → g.registryOffset + 32 * g.registryCapacity ≤ n
  registry_accounts : g.registryOffset ≠ 0 →
    g.registryOffset + 32 * g.registryCapacity ≤ g.tableOffset ∨
    g.tableOffset + g.slotSize * g.capacity ≤ g.registryOffset
  registry_sparse : g.registryOffset ≠ 0 → g.profile = profileSparse →
    g.registryOffset + 32 * g.registryCapacity ≤ g.sparseOffset ∨
    g.sparseOffset + g.sparseSlotSize * g.sparseCapacity ≤ g.registryOffset

/-! ## Records -/

theorem Geometry.compact_iff (g : Geometry) :
    g.compact = true ↔ g.profile = profileSingleAsset ∧ g.slotSize = 32 := decide_eq_true_iff

/-- The size of an account record. -/
def Geometry.recordSize (g : Geometry) : ℕ := if g.compact then 32 else 64

/-- The nonce and the balance in an account slot. -/
def Geometry.fields (g : Geometry) (slot : Bytes) : ℕ × ℕ :=
  if g.compact then (leNat (sub slot 20 4), beNat (sub slot 24 8))
  else (leNat (sub slot 24 8), beNat (sub slot 32 32))

/-- The balance in a sparse slot. -/
def Geometry.sparseValue (g : Geometry) (slot : Bytes) : ℕ :=
  beNat (sub slot g.sparseBalance.1 g.sparseBalance.2)

theorem Geometry.Valid.recordSize_le {P : Platform} {g : Geometry} {n : ℕ} (hg : g.Valid P n) :
    g.recordSize ≤ g.slotSize := by
  have h1 := hg.profile_le
  have h2 := hg.single
  have h3 := hg.wide
  have h4 := hg.sparseSlot
  simp only [profileSingleAsset, profileWide, profileSparse] at h1 h2 h3 h4
  rw [recordSize]
  split_ifs with hc
  · rw [compact_iff] at hc
    omega
  · rw [compact_iff, profileSingleAsset] at hc
    omega

theorem decodeAccount_eq (P : Platform) (g : Geometry) {slot : Bytes}
    (h : g.recordSize ≤ slot.length) : decodeAccount P g slot = .ok (g.fields slot) := by
  rw [Geometry.recordSize] at h
  rw [decodeAccount, Geometry.fields]
  split_ifs at h ⊢ with hc
  · rw [P.slice_eq (by omega), P.slice_eq (by omega)]
    rfl
  · rw [P.slice_eq (by omega), P.slice_eq (by omega)]
    rfl

/-- The byte offset of the column of token `id`. -/
def column (tokens : List Token) (id : ℕ) : ℕ := 64 + ((tokens.take id).map Token.width).sum

theorem column_length (tokens : List Token) : column tokens tokens.length = columnsEnd tokens := by
  rw [column, List.take_length, columnsEnd]

theorem column_append (tokens : List Token) (token : Token) {id : ℕ} (h : id ≤ tokens.length) :
    column (tokens ++ [token]) id = column tokens id := by
  rw [column, List.take_append_of_le_length h, column]

theorem column_succ {tokens : List Token} {id : ℕ} {token : Token}
    (h : tokens[id]? = some token) : column tokens (id + 1) = column tokens id + token.width := by
  rw [column, List.take_add_one, h]
  simp only [Option.toList_some, List.map_append, List.map_cons, List.map_nil, List.sum_append,
    List.sum_cons, List.sum_nil, column]
  omega

theorem column_mono (tokens : List Token) {i j : ℕ} (h : i ≤ j) :
    column tokens i ≤ column tokens j := by
  have hsub : ((tokens.take i).map Token.width).Sublist ((tokens.take j).map Token.width) :=
    (List.take_sublist_take_left h).map Token.width
  have h' := hsub.sum_le_sum fun _ _ => Nat.zero_le _
  rw [column, column]
  omega

theorem column_add_width_le {tokens : List Token} {id : ℕ} {token : Token}
    (h : tokens[id]? = some token) : column tokens id + token.width ≤ columnsEnd tokens := by
  obtain ⟨hid, -⟩ := List.getElem?_eq_some_iff.1 h
  rw [← column_succ h, ← column_length]
  exact column_mono tokens hid

/-! ## The invariant -/

/-- The cached registry `tokens`, `colOff` is that of the image. -/
structure Registry (g : Geometry) (tokens : List Token) (colOff : List ℕ) (img : Image) :
    Prop where
  widths : ∀ t ∈ tokens, t.width = 8 ∨ t.width = 16 ∨ t.width = 32
  distinct : (tokens.map Token.address).Nodup
  bounded : g.registryOffset ≠ 0 → tokens.length ≤ g.registryCapacity
  absent : g.registryOffset = 0 → tokens = []
  colOff : colOff = (List.range tokens.length).map (column tokens)
  columns : g.profile = profileWide → columnsEnd tokens ≤ g.slotSize
  narrow : g.profile = profileSparse → g.sparseSlotSize = 32 → ∀ t ∈ tokens, t.width = 8
  count : leNat (slice img offTokenCount 8) = tokens.length
  entries : ∀ i t, tokens[i]? = some t →
    slice img (g.registryOffset + 32 * i) 32 = registryEntry t.address t.width

/-- The header fields that are not counters are those `Format` wrote. -/
def HeaderOk (g : Geometry) (img : Image) : Prop :=
  ∀ a < minRegistryOffset, (a < offLiveCount ∨ offLiveCount + 8 ≤ a) →
    (a < offTokenCount ∨ offTokenCount + 8 ≤ a) →
    (a < offSparseLiveCount ∨ offSparseLiveCount + 8 ≤ a) → img a = headerImage g a

section

variable {σ : Type} [Store σ] [LawfulStore σ] (P : Platform)

/-- The invariant of a drive. -/
structure Valid (d : Drive σ) : Prop where
  geometry : d.cfg.Valid P d.size
  header : HeaderOk d.cfg d.image
  accounts : (accountsTable d.cfg).Ok P d.cfg geometry.accounts.two_le d.image
  sparse : ∀ h : d.cfg.profile = profileSparse,
    (sparseTable d.cfg).Ok P d.cfg (geometry.sparse h).two_le d.image
  /-- Bytes past the last column of a wide record are zero. -/
  wideRecord : d.cfg.profile = profileWide → ∀ k s,
    (accountsTable d.cfg).find P d.cfg geometry.accounts.two_le d.image k = some s →
    sub s (columnsEnd d.tokens) (d.cfg.slotSize - columnsEnd d.tokens) =
      zeros (d.cfg.slotSize - columnsEnd d.tokens)
  /-- A sparse record is a nonzero balance of a registered token. -/
  sparseRecord : ∀ (h : d.cfg.profile = profileSparse) k s,
    (sparseTable d.cfg).find P d.cfg (geometry.sparse h).two_le d.image k = some s →
    leNat (sub s 0 2) < d.tokens.length ∧ d.cfg.sparseValue s ≠ 0
  registry : Registry d.cfg d.tokens d.colOff d.image

end

/-! ## What a table step leaves alone -/

namespace Table

variable {P : Platform} {g : Geometry} {t u : Table} {img img' : Image}

theorem find_congr {h2 : 2 ≤ t.capacity} (hs : t.slots img' = t.slots img) (k : Bytes) :
    t.find P g h2 img' k = t.find P g h2 img k := by
  rw [find, find, hs]

theorem slots_congr (h : ∀ a, t.base ≤ a → a < t.base + t.slotSize * t.capacity → img' a = img a) :
    t.slots img' = t.slots img := by
  funext i
  simp only [slots]
  split_ifs with hi
  · have := slot_inside hi
    exact slice_congr fun a h1 h2 => h a (by omega) (by omega)
  · rfl

/-- Another table's slots are not in the frame of a step. -/
theorem Frame.slots (h : t.Frame img img') (hc : t.countOff + 8 ≤ u.base)
    (happart : t.base + t.slotSize * t.capacity ≤ u.base ∨
      u.base + u.slotSize * u.capacity ≤ t.base) :
    u.slots img' = u.slots img :=
  slots_congr fun a h1 h2 => h a (by omega) (by omega)

theorem Frame.count (h : t.Frame img img') (hb : u.countOff + 8 ≤ t.base)
    (hne : u.countOff + 8 ≤ t.countOff ∨ t.countOff + 8 ≤ u.countOff) :
    u.count img' = u.count img := by
  rw [Table.count, h.slice (Or.inl hb) hne, Table.count]

end Table

theorem Registry.congr {g : Geometry} {tokens : List Token} {colOff : List ℕ} {img img' : Image}
    (h : Registry g tokens colOff img)
    (hcount : slice img' offTokenCount 8 = slice img offTokenCount 8)
    (hentries : ∀ i < tokens.length, slice img' (g.registryOffset + 32 * i) 32 =
      slice img (g.registryOffset + 32 * i) 32) : Registry g tokens colOff img' where
  widths := h.widths
  distinct := h.distinct
  bounded := h.bounded
  absent := h.absent
  colOff := h.colOff
  columns := h.columns
  narrow := h.narrow
  count := by rw [hcount, h.count]
  entries i t ht := by
    obtain ⟨hi, -⟩ := List.getElem?_eq_some_iff.1 ht
    rw [hentries i hi, h.entries i t ht]

section

variable {σ : Type} [Store σ] [LawfulStore σ] {P : Platform} {d d' : Drive σ}

theorem Evolves.eq_update (h : Evolves d d') : d' = { d with store := d'.store } := by
  obtain ⟨h1, h2, h3, -, -⟩ := h
  cases d'
  simp only at h1 h2 h3
  rw [h1, h2, h3]

theorem accounts_counter_le (g : Geometry) : (accountsTable g).countOff + 8 ≤ headerSize :=
  show offLiveCount + 8 ≤ headerSize by decide

theorem sparse_counter_le (g : Geometry) : (sparseTable g).countOff + 8 ≤ headerSize :=
  show offSparseLiveCount + 8 ≤ headerSize by decide

theorem counters_apart (g : Geometry) :
    (accountsTable g).countOff + 8 ≤ (sparseTable g).countOff :=
  show offLiveCount + 8 ≤ offSparseLiveCount by decide

/-- A table step on a valid drive keeps the header, and the registry if the table is clear of
    it. -/
theorem Table.Frame.header {t : Table} {g : Geometry} {img img' : Image} (h : t.Frame img img')
    (hb : headerSize ≤ t.base) (hc : t.countOff = offLiveCount ∨ t.countOff = offSparseLiveCount)
    (hok : HeaderOk g img) : HeaderOk g img' := by
  intro a ha h1 h2 h3
  rw [h a (Or.inl (lt_of_lt_of_le (lt_of_lt_of_le ha (by decide)) hb)) ?_]
  · exact hok a ha h1 h2 h3
  · rcases hc with hc | hc
    · rw [hc]; exact h1
    · rw [hc]; exact h3

theorem Table.Frame.registry {t : Table} {g : Geometry} {tokens : List Token} {colOff : List ℕ}
    {img img' : Image} (h : t.Frame img img') (hb : headerSize ≤ t.base)
    (hc : t.countOff = offLiveCount ∨ t.countOff = offSparseLiveCount)
    (hmin : g.registryOffset ≠ 0 → minRegistryOffset ≤ g.registryOffset)
    (happart : g.registryOffset ≠ 0 → g.registryOffset + 32 * g.registryCapacity ≤ t.base ∨
      t.base + t.slotSize * t.capacity ≤ g.registryOffset)
    (hreg : Registry g tokens colOff img) : Registry g tokens colOff img' := by
  have hc' : t.countOff + 8 ≤ minRegistryOffset ∧
      (offTokenCount + 8 ≤ t.countOff ∨ t.countOff + 8 ≤ offTokenCount) := by
    rcases hc with hc | hc <;> rw [hc] <;> decide
  have hhead : offTokenCount + 8 ≤ headerSize := by decide
  refine hreg.congr (h.slice (Or.inl (by omega)) hc'.2) fun i hi => ?_
  have h0 : g.registryOffset ≠ 0 := by
    intro h0
    rw [hreg.absent h0] at hi
    simp at hi
  have h1 := hreg.bounded h0
  have h2 := hmin h0
  have h3 := happart h0
  exact h.slice (by omega) (by omega)

theorem Valid.of_accountsStep (hv : Valid P d) {k : Bytes} {r : Option Bytes}
    (hst : (accountsTable d.cfg).Step P d.cfg hv.geometry.accounts.two_le d d' k r)
    (hr : d.cfg.profile = profileWide → ∀ s, r = some s →
      sub s (columnsEnd d.tokens) (d.cfg.slotSize - columnsEnd d.tokens) =
        zeros (d.cfg.slotSize - columnsEnd d.tokens)) :
    Valid P d' ∧ (d.cfg.profile = profileSparse →
      (sparseTable d.cfg).slots d'.image = (sparseTable d.cfg).slots d.image) := by
  have hg := hv.geometry
  have hslots : ∀ h : d.cfg.profile = profileSparse,
      (sparseTable d.cfg).slots d'.image = (sparseTable d.cfg).slots d.image := by
    intro h
    exact hst.frame.slots ((accounts_counter_le _).trans (hg.sparseOffset_le h)) (hg.tables_apart h)
  refine ⟨?_, hslots⟩
  have hsize := hst.evolves.size
  have hd' := hst.evolves.eq_update
  generalize hs : d'.store = s at hd'
  subst hd'
  refine ⟨?_, ?_, hst.ok, fun h => ?_, ?_, ?_, ?_⟩
  · rw [hsize]
    exact hg
  · exact hst.frame.header hg.tableOffset_le (Or.inl rfl) hv.header
  · exact (hv.sparse h).congr (hslots h) (hst.frame.count
      ((sparse_counter_le _).trans hg.tableOffset_le) (Or.inr (counters_apart _)))
  · intro hw k' s' hfind
    rw [hst.find] at hfind
    split_ifs at hfind with hk
    · exact hr hw s' hfind
    · exact hv.wideRecord hw k' s' hfind
  · intro h k' s' hfind
    exact hv.sparseRecord h k' s' ((Table.find_congr (hslots h) k').symm.trans hfind)
  · exact hst.frame.registry hg.tableOffset_le (Or.inl rfl) hg.le_registryOffset
      hg.registry_accounts hv.registry

theorem Valid.of_sparseStep (hv : Valid P d) (hp : d.cfg.profile = profileSparse) {k : Bytes}
    {r : Option Bytes}
    (hst : (sparseTable d.cfg).Step P d.cfg (hv.geometry.sparse hp).two_le d d' k r)
    (hr : ∀ s, r = some s → leNat (sub s 0 2) < d.tokens.length ∧ d.cfg.sparseValue s ≠ 0) :
    Valid P d' ∧ (accountsTable d.cfg).slots d'.image = (accountsTable d.cfg).slots d.image := by
  have hg := hv.geometry
  have hslots : (accountsTable d.cfg).slots d'.image = (accountsTable d.cfg).slots d.image :=
    hst.frame.slots ((sparse_counter_le _).trans hg.tableOffset_le) (hg.tables_apart hp).symm
  refine ⟨?_, hslots⟩
  have hsize := hst.evolves.size
  have hd' := hst.evolves.eq_update
  generalize hs : d'.store = s at hd'
  subst hd'
  refine ⟨?_, ?_, ?_, fun _ => hst.ok, ?_, ?_, ?_⟩
  · rw [hsize]
    exact hg
  · exact hst.frame.header (hg.sparseOffset_le hp) (Or.inr rfl) hv.header
  · exact hv.accounts.congr hslots (hst.frame.count
      ((accounts_counter_le _).trans (hg.sparseOffset_le hp)) (Or.inl (counters_apart _)))
  · intro hw
    rw [hw] at hp
    cases hp
  · intro _ k' s' hfind
    rw [hst.find] at hfind
    split_ifs at hfind with hk
    · exact hr s' hfind
    · exact hv.sparseRecord hp k' s' hfind
  · exact hst.frame.registry (hg.sparseOffset_le hp) (Or.inr rfl) hg.le_registryOffset
      (fun h => hg.registry_sparse h hp) hv.registry

/-! ## Appending a registry entry -/

@[simp] theorem registryEntry_length (addr : Address) (width : ℕ) :
    (registryEntry addr width).length = 32 := by
  rw [registryEntry, List.length_append, List.length_append, addr.2, leBytes_length, zeros_length]

/-- The image after `RegisterToken` has written its entry and the token count. -/
def registerImage (g : Geometry) (n : ℕ) (token : Token) (img : Image) : Image :=
  blit (blit img (g.registryOffset + 32 * n) (registryEntry token.address token.width))
    offTokenCount (leBytes 8 (n + 1))

theorem registerImage_outside {g : Geometry} {n : ℕ} {token : Token} {img : Image} {a : ℕ}
    (he : a < g.registryOffset + 32 * n ∨ g.registryOffset + 32 * n + 32 ≤ a)
    (hc : a < offTokenCount ∨ offTokenCount + 8 ≤ a) :
    registerImage g n token img a = img a := by
  rw [registerImage, blit_outside (by rw [leBytes_length]; exact hc),
    blit_outside (by rw [registryEntry_length]; exact he)]

theorem columnsEnd_append (tokens : List Token) (token : Token) :
    columnsEnd (tokens ++ [token]) = columnsEnd tokens + token.width := by
  simp only [columnsEnd, List.map_append, List.sum_append, List.map_cons, List.map_nil,
    List.sum_cons, List.sum_nil]
  omega

theorem Registry.append {g : Geometry} {tokens : List Token} {colOff : List ℕ} {img : Image}
    (hreg : Registry g tokens colOff img) {token : Token} (h0 : g.registryOffset ≠ 0)
    (hmin : minRegistryOffset ≤ g.registryOffset) (hcap : g.registryCapacity ≤ 65536)
    (hwidth : token.width = 8 ∨ token.width = 16 ∨ token.width = 32)
    (hdup : token.address ∉ tokens.map Token.address)
    (hroom : tokens.length < g.registryCapacity)
    (hwide : g.profile = profileWide → columnsEnd tokens + token.width ≤ g.slotSize)
    (hnarrow : g.profile = profileSparse → g.sparseSlotSize = 32 → token.width = 8) :
    Registry g (tokens ++ [token]) (colOff ++ [columnsEnd tokens])
      (registerImage g tokens.length token img) where
  widths t ht := by
    rcases List.mem_append.1 ht with ht | ht
    · exact hreg.widths t ht
    · rw [List.mem_singleton.1 ht]
      exact hwidth
  distinct := by
    rw [List.map_append, List.nodup_append]
    refine ⟨hreg.distinct, List.nodup_singleton _, fun a ha b hb => ?_⟩
    rw [List.map_cons, List.map_nil, List.mem_singleton] at hb
    rintro rfl
    exact hdup (hb ▸ ha)
  bounded _ := by rw [List.length_append, List.length_singleton]; omega
  absent h := absurd h h0
  colOff := by
    rw [hreg.colOff, List.length_append, List.length_singleton, List.range_succ, List.map_append,
      List.map_cons, List.map_nil, column_append tokens token le_rfl, column_length]
    congr 1
    refine List.map_congr_left fun i hi => ?_
    exact (column_append tokens token (List.mem_range.1 hi).le).symm
  columns h := by rw [columnsEnd_append]; exact hwide h
  narrow hp hs t ht := by
    rcases List.mem_append.1 ht with ht | ht
    · exact hreg.narrow hp hs t ht
    · rw [List.mem_singleton.1 ht]
      exact hnarrow hp hs
  count := by
    have h := slice_blit_self (blit img (g.registryOffset + 32 * tokens.length)
      (registryEntry token.address token.width)) offTokenCount (leBytes 8 (tokens.length + 1))
    rw [leBytes_length] at h
    rw [registerImage, h, leNat_leBytes_of_lt (by omega), List.length_append,
      List.length_singleton]
  entries i t ht := by
    have hcount : offTokenCount + 8 ≤ minRegistryOffset := by decide
    by_cases hi : i < tokens.length
    · -- an older entry ends before the new one starts
      rw [List.getElem?_append_left hi] at ht
      rw [← hreg.entries i t ht]
      exact slice_congr fun a h1 h2 => registerImage_outside (by omega) (by omega)
    · obtain ⟨hi', -⟩ := List.getElem?_eq_some_iff.1 ht
      rw [List.length_append, List.length_singleton] at hi'
      obtain rfl : i = tokens.length := by omega
      rw [List.getElem?_append_right le_rfl, Nat.sub_self, List.getElem?_cons_zero] at ht
      obtain rfl := Option.some.inj ht
      have h := slice_blit_self img (g.registryOffset + 32 * tokens.length)
        (registryEntry token.address token.width)
      rw [registryEntry_length] at h
      rw [registerImage, slice_blit_disjoint (by rw [leBytes_length]; omega), h]

/-- What `RegisterToken` does past its checks. -/
theorem Valid.of_register (hv : Valid P d) (d' : Drive σ) (token : Token)
    (h0 : d.cfg.registryOffset ≠ 0)
    (hwidth : token.width = 8 ∨ token.width = 16 ∨ token.width = 32)
    (hdup : token.address ∉ d.tokens.map Token.address)
    (hroom : d.tokens.length < d.cfg.registryCapacity)
    (hwide : d.cfg.profile = profileWide → columnsEnd d.tokens + token.width ≤ d.cfg.slotSize)
    (hnarrow : d.cfg.profile = profileSparse → d.cfg.sparseSlotSize = 32 → token.width = 8)
    (hcfg : d'.cfg = d.cfg) (hsize : d'.size = d.size) (htok : d'.tokens = d.tokens ++ [token])
    (hcol : d'.colOff = d.colOff ++ [columnsEnd d.tokens])
    (himg : d'.image = registerImage d.cfg d.tokens.length token d.image) :
    Valid P d' ∧ (accountsTable d.cfg).slots d'.image = (accountsTable d.cfg).slots d.image ∧
      (d.cfg.profile = profileSparse →
        (sparseTable d.cfg).slots d'.image = (sparseTable d.cfg).slots d.image) := by
  have hg := hv.geometry
  have hmin := hg.le_registryOffset h0
  have hhead : offTokenCount + 8 ≤ minRegistryOffset ∧ minRegistryOffset ≤ headerSize := by decide
  have hlive : offLiveCount + 8 ≤ offTokenCount ∧ offTokenCount + 8 ≤ offSparseLiveCount ∧
      offSparseLiveCount + 8 ≤ minRegistryOffset := by decide
  have hacc : (accountsTable d.cfg).slots d'.image = (accountsTable d.cfg).slots d.image := by
    have h1 := hg.tableOffset_le
    have h2 := hg.registry_accounts h0
    rw [himg]
    refine Table.slots_congr fun a ha hb => registerImage_outside ?_ ?_ <;>
      simp only [accountsTable] at ha hb <;> omega
  have hspr : d.cfg.profile = profileSparse →
      (sparseTable d.cfg).slots d'.image = (sparseTable d.cfg).slots d.image := by
    intro hp
    have h1 := hg.sparseOffset_le hp
    have h2 := hg.registry_sparse h0 hp
    rw [himg]
    refine Table.slots_congr fun a ha hb => registerImage_outside ?_ ?_ <;>
      simp only [sparseTable] at ha hb <;> omega
  refine ⟨?_, hacc, hspr⟩
  have hd' : d' = ⟨d'.store, d.cfg, d.tokens ++ [token], d.colOff ++ [columnsEnd d.tokens]⟩ := by
    rw [← hcfg, ← htok, ← hcol]
  generalize d'.store = s at hd'
  subst hd'
  refine ⟨?_, ?_, ?_, fun h => ?_, ?_, ?_, ?_⟩
  · rw [hsize]
    exact hg
  · intro a ha h1 h2 h3
    rw [himg, registerImage_outside (by omega) h2]
    exact hv.header a ha h1 h2 h3
  · refine hv.accounts.congr hacc ?_
    rw [himg, Table.count, Table.count]
    exact congrArg leNat (slice_congr fun a ha hb => registerImage_outside
      (by simp only [accountsTable] at hb; omega) (by simp only [accountsTable] at hb; omega))
  · refine (hv.sparse h).congr (hspr h) ?_
    rw [himg, Table.count, Table.count]
    exact congrArg leNat (slice_congr fun a ha hb => registerImage_outside
      (by simp only [sparseTable] at hb; omega) (by simp only [sparseTable] at ha; omega))
  · intro hw k s' hfind
    have hz := hv.wideRecord hw k s' ((Table.find_congr hacc k).symm.trans hfind)
    have hle := hwide hw
    simp only [columnsEnd_append]
    have hsub : d.cfg.slotSize - (columnsEnd d.tokens + token.width) =
      d.cfg.slotSize - columnsEnd d.tokens - token.width := by omega
    rw [hsub, ← sub_sub (n := d.cfg.slotSize - columnsEnd d.tokens) (by omega), hz,
      sub_zeros (by omega)]
  · intro h k s' hfind
    obtain ⟨h1, h2⟩ := hv.sparseRecord h k s' ((Table.find_congr (hspr h) k).symm.trans hfind)
    refine ⟨?_, h2⟩
    simp only [List.length_append, List.length_singleton]
    omega
  · rw [himg]
    exact hv.registry.append h0 hmin (hg.registryCapacity_le h0) hwidth hdup hroom hwide hnarrow

end

end OpCartesi.Drive
