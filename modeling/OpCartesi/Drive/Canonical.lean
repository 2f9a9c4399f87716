import OpCartesi.Drive.Geometry
import OpCartesi.RobinHood.Canonical

/-!
# The layout of a table does not depend on its history

`docs/ACCOUNTS-DRIVE-SPEC.md:177-234` derives from the insertion and deletion rules that a
table's layout is a function of its keys. `Table.Grown` are the drives whose table was filled
by any sequence of insertions and deletions within the load limit.

* `Traced`, `slotsExamined`: the reads of a lookup, counted by a store that records them.
* `layout_history_independent`: two tables with the same keys have the same live slots with
  records of the same homes, and a lookup of an absent key examines equally many slots in both.
-/

namespace OpCartesi.Drive

open Exec RobinHood

/-! ## Counting reads -/

/-- A store that records the reads made of it. -/
structure Traced (σ : Type) where
  store : σ
  reads : List (ℕ × ℕ)

instance {σ : Type} [Store σ] : Store (Traced σ) where
  readAt off n := do
    modify fun s => { s with reads := s.reads ++ [(off, n)] }
    zoom Traced.store (fun s t => { t with store := s }) id (Store.readAt off n)
  writeAt off p := zoom Traced.store (fun s t => { t with store := s }) id (Store.writeAt off p)

/-- The drive with the reads recorded so far. -/
def traced {σ : Type} (d : Drive σ) (reads : List (ℕ × ℕ)) : Drive (Traced σ) where
  store := ⟨d.store, reads⟩
  cfg := d.cfg
  tokens := d.tokens
  colOff := d.colOff

/-- How many slots a lookup examines: `lookup` reads nothing but slots. -/
def slotsExamined {σ : Type} [Store σ] (P : Platform) (t : Table) (key : Bytes) (d : Drive σ) : ℕ :=
  (endState ((lookup P t key).run (traced d []))).store.reads.length

section

variable {σ : Type} [Store σ] [LawfulStore σ] {P : Platform} {g : Geometry} {t : Table}

theorem readSlot_traced {d : Drive σ} (hf : t.Fits P d.size) {i : ℕ} (hi : i < t.capacity)
    (reads : List (ℕ × ℕ)) :
    (readSlot P t i).run (traced d reads) =
      .ok (t.slots d.image i)
        (traced d (reads ++ [(t.base + t.slotSize * i, t.slotSize)])) := by
  have h1 := Table.slot_inside hi
  have h2 := hf.inside
  have hread : (Store.readAt (t.base + t.slotSize * i) t.slotSize).run d.store =
      .ok (slice d.image (t.base + t.slotSize * i) t.slotSize) d.store :=
    LawfulStore.readAt_eq (by show _ ≤ d.size; omega)
  have hstore : (Store.readAt (t.base + t.slotSize * i) t.slotSize).run
      (⟨d.store, reads⟩ : Traced σ) = .ok (slice d.image (t.base + t.slotSize * i) t.slotSize)
        ⟨d.store, reads ++ [(t.base + t.slotSize * i, t.slotSize)]⟩ := by
    show ((modify _ >>= _ : EStateM DriveError (Traced σ) Bytes).run _) = _
    rw [bind_ok (modify_run _ _)]
    exact zoom_ok hread
  rw [readSlot, hf.offset_eq hi, readAt, Table.slots, if_pos hi]
  exact zoom_ok hstore

/-- The loop reads as many slots as the library's probe examines. -/
theorem lookupLoop_traced {d : Drive σ} (hf : t.Fits P d.size) {key : Bytes} {h : ℕ}
    (hh : h < t.capacity) {n dist : ℕ} (hn : dist + n ≤ t.capacity) (reads : List (ℕ × ℕ)) :
    ∃ found reads', (lookupLoop P g t key h n dist).run (traced d reads) =
        .ok found (traced d reads') ∧
      reads'.length = reads.length +
        (t.layout P g hf.two_le).walk (t.slots d.image) key h n dist := by
  have h1 := hf.two_mul_le
  have h2 := hf.exact
  induction n generalizing dist reads with
  | zero => exact ⟨none, reads, rfl, rfl⟩
  | succ n ih =>
    have hi : (h + dist) % t.capacity < t.capacity := Nat.mod_lt _ (by omega)
    rw [lookupLoop, Layout.walk, P.add_eq (by omega)]
    simp only [bind_ok (readSlot_traced hf hi reads), hf.live_eq (g := g) (Table.slots_length hi),
      bind_ok (check_ok _ _), hf.displacement_eq (g := g) _ hi]
    split_ifs with hl hk hd
    · exact ⟨_, _, rfl, by simp⟩
    · exact ⟨_, _, rfl, by simp⟩
    · exact ⟨_, _, rfl, by simp⟩
    · have hn' : dist + 1 + n ≤ t.capacity := by omega
      obtain ⟨found, reads', hrun, hlen⟩ := ih hn'
        (reads ++ [(t.base + t.slotSize * ((h + dist) % t.capacity), t.slotSize)])
      refine ⟨found, reads', hrun, ?_⟩
      rw [hlen, List.length_append, List.length_singleton]
      omega

/-- The slots a lookup examines are those of the library's probe. -/
theorem slotsExamined_eq {d : Drive σ} (hf : t.Fits P d.size) (key : Bytes) :
    slotsExamined P t key d = (t.layout P d.cfg hf.two_le).walk (t.slots d.image) key
      (home P d.cfg key t.capacity) t.capacity 0 := by
  have h2 := hf.two_le
  obtain ⟨found, reads, hrun, hlen⟩ :=
    lookupLoop_traced (g := d.cfg) hf (home_lt (by omega)) (Nat.zero_add _).le []
  have hlookup : (lookup P t key).run (traced d []) = .ok found (traced d reads) := by
    rw [lookup, bind_ok (get_run _), if_neg (by omega)]
    exact hrun
  rw [slotsExamined, hlookup]
  exact hlen.trans (Nat.zero_add _)

end

/-! ## Histories of a table -/

namespace Table

variable {σ : Type} [Store σ] [LawfulStore σ] (P : Platform) (g : Geometry) (t : Table)

/-- The drives of geometry `g` whose table was blank and has gone through insertions of absent
    keys below the load limit and deletions of present ones. -/
inductive Grown : Drive σ → Prop
  | blank {d : Drive σ} (hf : t.Fits P d.size) (hg : d.cfg = g)
      (hslots : ∀ i < t.capacity, t.slots d.image i = zeros t.slotSize)
      (hcount : t.count d.image = 0) : Grown d
  | insert {d d' : Drive σ} {s : Bytes} {n : ℕ} (h : Grown d) (hs : s.length = t.slotSize)
      (hlive : live P t s = .ok true) (habsent : (lookup P t (t.key s)).run d = .ok none d)
      (hn : (counter t.countOff).run d = .ok n d) (hroom : n < t.limit)
      (hrun : (insert P t s).run d = .ok () d') : Grown d'
  | remove {d d' : Drive σ} {key s : Bytes} {i : ℕ} (h : Grown d)
      (hfound : (lookup P t key).run d = .ok (some (i, s)) d)
      (hrun : (remove P t i).run d = .ok () d') : Grown d'

/-- The keys of the live slots of an image. -/
def liveKeys (img : Image) : Finset Bytes :=
  ((Finset.range t.capacity).filter fun i => live P t (t.slots img i) = .ok true).image
    fun i => t.key (t.slots img i)

variable {P g t}

theorem Grown.ok {d : Drive σ} (h : t.Grown P g d) :
    ∃ hf : t.Fits P d.size, d.cfg = g ∧ t.Ok P g hf.two_le d.image := by
  induction h with
  | blank hf hg hslots hcount => exact ⟨hf, hg, (ok_blank P g hf.two_le _ hslots hcount).1⟩
  | @insert d d' s n h hs hlive habsent hn hroom hrun ih =>
    obtain ⟨hf, rfl, hok⟩ := ih
    have h1 := hf.counter_le
    have h2 := hf.inside
    rw [counter_run (by omega)] at hn
    cases hn
    rw [hf.live_eq (g := d.cfg) hs, Except.ok.injEq] at hlive
    have hnone : t.find P d.cfg hf.two_le d.image (t.key s) = none := by
      rcases lookup_cases hf (t.key s) with ⟨hnone, -⟩ | ⟨i, s', -, hfound, -⟩
      · exact hnone
      · rw [hfound] at habsent
        cases habsent
    obtain ⟨d₁, hrun₁, hstep⟩ := insert_run hf hok hs hlive hnone hroom
    rw [hrun₁] at hrun
    cases hrun
    exact ⟨hstep.evolves.size ▸ hf, hstep.evolves.cfg, hstep.ok⟩
  | @remove d d' key s i h hfound hrun ih =>
    obtain ⟨hf, rfl, hok⟩ := ih
    rcases lookup_cases hf key with ⟨-, hnone⟩ | ⟨i', s', -, hfound', hi, hslot, hlive, -⟩
    · rw [hnone] at hfound
      cases hfound
    rw [hfound'] at hfound
    cases hfound
    obtain ⟨d₁, hrun₁, hstep⟩ := remove_run hf hok hi (by rw [hslot]; exact hlive)
    rw [hrun₁] at hrun
    cases hrun
    exact ⟨hstep.evolves.size ▸ hf, hstep.evolves.cfg, hstep.ok⟩

theorem Fits.live_iff {n : ℕ} (hf : t.Fits P n) {img : Image} {i : ℕ} (hi : i < t.capacity) :
    live P t (t.slots img i) = .ok true ↔ (t.layout P g hf.two_le).live (t.slots img i) = true := by
  rw [hf.live_eq (g := g) (slots_length hi), Except.ok.injEq]

/-- The live keys are the keys of the contents. -/
theorem Fits.mem_liveKeys {n : ℕ} (hf : t.Fits P n) {img : Image} {key : Bytes} :
    key ∈ t.liveKeys P img ↔
      key ∈ ((t.layout P g hf.two_le).contents (t.slots img)).map t.key := by
  rw [liveKeys, Finset.mem_image, Multiset.mem_map]
  constructor
  · rintro ⟨i, hi, rfl⟩
    rw [Finset.mem_filter, Finset.mem_range] at hi
    exact ⟨_, Layout.mem_contents_of_live hi.1 ((hf.live_iff hi.1).1 hi.2), rfl⟩
  · rintro ⟨s, hs, rfl⟩
    obtain ⟨i, hi, rfl, hl⟩ := Layout.mem_contents.1 hs
    exact ⟨i, Finset.mem_filter.2 ⟨Finset.mem_range.2 hi, (hf.live_iff hi).2 hl⟩, rfl⟩

/-- Tables with the same keys hold records with the same homes. -/
theorem homes_eq {n₁ n₂ : ℕ} (hf₁ : t.Fits P n₁) (hf₂ : t.Fits P n₂) {img₁ img₂ : Image}
    (hok₁ : t.Ok P g hf₁.two_le img₁) (hok₂ : t.Ok P g hf₂.two_le img₂)
    (hkeys : t.liveKeys P img₁ = t.liveKeys P img₂) :
    (t.layout P g hf₁.two_le).homes (t.slots img₁) =
      (t.layout P g hf₁.two_le).homes (t.slots img₂) := by
  have hmap : ((t.layout P g hf₁.two_le).contents (t.slots img₁)).map t.key =
      ((t.layout P g hf₁.two_le).contents (t.slots img₂)).map t.key := by
    refine (Multiset.Nodup.ext hok₁.good.nodup hok₂.good.nodup).2 fun key => ?_
    rw [← hf₁.mem_liveKeys, hkeys, hf₂.mem_liveKeys (g := g)]
  have hhome := congrArg (Multiset.map fun k => home P g k t.capacity) hmap
  rwa [Multiset.map_map, Multiset.map_map] at hhome

/-- A table below its load limit has an empty slot. -/
theorem Ok.exists_empty {n : ℕ} (hf : t.Fits P n) {img : Image} (hok : t.Ok P g hf.two_le img) :
    ∃ e < t.capacity, (t.layout P g hf.two_le).live (t.slots img e) = false := by
  have h1 := hok.count
  have h2 := hok.le_limit
  have h3 := hf.limit_lt
  have hcard : Multiset.card ((t.layout P g hf.two_le).contents (t.slots img)) < t.capacity := by
    omega
  exact Layout.exists_empty hcard

end Table

section

variable {σ : Type} [Store σ] [LawfulStore σ] {P : Platform} {g : Geometry} {t : Table}

/-- No live record has a key outside the live keys. -/
theorem Table.Fits.key_ne {n : ℕ} (hf : t.Fits P n) {img : Image} {key : Bytes}
    (habsent : key ∉ t.liveKeys P img) {i : ℕ} (hi : i < t.capacity)
    (hl : (t.layout P g hf.two_le).live (t.slots img i) = true) : t.key (t.slots img i) ≠ key := by
  rintro rfl
  exact habsent ((hf.mem_liveKeys (g := g)).2
    (Multiset.mem_map_of_mem t.key (Layout.mem_contents_of_live hi hl)))

/-- Two histories that end with the same keys leave the same layout. -/
theorem layout_history_independent {d₁ d₂ : Drive σ} (h₁ : t.Grown P g d₁) (h₂ : t.Grown P g d₂)
    (hkeys : t.liveKeys P d₁.image = t.liveKeys P d₂.image) :
    (∀ i < t.capacity, (live P t (t.slots d₁.image i) = .ok true ↔
        live P t (t.slots d₂.image i) = .ok true) ∧
      (live P t (t.slots d₁.image i) = .ok true →
        home P g (t.key (t.slots d₁.image i)) t.capacity =
          home P g (t.key (t.slots d₂.image i)) t.capacity)) ∧
    ∀ key ∉ t.liveKeys P d₁.image, slotsExamined P t key d₁ = slotsExamined P t key d₂ := by
  obtain ⟨hf₁, hg₁, hok₁⟩ := h₁.ok
  obtain ⟨hf₂, hg₂, hok₂⟩ := h₂.ok
  obtain ⟨e₁, he₁, hl₁⟩ := hok₁.exists_empty hf₁
  obtain ⟨e₂, he₂, hl₂⟩ := hok₂.exists_empty hf₂
  have hweight : ∀ i < t.capacity,
      (t.layout P g hf₁.two_le).weight (t.slots d₁.image) i =
        (t.layout P g hf₁.two_le).weight (t.slots d₂.image) i := fun i hi =>
    hok₁.good.ordered.weight_unique hok₂.good.ordered (Table.homes_eq hf₁ hf₂ hok₁ hok₂ hkeys)
      he₁ he₂ hl₁ hl₂ hi
  refine ⟨fun i hi => ⟨?_, fun hl => ?_⟩, fun key hkey => ?_⟩
  · rw [hf₁.live_iff (g := g) hi, hf₂.live_iff (g := g) hi]
    exact Layout.live_iff_of_weight (hweight i hi)
  · exact Layout.home_eq_of_weight hi (hweight i hi) ((hf₁.live_iff hi).1 hl)
  · rw [slotsExamined_eq hf₁, slotsExamined_eq hf₂]
    simp only [hg₁, hg₂]
    exact Layout.walk_congr hweight (fun i hi hl => hf₁.key_ne hkey hi hl)
      (fun i hi hl => hf₂.key_ne (hkeys ▸ hkey) hi hl) _ _ _

end

/-! ## Two histories -/

section

variable {σ : Type} [Store σ] [LawfulStore σ] {P : Platform} {g : Geometry} {t : Table}

/-- An insertion goes through when its conditions hold. -/
theorem Table.Grown.inserted {d : Drive σ} {s : Bytes} (h : t.Grown P g d)
    (hs : s.length = t.slotSize) (hlive : live P t s = .ok true)
    (habsent : t.key s ∉ t.liveKeys P d.image) (hroom : t.count d.image < t.limit) :
    t.Grown P g (endState ((Drive.insert P t s).run d)) := by
  obtain ⟨hf, rfl, hok⟩ := h.ok
  have h1 := hf.counter_le
  have h2 := hf.inside
  have hnone : t.find P d.cfg hf.two_le d.image (t.key s) = none := by
    refine hok.good.find_eq_none_iff.2 fun r hr hk => habsent ?_
    rw [hf.mem_liveKeys (g := d.cfg), ← hk]
    exact Multiset.mem_map_of_mem t.key hr
  have hlookup : (lookup P t (t.key s)).run d = .ok none d := by
    rcases lookup_cases hf (t.key s) with ⟨-, hrun⟩ | ⟨i, s', hsome, -⟩
    · exact hrun
    · rw [hnone] at hsome
      cases hsome
  have hlive' := hlive
  rw [hf.live_eq (g := d.cfg) hs, Except.ok.injEq] at hlive'
  obtain ⟨d', hrun, -⟩ := insert_run hf hok hs hlive' hnone hroom
  rw [hrun]
  exact .insert h hs hlive hlookup (counter_run (by omega)) hroom hrun

end

namespace Go

def sampleTable : Table := accountsTable sampleConfig.toConfig.defaults.geometry

/-- A record of an address with nothing else in it. -/
def bareRecord (a : Address) : Bytes := splice (zeros 64) 0 a.val

/-- The insertion of a bare record. -/
def withRecord (d : Drive MemStore) (a : Address) : Drive MemStore :=
  endState ((insert (Go.platform fun _ key => key) sampleTable (bareRecord a)).run d)

theorem withRecord_grown {d : Drive MemStore} {a : Address}
    (h : sampleTable.Grown (Go.platform fun _ key => key)
      sampleConfig.toConfig.defaults.geometry d)
    (hlive : live (Go.platform fun _ key => key) sampleTable (bareRecord a) = .ok true)
    (habsent : sampleTable.key (bareRecord a) ∉
      sampleTable.liveKeys (Go.platform fun _ key => key) d.image)
    (hroom : sampleTable.count d.image < sampleTable.limit) :
    sampleTable.Grown (Go.platform fun _ key => key)
      sampleConfig.toConfig.defaults.geometry (withRecord d a) := by
  refine h.inserted ?_ hlive habsent hroom
  have hlen : a.val.length = 20 := a.2
  rw [bareRecord, splice_length (by rw [zeros_length]; omega), zeros_length]
  rfl

theorem blank_grown :
    sampleTable.Grown (Go.platform fun _ key => key) sampleConfig.toConfig.defaults.geometry
      (blank sampleConfig) := by
  have hval := Config.validate_valid (sampleConfig.inRange fun _ key => key).defaults
    sampleConfig_noWrap (by decide)
  refine .blank hval.accounts rfl (fun i hi => Table.slots_blank (fun a ha => ?_) hi)
    (by decide +kernel)
  exact headerImage_zero _ rfl (le_trans (by decide) ha)

/-- The records of two addresses with one home, inserted one after the other. -/
def filled (first second : Address) : Drive MemStore :=
  withRecord (withRecord (blank sampleConfig) first) second

/-- In either order, a third key with that home is found absent after equally many slots. -/
theorem layout_history_independent_sample :
    let P := Go.platform fun _ key => key
    let d₁ := filled (addressAt 3 1) (addressAt 3 2)
    let d₂ := filled (addressAt 3 2) (addressAt 3 1)
    sampleTable.liveKeys P d₁.image = sampleTable.liveKeys P d₂.image ∧
      slotsExamined P sampleTable (addressAt 3 9).val d₁ =
        slotsExamined P sampleTable (addressAt 3 9).val d₂ := by
  have h₁ : sampleTable.Grown (Go.platform fun _ key => key)
      sampleConfig.toConfig.defaults.geometry (filled (addressAt 3 1) (addressAt 3 2)) :=
    withRecord_grown (withRecord_grown blank_grown (by decide) (by decide +kernel)
      (by decide +kernel)) (by decide) (by decide +kernel) (by decide +kernel)
  have h₂ : sampleTable.Grown (Go.platform fun _ key => key)
      sampleConfig.toConfig.defaults.geometry (filled (addressAt 3 2) (addressAt 3 1)) :=
    withRecord_grown (withRecord_grown blank_grown (by decide) (by decide +kernel)
      (by decide +kernel)) (by decide) (by decide +kernel) (by decide +kernel)
  have hkeys : sampleTable.liveKeys (Go.platform fun _ key => key)
      (filled (addressAt 3 1) (addressAt 3 2)).image =
      sampleTable.liveKeys (Go.platform fun _ key => key)
        (filled (addressAt 3 2) (addressAt 3 1)).image := by decide +kernel
  exact ⟨hkeys, (layout_history_independent h₁ h₂ hkeys).2 _ (by decide +kernel)⟩

end Go

end OpCartesi.Drive
