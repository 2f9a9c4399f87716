import OpCartesi.Drive.Canonical

/-!
# Probes: what a lookup finds, and where the loops stop

The walks of `drive.go:416-494` over a table that may have been filled by anyone: `Table.Placed` says
where it lies in the drive and nothing of its contents, its load limit or its hash function.

* `Table.scan`: the search through all slots that `lookup` cuts short.
* `lookup_eq_scan`: on an ordered table without two records of one key, `lookup` is `scan`.
* `examined`: consecutive cyclic slots, as reads of the store.
* `insertLoop_traced`, `removeLoop_traced`: what the two unbounded loops read before they stop.
* `probes_end`: with an empty slot in the table, both examine consecutive slots and stop after at
  most `capacity` of them.
-/

namespace OpCartesi.Drive

open Exec RobinHood

namespace Table

variable (P : Platform) (t : Table)

/-- The table lies in a drive of `n` bytes, past its counter, with exact index arithmetic. -/
structure Placed (n : ℕ) : Prop where
  two_le : 2 ≤ t.capacity
  slot : t.liveOff + 20 ≤ t.slotSize
  counter_le : t.countOff + 8 ≤ t.base
  inside : t.base + t.slotSize * t.capacity ≤ n
  exact : n ≤ P.bound
  word : n < 2 ^ 64

/-- The loops do not look at the load limit. -/
def unlimited : Table := { t with limit := 0 }

variable {P t}

theorem Placed.fits {n : ℕ} (hp : t.Placed P n) : t.unlimited.Fits P n where
  two_le := hp.two_le
  limit_lt := Nat.lt_of_lt_of_le Nat.zero_lt_two hp.two_le
  slot := hp.slot
  counter_le := hp.counter_le
  inside := hp.inside
  exact := hp.exact
  word := hp.word

section Unlimited

variable {σ : Type} [Store σ] (g : Geometry)

theorem lookupLoop_unlimited (key : Bytes) (h n : ℕ) : ∀ dist,
    (lookupLoop P g t.unlimited key h n dist : DriveM σ _) = lookupLoop P g t key h n dist := by
  induction n with
  | zero => intro dist; rfl
  | succ n ih =>
    intro dist
    rw [lookupLoop, lookupLoop]
    simp only [ih]
    rfl

theorem lookup_unlimited (key : Bytes) :
    (lookup P t.unlimited key : DriveM σ _) = lookup P t key := by
  simp only [lookup, lookupLoop_unlimited]
  rfl

theorem insertLoop_unlimited (n : ℕ) : ∀ carry h dist,
    (insertLoop P g t.unlimited n carry h dist : DriveM σ _) = insertLoop P g t n carry h dist := by
  induction n with
  | zero => intro carry h dist; rfl
  | succ n ih =>
    intro carry h dist
    rw [insertLoop, insertLoop]
    simp only [ih]
    rfl

theorem removeLoop_unlimited (n : ℕ) : ∀ i,
    (removeLoop P g t.unlimited n i : DriveM σ _) = removeLoop P g t n i := by
  induction n with
  | zero => intro i; rfl
  | succ n ih =>
    intro i
    rw [removeLoop, removeLoop]
    simp only [ih]
    rfl

end Unlimited

variable (t) in
/-- The first slot that holds a record of the key. -/
def scan (img : Image) (key : Bytes) : Option ℕ :=
  (List.range t.capacity).find? fun i =>
    !isZero (sub (t.slots img i) t.liveOff 20) && t.key (t.slots img i) == key

theorem scan_eq_some {img : Image} {key : Bytes} {i : ℕ} (h : t.scan img key = some i) :
    i < t.capacity ∧ isZero (sub (t.slots img i) t.liveOff 20) = false ∧
      t.key (t.slots img i) = key := by
  have hfound := List.find?_some h
  rw [Bool.and_eq_true, Bool.not_eq_true'] at hfound
  exact ⟨List.mem_range.1 (List.mem_of_find?_eq_some h), hfound.1, eq_of_beq hfound.2⟩

theorem scan_eq_none {img : Image} {key : Bytes} (h : t.scan img key = none) {i : ℕ}
    (hi : i < t.capacity) (hlive : isZero (sub (t.slots img i) t.liveOff 20) = false) :
    t.key (t.slots img i) ≠ key := by
  intro hkey
  have hnot := List.find?_eq_none.1 h i (List.mem_range.2 hi)
  rw [hlive, hkey, beq_self_eq_true] at hnot
  exact hnot rfl

end Table

/-! ## Lookups -/

section Lookup

variable {σ : Type} [Store σ] [LawfulStore σ] {P : Platform} {t : Table} {d : Drive σ}

open Table

/-- The library's probe finds what the scan finds, if a key has one record at most. -/
theorem layout_lookup_eq_scan {g : Geometry} {img : Image} (h2 : 2 ≤ t.capacity)
    (ho : (t.layout P g h2).Ordered (t.slots img))
    (hunique : ∀ i < t.capacity, ∀ j < t.capacity,
      isZero (sub (t.slots img i) t.liveOff 20) = false →
      isZero (sub (t.slots img j) t.liveOff 20) = false →
      t.key (t.slots img i) = t.key (t.slots img j) → i = j) (key : Bytes) :
    (t.layout P g h2).lookup (t.slots img) key = t.scan img key := by
  cases hscan : t.scan img key with
  | none =>
    cases hlookup : (t.layout P g h2).lookup (t.slots img) key with
    | none => rfl
    | some i =>
      obtain ⟨hi, hlive, hkey⟩ := Layout.lookup_eq_some hlookup
      exact absurd hkey (scan_eq_none hscan hi ((Bool.not_eq_true' _).mp hlive))
  | some j =>
    obtain ⟨hj, hlivej, hkeyj⟩ := scan_eq_some hscan
    cases hlookup : (t.layout P g h2).lookup (t.slots img) key with
    | none =>
      exact absurd hkeyj (Layout.lookup_eq_none ho hlookup hj ((Bool.not_eq_true' _).mpr hlivej))
    | some i =>
      obtain ⟨hi, hlive, hkey⟩ := Layout.lookup_eq_some hlookup
      rw [hunique i hi j hj ((Bool.not_eq_true' _).mp hlive) hlivej (hkey.trans hkeyj.symm)]

/-- Stopping early loses nothing: on an ordered table in which a key has one record at most,
    `lookup` answers as the scan of the whole table, so it returns the record of the key wherever it
    is, and absent if there is none. -/
theorem lookup_eq_scan (hp : t.Placed P d.size)
    (ho : (t.layout P d.cfg hp.two_le).Ordered (t.slots d.image))
    (hunique : ∀ i < t.capacity, ∀ j < t.capacity,
      isZero (sub (t.slots d.image i) t.liveOff 20) = false →
      isZero (sub (t.slots d.image j) t.liveOff 20) = false →
      t.key (t.slots d.image i) = t.key (t.slots d.image j) → i = j) (key : Bytes) :
    (lookup P t key).run d =
        .ok ((t.scan d.image key).map fun i => (i, t.slots d.image i)) d ∧
      (∀ i < t.capacity, isZero (sub (t.slots d.image i) t.liveOff 20) = false →
        t.key (t.slots d.image i) = key →
        (lookup P t key).run d = .ok (some (i, t.slots d.image i)) d) ∧
      ((∀ i < t.capacity, isZero (sub (t.slots d.image i) t.liveOff 20) = false →
        t.key (t.slots d.image i) ≠ key) → (lookup P t key).run d = .ok none d) := by
  have hrun : (lookup P t key).run d =
      .ok ((t.scan d.image key).map fun i => (i, t.slots d.image i)) d := by
    have hfits := lookup_run hp.fits key
    rw [show t.unlimited.layout P d.cfg hp.fits.two_le = t.layout P d.cfg hp.two_le from rfl,
      show t.unlimited.slots = t.slots from rfl, layout_lookup_eq_scan hp.two_le ho hunique] at hfits
    rwa [lookup_unlimited] at hfits
  refine ⟨hrun, ?_, ?_⟩
  · intro i hi hlive hkey
    cases hscan : t.scan d.image key with
    | none => exact absurd hkey (scan_eq_none hscan hi hlive)
    | some j =>
      obtain ⟨hj, hlivej, hkeyj⟩ := scan_eq_some hscan
      rw [hrun, hscan, hunique i hi j hj hlive hlivej (hkey.trans hkeyj.symm)]
      rfl
  · intro habsent
    cases hscan : t.scan d.image key with
    | none => rw [hrun, hscan]; rfl
    | some j =>
      obtain ⟨hj, hlivej, hkeyj⟩ := scan_eq_some hscan
      exact absurd hkeyj (habsent j hj hlivej)

end Lookup

/-- A table of three slots and a drive that holds nothing else: two records whose keys all hash to
    slot 0, and an empty slot. -/
def probedTable : Table := ⟨8, 3, 20, 0, 2, fun s => sub s 0 20, 0⟩

def probedKey (tag : Byte) : Bytes := tag :: zeros 19

def probedDrive : Drive MemStore where
  store := ⟨68, fun a => if a = 8 then 1 else if a = 28 then 2 else 0⟩
  cfg := ⟨3, 2, [], profileSingleAsset, 20, 8, 0, 0, 0, 0, 0, 0⟩
  tokens := []
  colOff := []

def probedPlatform : Platform := Go.platform fun _ _ => []

theorem probed_placed : probedTable.Placed probedPlatform probedDrive.size where
  two_le := by decide
  slot := by decide
  counter_le := by decide
  inside := by decide
  exact := by decide
  word := by decide

theorem probed_ordered :
    (probedTable.layout probedPlatform probedDrive.cfg probed_placed.two_le).Ordered
      (probedTable.slots probedDrive.image) := by
  unfold Layout.Ordered
  decide +kernel

/-- The second record is one slot from its home, the third key has none. -/
theorem lookup_eq_scan_probed :
    (lookup probedPlatform probedTable (probedKey 2)).run probedDrive =
        .ok (some (1, probedKey 2)) probedDrive ∧
      (lookup probedPlatform probedTable (probedKey 3)).run probedDrive = .ok none probedDrive := by
  have hunique : ∀ i < probedTable.capacity, ∀ j < probedTable.capacity,
      isZero (sub (probedTable.slots probedDrive.image i) probedTable.liveOff 20) = false →
      isZero (sub (probedTable.slots probedDrive.image j) probedTable.liveOff 20) = false →
      probedTable.key (probedTable.slots probedDrive.image i) =
        probedTable.key (probedTable.slots probedDrive.image j) → i = j := by
    decide +kernel
  exact ⟨(lookup_eq_scan probed_placed probed_ordered hunique (probedKey 2)).2.1 1 (by decide)
      (by decide +kernel) (by decide +kernel),
    (lookup_eq_scan probed_placed probed_ordered hunique (probedKey 3)).2.2 (by decide +kernel)⟩

/-! ## Recorded reads and writes -/

section Traced

variable {σ : Type} [Store σ] {d d' : Drive σ} {reads : List (ℕ × ℕ)}

theorem readAt_traced {off n : ℕ} {b : Bytes} (h : (readAt off n).run d = .ok b d') :
    (readAt off n).run (traced d reads) = .ok b (traced d' (reads ++ [(off, n)])) := by
  cases hs : (Store.readAt off n).run d.store with
  | error e s =>
    rw [readAt, zoom_error hs] at h
    cases h
  | ok b' s =>
    rw [readAt, zoom_ok hs] at h
    cases h
    have hstore : (Store.readAt off n).run (⟨d.store, reads⟩ : Traced σ) =
        .ok b ⟨s, reads ++ [(off, n)]⟩ := by
      show ((modify _ >>= _ : EStateM DriveError (Traced σ) Bytes).run _) = _
      rw [bind_ok (modify_run _ _)]
      exact zoom_ok hs
    exact zoom_ok hstore

theorem writeAt_traced {off : ℕ} {p : Bytes} (h : (writeAt off p).run d = .ok () d') :
    (writeAt off p).run (traced d reads) = .ok () (traced d' reads) := by
  cases hs : (Store.writeAt off p).run d.store with
  | error e s =>
    rw [writeAt, zoom_error hs] at h
    cases h
  | ok u s =>
    rw [writeAt, zoom_ok hs] at h
    cases h
    have hstore : (Store.writeAt off p).run (⟨d.store, reads⟩ : Traced σ) = .ok () ⟨s, reads⟩ :=
      zoom_ok hs
    exact zoom_ok hstore

end Traced

/-! ## The unbounded loops -/

section Loops

variable {σ : Type} [Store σ] [LawfulStore σ] {P : Platform} {g : Geometry} {t : Table}
  (reads : List (ℕ × ℕ))

open Table

/-- The reads of `k` slots in a row, cyclically, from slot `i` on. -/
def examined (t : Table) (i k : ℕ) : List (ℕ × ℕ) :=
  (List.range k).map fun j => (t.base + t.slotSize * ((i + j) % t.capacity), t.slotSize)

theorem examined_succ (t : Table) (i k : ℕ) :
    examined t i (k + 1) =
      (t.base + t.slotSize * (i % t.capacity), t.slotSize) :: examined t (i + 1) k := by
  rw [examined, List.range_succ_eq_map, List.map_cons, List.map_map, Nat.add_zero]
  refine congrArg (List.cons _) (List.map_congr_left fun j _ => ?_)
  rw [Function.comp_apply, Nat.succ_eq_add_one, Nat.add_right_comm, Nat.add_assoc]

/-- Where a probe starts matters modulo the capacity only. -/
theorem examined_congr {i j : ℕ} (h : i % t.capacity = j % t.capacity) (k : ℕ) :
    examined t i k = examined t j k := by
  refine List.map_congr_left fun m _ => ?_
  rw [Nat.add_mod, h, ← Nat.add_mod]

/-- The counter update that ends both loops. -/
theorem bumpCount_traced {d : Drive σ} (hf : t.Fits P d.size) (k : ℕ) :
    ∃ d', (do let c ← counter t.countOff
              setCounter t.countOff (c + k) : DriveM (Traced σ) Unit).run (traced d reads) =
      .ok () (traced d' (reads ++ [(t.countOff, 8)])) := by
  have h1 := hf.counter_le
  have h2 := hf.inside
  obtain ⟨d', hrun, -, -⟩ := setCounter_run d t.countOff (t.count d.image + k) (by omega)
  have hread : (counter t.countOff).run (traced d reads) =
      .ok (t.count d.image) (traced d (reads ++ [(t.countOff, 8)])) := by
    rw [counter, bind_ok (readAt_traced (readAt_run (by omega)))]
    rfl
  refine ⟨d', ?_⟩
  rw [bind_ok hread]
  exact writeAt_traced hrun

theorem writeSlot_traced {d : Drive σ} (hf : t.Fits P d.size) {i : ℕ} (hi : i < t.capacity)
    {s : Bytes} (hs : s.length = t.slotSize) :
    ∃ d', (writeSlot P t i s).run (traced d reads) = .ok () (traced d' reads) ∧ Evolves d d' ∧
      t.slots d'.image = Function.update (t.slots d.image) i s := by
  obtain ⟨d', hrun, hev, hslots, -, -⟩ := writeSlot_run hf hi hs
  exact ⟨d', writeAt_traced hrun, hev, hslots⟩

/-- The round that finds an empty slot is the last one. -/
theorem insertLoop_stops {d : Drive σ} (hf : t.Fits P d.size) {carry : Bytes} {h dist : ℕ}
    (hadd : h + dist < P.bound) (hc : carry.length = t.slotSize)
    (hempty : (t.layout P g hf.two_le).live (t.slots d.image ((h + dist) % t.capacity)) = false) :
    ∃ d' : Drive σ, ∀ fuel, 1 ≤ fuel →
      (insertLoop P g t fuel carry h dist).run (traced d reads) =
        .ok () (traced d' (reads ++ examined t (h + dist) 1 ++ [(t.countOff, 8)])) := by
  have h2 := hf.two_le
  have hi : (h + dist) % t.capacity < t.capacity := Nat.mod_lt _ (by omega)
  obtain ⟨d₁, hw, hev, -⟩ := writeSlot_traced (reads ++ examined t (h + dist) 1) hf hi hc
  obtain ⟨d₂, hb⟩ := bumpCount_traced (reads ++ examined t (h + dist) 1) (hev.size ▸ hf) 1
  refine ⟨d₂, fun fuel hfuel => ?_⟩
  obtain ⟨n, rfl⟩ := Nat.exists_eq_add_of_le' hfuel
  have hdead : live P t (t.slots d.image ((h + dist) % t.capacity)) = .ok false := by
    rw [hf.live_eq (g := g) (slots_length hi), hempty]
  rw [insertLoop, P.add_eq hadd]
  refine (bind_ok (readSlot_traced hf hi reads)).trans ?_
  rw [hdead]
  refine (bind_ok (check_ok _ _)).trans ?_
  rw [if_pos rfl]
  exact (bind_ok hw).trans hb

/-- A round that finds a record goes on at the next slot, with the carried record or with the one it
    has swapped out. -/
theorem insertLoop_goes_on {d : Drive σ} (hf : t.Fits P d.size) {carry : Bytes} {h dist : ℕ}
    (hdist : dist < t.capacity) (hh : h < t.capacity) (hc : carry.length = t.slotSize)
    (hlive : (t.layout P g hf.two_le).live (t.slots d.image ((h + dist) % t.capacity)) = true) :
    ∃ (d' : Drive σ) (carry' : Bytes) (h' dist' : ℕ), Evolves d d' ∧
      (∀ j, j ≠ (h + dist) % t.capacity → t.slots d'.image j = t.slots d.image j) ∧
      carry'.length = t.slotSize ∧ h' < t.capacity ∧ dist' ≤ dist + 1 ∧
      (h' + dist') % t.capacity = (h + dist + 1) % t.capacity ∧
      ∀ fuel, (insertLoop P g t (fuel + 1) carry h dist).run (traced d reads) =
        (insertLoop P g t fuel carry' h' dist').run (traced d' (reads ++ examined t (h + dist) 1)) := by
  have h1 := hf.two_mul_le
  have h2 := hf.exact
  have hcap := hf.two_le
  have hi : (h + dist) % t.capacity < t.capacity := Nat.mod_lt _ (by omega)
  set i := (h + dist) % t.capacity with hidef
  set slot := t.slots d.image i with hslot
  have hnext : ∀ x, x % t.capacity = i → (x + 1) % t.capacity = (h + dist + 1) % t.capacity := by
    intro x hx
    rw [Nat.add_mod, hx, hidef, ← Nat.add_mod]
  have hrecord : live P t slot = .ok true := by
    rw [hf.live_eq (g := g) (slots_length hi), hlive]
  have hdisp : displacement P g t slot i = (t.layout P g hf.two_le).disp slot i :=
    hf.displacement_eq slot hi
  by_cases hd : (t.layout P g hf.two_le).disp slot i < dist
  · obtain ⟨d₁, hw, hev, hslots⟩ :=
      writeSlot_traced (reads ++ examined t (h + dist) 1) hf hi hc
    have hhome := (t.layout P g hf.two_le).home_add_disp slot hi
    refine ⟨d₁, slot, home P g (t.key slot) t.capacity,
      (t.layout P g hf.two_le).disp slot i + 1, hev, ?_, slots_length hi, home_lt (by omega),
      by omega, hnext _ hhome, fun fuel => ?_⟩
    · intro j hj
      rw [hslots, Function.update_of_ne hj]
    · rw [insertLoop, P.add_eq (by omega)]
      refine (bind_ok (readSlot_traced hf hi reads)).trans ?_
      rw [← hslot, hrecord]
      refine (bind_ok (check_ok _ _)).trans ?_
      rw [if_neg (by decide), hdisp, if_pos hd]
      exact bind_ok hw
  · refine ⟨d, carry, h, dist + 1, Evolves.refl d, fun _ _ => rfl, hc, hh, le_rfl, rfl,
      fun fuel => ?_⟩
    rw [insertLoop, P.add_eq (by omega)]
    refine (bind_ok (readSlot_traced hf hi reads)).trans ?_
    rw [← hslot, hrecord]
    refine (bind_ok (check_ok _ _)).trans ?_
    rw [if_neg (by decide), hdisp, if_neg hd]
    rfl

/-- A probe at distance `dist` that finds slot `e` empty stops there at the latest. The distance to
    `e` falls by one a round, also when a swap resets the counter; together the two stay below the
    capacity. -/
theorem insertLoop_traced {e : ℕ} (he : e < t.capacity) :
    ∀ {m : ℕ} {d : Drive σ} (hf : t.Fits P d.size) {carry : Bytes} {h dist : ℕ}
      (reads : List (ℕ × ℕ)), (t.layout P g hf.two_le).live (t.slots d.image e) = false →
      (t.layout P g hf.two_le).gap ((h + dist) % t.capacity) e = m → dist + m < t.capacity →
      carry.length = t.slotSize → h < t.capacity →
      ∃ k ≤ m + 1, ∃ d' : Drive σ, ∀ fuel, k ≤ fuel →
        (insertLoop P g t fuel carry h dist).run (traced d reads) =
          .ok () (traced d' (reads ++ examined t (h + dist) k ++ [(t.countOff, 8)])) := by
  intro m
  induction m with
  | zero =>
    intro d hf carry h dist reads hempty hgap hdist hc hh
    have h1 := hf.two_mul_le
    have h2 := hf.exact
    have hi : (h + dist) % t.capacity < t.capacity := Nat.mod_lt _ (by omega)
    rw [← (t.layout P g hf.two_le).eq_of_gap_eq_zero hi he hgap] at hempty
    obtain ⟨d', hstop⟩ := insertLoop_stops reads hf (by omega) hc hempty
    exact ⟨1, le_rfl, d', hstop⟩
  | succ m ih =>
    intro d hf carry h dist reads hempty hgap hdist hc hh
    have h1 := hf.two_mul_le
    have h2 := hf.exact
    have hi : (h + dist) % t.capacity < t.capacity := Nat.mod_lt _ (by omega)
    cases hl : (t.layout P g hf.two_le).live (t.slots d.image ((h + dist) % t.capacity)) with
    | false =>
      obtain ⟨d', hstop⟩ := insertLoop_stops reads hf (by omega) hc hl
      exact ⟨1, by omega, d', hstop⟩
    | true =>
      have hne : (h + dist) % t.capacity ≠ e := by
        intro heq
        rw [heq, hempty] at hl
        cases hl
      obtain ⟨d₁, carry', h', dist', hev, hslots, hc', hh', hdist', hpos, hround⟩ :=
        insertLoop_goes_on reads hf (by omega) hh hc hl
      have hgap' : (t.layout P g hf.two_le).gap ((h' + dist') % t.capacity) e = m := by
        have hnext := (t.layout P g hf.two_le).gap_next hi he hne
        rw [hpos, ← Nat.mod_add_mod]
        exact Nat.succ.inj (hnext.trans hgap)
      obtain ⟨k, hk, d', hrest⟩ := ih (hev.size ▸ hf) (reads ++ examined t (h + dist) 1)
        (by rw [hslots e (Ne.symm hne)]; exact hempty) hgap' (by omega) hc' hh'
      refine ⟨k + 1, by omega, d', fun fuel hfuel => ?_⟩
      obtain ⟨n, rfl⟩ := Nat.exists_eq_add_of_le' (Nat.le_trans (Nat.le_add_left 1 k) hfuel)
      rw [hround, hrest n (by omega), examined_succ t (h + dist) k, examined_congr hpos,
        List.append_assoc reads]
      rfl

/-- The round that finds an empty slot or a record at home is the last one. -/
theorem removeLoop_stops {d : Drive σ} (hf : t.Fits P d.size) {i : ℕ} (hi : i < t.capacity)
    (hstop : (t.layout P g hf.two_le).live (t.slots d.image ((i + 1) % t.capacity)) = false ∨
      (t.layout P g hf.two_le).disp (t.slots d.image ((i + 1) % t.capacity))
        ((i + 1) % t.capacity) = 0) :
    ∃ d' : Drive σ, ∀ fuel, 1 ≤ fuel → (removeLoop P g t fuel i).run (traced d reads) =
      .ok () (traced d' (reads ++ examined t (i + 1) 1 ++ [(t.countOff, 8)])) := by
  have h1 := hf.two_mul_le
  have h2 := hf.exact
  have hj : (i + 1) % t.capacity < t.capacity := Nat.mod_lt _ (by omega)
  obtain ⟨d₁, hw, hev, -⟩ := writeSlot_traced (reads ++ examined t (i + 1) 1) hf hi
    (zeros_length t.slotSize)
  obtain ⟨d₂, hb⟩ :=
    bumpCount_traced (reads ++ examined t (i + 1) 1) (hev.size ▸ hf) (2 ^ 64 - 1)
  refine ⟨d₂, fun fuel hfuel => ?_⟩
  obtain ⟨n, rfl⟩ := Nat.exists_eq_add_of_le' hfuel
  rw [removeLoop, P.add_eq (by omega)]
  refine (bind_ok (readSlot_traced hf hj reads)).trans ?_
  rw [hf.live_eq (g := g) (slots_length hj), hf.displacement_eq (g := g) _ hj]
  refine (bind_ok (check_ok _ _)).trans ?_
  rw [if_pos hstop]
  exact (bind_ok hw).trans hb

/-- Any other round moves the record it finds one slot back. -/
theorem removeLoop_goes_on {d : Drive σ} (hf : t.Fits P d.size) {i : ℕ} (hi : i < t.capacity)
    (hgo : ¬((t.layout P g hf.two_le).live (t.slots d.image ((i + 1) % t.capacity)) = false ∨
      (t.layout P g hf.two_le).disp (t.slots d.image ((i + 1) % t.capacity))
        ((i + 1) % t.capacity) = 0)) :
    ∃ d' : Drive σ, Evolves d d' ∧ (∀ j, j ≠ i → t.slots d'.image j = t.slots d.image j) ∧
      ∀ fuel, (removeLoop P g t (fuel + 1) i).run (traced d reads) =
        (removeLoop P g t fuel ((i + 1) % t.capacity)).run
          (traced d' (reads ++ examined t (i + 1) 1)) := by
  have h1 := hf.two_mul_le
  have h2 := hf.exact
  have hj : (i + 1) % t.capacity < t.capacity := Nat.mod_lt _ (by omega)
  obtain ⟨d₁, hw, hev, hslots⟩ := writeSlot_traced (reads ++ examined t (i + 1) 1) hf hi
    (slots_length hj)
  refine ⟨d₁, hev, fun j hji => by rw [hslots, Function.update_of_ne hji], fun fuel => ?_⟩
  rw [removeLoop, P.add_eq (by omega)]
  refine (bind_ok (readSlot_traced hf hj reads)).trans ?_
  rw [hf.live_eq (g := g) (slots_length hj), hf.displacement_eq (g := g) _ hj]
  refine (bind_ok (check_ok _ _)).trans ?_
  rw [if_neg hgo]
  exact bind_ok hw

/-- A shift into slot `i` stops before an empty slot at the latest. -/
theorem removeLoop_traced {e : ℕ} (he : e < t.capacity) :
    ∀ {m : ℕ} {d : Drive σ} (hf : t.Fits P d.size) {i : ℕ} (reads : List (ℕ × ℕ)),
      (t.layout P g hf.two_le).live (t.slots d.image e) = false → i < t.capacity →
      (t.layout P g hf.two_le).gap i e = m + 1 →
      ∃ k ≤ m + 1, ∃ d' : Drive σ, ∀ fuel, k ≤ fuel →
        (removeLoop P g t fuel i).run (traced d reads) =
          .ok () (traced d' (reads ++ examined t (i + 1) k ++ [(t.countOff, 8)])) := by
  intro m
  induction m with
  | zero =>
    intro d hf i reads hempty hi hgap
    have hne := (t.layout P g hf.two_le).ne_of_gap_eq_succ hgap
    have hnext := (t.layout P g hf.two_le).gap_next hi he hne
    rw [hgap, Nat.add_eq_right] at hnext
    have hje := (t.layout P g hf.two_le).eq_of_gap_eq_zero (Layout.next_lt _ i) he hnext
    obtain ⟨d', hstop⟩ := removeLoop_stops reads hf hi
      (Or.inl ((congrArg (fun j => (t.layout P g hf.two_le).live (t.slots d.image j)) hje).trans hempty))
    exact ⟨1, le_rfl, d', hstop⟩
  | succ m ih =>
    intro d hf i reads hempty hi hgap
    by_cases hstop : (t.layout P g hf.two_le).live (t.slots d.image ((i + 1) % t.capacity)) = false ∨
        (t.layout P g hf.two_le).disp (t.slots d.image ((i + 1) % t.capacity))
          ((i + 1) % t.capacity) = 0
    · obtain ⟨d', hlast⟩ := removeLoop_stops reads hf hi hstop
      exact ⟨1, by omega, d', hlast⟩
    · have hne := (t.layout P g hf.two_le).ne_of_gap_eq_succ hgap
      have hnext := (t.layout P g hf.two_le).gap_next hi he hne
      obtain ⟨d₁, hev, hslots, hround⟩ := removeLoop_goes_on reads hf hi hstop
      obtain ⟨k, hk, d', hrest⟩ := ih (hev.size ▸ hf) (reads ++ examined t (i + 1) 1)
        (by rw [hslots e (Ne.symm hne)]; exact hempty) (Layout.next_lt _ i)
        (Nat.succ.inj (hnext.trans hgap))
      refine ⟨k + 1, by omega, d', fun fuel hfuel => ?_⟩
      obtain ⟨n, rfl⟩ := Nat.exists_eq_add_of_le' (Nat.le_trans (Nat.le_add_left 1 k) hfuel)
      rw [hround]
      refine (hrest n (by omega)).trans ?_
      have hsame := examined_congr (t := t) (Nat.mod_add_mod (i + 1) t.capacity 1) k
      rw [examined_succ t (i + 1) k, ← hsame, List.append_assoc reads]
      rfl

/-- The unbounded loops end. In a table with an empty slot, whatever it contains and whatever the
    hash is, `insert` examines consecutive cyclic slots from the record's home on, also across swaps,
    and `remove` of a record the slots that follow it; both stop after at most `capacity` rounds. -/
theorem probes_end {d : Drive σ} (hp : t.Placed P d.size) {e : ℕ} (he : e < t.capacity)
    (hempty : isZero (sub (t.slots d.image e) t.liveOff 20) = true) :
    (∀ record : Bytes, record.length = t.slotSize → ∃ k ≤ t.capacity, ∃ d' : Drive σ,
      (∀ fuel, k ≤ fuel → (insertLoop P d.cfg t fuel record
          (home P d.cfg (t.key record) t.capacity) 0).run (traced d []) =
        .ok () (traced d' (examined t (home P d.cfg (t.key record) t.capacity) k ++
          [(t.countOff, 8)]))) ∧
      (insert P t record).run (traced d []) =
        .ok () (traced d' (examined t (home P d.cfg (t.key record) t.capacity) k ++
          [(t.countOff, 8)]))) ∧
    (∀ i < t.capacity, isZero (sub (t.slots d.image i) t.liveOff 20) = false →
      ∃ k ≤ t.capacity, ∃ d' : Drive σ,
        (∀ fuel, k ≤ fuel → (removeLoop P d.cfg t fuel i).run (traced d []) =
          .ok () (traced d' (examined t (i + 1) k ++ [(t.countOff, 8)]))) ∧
        (remove P t i).run (traced d []) =
          .ok () (traced d' (examined t (i + 1) k ++ [(t.countOff, 8)]))) := by
  have hf := hp.fits
  have h2 := hp.two_le
  have hdead : (t.unlimited.layout P d.cfg hf.two_le).live (t.unlimited.slots d.image e) = false :=
    (congrArg not hempty).trans rfl
  refine ⟨fun record hrecord => ?_, fun i hi hlive => ?_⟩
  · have hhome : home P d.cfg (t.key record) t.capacity < t.capacity := home_lt (by omega)
    have hgap := (t.unlimited.layout P d.cfg hf.two_le).gap_lt (i := (home P d.cfg (t.key record)
      t.capacity + 0) % t.capacity) (Nat.mod_lt _ (by omega)) he
    obtain ⟨k, hk, d', hrun⟩ := insertLoop_traced (t := t.unlimited) he hf [] hdead rfl
      ((Nat.zero_add _).trans_lt hgap) hrecord hhome
    have hloop : ∀ fuel, k ≤ fuel → (insertLoop P d.cfg t fuel record
        (home P d.cfg (t.key record) t.capacity) 0).run (traced d []) =
        .ok () (traced d' (examined t (home P d.cfg (t.key record) t.capacity) k ++
          [(t.countOff, 8)])) := by
      intro fuel hfuel
      rw [← insertLoop_unlimited]
      exact hrun fuel hfuel
    exact ⟨k, hk.trans hgap, d', hloop, hloop t.capacity (hk.trans hgap)⟩
  · have hne : i ≠ e := by
      rintro rfl
      rw [hempty] at hlive
      cases hlive
    have hnext := (t.unlimited.layout P d.cfg hf.two_le).gap_next hi he hne
    have hgap := (t.unlimited.layout P d.cfg hf.two_le).gap_lt hi he
    obtain ⟨k, hk, d', hrun⟩ := removeLoop_traced (t := t.unlimited) he hf [] hdead hi
      hnext.symm
    rw [hnext] at hk
    have hloop : ∀ fuel, k ≤ fuel → (removeLoop P d.cfg t fuel i).run (traced d []) =
        .ok () (traced d' (examined t (i + 1) k ++ [(t.countOff, 8)])) := by
      intro fuel hfuel
      rw [← removeLoop_unlimited]
      exact hrun fuel hfuel
    exact ⟨k, hk.trans hgap.le, d', hloop, hloop t.capacity (hk.trans hgap.le)⟩

end Loops

/-- Inserting a third record of home 0, and removing the first. -/
theorem probes_end_probed :
    (∃ k ≤ 3, ∃ d' : Drive MemStore,
      (insert probedPlatform probedTable (probedKey 3)).run (traced probedDrive []) =
        .ok () (traced d' (examined probedTable 0 k ++ [(0, 8)]))) ∧
    (∃ k ≤ 3, ∃ d' : Drive MemStore,
      (remove probedPlatform probedTable 0).run (traced probedDrive []) =
        .ok () (traced d' (examined probedTable 1 k ++ [(0, 8)]))) := by
  have hempty : isZero (sub (probedTable.slots probedDrive.image 2) probedTable.liveOff 20) =
      true := by decide +kernel
  have hends := probes_end probed_placed (e := 2) (by decide) hempty
  obtain ⟨k, hk, d', -, hinsert⟩ := hends.1 (probedKey 3) rfl
  obtain ⟨k', hk', d'', -, hremove⟩ := hends.2 0 (by decide) (by decide +kernel)
  exact ⟨⟨k, hk, d', hinsert⟩, ⟨k', hk', d'', hremove⟩⟩

end OpCartesi.Drive
