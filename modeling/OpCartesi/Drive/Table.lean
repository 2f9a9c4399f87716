import OpCartesi.Drive.Basic
import OpCartesi.RobinHood.Ops

/-!
# The drive's hash tables are Robin Hood tables

The probing loops of the drive read and write slots of a byte image. Over a lawful
store whose table region lies within bounds they compute what the loops of
`OpCartesi.RobinHood` compute on the function `slots t img` from slot indices to
slot bytes. `Table.Ok` is the representation invariant of one table:

* `lookup_run`: a lookup returns the record the table holds under the key.
* `insert_run`, `update_run`, `remove_run`: each write operation keeps
  `Table.Ok`, changes the record under one key, moves the counter with the
  contents, and touches no byte outside the table and its counter.
-/

namespace OpCartesi.Drive

open Exec RobinHood

/-! ## Runs of the store primitives -/

/-- The store reads as the first `n` bytes of an image, whatever it does with writes. -/
def ReadsAs {σ : Type} [Store σ] (s : σ) (img : Image) (n : ℕ) : Prop :=
  ∀ off k, off + k ≤ n → (Store.readAt off k).run s = .ok (slice img off k) s

theorem readAt_reads {σ : Type} [Store σ] {d : Drive σ} {img : Image} {n : ℕ}
    (hr : ReadsAs d.store img n) {off k : ℕ} (h : off + k ≤ n) :
    (readAt off k).run d = .ok (slice img off k) d := by
  rw [readAt, zoom_ok (hr off k h)]

theorem counter_reads {σ : Type} [Store σ] {d : Drive σ} {img : Image} {n : ℕ}
    (hr : ReadsAs d.store img n) {off : ℕ} (h : off + 8 ≤ n) :
    (counter off).run d = .ok (leNat (slice img off 8)) d := by
  rw [counter, bind_ok (readAt_reads hr h)]
  rfl

section Runs

variable {σ : Type} [Store σ] [LawfulStore σ]

theorem readsAs (s : σ) : ReadsAs s (LawfulStore.image s) (LawfulStore.size s) :=
  fun _ _ h => LawfulStore.readAt_eq h

def image (d : Drive σ) : Image := LawfulStore.image d.store
def size (d : Drive σ) : ℕ := LawfulStore.size d.store

/-- `d'` is a later state of the drive `d` with the same caches. -/
structure Evolves (d d' : Drive σ) : Prop where
  cfg : d'.cfg = d.cfg
  tokens : d'.tokens = d.tokens
  colOff : d'.colOff = d.colOff
  size : d'.size = d.size
  store : LawfulStore.Extends d.store d'.store

theorem Evolves.refl (d : Drive σ) : Evolves d d :=
  ⟨rfl, rfl, rfl, rfl, LawfulStore.extends_refl _⟩

theorem Evolves.trans {d d' d'' : Drive σ} (h : Evolves d d') (h' : Evolves d' d'') :
    Evolves d d'' :=
  ⟨h'.cfg.trans h.cfg, h'.tokens.trans h.tokens, h'.colOff.trans h.colOff, h'.size.trans h.size,
    LawfulStore.extends_trans h.store h'.store⟩

theorem readAt_run {d : Drive σ} {off n : ℕ} (h : off + n ≤ d.size) :
    (readAt off n).run d = .ok (slice d.image off n) d :=
  readAt_reads (readsAs d.store) h

theorem writeAt_run (d : Drive σ) (off : ℕ) (p : Bytes) (h : off + p.length ≤ d.size) :
    ∃ d', (writeAt off p).run d = .ok () d' ∧ Evolves d d' ∧ d'.image = blit d.image off p := by
  obtain ⟨s, hs, himg, hsize, hext⟩ := LawfulStore.writeAt_eq h
  exact ⟨{ d with store := s }, by rw [writeAt, zoom_ok hs],
    ⟨rfl, rfl, rfl, hsize, hext⟩, himg⟩

theorem counter_run {d : Drive σ} {off : ℕ} (h : off + 8 ≤ d.size) :
    (counter off).run d = .ok (leNat (slice d.image off 8)) d :=
  counter_reads (readsAs d.store) h

theorem setCounter_run (d : Drive σ) (off v : ℕ) (h : off + 8 ≤ d.size) :
    ∃ d', (setCounter off v).run d = .ok () d' ∧ Evolves d d' ∧
      d'.image = blit d.image off (leBytes 8 v) :=
  writeAt_run d off _ (by simpa using h)

end Runs

/-! ## A table in an image -/

theorem home_lt {P : Platform} {g : Geometry} {key : Bytes} {capacity : ℕ} (h : 0 < capacity) :
    home P g key capacity < capacity := Nat.mod_lt _ h

namespace Table

variable (P : Platform) (g : Geometry) (t : Table)

/-- The table as a Robin Hood layout. -/
abbrev layout (h : 2 ≤ t.capacity) : Layout Bytes Bytes where
  cap := t.capacity
  live s := !isZero (sub s t.liveOff 20)
  key := t.key
  home k := Drive.home P g k t.capacity
  empty := zeros t.slotSize
  two_le_cap := h
  home_lt _ := Nat.mod_lt _ (by omega)
  live_empty := by simp [sub, zeros, isZero]

/-- The bytes of slot `i`. -/
def slots (img : Image) (i : ℕ) : Bytes :=
  if i < t.capacity then slice img (t.base + t.slotSize * i) t.slotSize else []

/-- The live counter. -/
def count (img : Image) : ℕ := leNat (slice img t.countOff 8)

/-- The table lies in a drive of `n` bytes, past its counter, with exact index arithmetic. -/
structure Fits (n : ℕ) : Prop where
  two_le : 2 ≤ t.capacity
  limit_lt : t.limit < t.capacity
  slot : t.liveOff + 20 ≤ t.slotSize
  counter_le : t.countOff + 8 ≤ t.base
  inside : t.base + t.slotSize * t.capacity ≤ n
  exact : n ≤ P.bound
  word : n < 2 ^ 64

/-- `img'` differs from `img` in the table and its counter only. -/
def Frame (img img' : Image) : Prop :=
  ∀ a, (a < t.base ∨ t.base + t.slotSize * t.capacity ≤ a) →
    (a < t.countOff ∨ t.countOff + 8 ≤ a) → img' a = img a

variable {P g t}
theorem Frame.trans {img img' img'' : Image} (h : t.Frame img img') (h' : t.Frame img' img'') :
    t.Frame img img'' := fun a ha hc => (h' a ha hc).trans (h a ha hc)

/-- A range clear of the table and its counter reads the same. -/
theorem Frame.slice {img img' : Image} (h : t.Frame img img') {lo n : ℕ}
    (ht : lo + n ≤ t.base ∨ t.base + t.slotSize * t.capacity ≤ lo)
    (hc : lo + n ≤ t.countOff ∨ t.countOff + 8 ≤ lo) :
    slice img' lo n = slice img lo n := by
  refine slice_congr fun a h1 h2 => h a ?_ ?_ <;> omega

theorem slots_length {img : Image} {i : ℕ} (h : i < t.capacity) :
    (t.slots img i).length = t.slotSize := by
  rw [slots, if_pos h, slice_length]

theorem slot_inside {i : ℕ} (hi : i < t.capacity) :
    t.base + t.slotSize * i + t.slotSize ≤ t.base + t.slotSize * t.capacity := by
  have : t.slotSize * (i + 1) ≤ t.slotSize * t.capacity := Nat.mul_le_mul_left _ hi
  rw [Nat.mul_succ] at this
  omega

/-- Writing a slot is updating the function of slots. -/
theorem slots_blit (img : Image) {i : ℕ} (hi : i < t.capacity) {s : Bytes}
    (hs : s.length = t.slotSize) :
    t.slots (blit img (t.base + t.slotSize * i) s) = Function.update (t.slots img) i s := by
  funext j
  by_cases hj : j < t.capacity
  · rw [slots, if_pos hj]
    by_cases hji : j = i
    · subst hji
      rw [Function.update_self, ← hs, slice_blit_self]
    · rw [Function.update_of_ne hji, slots, if_pos hj]
      refine slice_blit_disjoint ?_
      rw [hs]
      rcases Nat.lt_or_gt_of_ne hji with h | h
      · have := Nat.mul_le_mul_left t.slotSize (Nat.succ_le_of_lt h)
        rw [Nat.mul_succ] at this
        omega
      · have := Nat.mul_le_mul_left t.slotSize (Nat.succ_le_of_lt h)
        rw [Nat.mul_succ] at this
        omega
  · rw [Function.update_of_ne (by omega), slots, if_neg hj, slots, if_neg hj]

theorem frame_blit (img : Image) {i : ℕ} (hi : i < t.capacity) {s : Bytes}
    (hs : s.length = t.slotSize) :
    t.Frame img (blit img (t.base + t.slotSize * i) s) := by
  intro a ha _
  have := slot_inside hi
  exact blit_outside (by omega)

theorem count_blit_count (img : Image) (v : ℕ) :
    t.count (blit img t.countOff (leBytes 8 v)) = v % 2 ^ 64 := by
  have h := slice_blit_self img t.countOff (leBytes 8 v)
  rw [leBytes_length] at h
  rw [count, h, leNat_leBytes]
  norm_num

theorem frame_blit_count (img : Image) (v : ℕ) :
    t.Frame img (blit img t.countOff (leBytes 8 v)) := by
  intro a _ ha
  exact blit_outside (by rw [leBytes_length]; omega)

namespace Fits

variable {n : ℕ} (hf : t.Fits P n)

include hf

theorem two_mul_le : 2 * t.capacity ≤ n := by
  have h1 : 2 * t.capacity ≤ t.slotSize * t.capacity :=
    Nat.mul_le_mul_right _ (by have := hf.slot; omega)
  have := hf.inside
  omega

theorem offset_eq {i : ℕ} (hi : i < t.capacity) :
    P.add t.base (P.mul t.slotSize i) = t.base + t.slotSize * i := by
  have h1 := slot_inside hi
  have h2 := hf.inside
  have h3 := hf.exact
  have h4 := hf.slot
  rw [P.mul_eq (by omega), P.add_eq (by omega)]

theorem displacement_eq (s : Bytes) {i : ℕ} (hi : i < t.capacity) :
    displacement P g t s i = (t.layout P g hf.two_le).disp s i := by
  have h1 := hf.two_mul_le
  have h2 := hf.exact
  have h3 : home P g (t.key s) t.capacity < t.capacity :=
    home_lt (by have := hf.two_le; omega)
  rw [displacement, P.add_eq (by omega), P.sub_eq (by omega) (by omega)]
  rfl

theorem live_eq {s : Bytes} (hs : s.length = t.slotSize) :
    Drive.live P t s = .ok ((t.layout P g hf.two_le).live s) := by
  rw [Drive.live, P.slice_eq (by rw [hs]; exact hf.slot)]
  rfl

theorem count_blit (img : Image) {i : ℕ} (s : Bytes) :
    t.count (blit img (t.base + t.slotSize * i) s) = t.count img := by
  have := hf.counter_le
  rw [count, slice_blit_disjoint (by omega), count]

/-- Writing the counter leaves the slots. -/
theorem slots_blit_count (img : Image) (v : ℕ) :
    t.slots (blit img t.countOff (leBytes 8 v)) = t.slots img := by
  have := hf.counter_le
  funext j
  simp only [slots]
  split_ifs with hj
  · exact slice_blit_disjoint (by rw [leBytes_length]; omega)
  · rfl

end Fits

end Table

/-! ## The loops -/

section Reads

variable {σ : Type} [Store σ] {P : Platform} {g : Geometry} {t : Table} {d : Drive σ} {img : Image}
  {size : ℕ}

open Table

theorem readSlot_reads (hr : ReadsAs d.store img size) (hf : t.Fits P size) {i : ℕ}
    (hi : i < t.capacity) : (readSlot P t i).run d = .ok (t.slots img i) d := by
  have h1 := slot_inside hi
  have h2 := hf.inside
  rw [readSlot, hf.offset_eq hi, readAt_reads hr (by omega), slots, if_pos hi]

/-- A lookup needs the slots it examines and no others. -/
theorem lookupLoop_serves (hf : t.Fits P size) {key : Bytes} {h : ℕ} (hh : h < t.capacity) :
    ∀ {n dist : ℕ}, dist + n ≤ t.capacity →
      (∀ j, dist ≤ j → j < dist + (t.layout P g hf.two_le).walk (t.slots img) key h n dist →
        (readSlot P t ((h + j) % t.capacity)).run d = .ok (t.slots img ((h + j) % t.capacity)) d) →
      (lookupLoop P g t key h n dist).run d =
        .ok (((t.layout P g hf.two_le).lookupLoop (t.slots img) key h n dist).map
          fun i => (i, t.slots img i)) d := by
  have h1 := hf.two_mul_le
  have h2 := hf.exact
  intro n
  induction n with
  | zero => intro dist _ _; rfl
  | succ n ih =>
    intro dist hd hserve
    have hi : (h + dist) % t.capacity < t.capacity := Nat.mod_lt _ (by omega)
    have hfirst := hserve dist le_rfl
      (Nat.lt_add_of_pos_right (Layout.walk_pos _ _ _ _ (Nat.succ_pos n)))
    rw [lookupLoop, Layout.lookupLoop, P.add_eq (by omega)]
    simp only [bind_ok hfirst, hf.live_eq (g := g) (slots_length hi), bind_ok (check_ok _ d),
      hf.displacement_eq (g := g) _ hi]
    split_ifs with hl hk hdisp
    · rfl
    · rfl
    · rfl
    · rw [Layout.walk, if_neg (by exact hl), if_neg (by exact hk), if_neg (by exact hdisp)] at hserve
      exact ih (by omega) fun j h3 h4 => hserve j (by omega) (by omega)

theorem lookup_serves (hf : t.Fits P size) {key : Bytes}
    (hserve : ∀ j < (t.layout P d.cfg hf.two_le).walk (t.slots img) key
        (home P d.cfg key t.capacity) t.capacity 0,
      (readSlot P t ((home P d.cfg key t.capacity + j) % t.capacity)).run d =
        .ok (t.slots img ((home P d.cfg key t.capacity + j) % t.capacity)) d) :
    (lookup P t key).run d =
      .ok (((t.layout P d.cfg hf.two_le).lookup (t.slots img) key).map
        fun i => (i, t.slots img i)) d := by
  have h1 := hf.two_le
  rw [lookup, bind_ok (get_run d), if_neg (by omega)]
  exact lookupLoop_serves hf (home_lt (by omega)) (by omega) fun j _ hj => hserve j (by omega)

end Reads

section Loops

variable {σ : Type} [Store σ] [LawfulStore σ] {P : Platform} {g : Geometry} {t : Table}

open Table

theorem readSlot_run {d : Drive σ} (hf : t.Fits P d.size) {i : ℕ} (hi : i < t.capacity) :
    (readSlot P t i).run d = .ok (t.slots d.image i) d :=
  readSlot_reads (readsAs d.store) hf hi

theorem writeSlot_run {d : Drive σ} (hf : t.Fits P d.size) {i : ℕ} (hi : i < t.capacity)
    {s : Bytes} (hs : s.length = t.slotSize) :
    ∃ d', (writeSlot P t i s).run d = .ok () d' ∧ Evolves d d' ∧
      t.slots d'.image = Function.update (t.slots d.image) i s ∧
      t.count d'.image = t.count d.image ∧ t.Frame d.image d'.image := by
  have h1 := slot_inside hi
  have h2 := hf.inside
  obtain ⟨d', hrun, hev, himg⟩ := writeAt_run d (t.base + t.slotSize * i) s (by omega)
  refine ⟨d', ?_, hev, ?_, ?_, ?_⟩
  · rw [writeSlot, hf.offset_eq hi, hrun]
  · rw [himg, slots_blit _ hi hs]
  · rw [himg, hf.count_blit]
  · rw [himg]
    exact frame_blit _ hi hs

/-- The counter update that ends the insertion and deletion loops. -/
theorem bumpCount_run {d : Drive σ} (hf : t.Fits P d.size) (k : ℕ) :
    ∃ d', (do let c ← counter t.countOff
              setCounter t.countOff (c + k) : DriveM σ Unit).run d = .ok () d' ∧ Evolves d d' ∧
      t.slots d'.image = t.slots d.image ∧
      t.count d'.image = (t.count d.image + k) % 2 ^ 64 ∧ t.Frame d.image d'.image := by
  have h1 := hf.counter_le
  have h2 := hf.inside
  obtain ⟨d', hrun, hev, himg⟩ := setCounter_run d t.countOff
    (t.count d.image + k) (by omega)
  refine ⟨d', ?_, hev, ?_, ?_, ?_⟩
  · rw [bind_ok (counter_run (by omega)), ← hrun]
    rfl
  · rw [himg, hf.slots_blit_count]
  · rw [himg, count_blit_count]
  · rw [himg]
    exact frame_blit_count _ _

/-- `lookup` returns the slot the library's lookup finds, and its bytes. -/
theorem lookup_run {d : Drive σ} (hf : t.Fits P d.size) (key : Bytes) :
    (lookup P t key).run d =
      .ok (((t.layout P d.cfg hf.two_le).lookup (t.slots d.image) key).map
        fun i => (i, t.slots d.image i)) d :=
  lookup_serves hf fun _ _ => readSlot_run hf (Nat.mod_lt _ (by have := hf.two_le; omega))

theorem insertLoop_run :
    ∀ {n : ℕ} {d : Drive σ} (hf : t.Fits P d.size) {carry : Bytes} {h dist : ℕ} {T' : ℕ → Bytes},
      carry.length = t.slotSize → h < t.capacity → dist + n ≤ t.capacity →
      (t.layout P g hf.two_le).insertLoop n (t.slots d.image) carry h dist = some T' →
      ∃ d', (insertLoop P g t n carry h dist).run d = .ok () d' ∧ Evolves d d' ∧
        t.slots d'.image = T' ∧ t.count d'.image = (t.count d.image + 1) % 2 ^ 64 ∧
        t.Frame d.image d'.image := by
  intro n
  induction n with
  | zero => intro d hf carry h dist T' _ _ _ hT; simp [Layout.insertLoop] at hT
  | succ n ih =>
    intro d hf carry h dist T' hc hh hd hT
    have h1 := hf.two_mul_le
    have h2 := hf.exact
    have hi : (h + dist) % t.capacity < t.capacity := Nat.mod_lt _ (by omega)
    obtain ⟨d₁, hw, hev₁, hs₁, hn₁, hfr₁⟩ := writeSlot_run hf hi hc
    rw [Layout.insertLoop] at hT
    rw [insertLoop, P.add_eq (by omega)]
    simp only [bind_ok (readSlot_run hf hi), hf.live_eq (g := g) (slots_length hi),
      bind_ok (check_ok _ d), hf.displacement_eq (g := g) _ hi]
    simp only [← hs₁] at hT
    split_ifs at hT ⊢ with hl hdisp
    · -- an empty slot takes the carried record
      obtain ⟨d₂, hb, hev₂, hs₂, hn₂, hfr₂⟩ := bumpCount_run (hev₁.size ▸ hf) 1
      refine ⟨d₂, by rw [bind_ok hw, hb], hev₁.trans hev₂, ?_, by rw [hn₂, hn₁], hfr₁.trans hfr₂⟩
      rw [hs₂]
      exact Option.some.inj hT
    · -- a richer record is swapped out and carried on
      obtain ⟨d₂, hrun, hev₂, hs₂, hn₂, hfr₂⟩ := ih (hev₁.size ▸ hf) (slots_length hi)
        (home_lt (by omega)) (by omega) hT
      exact ⟨d₂, by rw [bind_ok hw, hrun], hev₁.trans hev₂, hs₂, by rw [hn₂, hn₁], hfr₁.trans hfr₂⟩
    · exact ih hf hc hh (by omega) hT

theorem removeLoop_run :
    ∀ {n : ℕ} {d : Drive σ} (hf : t.Fits P d.size) {i : ℕ} {T' : ℕ → Bytes}, i < t.capacity →
      (t.layout P g hf.two_le).removeLoop n (t.slots d.image) i = some T' →
      ∃ d', (removeLoop P g t n i).run d = .ok () d' ∧ Evolves d d' ∧ t.slots d'.image = T' ∧
        t.count d'.image = (t.count d.image + (2 ^ 64 - 1)) % 2 ^ 64 ∧
        t.Frame d.image d'.image := by
  intro n
  induction n with
  | zero => intro d hf i T' _ hT; simp [Layout.removeLoop] at hT
  | succ n ih =>
    intro d hf i T' hi hT
    have h1 := hf.two_mul_le
    have h2 := hf.exact
    have hj : (i + 1) % t.capacity < t.capacity := Nat.mod_lt _ (by omega)
    rw [Layout.removeLoop, show Layout.next _ i = (i + 1) % t.capacity from rfl] at hT
    rw [removeLoop, P.add_eq (by omega)]
    simp only [bind_ok (readSlot_run hf hj), hf.live_eq (g := g) (slots_length hj),
      bind_ok (check_ok _ d), hf.displacement_eq (g := g) _ hj]
    split_ifs at hT ⊢ with hstop
    · obtain ⟨d₁, hw, hev₁, hs₁, hn₁, hfr₁⟩ := writeSlot_run hf hi (zeros_length t.slotSize)
      obtain ⟨d₂, hb, hev₂, hs₂, hn₂, hfr₂⟩ := bumpCount_run (hev₁.size ▸ hf) (2 ^ 64 - 1)
      refine ⟨d₂, by rw [bind_ok hw, hb], hev₁.trans hev₂, ?_, by rw [hn₂, hn₁],
        hfr₁.trans hfr₂⟩
      rw [hs₂, hs₁]
      exact Option.some.inj hT
    · obtain ⟨d₁, hw, hev₁, hs₁, hn₁, hfr₁⟩ := writeSlot_run hf hi (slots_length hj)
      rw [← hs₁] at hT
      obtain ⟨d₂, hrun, hev₂, hs₂, hn₂, hfr₂⟩ := ih (hev₁.size ▸ hf) hj hT
      exact ⟨d₂, by rw [bind_ok hw, hrun], hev₁.trans hev₂, hs₂, by rw [hn₂, hn₁],
        hfr₁.trans hfr₂⟩

end Loops

/-! ## The representation invariant -/

namespace Table

variable (P : Platform) (g : Geometry) (t : Table) (h2 : 2 ≤ t.capacity)

/-- The table of an image is well formed, and its counter counts its records. -/
structure Ok (img : Image) : Prop where
  good : (t.layout P g h2).Good (t.slots img)
  count : t.count img = Multiset.card ((t.layout P g h2).contents (t.slots img))
  le_limit : t.count img ≤ t.limit

/-- The record a table holds under a key. -/
def find (img : Image) (key : Bytes) : Option Bytes := (t.layout P g h2).find (t.slots img) key

/-- One write operation: the drive's table is well formed again, holds `r` under `k` and
    what it held under every other key, and nothing else has changed. -/
structure Step {σ : Type} [Store σ] [LawfulStore σ] (d d' : Drive σ) (k : Bytes)
    (r : Option Bytes) : Prop where
  evolves : Evolves d d'
  frame : t.Frame d.image d'.image
  ok : t.Ok P g h2 d'.image
  find : ∀ k', t.find P g h2 d'.image k' = if k = k' then r else t.find P g h2 d.image k'

end Table

section Steps

variable {σ : Type} [Store σ] [LawfulStore σ] {P : Platform} {t : Table} {d : Drive σ}

open Table

theorem Table.Ok.congr {g : Geometry} {h2 : 2 ≤ t.capacity} {img img' : Image}
    (hok : t.Ok P g h2 img) (hs : t.slots img' = t.slots img) (hc : t.count img' = t.count img) :
    t.Ok P g h2 img' := by
  refine ⟨?_, ?_, ?_⟩
  · rw [hs]; exact hok.good
  · rw [hs, hc]; exact hok.count
  · rw [hc]; exact hok.le_limit

theorem Table.Ok.card_lt (hf : t.Fits P d.size) (hok : t.Ok P d.cfg hf.two_le d.image) :
    Multiset.card ((t.layout P d.cfg hf.two_le).contents (t.slots d.image)) < t.capacity := by
  have h1 := hok.count
  have h2 := hok.le_limit
  have h3 := hf.limit_lt
  omega

/-- A lookup finds the record under the key, at its slot. -/
theorem lookup_cases (hf : t.Fits P d.size) (key : Bytes) :
    (t.find P d.cfg hf.two_le d.image key = none ∧ (lookup P t key).run d = .ok none d) ∨
    ∃ i s, t.find P d.cfg hf.two_le d.image key = some s ∧
      (lookup P t key).run d = .ok (some (i, s)) d ∧ i < t.capacity ∧ t.slots d.image i = s ∧
      (t.layout P d.cfg hf.two_le).live s = true ∧ t.key s = key := by
  have hrun := lookup_run hf key
  rw [Table.find, Layout.find]
  cases hl : (t.layout P d.cfg hf.two_le).lookup (t.slots d.image) key with
  | none =>
    rw [hl] at hrun
    exact Or.inl ⟨rfl, hrun⟩
  | some i =>
    rw [hl] at hrun
    obtain ⟨hi, hlive, hkey⟩ := Layout.lookup_eq_some hl
    exact Or.inr ⟨i, _, rfl, hrun, hi, rfl, hlive, hkey⟩

theorem insert_run (hf : t.Fits P d.size) (hok : t.Ok P d.cfg hf.two_le d.image) {s : Bytes}
    (hs : s.length = t.slotSize) (hlive : (t.layout P d.cfg hf.two_le).live s = true)
    (habsent : t.find P d.cfg hf.two_le d.image (t.key s) = none)
    (hroom : t.count d.image < t.limit) :
    ∃ d', (insert P t s).run d = .ok () d' ∧
      t.Step P d.cfg hf.two_le d d' (t.key s) (some s) := by
  have hcap := hf.two_mul_le
  have hword := hf.word
  have hlim := hf.limit_lt
  have h2 := hf.two_le
  obtain ⟨T', hins, hgood, hcont⟩ := hok.good.insert hlive
    (hok.good.find_eq_none_iff.1 habsent) (hok.card_lt hf)
  obtain ⟨d', hrun, hev, hs', hc', hfr⟩ :=
    insertLoop_run hf hs (home_lt (by omega)) (Nat.zero_add _).le hins
  rw [Nat.mod_eq_of_lt (by omega)] at hc'
  refine ⟨d', ?_, hev, hfr, ⟨?_, ?_, by omega⟩, fun k => ?_⟩
  · rw [insert, bind_ok (get_run d)]
    exact hrun
  · rw [hs']
    exact hgood
  · rw [hc', hs', hcont, Multiset.card_cons, hok.count]
  · rw [Table.find, hs']
    exact hok.good.find_of_cons hgood hcont k

theorem update_run (hf : t.Fits P d.size) (hok : t.Ok P d.cfg hf.two_le d.image) {i : ℕ}
    {s : Bytes} (hi : i < t.capacity)
    (hold : (t.layout P d.cfg hf.two_le).live (t.slots d.image i) = true)
    (hs : s.length = t.slotSize) (hlive : (t.layout P d.cfg hf.two_le).live s = true)
    (hkey : t.key s = t.key (t.slots d.image i)) :
    ∃ d', (writeSlot P t i s).run d = .ok () d' ∧
      t.Step P d.cfg hf.two_le d d' (t.key s) (some s) := by
  obtain ⟨d', hrun, hev, hs', hc', hfr⟩ := writeSlot_run hf hi hs
  obtain ⟨hgood, hcont⟩ := hok.good.update hi hold hlive hkey
  refine ⟨d', hrun, hev, hfr, ⟨?_, ?_, ?_⟩, fun k => ?_⟩
  · rw [hs']
    exact hgood
  · have := congrArg Multiset.card hcont
    rw [Multiset.card_cons, Multiset.card_cons] at this
    rw [hc', hok.count, hs']
    omega
  · rw [hc']
    exact hok.le_limit
  · rw [Table.find, hs']
    exact hok.good.find_of_replace hgood (Layout.mem_contents_of_live hi hold) hkey hcont k

theorem remove_run (hf : t.Fits P d.size) (hok : t.Ok P d.cfg hf.two_le d.image) {i : ℕ}
    (hi : i < t.capacity) (hold : (t.layout P d.cfg hf.two_le).live (t.slots d.image i) = true) :
    ∃ d', (remove P t i).run d = .ok () d' ∧
      t.Step P d.cfg hf.two_le d d' (t.key (t.slots d.image i)) none := by
  have hcap := hf.two_mul_le
  have hword := hf.word
  have hlim := hf.limit_lt
  obtain ⟨T', hrem, hgood, hcont⟩ := hok.good.remove hi hold (hok.card_lt hf)
  obtain ⟨d', hrun, hev, hs', hc', hfr⟩ := removeLoop_run hf hi hrem
  have hcard := congrArg Multiset.card hcont
  rw [Multiset.card_cons, ← hok.count] at hcard
  have hle := hok.le_limit
  rw [show t.count d.image + (2 ^ 64 - 1) = t.count d.image - 1 + 2 ^ 64 by omega,
    Nat.add_mod_right, Nat.mod_eq_of_lt (by omega)] at hc'
  refine ⟨d', ?_, hev, hfr, ⟨?_, ?_, by omega⟩, fun k => ?_⟩
  · rw [remove, bind_ok (get_run d)]
    exact hrun
  · rw [hs']
    exact hgood
  · rw [hc', hs']
    omega
  · rw [Table.find, hs']
    exact hok.good.find_of_erase hgood hcont k

end Steps

end OpCartesi.Drive
