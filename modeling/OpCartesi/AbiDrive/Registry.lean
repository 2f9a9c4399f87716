import OpCartesi.AbiDrive.Basic
import OpCartesi.Drive.Format

/-!
# The registry an ABI drive holds

* `Holds d es`: the bytes and the counters of `d` are those of the list `es` of contracts.
* `Registry.register`: `Register` on lists, the refusals included.
* `register_run`: on a drive that holds a list, `Register` does what it does on the list.
* `register_integrity`: after any sequence of calls on a formatted drive, the store opens as the
  drive it is, and holds the contracts that were registered, in order.
-/

namespace OpCartesi.Abi

open Exec
open Drive (Store LawfulStore MemStore)

/-! ## Lists of contracts -/

/-- The bytes of heap that a list of contracts takes. -/
def heapUse (es : List Entry) : ℕ := (es.map fun e => e.abi.length).sum

theorem heapUse_append (es : List Entry) (e : Entry) :
    heapUse (es ++ [e]) = heapUse es + e.abi.length := by
  simp [heapUse]

theorem heapUse_take_succ {es : List Entry} {i : ℕ} {e : Entry} (h : es[i]? = some e) :
    heapUse (es.take (i + 1)) = heapUse (es.take i) + e.abi.length := by
  rw [List.take_add_one, h, Option.toList_some, heapUse_append]

theorem heapUse_take_mono (es : List Entry) {i j : ℕ} (h : i ≤ j) :
    heapUse (es.take i) ≤ heapUse (es.take j) :=
  ((List.take_sublist_take_left h).map _).sum_le_sum fun _ _ => Nat.zero_le _

theorem heapUse_take_le (es : List Entry) (i : ℕ) : heapUse (es.take i) ≤ heapUse es :=
  ((List.take_sublist i es).map _).sum_le_sum fun _ _ => Nat.zero_le _

/-- A contract's text ends inside the heap in use. -/
theorem heapUse_take_add_le {es : List Entry} {i : ℕ} {e : Entry} (h : es[i]? = some e) :
    heapUse (es.take i) + e.abi.length ≤ heapUse es := by
  rw [← heapUse_take_succ h]
  exact heapUse_take_le es _

/-- The entry of an address. -/
def find (es : List Entry) (addr : Address) : Option Entry := es.find? fun e => e.address = addr

/-- `Register` on a list of contracts, of which `capacity` fit in the index and `heapLength` bytes
    in the heap. -/
def Registry.register (capacity heapLength : ℕ) (es : List Entry) (e : Entry) :
    Except AbiError (List Entry) :=
  match find es e.address with
  | some found =>
    if found.kind = e.kind ∧ found.abi = e.abi then .ok es else .error (.duplicate e.address)
  | none =>
    if capacity ≤ es.length then .error .registryFull
    else if heapLength < heapUse es + e.abi.length then .error .heapFull
    else .ok (es ++ [e])

/-- A list with a contract that it may have already. -/
def record (es : List Entry) (e : Entry) : List Entry := if e ∈ es then es else es ++ [e]

theorem find_eq_some {es : List Entry} {addr : Address} {e : Entry} (h : find es addr = some e) :
    e ∈ es ∧ e.address = addr :=
  ⟨List.mem_of_find?_eq_some h, by simpa using List.find?_some h⟩

theorem find_eq_none {es : List Entry} {addr : Address} (h : find es addr = none) :
    addr ∉ es.map Entry.address := by
  intro hmem
  obtain ⟨e, he, rfl⟩ := List.mem_map.1 hmem
  have := List.find?_eq_none.1 h e he
  simp at this

/-- Addresses are distinct, so a contract of the list is the one found for its address. -/
theorem find_of_mem {es : List Entry} (hnd : (es.map Entry.address).Nodup) {e : Entry}
    (he : e ∈ es) : find es e.address = some e := by
  cases h : find es e.address with
  | none => exact absurd (List.mem_map_of_mem he) (find_eq_none h)
  | some e' =>
    obtain ⟨he', haddr⟩ := find_eq_some h
    exact congrArg some (List.inj_on_of_nodup_map hnd he' he haddr)

/-! ## What a drive holds -/

section

variable {σ : Type} [Store σ] [LawfulStore σ]

def image (d : AbiDrive σ) : Image := LawfulStore.image d.store

/-- Where the text of contract `i` is, as its index entry says. -/
def span (d : AbiDrive σ) (i : ℕ) : ℕ × ℕ :=
  (leNat (slice (image d) (headerLength + i * entryLength + 22) 4),
    leNat (slice (image d) (headerLength + i * entryLength + 26) 4))

/-- The header of the image is that of the drive, its counters included. -/
structure HeaderOk (d : AbiDrive σ) : Prop where
  magic : slice (image d) 0 8 = Magic
  version : slice (image d) 8 2 = leBytes 2 Version
  capacity : slice (image d) 12 4 = leBytes 4 d.capacity
  count : slice (image d) 16 4 = leBytes 4 d.count
  indexOffset : slice (image d) 20 4 = leBytes 4 d.indexOffset
  heapOffset : slice (image d) 24 4 = leBytes 4 d.heapOffset
  heapLength : slice (image d) 28 4 = leBytes 4 d.heapLength
  heapUsed : slice (image d) 32 4 = leBytes 4 d.heapUsed

/-- Index and heap lie apart inside the store. -/
structure Fits (d : AbiDrive σ) : Prop where
  indexOffset : d.indexOffset = headerLength
  index : headerLength + d.capacity * entryLength ≤ d.heapOffset
  heap : d.heapOffset + d.heapLength < 2 ^ 32
  inside : d.heapOffset + d.heapLength ≤ LawfulStore.size d.store

/-- The drive holds the contracts `es`. -/
structure Holds (d : AbiDrive σ) (es : List Entry) : Prop where
  fits : Fits d
  header : HeaderOk d
  count : d.count = es.length
  heapUsed : d.heapUsed = heapUse es
  bounded : es.length ≤ d.capacity
  heap_le : heapUse es ≤ d.heapLength
  distinct : (es.map Entry.address).Nodup
  index : ∀ i e, es[i]? = some e →
    slice (image d) (headerLength + i * entryLength) entryLength =
      indexEntry e.address e.kind (d.heapOffset + heapUse (es.take i)) e.abi.length
  texts : ∀ i e, es[i]? = some e →
    slice (image d) (d.heapOffset + heapUse (es.take i)) e.abi.length = e.abi

/-! ## Reading -/

theorem readAt_run {d : AbiDrive σ} {off n : ℕ} (h : off + n ≤ LawfulStore.size d.store) :
    (readAt off n).run d = .ok (slice (image d) off n) d := by
  rw [readAt, zoom_ok (LawfulStore.readAt_eq h)]
  rfl

theorem indexEntry_length (addr : Address) (kind : Byte) (off n : ℕ) :
    (indexEntry addr kind off n).length = entryLength := by
  simp only [indexEntry, List.length_append, addr.2, List.length_cons, List.length_nil,
    leBytes_length, zeros_length, entryLength]

/-- A part of a concatenation. -/
theorem sub_append {a b c : Bytes} {off n : ℕ} (ha : a.length = off) (hb : b.length = n) :
    sub (a ++ (b ++ c)) off n = b := by
  rw [sub, List.drop_left' ha, List.take_left' hb]

/-- The fields of an index entry. -/
theorem indexEntry_fields (addr : Address) (kind : Byte) (off n : ℕ) :
    sub (indexEntry addr kind off n) 0 20 = addr.val ∧
    (indexEntry addr kind off n).getD 20 0 = kind ∧
    sub (indexEntry addr kind off n) 22 4 = leBytes 4 off ∧
    sub (indexEntry addr kind off n) 26 4 = leBytes 4 n := by
  have h20 : addr.val.length = 20 := addr.2
  simp only [indexEntry, List.append_assoc]
  refine ⟨?_, ?_, ?_, ?_⟩
  · exact sub_append (a := []) rfl h20
  · rw [List.getD_eq_getElem?_getD, List.getElem?_append_right (by omega), h20]
    rfl
  · rw [← List.append_assoc]
    exact sub_append (by simp [h20]) (leBytes_length _ _)
  · rw [← List.append_assoc, ← List.append_assoc]
    exact sub_append (by simp [h20]) (leBytes_length _ _)

variable {d d' : AbiDrive σ} {es : List Entry}

theorem Holds.entryAt_run (h : Holds d es) {i : ℕ} {e : Entry} (he : es[i]? = some e) :
    (entryAt i).run d = .ok e d := by
  obtain ⟨hi, -⟩ := List.getElem?_eq_some_iff.1 he
  have hidx := h.fits.index
  have hin := h.fits.inside
  have hheap := h.fits.heap
  have htext := heapUse_take_add_le he
  have hb := h.bounded
  have hu := h.heap_le
  have hslot : headerLength + i * entryLength + entryLength ≤ d.heapOffset := by
    have := Nat.mul_le_mul_right entryLength (show i + 1 ≤ d.capacity by omega)
    rw [Nat.succ_mul] at this
    omega
  obtain ⟨f1, f2, f3, f4⟩ := indexEntry_fields e.address e.kind
    (d.heapOffset + heapUse (es.take i)) e.abi.length
  have hoff : leNat (leBytes 4 (d.heapOffset + heapUse (es.take i))) =
      d.heapOffset + heapUse (es.take i) := leNat_leBytes_of_lt (by norm_num; omega)
  have hlen : leNat (leBytes 4 e.abi.length) = e.abi.length :=
    leNat_leBytes_of_lt (by norm_num; omega)
  have hraw : (readAt (d.indexOffset + i * entryLength) entryLength).run d =
      .ok (indexEntry e.address e.kind (d.heapOffset + heapUse (es.take i)) e.abi.length) d := by
    rw [h.fits.indexOffset, readAt_run (by omega), h.index i e he]
  have habi : (readAt (d.heapOffset + heapUse (es.take i)) e.abi.length).run d = .ok e.abi d := by
    rw [readAt_run (by omega), h.texts i e he]
  rw [entryAt, bind_ok (get_run d), bind_ok hraw]
  simp only [f1, f2, f3, f4, hoff, hlen]
  rw [bind_ok habi, Drive.toAddress_val]
  rfl

theorem Holds.entriesLoop_run (h : Holds d es) :
    ∀ {n i : ℕ}, i + n = es.length → (entriesLoop n i).run d = .ok (es.drop i) d := by
  intro n
  induction n with
  | zero =>
    intro i hi
    rw [List.drop_eq_nil_of_le (by omega)]
    rfl
  | succ n ih =>
    intro i hi
    have hlt : i < es.length := by omega
    rw [entriesLoop, bind_ok (h.entryAt_run (List.getElem?_eq_getElem hlt)),
      bind_ok (ih (by omega)), List.drop_eq_getElem_cons hlt]
    rfl

theorem Holds.entries_run (h : Holds d es) : entries.run d = .ok es d := by
  rw [entries, bind_ok (get_run d), h.count, h.entriesLoop_run (Nat.zero_add _), List.drop_zero]

theorem Holds.lookupLoop_run (h : Holds d es) (addr : Address) :
    ∀ {n i : ℕ}, i + n = es.length →
      (lookupLoop addr n i).run d = .ok (find (es.drop i) addr) d := by
  intro n
  induction n with
  | zero =>
    intro i hi
    rw [List.drop_eq_nil_of_le (by omega)]
    rfl
  | succ n ih =>
    intro i hi
    have hlt : i < es.length := by omega
    rw [lookupLoop, bind_ok (h.entryAt_run (List.getElem?_eq_getElem hlt)),
      List.drop_eq_getElem_cons hlt, find, List.find?_cons]
    split_ifs with haddr
    · rw [decide_eq_true haddr]
      rfl
    · rw [decide_eq_false haddr]
      exact ih (by omega)

theorem Holds.lookup_run (h : Holds d es) (addr : Address) :
    (lookup addr).run d = .ok (find es addr) d := by
  rw [lookup, bind_ok (get_run d), h.count, h.lookupLoop_run addr (Nat.zero_add _), List.drop_zero]

/-- Opening the store gives the drive, counters included. -/
theorem Holds.openDrive_eq (h : Holds d es) : openDrive d.store = .ok d := by
  obtain ⟨hio, hidx, hheap, hin⟩ := h.fits
  have hread : (Store.readAt 0 headerLength).run d.store =
      .ok (slice (image d) 0 headerLength) d.store := LawfulStore.readAt_eq (by omega)
  have hfield : ∀ off n, off + n ≤ headerLength →
      sub (slice (image d) 0 headerLength) off n = slice (image d) off n := by
    intro off n hle
    rw [sub_slice hle, Nat.zero_add]
  have hnat : ∀ v, v < 2 ^ 32 → leNat (leBytes 4 v) = v := fun v hv =>
    leNat_leBytes_of_lt (by norm_num; omega)
  have hindex : 64 + d.capacity * 32 ≤ d.heapOffset := hidx
  have hio : d.indexOffset = 64 := hio
  have hcount := h.count
  have hused := h.heapUsed
  have hb := h.bounded
  have hu := h.heap_le
  rw [openDrive, hread]
  simp only [hfield 0 8 (by decide), hfield 8 2 (by decide), hfield 12 4 (by decide),
    hfield 16 4 (by decide), hfield 20 4 (by decide), hfield 24 4 (by decide),
    hfield 28 4 (by decide), hfield 32 4 (by decide), h.header.magic, h.header.version,
    h.header.capacity, h.header.count, h.header.indexOffset, h.header.heapOffset,
    h.header.heapLength, h.header.heapUsed]
  rw [leNat_leBytes_of_lt (by decide), hnat _ (by omega), hnat _ (by omega), hnat _ (by omega),
    hnat _ (by omega), hnat _ (by omega), hnat _ (by omega), if_neg (by simp), if_neg (by simp)]

/-! ## Writing -/

theorem writeAt_run (d : AbiDrive σ) {off : ℕ} {p : Bytes}
    (h : off + p.length ≤ LawfulStore.size d.store) :
    ∃ s, (writeAt off p).run d = .ok () { d with store := s } ∧
      LawfulStore.image s = blit (image d) off p ∧ LawfulStore.size s = LawfulStore.size d.store := by
  obtain ⟨s, hs, himg, hsize, -⟩ := LawfulStore.writeAt_eq h
  exact ⟨s, zoom_ok hs, himg, hsize⟩

/-- The image after the four writes of `append`. -/
def appended (img : Image) (text entry : ℕ) (e : Entry) (count used : ℕ) : Image :=
  blit (blit (blit (blit img text e.abi) entry (indexEntry e.address e.kind text e.abi.length))
    16 (leBytes 4 count)) 32 (leBytes 4 used)

/-- Bytes that none of the writes touches. -/
theorem slice_appended {img : Image} {text entry : ℕ} {e : Entry} {count used lo n : ℕ}
    (h1 : lo + n ≤ text ∨ text + e.abi.length ≤ lo)
    (h2 : lo + n ≤ entry ∨ entry + entryLength ≤ lo) (h3 : lo + n ≤ 16 ∨ 20 ≤ lo)
    (h4 : lo + n ≤ 32 ∨ 36 ≤ lo) :
    slice (appended img text entry e count used) lo n = slice img lo n := by
  rw [appended, slice_blit_disjoint (by rw [leBytes_length]; omega),
    slice_blit_disjoint (by rw [leBytes_length]; omega),
    slice_blit_disjoint (by rw [indexEntry_length]; omega), slice_blit_disjoint h1]

theorem slice_appended_entry {img : Image} {text entry : ℕ} {e : Entry} {count used : ℕ}
    (h : 36 ≤ entry) : slice (appended img text entry e count used) entry entryLength =
      indexEntry e.address e.kind text e.abi.length := by
  rw [appended, slice_blit_disjoint (by rw [leBytes_length]; omega),
    slice_blit_disjoint (by rw [leBytes_length]; omega),
    Drive.slice_blit_eq (indexEntry_length _ _ _ _)]

theorem slice_appended_text {img : Image} {text entry : ℕ} {e : Entry} {count used : ℕ}
    (h : 36 ≤ entry) (h' : entry + entryLength ≤ text) :
    slice (appended img text entry e count used) text e.abi.length = e.abi := by
  rw [appended, slice_blit_disjoint (by rw [leBytes_length]; omega),
    slice_blit_disjoint (by rw [leBytes_length]; omega),
    slice_blit_disjoint (by rw [indexEntry_length]; omega), slice_blit_self]

/-- An entry of a longer list. -/
theorem getElem?_append_one {es : List Entry} {e e' : Entry} {i : ℕ}
    (h : (es ++ [e])[i]? = some e') : es[i]? = some e' ∨ i = es.length ∧ e' = e := by
  rcases Nat.lt_or_ge i es.length with hlt | hge
  · rw [List.getElem?_append_left hlt] at h
    exact Or.inl h
  · rw [List.getElem?_append_right hge] at h
    obtain ⟨hi, h'⟩ := List.getElem?_eq_some_iff.1 h
    rw [List.length_singleton] at hi
    have h0 : i - es.length = 0 := by omega
    rw [h0] at h
    exact Or.inr ⟨by omega, (Option.some.inj h).symm⟩

/-- The drive that the writes of `append` leave holds one more contract. -/
theorem Holds.of_appended (h : Holds d es) {e : Entry} (hnew : e.address ∉ es.map Entry.address)
    (hcount : es.length < d.capacity) (hroom : heapUse es + e.abi.length ≤ d.heapLength) {s : σ}
    (himg : LawfulStore.image s = appended (image d) (d.heapOffset + heapUse es)
      (64 + es.length * 32) e (es.length + 1) (heapUse es + e.abi.length))
    (hsize : LawfulStore.size s = LawfulStore.size d.store) :
    Holds { d with store := s, count := es.length + 1, heapUsed := heapUse es + e.abi.length }
      (es ++ [e]) := by
  have hidx : 64 + d.capacity * 32 ≤ d.heapOffset := h.fits.index
  have hh := h.header
  have hframe : ∀ {lo n : ℕ}, lo + n ≤ d.heapOffset + heapUse es ∧
      (lo + n ≤ 64 + es.length * 32 ∨ 64 + es.length * 32 + 32 ≤ lo) ∧ (lo + n ≤ 16 ∨ 20 ≤ lo) ∧
      (lo + n ≤ 32 ∨ 36 ≤ lo) →
      slice (LawfulStore.image s) lo n = slice (image d) lo n := fun ⟨h1, h2, h3, h4⟩ => by
    rw [himg]
    exact slice_appended (Or.inl h1) h2 h3 h4
  refine ⟨⟨h.fits.indexOffset, h.fits.index, h.fits.heap, ?_⟩, ⟨?_, ?_, ?_, ?_, ?_, ?_, ?_, ?_⟩,
    ?_, ?_, ?_, ?_, ?_, fun i e' hi => ?_, fun i e' hi => ?_⟩
  · rw [hsize]
    exact h.fits.inside
  · exact (hframe (by omega)).trans hh.magic
  · exact (hframe (by omega)).trans hh.version
  · exact (hframe (by omega)).trans hh.capacity
  · show slice (LawfulStore.image s) 16 4 = leBytes 4 (es.length + 1)
    rw [himg, appended, slice_blit_disjoint (by omega), Drive.slice_blit_eq (leBytes_length _ _)]
  · exact (hframe (by omega)).trans hh.indexOffset
  · exact (hframe (by omega)).trans hh.heapOffset
  · exact (hframe (by omega)).trans hh.heapLength
  · show slice (LawfulStore.image s) 32 4 = leBytes 4 (heapUse es + e.abi.length)
    rw [himg, appended, Drive.slice_blit_eq (leBytes_length _ _)]
  · rw [List.length_append, List.length_singleton]
  · exact (heapUse_append es e).symm
  · rw [List.length_append, List.length_singleton]
    exact hcount
  · rw [heapUse_append]
    exact hroom
  · rw [List.map_append, List.map_singleton]
    exact List.nodup_append.2 ⟨h.distinct, List.nodup_singleton _, fun a ha b hb => by
      rw [List.mem_singleton.1 hb]
      exact fun heq => hnew (heq ▸ ha)⟩
  · show slice (LawfulStore.image s) (64 + i * 32) 32 = _
    rcases getElem?_append_one hi with hold | ⟨rfl, rfl⟩
    · obtain ⟨hlt, -⟩ := List.getElem?_eq_some_iff.1 hold
      rw [hframe (by omega),
        List.take_append_of_le_length (by omega)]
      exact h.index i e' hold
    · rw [List.take_left' rfl, himg]
      exact slice_appended_entry (by omega)
  · show slice (LawfulStore.image s) (d.heapOffset + heapUse ((es ++ [e]).take i)) _ = _
    rcases getElem?_append_one hi with hold | ⟨rfl, rfl⟩
    · obtain ⟨hlt, -⟩ := List.getElem?_eq_some_iff.1 hold
      have htext := heapUse_take_add_le hold
      rw [List.take_append_of_le_length (by omega),
        hframe (by omega)]
      exact h.texts i e' hold
    · rw [List.take_left' rfl, himg]
      refine slice_appended_text (by omega) ?_
      show 64 + es.length * 32 + 32 ≤ _
      omega

/-- `Register` past its checks, when there is room. -/
theorem Holds.append_run (h : Holds d es) {e : Entry} (hnew : e.address ∉ es.map Entry.address)
    (hcount : es.length < d.capacity) (hroom : heapUse es + e.abi.length ≤ d.heapLength) :
    ∃ d', (append e).run d = .ok () d' ∧ Holds d' (es ++ [e]) ∧
      d'.capacity = d.capacity ∧ d'.heapLength = d.heapLength := by
  have hidx : 64 + d.capacity * 32 ≤ d.heapOffset := h.fits.index
  have hin := h.fits.inside
  have hheap := h.fits.heap
  have hslot : 64 + es.length * 32 + 32 ≤ d.heapOffset := by omega
  have htext : (d.heapOffset + d.heapUsed) % 2 ^ 32 = d.heapOffset + heapUse es := by
    rw [h.heapUsed, Nat.mod_eq_of_lt (by omega)]
  have hentry : d.indexOffset + d.count * entryLength = 64 + es.length * 32 := by
    rw [h.fits.indexOffset, h.count]
    rfl
  have hlen := indexEntry_length e.address e.kind (d.heapOffset + heapUse es) e.abi.length
  have hlen' : (indexEntry e.address e.kind (d.heapOffset + heapUse es) e.abi.length).length = 32 :=
    hlen
  obtain ⟨s₁, hw₁, himg₁, hsize₁⟩ := writeAt_run d
    (show d.heapOffset + heapUse es + e.abi.length ≤ LawfulStore.size d.store by omega)
  obtain ⟨s₂, hw₂, himg₂, hsize₂⟩ := writeAt_run { d with store := s₁ }
    (show 64 + es.length * 32 + (indexEntry e.address e.kind (d.heapOffset + heapUse es)
      e.abi.length).length ≤ LawfulStore.size s₁ by omega)
  have hsize₂ : LawfulStore.size s₂ = LawfulStore.size s₁ := hsize₂
  have hd₂ : ((d.count + 1) % 2 ^ 32) = es.length + 1 := by
    rw [h.count, Nat.mod_eq_of_lt (by omega)]
  have hu₂ : ((d.heapUsed + e.abi.length) % 2 ^ 32) = heapUse es + e.abi.length := by
    rw [h.heapUsed, Nat.mod_eq_of_lt (by omega)]
  obtain ⟨s₃, hw₃, himg₃, hsize₃⟩ := writeAt_run
    { d with store := s₂, count := es.length + 1, heapUsed := heapUse es + e.abi.length }
    (show 16 + (leBytes 4 (es.length + 1)).length ≤ LawfulStore.size s₂ by
      rw [leBytes_length]; omega)
  have hsize₃ : LawfulStore.size s₃ = LawfulStore.size s₂ := hsize₃
  obtain ⟨s₄, hw₄, himg₄, hsize₄⟩ := writeAt_run
    { d with store := s₃, count := es.length + 1, heapUsed := heapUse es + e.abi.length }
    (show 32 + (leBytes 4 (heapUse es + e.abi.length)).length ≤ LawfulStore.size s₃ by
      rw [leBytes_length]; omega)
  have hsize₄ : LawfulStore.size s₄ = LawfulStore.size s₃ := hsize₄
  have himg : LawfulStore.image s₄ = appended (image d) (d.heapOffset + heapUse es)
      (64 + es.length * 32) e (es.length + 1) (heapUse es + e.abi.length) := by
    rw [himg₄, appended]
    simp only [image]
    rw [himg₃]
    simp only [image]
    rw [himg₂]
    simp only [image]
    rw [himg₁]
    rfl
  refine ⟨{ d with store := s₄, count := es.length + 1, heapUsed := heapUse es + e.abi.length },
    ?_, ?_, rfl, rfl⟩
  · rw [append, bind_ok (get_run d)]
    simp only [htext, hentry]
    rw [bind_ok hw₁, bind_ok hw₂, bind_ok (modify_run _ _)]
    simp only [hd₂, hu₂]
    rw [bind_ok (get_run _), bind_ok hw₃, hw₄]
  · exact h.of_appended hnew hcount hroom himg (by omega)

/-- `Register` on a drive that holds `es` does what it does on `es`. A refusal, and the
    registration of a contract that is there already, leave the drive as it is. -/
theorem Holds.register_run (h : Holds d es) (e : Entry) :
    match Registry.register d.capacity d.heapLength es e with
    | .error err => (register e).run d = .error err d
    | .ok es' => ∃ d', (register e).run d = .ok () d' ∧ Holds d' es' ∧ (e ∈ es → d' = d) ∧
        es' = record es e ∧ d'.capacity = d.capacity ∧ d'.heapLength = d.heapLength := by
  unfold register Registry.register
  rw [bind_ok (h.lookup_run e.address)]
  cases hf : find es e.address with
  | some found =>
    obtain ⟨hmem, haddr⟩ := find_eq_some hf
    simp only
    split_ifs with hsame
    · have he : e ∈ es := by
        obtain ⟨address, kind, abi⟩ := found
        obtain ⟨rfl, rfl⟩ := hsame
        subst haddr
        exact hmem
      exact ⟨d, rfl, h, fun _ => rfl, (if_pos he).symm, rfl, rfl⟩
    · rfl
  | none =>
    have hnew := find_eq_none hf
    have he : e ∉ es := fun he => hnew (List.mem_map_of_mem he)
    simp only
    rw [bind_ok (get_run d), h.count, h.heapUsed]
    split_ifs with h1 h2
    · rfl
    · rfl
    · obtain ⟨d', hrun, hd', hcap, hheap⟩ := h.append_run hnew (by omega) (by omega)
      exact ⟨d', hrun, hd', fun hin => absurd hin he, (if_neg he).symm, hcap, hheap⟩

end

/-! ## Runs -/

/-- The same calls on a list. -/
def Registry.run (capacity heapLength : ℕ) :
    List Entry → List Entry → List (Except AbiError Unit) × List Entry
  | es, [] => ([], es)
  | es, e :: calls =>
    match Registry.register capacity heapLength es e with
    | .ok es' =>
      (.ok () :: (Registry.run capacity heapLength es' calls).1,
        (Registry.run capacity heapLength es' calls).2)
    | .error err =>
      (.error err :: (Registry.run capacity heapLength es calls).1,
        (Registry.run capacity heapLength es calls).2)

/-- The contracts whose registration was answered without an error, in the order of their first
    registration. -/
def recorded : List Entry → List (Entry × Except AbiError Unit) → List Entry
  | es, [] => es
  | es, (e, .ok _) :: rest => recorded (record es e) rest
  | es, (_, .error _) :: rest => recorded es rest

section

variable {σ : Type} [Store σ] [LawfulStore σ] {d : AbiDrive σ} {es : List Entry}

/-- A sequence of calls. -/
theorem Holds.run (h : Holds d es) (calls : List Entry) :
    (Abi.run d calls).1 = (Registry.run d.capacity d.heapLength es calls).1 ∧
      Holds (Abi.run d calls).2 (recorded es (calls.zip (Abi.run d calls).1)) ∧
      (Registry.run d.capacity d.heapLength es calls).2 =
        recorded es (calls.zip (Abi.run d calls).1) := by
  induction calls generalizing d es with
  | nil => exact ⟨rfl, h, rfl⟩
  | cons e calls ih =>
    have hr := h.register_run e
    rw [Abi.run, Registry.run]
    cases hs : Registry.register d.capacity d.heapLength es e with
    | error err =>
      rw [hs] at hr
      have hrun : (register e).run d = .error err d := hr
      obtain ⟨h1, h2, h3⟩ := ih h
      simp only [hrun, answer, endState, List.zip_cons_cons, recorded]
      exact ⟨congrArg _ h1, h2, h3⟩
    | ok es' =>
      rw [hs] at hr
      obtain ⟨d', hrun, hd', -, hes', hcap, hheap⟩ := hr
      obtain ⟨h1, h2, h3⟩ := ih hd'
      rw [hcap, hheap] at h1 h3
      simp only [hrun, answer, endState, List.zip_cons_cons, recorded, ← hes']
      exact ⟨congrArg _ h1, h2, h3⟩

/-- The fields of a fresh header. -/
theorem header_fields (capacity heapOffset heapLength : ℕ) :
    let h := header capacity heapOffset heapLength
    h.length = 64 ∧ sub h 0 8 = Magic ∧ sub h 8 2 = leBytes 2 Version ∧
      sub h 12 4 = leBytes 4 capacity ∧ sub h 16 4 = leBytes 4 0 ∧
      sub h 20 4 = leBytes 4 headerLength ∧ sub h 24 4 = leBytes 4 heapOffset ∧
      sub h 28 4 = leBytes 4 heapLength ∧ sub h 32 4 = leBytes 4 0 := by
  have h8 : Magic.length = 8 := rfl
  simp only [header, List.append_assoc]
  refine ⟨?_, ?_, ?_, ?_, ?_, ?_, ?_, ?_, ?_⟩
  · simp [h8]
  · exact sub_append (a := []) rfl h8
  · exact sub_append h8 (leBytes_length _ _)
  · rw [← List.append_assoc, ← List.append_assoc]
    exact sub_append (by simp [h8]) (leBytes_length _ _)
  · rw [← List.append_assoc, ← List.append_assoc, ← List.append_assoc]
    exact sub_append (by simp [h8]) (leBytes_length _ _)
  · rw [← List.append_assoc, ← List.append_assoc, ← List.append_assoc, ← List.append_assoc]
    exact sub_append (by simp [h8]) (leBytes_length _ _)
  · rw [← List.append_assoc, ← List.append_assoc, ← List.append_assoc, ← List.append_assoc,
      ← List.append_assoc]
    exact sub_append (by simp [h8]) (leBytes_length _ _)
  · rw [← List.append_assoc, ← List.append_assoc, ← List.append_assoc, ← List.append_assoc,
      ← List.append_assoc, ← List.append_assoc]
    exact sub_append (by simp [h8]) (leBytes_length _ _)
  · rw [← List.append_assoc, ← List.append_assoc, ← List.append_assoc, ← List.append_assoc,
      ← List.append_assoc, ← List.append_assoc, ← List.append_assoc]
    exact sub_append (by simp [h8]) (leBytes_length _ _)

/-- A formatted drive holds nothing. -/
theorem format_holds {s : σ} {cfg : Config}
    (hfit : headerLength + cfg.Capacity.toNat * entryLength ≤ cfg.HeapOffset.toNat)
    (hsize : cfg.DriveLength.toNat ≤ LawfulStore.size s) (hfmt : format s cfg = .ok d) :
    Holds d [] := by
  obtain ⟨hlen, f1, f2, f3, f4, f5, f6, f7, f8⟩ := header_fields cfg.Capacity.toNat
    cfg.HeapOffset.toNat (cfg.DriveLength.toNat - cfg.HeapOffset.toNat)
  have hfit' : 64 + cfg.Capacity.toNat * 32 ≤ cfg.HeapOffset.toNat := hfit
  have hlt := cfg.DriveLength.toNat_lt
  rw [format] at hfmt
  dsimp only at hfmt
  split_ifs at hfmt with hbad
  rw [not_or] at hbad
  obtain ⟨s', hs', himg, hsz, -⟩ := LawfulStore.writeAt_eq
    (show 0 + (header cfg.Capacity.toNat cfg.HeapOffset.toNat
      (cfg.DriveLength.toNat - cfg.HeapOffset.toNat)).length ≤ LawfulStore.size s by omega)
  rw [hs'] at hfmt
  cases hfmt
  have hfield : ∀ lo n, lo + n ≤ 64 → slice (LawfulStore.image s') lo n =
      sub (header cfg.Capacity.toNat cfg.HeapOffset.toNat
        (cfg.DriveLength.toNat - cfg.HeapOffset.toNat)) lo n := by
    intro lo n hle
    have h : sub (slice (LawfulStore.image s') 0 64) lo n = _ := sub_slice hle
    rw [himg, Drive.slice_blit_eq hlen, Nat.zero_add] at h
    rw [himg]
    exact h.symm
  refine ⟨⟨rfl, hfit, ?_, ?_⟩, ⟨?_, ?_, ?_, ?_, ?_, ?_, ?_, ?_⟩, rfl, rfl, Nat.zero_le _,
    Nat.zero_le _, List.nodup_nil, fun i e hi => ?_, fun i e hi => ?_⟩
  · simp only
    omega
  · simp only
    omega
  · exact (hfield _ _ (by decide)).trans f1
  · exact (hfield _ _ (by decide)).trans f2
  · exact (hfield _ _ (by decide)).trans f3
  · exact (hfield _ _ (by decide)).trans f4
  · exact (hfield _ _ (by decide)).trans f5
  · exact (hfield _ _ (by decide)).trans f6
  · exact (hfield _ _ (by decide)).trans f7
  · exact (hfield _ _ (by decide)).trans f8
  · cases hi
  · cases hi

/-! ## Integrity -/

/-- The texts of the contracts lie one after the other from the start of the heap. -/
structure Packed (d : AbiDrive σ) (es : List Entry) : Prop where
  length : ∀ i e, es[i]? = some e → (span d i).2 = e.abi.length
  first : 0 < es.length → (span d 0).1 = d.heapOffset
  next : ∀ i, i + 1 < es.length → (span d (i + 1)).1 = (span d i).1 + (span d i).2
  inside : ∀ i < es.length, d.heapOffset ≤ (span d i).1 ∧
    (span d i).1 + (span d i).2 ≤ d.heapOffset + d.heapLength
  apart : ∀ i j, i < j → j < es.length → (span d i).1 + (span d i).2 ≤ (span d j).1

theorem Holds.span_eq (h : Holds d es) {i : ℕ} {e : Entry} (he : es[i]? = some e) :
    span d i = (d.heapOffset + heapUse (es.take i), e.abi.length) := by
  have hheap := h.fits.heap
  have htext := heapUse_take_add_le he
  have hu := h.heap_le
  obtain ⟨-, -, f3, f4⟩ := indexEntry_fields e.address e.kind
    (d.heapOffset + heapUse (es.take i)) e.abi.length
  rw [← h.index i e he, sub_slice (by decide)] at f3 f4
  rw [span, f3, f4, leNat_leBytes_of_lt (by norm_num; omega),
    leNat_leBytes_of_lt (by norm_num; omega)]

theorem Holds.packed (h : Holds d es) : Packed d es := by
  have hu := h.heap_le
  have hat : ∀ i < es.length, ∃ e, es[i]? = some e := fun i hi =>
    ⟨es[i], List.getElem?_eq_getElem hi⟩
  refine ⟨fun i e he => ?_, fun h0 => ?_, fun i hi => ?_, fun i hi => ?_, fun i j hij hj => ?_⟩
  · rw [h.span_eq he]
  · obtain ⟨e, he⟩ := hat 0 h0
    rw [h.span_eq he]
    rfl
  · obtain ⟨e, he⟩ := hat i (by omega)
    obtain ⟨e', he'⟩ := hat (i + 1) hi
    rw [h.span_eq he, h.span_eq he', heapUse_take_succ he, Nat.add_assoc]
  · obtain ⟨e, he⟩ := hat i hi
    have htext := heapUse_take_add_le he
    rw [h.span_eq he]
    exact ⟨Nat.le_add_right _ _, by simp only; omega⟩
  · obtain ⟨e, he⟩ := hat i (by omega)
    obtain ⟨e', he'⟩ := hat j hj
    have hmono := heapUse_take_mono es (show i + 1 ≤ j from hij)
    rw [heapUse_take_succ he] at hmono
    rw [h.span_eq he, h.span_eq he']
    simp only
    omega

/-- A call that is refused, or that registers a contract again, changes nothing. -/
theorem Holds.unchanged (h : Holds d es) (e : Entry) :
    (e ∈ es → (register e).run d = .ok () d) ∧
      ∀ err d', (register e).run d = .error err d' → d' = d := by
  have hr := h.register_run e
  cases hs : Registry.register d.capacity d.heapLength es e with
  | error err =>
    rw [hs] at hr
    have hrun : (register e).run d = .error err d := hr
    rw [hrun]
    refine ⟨fun he => ?_, fun err' d' herr => ?_⟩
    · rw [Registry.register, find_of_mem h.distinct he] at hs
      simp at hs
    · cases herr
      rfl
  | ok es' =>
    rw [hs] at hr
    obtain ⟨d', hrun, -, hsame, -⟩ := hr
    rw [hrun]
    refine ⟨fun he => ?_, fun err d'' herr => ?_⟩
    · rw [hsame he]
    · cases herr

end

/-- After any calls on a formatted drive, the store opens as the drive in memory, and the drive
    holds the contracts that were registered, in order, packed in the heap; a call that is refused
    or repeats a registration changes neither bytes nor counters. -/
theorem register_integrity {σ : Type} [Store σ] [LawfulStore σ] {s : σ} {cfg : Config}
    {d : AbiDrive σ}
    (hfit : headerLength + cfg.Capacity.toNat * entryLength ≤ cfg.HeapOffset.toNat)
    (hsize : cfg.DriveLength.toNat ≤ LawfulStore.size s) (hfmt : format s cfg = .ok d)
    (calls : List Entry) :
    let answers := (run d calls).1
    let d' := (run d calls).2
    let es := recorded [] (calls.zip answers)
    (answers, es) = Registry.run d.capacity d.heapLength [] calls ∧
    openDrive d'.store = .ok d' ∧ entries.run d' = .ok es d' ∧
    (∀ addr, (lookup addr).run d' = .ok (find es addr) d') ∧ Packed d' es ∧
    ∀ e, (e ∈ es → (register e).run d' = .ok () d') ∧
      ∀ err d'', (register e).run d' = .error err d'' → d'' = d' := by
  intro answers d' es
  obtain ⟨hans, hholds, hes⟩ := (format_holds hfit hsize hfmt).run calls
  exact ⟨Prod.ext hans hes.symm, hholds.openDrive_eq, hholds.entries_run, hholds.lookup_run, hholds.packed,
    hholds.unchanged⟩

namespace Sample

/-- Room for two contracts and 128 bytes of texts. -/
def config : Config := ⟨256, 2, 128⟩

def store : MemStore := MemStore.new 256

def entry (tag kind : Byte) (n : ℕ) : Entry := ⟨⟨zeros 19 ++ [tag], rfl⟩, kind, List.replicate n 0x5b⟩

def drive : AbiDrive MemStore where
  store := { store with bytes := blit store.bytes 0 (header 2 128 128) }
  capacity := 2
  count := 0
  indexOffset := 64
  heapOffset := 128
  heapLength := 128
  heapUsed := 0

/-- A text too long, one that fills the heap, an empty one, a repetition, a conflict, and one
    contract more than the index has room for. -/
def calls : List Entry :=
  [entry 1 0 129, entry 1 0 128, entry 2 1 0, entry 2 1 0, entry 1 1 128, entry 3 1 0]

theorem format_config : format store config = .ok drive := rfl

end Sample

open Sample in
theorem register_integrity_sample :
    (run drive calls).1 = [.error .heapFull, .ok (), .ok (), .ok (),
      .error (.duplicate (entry 1 0 0).address), .error .registryFull] ∧
    openDrive (run drive calls).2.store = .ok (run drive calls).2 ∧
    entries.run (run drive calls).2 = .ok [entry 1 0 128, entry 2 1 0] (run drive calls).2 := by
  obtain ⟨hrun, hopen, hentries, -⟩ :=
    register_integrity (by decide) (by decide) format_config calls
  have hspec : Registry.run 2 128 [] calls = ([.error .heapFull, .ok (), .ok (), .ok (),
      .error (.duplicate (entry 1 0 0).address), .error .registryFull],
      [entry 1 0 128, entry 2 1 0]) := by decide +kernel
  obtain ⟨hans, hes⟩ := Prod.mk.inj (hrun.trans hspec)
  rw [hes] at hentries
  exact ⟨hans, hopen, hentries⟩

end OpCartesi.Abi
