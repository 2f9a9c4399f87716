import Mathlib

/-!
# Byte strings, fixed-width integers and byte images

* Byte strings are `Bytes := List Byte`, `Byte := Fin 256`.
* `leBytes w v` and `leNat` are the little-endian fixed-width codec
  (`binary.LittleEndian`, `DataView` with `littleEndian = true`); `beBytes w v`
  and `beNat` the big-endian one (`big.Int.FillBytes`, `big.Int.SetBytes`).
  Both directions of the round trip are proved.
* A mutable byte array is an `Image := ℕ → Byte`. `slice` reads a range of it
  and `blit` overwrites one; `slice_blit_self`, `slice_blit_disjoint` and
  `blit_slice_blit` say what a read sees after a write and that writing back
  the bytes a write replaced undoes it.
-/

namespace OpCartesi

abbrev Byte := Fin 256
abbrev Bytes := List Byte

instance Byte.neZero : NeZero 256 := ⟨by decide⟩

/-- A byte array as the function from offsets to bytes. -/
abbrev Image := ℕ → Byte

/-! ## Fixed-width integers -/

/-- The `w` little-endian bytes of `v`, higher bytes dropped. -/
def leBytes : ℕ → ℕ → Bytes
  | 0, _ => []
  | w + 1, v => ⟨v % 256, Nat.mod_lt _ (by norm_num)⟩ :: leBytes w (v / 256)

/-- The number a little-endian byte string denotes. -/
def leNat : Bytes → ℕ
  | [] => 0
  | b :: bs => b.val + 256 * leNat bs

/-- The `w` big-endian bytes of `v`, higher bytes dropped. -/
def beBytes (w v : ℕ) : Bytes := (leBytes w v).reverse

/-- The number a big-endian byte string denotes. -/
def beNat (bs : Bytes) : ℕ := leNat bs.reverse

@[simp] theorem leBytes_length (w v : ℕ) : (leBytes w v).length = w := by
  induction w generalizing v with
  | zero => rfl
  | succ w ih => simp [leBytes, ih]

@[simp] theorem beBytes_length (w v : ℕ) : (beBytes w v).length = w := by
  simp [beBytes]

theorem leNat_leBytes (w v : ℕ) : leNat (leBytes w v) = v % 256 ^ w := by
  induction w generalizing v with
  | zero => simp [leBytes, leNat, Nat.mod_one]
  | succ w ih => rw [leBytes, leNat, ih, pow_succ', Nat.mod_mul]

theorem leNat_leBytes_of_lt {w v : ℕ} (h : v < 256 ^ w) : leNat (leBytes w v) = v := by
  rw [leNat_leBytes, Nat.mod_eq_of_lt h]

theorem leNat_lt (bs : Bytes) : leNat bs < 256 ^ bs.length := by
  induction bs with
  | nil => simp [leNat]
  | cons b bs ih =>
    rw [leNat, List.length_cons, pow_succ']
    have := b.isLt
    omega

theorem leBytes_leNat (bs : Bytes) : leBytes bs.length (leNat bs) = bs := by
  induction bs with
  | nil => rfl
  | cons b bs ih =>
    have hb := b.isLt
    rw [List.length_cons, leBytes, leNat, show (b.val + 256 * leNat bs) / 256 = leNat bs by omega, ih]
    congr 1
    exact Fin.ext (by simp only; omega)

theorem beNat_beBytes_of_lt {w v : ℕ} (h : v < 256 ^ w) : beNat (beBytes w v) = v := by
  rw [beNat, beBytes, List.reverse_reverse, leNat_leBytes_of_lt h]

theorem beNat_lt (bs : Bytes) : beNat bs < 256 ^ bs.length := by
  have := leNat_lt bs.reverse
  rwa [List.length_reverse] at this

/-- A run of zero bytes. -/
def zeros (n : ℕ) : Bytes := List.replicate n 0

@[simp] theorem zeros_length (n : ℕ) : (zeros n).length = n := List.length_replicate

/-- `isZero` (drive.go:384-391). -/
def isZero (bs : Bytes) : Bool := bs.all (· == 0)
theorem leNat_zeros (n : ℕ) : leNat (zeros n) = 0 := by
  induction n with
  | zero => rfl
  | succ n ih =>
    rw [zeros, List.replicate_succ, leNat]
    rw [zeros] at ih
    rw [ih]; rfl

theorem leBytes_zero (w : ℕ) : leBytes w 0 = zeros w := by
  have h := leBytes_leNat (zeros w)
  rwa [zeros_length, leNat_zeros] at h

theorem beNat_zeros (n : ℕ) : beNat (zeros n) = 0 := by
  rw [beNat, zeros, List.reverse_replicate]
  exact leNat_zeros n

/-! ## Sub-ranges of byte strings -/

/-- The bytes `bs[off : off+n]`. -/
def sub (bs : Bytes) (off n : ℕ) : Bytes := (bs.drop off).take n

/-- `copy(bs[off:], src)` for a source that fits. -/
def splice (bs : Bytes) (off : ℕ) (src : Bytes) : Bytes :=
  bs.take off ++ src ++ bs.drop (off + src.length)

theorem sub_length {bs : Bytes} {off n : ℕ} (h : off + n ≤ bs.length) : (sub bs off n).length = n := by
  simp [sub]; omega

theorem splice_length {bs src : Bytes} {off : ℕ} (h : off + src.length ≤ bs.length) :
    (splice bs off src).length = bs.length := by
  simp [splice]; omega

/-- A spliced range reads back as what was written. -/
theorem sub_splice_self {bs src : Bytes} {off : ℕ} (h : off + src.length ≤ bs.length) :
    sub (splice bs off src) off src.length = src := by
  have hl : (bs.take off).length = off := by simp; omega
  rw [sub, splice, List.append_assoc, List.drop_left' hl, List.take_left' rfl]

/-- A range that ends before the splice is unchanged. -/
theorem sub_splice_before {bs src : Bytes} {off lo n : ℕ} (h : off + src.length ≤ bs.length)
    (hlo : lo + n ≤ off) : sub (splice bs off src) lo n = sub bs lo n := by
  apply List.ext_getElem?
  intro i
  simp only [sub, splice, List.getElem?_take, List.getElem?_drop, List.append_assoc]
  split_ifs with hi
  · rw [List.getElem?_append_left (by simp; omega), List.getElem?_take, if_pos (by omega)]
  · rfl

/-- A range that starts after the splice is unchanged. -/
theorem sub_splice_after {bs src : Bytes} {off lo n : ℕ} (h : off + src.length ≤ bs.length)
    (hlo : off + src.length ≤ lo) : sub (splice bs off src) lo n = sub bs lo n := by
  have hl : (bs.take off ++ src).length = off + src.length := by simp; omega
  apply List.ext_getElem?
  intro i
  simp only [sub, splice, List.getElem?_take, List.getElem?_drop]
  split_ifs with hi
  · rw [List.getElem?_append_right (by omega), List.getElem?_drop, hl]
    congr 1
    omega
  · rfl

theorem sub_sub {bs : Bytes} {off n lo k : ℕ} (h : lo + k ≤ n) :
    sub (sub bs off n) lo k = sub bs (off + lo) k := by
  apply List.ext_getElem?
  intro i
  simp only [sub, List.getElem?_take, List.getElem?_drop]
  split_ifs with h1 h2 <;> first | rfl | omega | (congr 1; omega)

theorem sub_zeros {n off k : ℕ} (h : off + k ≤ n) : sub (zeros n) off k = zeros k := by
  simp only [sub, zeros, List.drop_replicate, List.take_replicate]
  congr 1
  omega

/-! ## Images -/

/-- The `n` bytes of an image starting at `off`. -/
def slice (img : Image) (off n : ℕ) : Bytes := List.ofFn (fun k : Fin n => img (off + k))

/-- An image with the bytes `p` written at `off`. -/
def blit (img : Image) (off : ℕ) (p : Bytes) : Image :=
  fun a => if off ≤ a ∧ a < off + p.length then p.getD (a - off) 0 else img a

@[simp] theorem slice_length (img : Image) (off n : ℕ) : (slice img off n).length = n := by
  simp [slice]

theorem slice_congr {img img' : Image} {off n : ℕ}
    (h : ∀ a, off ≤ a → a < off + n → img a = img' a) : slice img off n = slice img' off n := by
  simp only [slice]
  apply congrArg List.ofFn; funext k; exact h _ (by omega) (by omega)

theorem blit_outside {img : Image} {off a : ℕ} {p : Bytes} (h : a < off ∨ off + p.length ≤ a) :
    blit img off p a = img a := by
  simp only [blit]; split_ifs <;> first | rfl | omega

theorem blit_inside {img : Image} {off k : ℕ} {p : Bytes} (h : k < p.length) :
    blit img off p (off + k) = p.getD k 0 := by
  simp only [blit]
  rw [if_pos (by omega), Nat.add_sub_cancel_left]

/-- A zero byte stays zero under a write that is elsewhere, or that writes zeros. -/
theorem blit_zero {img : Image} {off a : ℕ} {p : Bytes} (hz : img a = 0)
    (h : (a < off ∨ off + p.length ≤ a) ∨ p = zeros p.length) : blit img off p a = 0 := by
  by_cases ha : a < off ∨ off + p.length ≤ a
  · rw [blit_outside ha, hz]
  · obtain ⟨k, rfl⟩ := Nat.exists_eq_add_of_le (not_lt.1 (not_or.1 ha).1)
    have hk : k < p.length := by omega
    rw [blit_inside hk, h.resolve_left ha]
    exact List.getD_replicate 0 hk

theorem slice_blit_self (img : Image) (off : ℕ) (p : Bytes) :
    slice (blit img off p) off p.length = p := by
  apply List.ext_getElem
  · simp
  · intro i h1 h2
    simp only [slice, List.getElem_ofFn]
    rw [blit_inside h2, List.getD_eq_getElem _ _ h2]

theorem slice_blit_disjoint {img : Image} {off lo n : ℕ} {p : Bytes}
    (h : lo + n ≤ off ∨ off + p.length ≤ lo) : slice (blit img off p) lo n = slice img lo n :=
  slice_congr fun _ _ _ => blit_outside (by omega)

/-- Writing the replaced bytes back undoes a write. -/
theorem blit_slice_blit (img : Image) (off : ℕ) (p : Bytes) :
    blit (blit img off p) off (slice img off p.length) = img := by
  funext a
  by_cases h : off ≤ a ∧ a < off + p.length
  · obtain ⟨k, rfl⟩ := Nat.exists_eq_add_of_le h.1
    have hk : k < (slice img off p.length).length := by simp; omega
    rw [blit_inside hk, List.getD_eq_getElem _ _ hk]
    simp [slice]
  · rw [blit_outside (by simp; omega), blit_outside (by omega)]

theorem sub_slice {img : Image} {off n lo k : ℕ} (h : lo + k ≤ n) :
    sub (slice img off n) lo k = slice img (off + lo) k := by
  apply List.ext_getElem
  · rw [sub_length (by simpa using h), slice_length]
  · intro i h1 h2
    simp only [sub, slice, List.getElem_take, List.getElem_drop, List.getElem_ofFn]
    congr 1
    omega

theorem slice_zero (off n : ℕ) : slice (fun _ => 0) off n = zeros n := by
  simp [slice, zeros, List.ofFn_const]

end OpCartesi
