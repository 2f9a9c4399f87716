import OpCartesi.Drive.Basic

/-!
# The home slot in Lua (`accounts_drive.lua:165-181`)

The Lua library has signed 64-bit integers only, so it cannot take the remainder of the hash's first
eight bytes as one number. It masks them for a power of two and otherwise reduces them byte by byte.

* `Integer`, `mod`, `unpackI8`, `byteAt`: Lua's integers, and the string functions on a hash.
* `home`: `M.home`.
* `mod_step`: one round of the reduction stays below the sign bit.
* `home_eq_go`: up to capacity `2^55` the slot is the one Go computes.
* `home_overflows`: one past it the reduction reaches the sign bit.
-/

namespace OpCartesi.Drive.Lua

/-- Lua's integers: signed, 64 bits, with wrapping arithmetic. -/
abbrev Integer := BitVec 64

/-- A keccak-256 hash. -/
abbrev Digest := { h : Bytes // h.length = 32 }

/-- `a % b`: the quotient is rounded towards minus infinity. -/
def mod (a b : Integer) : Integer := BitVec.ofInt 64 (a.toInt.fmod b.toInt)

/-- `string.unpack("<i8", h)`. -/
def unpackI8 (h : Digest) : Integer := BitVec.ofNat 64 (leNat (h.val.take 8))

/-- `h:byte(i)`: positions count from one. -/
def byteAt (h : Digest) (i : ℕ) : Integer := BitVec.ofNat 64 (h.val.getD (i - 1) 0).val

/-- The loop of `M.home` (`accounts_drive.lua:177-179`) over the bytes `i`, …, 1. -/
def homeLoop (h : Digest) (capacity : Integer) : ℕ → Integer → Integer
  | 0, v => v
  | i + 1, v => homeLoop h capacity i (mod (v * 256 + byteAt h (i + 1)) capacity)

/-- `M.home` (`accounts_drive.lua:171-181`). -/
def home (keccak256 : Bytes → Bytes → Digest) (seed key : Bytes) (capacity : Integer) : Integer :=
  let h := keccak256 seed key
  if capacity &&& (capacity - 1) = 0 then unpackI8 h &&& (capacity - 1)
  else homeLoop h capacity 8 0

/-! ## Numbers below the sign bit -/

theorem toNat_ofNat_small {n : ℕ} (h : n < 2 ^ 63) : (BitVec.ofNat 64 n).toNat = n := by
  rw [BitVec.toNat_ofNat, Nat.mod_eq_of_lt (by omega)]

theorem toInt_ofNat_small {n : ℕ} (h : n < 2 ^ 63) : (BitVec.ofNat 64 n).toInt = n := by
  have hn := toNat_ofNat_small h
  rw [BitVec.toInt_eq_toNat_of_lt (by omega), hn]

theorem mod_ofNat {a b : ℕ} (ha : a < 2 ^ 63) (hb : b < 2 ^ 63) :
    mod (BitVec.ofNat 64 a) (BitVec.ofNat 64 b) = BitVec.ofNat 64 (a % b) := by
  rw [mod, toInt_ofNat_small ha, toInt_ofNat_small hb,
    Int.fmod_eq_emod_of_nonneg _ (Int.natCast_nonneg b), ← Int.natCast_emod, BitVec.ofInt_natCast]

/-- One round: a residue shifted by a byte still fits, so that its remainder is exact. -/
theorem mod_step {v c : ℕ} (hv : v < c) (hc : c ≤ 2 ^ 55) (b : Byte) :
    mod (BitVec.ofNat 64 v * 256 + BitVec.ofNat 64 b.val) (BitVec.ofNat 64 c) =
      BitVec.ofNat 64 ((v * 256 + b.val) % c) := by
  have hb := b.isLt
  have hsum : BitVec.ofNat 64 v * 256 + BitVec.ofNat 64 b.val =
      BitVec.ofNat 64 (v * 256 + b.val) := by
    rw [BitVec.ofNat_add, BitVec.ofNat_mul]
    rfl
  rw [hsum, mod_ofNat (by omega) (by omega)]

/-! ## The reduction -/

/-- A little-endian number from byte `i` on. -/
theorem leNat_drop (bs : Bytes) (i : ℕ) :
    leNat (bs.drop i) = (bs.getD i 0).val + 256 * leNat (bs.drop (i + 1)) := by
  by_cases h : i < bs.length
  · rw [List.drop_eq_getElem_cons h, leNat, List.getD_eq_getElem _ _ h]
  · rw [List.drop_eq_nil_of_le (by omega), List.drop_eq_nil_of_le (by omega),
      List.getD_eq_default _ _ (by omega)]
    rfl

/-- The loop keeps the residue of the bytes it has read, the highest ones. -/
theorem homeLoop_eq (h : Digest) {c : ℕ} (hpos : 0 < c) (hc : c ≤ 2 ^ 55) {i : ℕ} (hi : i ≤ 8) :
    homeLoop h (BitVec.ofNat 64 c) i (BitVec.ofNat 64 (leNat ((h.val.take 8).drop i) % c)) =
      BitVec.ofNat 64 (leNat (h.val.take 8) % c) := by
  induction i with
  | zero => rfl
  | succ i ih =>
    have hbyte : (h.val.take 8).getD i 0 = h.val.getD i 0 := by
      rw [List.getD_eq_getElem?_getD, List.getD_eq_getElem?_getD, List.getElem?_take, if_pos (by omega)]
    have hstep : (leNat ((h.val.take 8).drop (i + 1)) % c * 256 + (h.val.getD i 0).val) % c =
        leNat ((h.val.take 8).drop i) % c := by
      rw [leNat_drop _ i, hbyte, Nat.add_comm, Nat.add_mod, Nat.mod_mul_mod, ← Nat.add_mod,
        Nat.mul_comm 256]
    rw [homeLoop, byteAt, Nat.add_sub_cancel, mod_step (Nat.mod_lt _ hpos) hc, hstep]
    exact ih (by omega)

/-! ## The two branches -/

theorem pred_ofNat {c : ℕ} (hpos : 0 < c) : BitVec.ofNat 64 c - 1 = BitVec.ofNat 64 (c - 1) := by
  obtain ⟨n, rfl⟩ := Nat.exists_eq_succ_of_ne_zero hpos.ne'
  rw [Nat.succ_eq_add_one, Nat.add_sub_cancel, BitVec.ofNat_add]
  exact BitVec.add_sub_cancel _ _

/-- The test of `M.home` finds the powers of two. -/
theorem mask_iff {c : ℕ} (hpos : 0 < c) (hc : c ≤ 2 ^ 55) :
    BitVec.ofNat 64 c &&& (BitVec.ofNat 64 c - 1) = 0 ↔ c.isPowerOfTwo := by
  rw [← Nat.and_sub_one_eq_zero_iff_isPowerOfTwo hpos.ne', pred_ofNat hpos, ← BitVec.toNat_inj,
    BitVec.toNat_and, toNat_ofNat_small (by omega), toNat_ofNat_small (by omega)]
  rfl

theorem unpackI8_and (h : Digest) {k : ℕ} (hk : 2 ^ k ≤ 2 ^ 55) :
    unpackI8 h &&& (BitVec.ofNat 64 (2 ^ k) - 1) =
      BitVec.ofNat 64 (leNat (h.val.take 8) % 2 ^ k) := by
  have hpos : 0 < 2 ^ k := Nat.two_pow_pos k
  have hmod : leNat (h.val.take 8) % 2 ^ k < 2 ^ k := Nat.mod_lt _ hpos
  have hlt := leNat_lt (h.val.take 8)
  rw [List.length_take, h.property, show 256 ^ min 8 32 = 2 ^ 64 from rfl] at hlt
  apply BitVec.eq_of_toNat_eq
  rw [pred_ofNat hpos, BitVec.toNat_and, unpackI8, BitVec.toNat_ofNat, Nat.mod_eq_of_lt (by omega),
    toNat_ofNat_small (by omega), toNat_ofNat_small (by omega), Nat.and_two_pow_sub_one_eq_mod]

/-- Lua and Go put a key into the same slot: of every hash and up to capacity `2^55`, `M.home` is
    the first eight bytes as an unsigned number, modulo the capacity. -/
theorem home_eq_go (keccak256 : Bytes → Bytes → Digest) (g : Geometry) (key : Bytes) {capacity : ℕ}
    (hpos : 1 ≤ capacity) (hle : capacity ≤ 2 ^ 55) :
    (home keccak256 g.seed key (BitVec.ofNat 64 capacity)).toInt =
      Drive.home (Go.platform fun seed key => (keccak256 seed key).val) g key capacity := by
  set h := keccak256 g.seed key with hh
  have hgo : Drive.home (Go.platform fun seed key => (keccak256 seed key).val) g key capacity =
      leNat (h.val.take 8) % capacity := rfl
  have hlua : home keccak256 g.seed key (BitVec.ofNat 64 capacity) =
      BitVec.ofNat 64 (leNat (h.val.take 8) % capacity) := by
    rw [home, ← hh]
    split_ifs with hmask
    · obtain ⟨k, rfl⟩ := (mask_iff hpos hle).1 hmask
      exact unpackI8_and h hle
    · have hempty : leNat ((h.val.take 8).drop 8) % capacity = 0 := by
        rw [List.drop_eq_nil_of_le (List.length_take_le _ _), leNat, Nat.zero_mod]
      have hloop := homeLoop_eq h hpos hle (le_refl 8)
      rwa [hempty] at hloop
  have hlt : leNat (h.val.take 8) % capacity < capacity := Nat.mod_lt _ hpos
  rw [hlua, hgo, toInt_ofNat_small (by omega)]

/-- A drive of capacity 3, and a hash that is negative in Lua. -/
def sampleGeometry : Geometry := ⟨3, 2, zeros 32, profileSingleAsset, 64, 4096, 0, 0, 0, 0, 0, 0⟩

def negativeDigest : Digest := ⟨List.replicate 32 0xff, rfl⟩

theorem home_eq_go_negative :
    (unpackI8 negativeDigest).toInt = -1 ∧
      (home (fun _ _ => negativeDigest) sampleGeometry.seed [] (BitVec.ofNat 64 3)).toInt =
        Drive.home (Go.platform fun _ _ => negativeDigest.val) sampleGeometry [] 3 :=
  ⟨by decide, home_eq_go (fun _ _ => negativeDigest) sampleGeometry [] (by decide) (by decide)⟩

/-- The bound is tight: at capacity `2^55 + 1` a residue of `2^55` is shifted into the sign bit. -/
theorem home_overflows :
    let h : Digest := ⟨zeros 7 ++ [0x80] ++ zeros 24, rfl⟩
    (home (fun _ _ => h) [] [] (BitVec.ofNat 64 (2 ^ 55 + 1))).toInt = 256 ∧
      leNat (h.val.take 8) % (2 ^ 55 + 1) = 2 ^ 55 - 255 := by
  decide +kernel

end OpCartesi.Drive.Lua
