import OpCartesi.Common.Bytes
import OpCartesi.Common.Exec

/-!
# Stores, errors and machine arithmetic of the accounts drive

What the Go and the TypeScript accounts-drive libraries share is written once,
over two parameters:

* `Store`: the byte-level access of `store.go:13-16` and `store.ts:17-22`. A
  `LawfulStore` is one that behaves as a byte array of a fixed size within its
  bounds; `MemStore` is one.
* `Platform`: what the host language contributes, its index arithmetic (`uint64`
  in Go, doubles in TypeScript), its slicing of a byte array, and the keccak of
  its library, an arbitrary function of seed and key. Within the platform's exact
  range the arithmetic is that of `ℕ`.
-/

namespace OpCartesi.Drive

open Exec

/-! ## Errors -/

/-- The refusals of `Config.validate` (`drive.go:122-203`), one per message. -/
inductive ConfigError
  | driveLength
  | unknownProfile
  | slotSize
  | capacity
  | loadLimit
  | tableOffset
  | registryRequired
  | registryCapacity
  | registryOffset
  | inHeaderRegistry
  | sparseSlotSize
  | sparseCapacity
  | sparseLoadLimit
  | sparseOffset
  | outside (region : String)
  | overlaps (a b : String)
  deriving DecidableEq, Repr

/-- The errors of the drive libraries (`drive.go:63-75`, `drive.ts:122-131`), with
    the store's bounds error, the two refusals of `ReloadRegistry` and `Format`, a run-time
    panic, and `diverged` for a probe loop that does not stop. -/
inductive DriveError
  | notFormatted
  | version
  | tableFull
  | registryFull
  | overflow
  | zeroAddress
  | nonceProtected
  | profile
  | unknownToken
  | duplicateToken
  | badWidth
  | tokenCount
  | config (e : ConfigError)
  | bounds
  | panic
  | diverged
  deriving DecidableEq, Repr

/-! ## Platforms -/

/-- The arithmetic, slicing and keccak of the host language. -/
structure Platform where
  /-- Integers below `bound` are represented and computed exactly. -/
  bound : ℕ
  bound_le : bound ≤ 2 ^ 64
  le_bound : 2 ^ 32 ≤ bound
  add : ℕ → ℕ → ℕ
  sub : ℕ → ℕ → ℕ
  mul : ℕ → ℕ → ℕ
  /-- The test for a wrapped sum, which Go makes and TypeScript does not. -/
  wrapped : ℕ → ℕ → Bool
  /-- A little-endian 64-bit header field as an index. -/
  ofU64 : ℕ → ℕ
  /-- `b[lo : lo+n]`. -/
  slice : Bytes → ℕ → ℕ → Except DriveError Bytes
  /-- Keccak-256 of a seed and a key. -/
  keccak256 : Bytes → Bytes → Bytes
  add_eq : ∀ {a b}, a + b < bound → add a b = a + b
  sub_eq : ∀ {a b}, b ≤ a → a < bound → sub a b = a - b
  mul_eq : ∀ {a b}, a * b < bound → mul a b = a * b
  add_le : ∀ {a b n}, a < 2 ^ 64 → b < 2 ^ 64 → wrapped a b = false → add a b ≤ n → n < bound →
    a + b ≤ n
  ofU64_eq : ∀ {a}, a < bound → ofU64 a = a
  slice_eq : ∀ {b lo n}, lo + n ≤ b.length → slice b lo n = .ok (OpCartesi.sub b lo n)

/-- Go: `uint64` wraps modulo `2^64`, and a slice out of range panics. -/
def Go.platform (keccak256 : Bytes → Bytes → Bytes) : Platform where
  bound := 2 ^ 64
  bound_le := le_rfl
  le_bound := by norm_num
  add a b := (a + b) % 2 ^ 64
  sub a b := (a + (2 ^ 64 - b % 2 ^ 64)) % 2 ^ 64
  mul a b := a * b % 2 ^ 64
  wrapped a b := (a + b) % 2 ^ 64 < a
  ofU64 a := a
  slice b lo n := if lo + n ≤ b.length then .ok (sub b lo n) else .error .panic
  keccak256 := keccak256
  add_eq h := Nat.mod_eq_of_lt h
  sub_eq {a b} h ha := by
    rw [Nat.mod_eq_of_lt (by omega : b < 2 ^ 64),
      show a + (2 ^ 64 - b) = a - b + 2 ^ 64 by omega, Nat.add_mod_right,
      Nat.mod_eq_of_lt (by omega)]
  mul_eq h := Nat.mod_eq_of_lt h
  add_le {a b n} ha hb hw h hn := by
    simp only [decide_eq_false_iff_not, not_lt] at hw
    omega
  ofU64_eq _ := rfl
  slice_eq h := if_pos h

/-- A natural number rounded to the nearest double, ties to even. -/
def toNumber (n : ℕ) : ℕ :=
  if n < 2 ^ 53 then n
  else
    let e := n.log2 - 52
    let q := n / 2 ^ e
    let r := n % 2 ^ e
    if 2 ^ e < 2 * r ∨ (2 * r = 2 ^ e ∧ q % 2 = 1) then (q + 1) * 2 ^ e else q * 2 ^ e

theorem toNumber_eq {n : ℕ} (h : n < 2 ^ 53) : toNumber n = n := if_pos h

/-- Rounding does not bring a number back into the exact range. -/
theorem le_toNumber {n : ℕ} (h : 2 ^ 53 ≤ n) : 2 ^ 53 ≤ toNumber n := by
  have hne : n ≠ 0 := by omega
  have hlog : 53 ≤ n.log2 := (Nat.le_log2 hne).2 h
  have hq : 2 ^ 52 ≤ n / 2 ^ (n.log2 - 52) := by
    rw [Nat.le_div_iff_mul_le (by positivity), ← pow_add,
      show 52 + (n.log2 - 52) = n.log2 by omega]
    exact Nat.log2_self_le hne
  have hle : 2 ^ 53 ≤ n / 2 ^ (n.log2 - 52) * 2 ^ (n.log2 - 52) := by
    calc 2 ^ 53 = 2 ^ 52 * 2 ^ 1 := by norm_num
      _ ≤ n / 2 ^ (n.log2 - 52) * 2 ^ (n.log2 - 52) :=
        Nat.mul_le_mul hq (Nat.pow_le_pow_right (by norm_num) (by omega))
  rw [toNumber, if_neg (by omega)]
  simp only
  split_ifs
  · exact hle.trans (Nat.mul_le_mul_right _ (Nat.le_succ _))
  · exact hle

/-- TypeScript: numbers are doubles, and `subarray` clips to the array. -/
def Ts.platform (keccak256 : Bytes → Bytes → Bytes) : Platform where
  bound := 2 ^ 53
  bound_le := by norm_num
  le_bound := by norm_num
  add a b := toNumber (a + b)
  sub a b := toNumber (a - b)
  mul a b := toNumber (a * b)
  wrapped _ _ := false
  ofU64 := toNumber
  slice b lo n := .ok (sub b lo n)
  keccak256 := keccak256
  add_eq h := toNumber_eq h
  sub_eq _ ha := toNumber_eq (by omega)
  mul_eq h := toNumber_eq h
  add_le {a b n} _ _ _ h hn := by
    by_cases hab : a + b < 2 ^ 53
    · rwa [toNumber_eq hab] at h
    · have := le_toNumber (not_lt.1 hab)
      omega
  ofU64_eq h := toNumber_eq h
  slice_eq _ := rfl

/-! ## Stores -/

/-- `Store` (`store.go:13-16`, `store.ts:17-22`). -/
class Store (σ : Type) where
  readAt : ℕ → ℕ → EStateM DriveError σ Bytes
  writeAt : ℕ → Bytes → EStateM DriveError σ Unit

/-- A store that is a byte array of a fixed size. `Extends s s'` says that `s'` is a
    later state of the store `s`; a store that keeps a record of its writes
    relates the two records in it. -/
class LawfulStore (σ : Type) [Store σ] where
  image : σ → Image
  size : σ → ℕ
  Extends : σ → σ → Prop
  extends_refl : ∀ s, Extends s s
  extends_trans : ∀ {s t u}, Extends s t → Extends t u → Extends s u
  readAt_eq : ∀ {s off n}, off + n ≤ size s →
    (Store.readAt off n).run s = .ok (slice (image s) off n) s
  writeAt_eq : ∀ {s off p}, off + p.length ≤ size s →
    ∃ s', (Store.writeAt off p).run s = .ok () s' ∧ image s' = blit (image s) off p ∧
      size s' = size s ∧ Extends s s'

/-- `MemStore` (`store.go:22`, `store.ts:26-27`): the drive as one byte array. -/
structure MemStore where
  len : ℕ
  bytes : Image

namespace MemStore

/-- `NewMemStore` (`store.go:25`): a zeroed image. -/
def new (length : ℕ) : MemStore := ⟨length, fun _ => 0⟩

/-- `MemStore.bounds` (`store.go:27-32`, `store.ts:37-49`). Go's second test refuses an
    `off + n` that wraps, so both libraries test the exact sum. -/
def inBounds (m : MemStore) (off n : ℕ) : Bool := off + n ≤ m.len

instance : Store MemStore where
  readAt off n := fun m =>
    if m.inBounds off n then .ok (slice m.bytes off n) m else .error .bounds m
  writeAt off p := fun m =>
    if m.inBounds off p.length then .ok () { m with bytes := blit m.bytes off p }
    else .error .bounds m

instance : LawfulStore MemStore where
  image := bytes
  size := len
  Extends _ _ := True
  extends_refl _ := trivial
  extends_trans _ _ := trivial
  readAt_eq h := if_pos (decide_eq_true h)
  writeAt_eq h := ⟨_, if_pos (decide_eq_true h), rfl, rfl, trivial⟩

end MemStore

end OpCartesi.Drive
