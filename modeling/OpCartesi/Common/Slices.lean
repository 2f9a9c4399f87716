import Mathlib

/-!
# Go slices

Slices that share memory, as Go has them: a slice names a backing array and a length, and appending
writes into the array while its capacity lasts.

* `Memory`: the backing arrays, by identity; an array is as long as its capacity.
* `clone` (`slices.Clone`), `push` (`append` of one element), `store` (assignment to an element).
  The extra capacity an allocation gets is an arbitrary function `grow`.
* `Owned base m s`: nothing `base` already had changed in `m`, and `s` lives in an array newer than
  `base`. Cloning gives such a slice, pushing to it and storing into it keep it so.
* `read_grown`: an older slice reads the same after that.
-/

namespace OpCartesi.Slices

variable {α : Type*}

/-- The backing arrays allocated so far. -/
structure Memory (α : Type*) where
  arrays : List (List α)

/-- A slice that starts at the start of its array; `none` is the slice without one. -/
structure Slice where
  array : Option ℕ
  len : ℕ

/-- The nil slice. -/
def Slice.nil : Slice := ⟨none, 0⟩

namespace Memory

/-- The whole array under a slice. -/
def backing (m : Memory α) (s : Slice) : List α := (s.array.bind (m.arrays[·]?)).getD []

/-- The elements of a slice. -/
def read (m : Memory α) (s : Slice) : List α := (m.backing s).take s.len

/-- Assigning to an element. -/
def store (m : Memory α) (s : Slice) (i : ℕ) (v : α) : Memory α :=
  match s.array with
  | none => m
  | some a => ⟨m.arrays.modify a (·.set i v)⟩

variable (grow : ℕ → ℕ) (filler : α)

/-- A fresh array holding `xs`. -/
def alloc (m : Memory α) (xs : List α) : Memory α × Slice :=
  (⟨m.arrays ++ [xs ++ List.replicate (grow xs.length) filler]⟩,
    ⟨some m.arrays.length, xs.length⟩)

/-- `slices.Clone`: an empty slice keeps no capacity. -/
def clone (m : Memory α) (s : Slice) : Memory α × Slice :=
  if s.len = 0 then (m, Slice.nil) else m.alloc grow filler (m.read s)

/-- `append(s, v)`. -/
def push (m : Memory α) (s : Slice) (v : α) : Memory α × Slice :=
  if s.len < (m.backing s).length then (m.store s s.len v, { s with len := s.len + 1 })
  else m.alloc grow filler (m.read s ++ [v])

/-- Appending `v` until the slice is `n` longer. -/
def pad (v : α) : ℕ → Memory α × Slice → Memory α × Slice
  | 0, ms => ms
  | n + 1, ms => pad v n (ms.1.push grow filler ms.2 v)

end Memory

/-! ## Ownership -/

variable (grow : ℕ → ℕ) (filler : α) {base m : Memory α} {s : Slice}

/-- A slice of arrays that exist, no longer than its array. -/
structure Valid (m : Memory α) (s : Slice) : Prop where
  array_lt : ∀ a, s.array = some a → a < m.arrays.length
  len_le : s.len ≤ (m.backing s).length

/-- A slice whose array is newer than `base`, in a memory that extends `base`. -/
structure Owned (base m : Memory α) (s : Slice) : Prop extends Valid m s where
  prefixed : base.arrays <+: m.arrays
  newer : ∀ a, s.array = some a → base.arrays.length ≤ a

theorem valid_nil (m : Memory α) : Valid m Slice.nil := by
  constructor
  · intro a ha
    cases ha
  · exact Nat.zero_le _

/-- What an older slice reads does not change when memory is extended. -/
theorem backing_of_grown (hs : Valid base s) (hp : base.arrays <+: m.arrays) :
    m.backing s = base.backing s := by
  unfold Memory.backing
  cases ha : s.array with
  | none => rfl
  | some a =>
    have hlt := hs.array_lt a ha
    obtain ⟨rest, hrest⟩ := hp
    simp only [Option.bind_some, ← hrest, List.getElem?_append_left hlt]

theorem read_grown (hs : Valid base s) (hp : base.arrays <+: m.arrays) :
    m.read s = base.read s := by
  rw [Memory.read, backing_of_grown hs hp, Memory.read]

theorem Valid.grown (hs : Valid base s) (hp : base.arrays <+: m.arrays) : Valid m s := by
  constructor
  · intro a ha
    exact lt_of_lt_of_le (hs.array_lt a ha) hp.length_le
  · rw [backing_of_grown hs hp]
    exact hs.len_le

theorem Valid.read_length (hs : Valid m s) : (m.read s).length = s.len := by
  rw [Memory.read, List.length_take, Nat.min_eq_left hs.len_le]

theorem alloc_spec (hp : base.arrays <+: m.arrays) (xs : List α) :
    Owned base (m.alloc grow filler xs).1 (m.alloc grow filler xs).2 ∧
      (m.alloc grow filler xs).1.read (m.alloc grow filler xs).2 = xs := by
  have hback : (m.alloc grow filler xs).1.backing (m.alloc grow filler xs).2 =
      xs ++ List.replicate (grow xs.length) filler := by
    simp [Memory.backing, Memory.alloc]
  refine ⟨⟨⟨?_, ?_⟩, ?_, ?_⟩, ?_⟩
  · intro a ha
    cases ha
    simp [Memory.alloc]
  · rw [hback]
    simp [Memory.alloc]
  · exact hp.trans (List.prefix_append _ _)
  · intro a ha
    cases ha
    exact hp.length_le
  · rw [Memory.read, hback]
    simp [Memory.alloc]

theorem clone_spec (m : Memory α) (s : Slice) :
    Owned m (m.clone grow filler s).1 (m.clone grow filler s).2 ∧
      (m.clone grow filler s).1.read (m.clone grow filler s).2 = m.read s := by
  unfold Memory.clone
  split_ifs with hlen
  · refine ⟨⟨valid_nil m, List.prefix_rfl, ?_⟩, ?_⟩
    · intro a ha
      cases ha
    · simp [Memory.read, Slice.nil, hlen]
  · exact alloc_spec grow filler List.prefix_rfl _

theorem backing_store {a : ℕ} (ha : s.array = some a) (hlt : a < m.arrays.length) (i : ℕ) (v : α) :
    (m.store s i v).backing s = (m.backing s).set i v := by
  simp [Memory.backing, Memory.store, ha, hlt]

theorem Owned.store (hs : Owned base m s) {i : ℕ} (hi : i < s.len) (v : α) :
    Owned base (m.store s i v) s ∧ (m.store s i v).read s = (m.read s).set i v := by
  cases ha : s.array with
  | none =>
    have hlen := hs.len_le
    simp [Memory.backing, ha] at hlen
    omega
  | some a =>
    have hlt := hs.array_lt a ha
    have hback := backing_store ha hlt i v
    have harr : (m.store s i v).arrays = m.arrays.modify a (·.set i v) := by
      simp [Memory.store, ha]
    refine ⟨⟨⟨?_, ?_⟩, ?_, hs.newer⟩, ?_⟩
    · intro b hb
      rw [harr, List.length_modify]
      exact hs.array_lt b hb
    · rw [hback, List.length_set]
      exact hs.len_le
    · -- the array written to lies past those of `base`
      have hnewer := hs.newer a ha
      have htake := List.prefix_iff_eq_take.1 hs.prefixed
      rw [List.prefix_iff_eq_take, harr, List.take_modify, ← htake,
        List.modify_eq_self hnewer]
    · rw [Memory.read, hback, Memory.read, List.take_set]

theorem Owned.push {m : Memory α} {s : Slice} (hs : Owned base m s) (v : α) :
    Owned base (m.push grow filler s v).1 (m.push grow filler s v).2 ∧
      (m.push grow filler s v).1.read (m.push grow filler s v).2 = m.read s ++ [v] := by
  unfold Memory.push
  split_ifs with hcap
  · -- the longer slice owns its array as well, so the store is to one of its own elements
    have hlong : Owned base m { s with len := s.len + 1 } :=
      ⟨⟨hs.array_lt, hcap⟩, hs.prefixed, hs.newer⟩
    obtain ⟨howned, hread⟩ := hlong.store (Nat.lt_succ_self s.len) v
    refine ⟨howned, hread.trans ?_⟩
    change ((m.backing s).take (s.len + 1)).set s.len v = (m.backing s).take s.len ++ [v]
    rw [List.take_succ_eq_append_getElem hcap, List.set_append_right _ _ (by simp [hs.len_le])]
    simp [Nat.min_eq_left hs.len_le]
  · exact alloc_spec grow filler hs.prefixed _

theorem Owned.pad (v : α) (n : ℕ) : ∀ {m : Memory α} {s : Slice}, Owned base m s →
    Owned base (Memory.pad grow filler v n (m, s)).1 (Memory.pad grow filler v n (m, s)).2 ∧
      (Memory.pad grow filler v n (m, s)).1.read (Memory.pad grow filler v n (m, s)).2 =
        m.read s ++ List.replicate n v := by
  induction n with
  | zero =>
    intro m s hs
    exact ⟨hs, by simp [Memory.pad]⟩
  | succ n ih =>
    intro m s hs
    obtain ⟨howned, hread⟩ := hs.push grow filler v
    obtain ⟨howned', hread'⟩ := ih howned
    refine ⟨howned', ?_⟩
    rw [Memory.pad, hread', hread, List.append_assoc, List.replicate_succ, List.singleton_append]

end OpCartesi.Slices
