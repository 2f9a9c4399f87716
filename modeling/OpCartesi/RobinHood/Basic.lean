import Mathlib

/-!
# Robin Hood hashing: the table and its ordering invariant

A table of `cap` slots with linear probing. A slot holds a record or is empty
(`live`); a record has a `key`, and the key a `home` slot. The *displacement*
of a record is its cyclic distance from home. Insertion swaps the record it
carries with a less displaced one, deletion shifts the following run backwards.

The whole invariant is one inequality. With `weight T i` the displacement plus
one of a live slot and 0 for an empty one,

  `Ordered T : weight T (i + 1) ≤ weight T i + 1` at every slot, cyclically.

It says that displacements grow by at most one from a slot to the next and are
zero after an empty slot (`Ordered.disp_next_le`, `Ordered.disp_after_empty`),
and it implies that every slot between a record's home and its slot is live
(`Ordered.live_of_probe`).

`contents T` is the multiset of live records, so that "nothing lost, nothing
duplicated" is an equation between multisets.
-/

namespace OpCartesi.RobinHood

/-- The parameters of a table: capacity, the record of a slot, and hashing. -/
structure Layout (S K : Type*) where
  cap : ℕ
  live : S → Bool
  key : S → K
  home : K → ℕ
  empty : S
  two_le_cap : 2 ≤ cap
  home_lt : ∀ k, home k < cap
  live_empty : live empty = false

variable {S K : Type*} (L : Layout S K) {i : ℕ} {s : S}

namespace Layout

theorem cap_pos : 0 < L.cap := by have := L.two_le_cap; omega

/-- The cyclic successor of a slot index. -/
def next (i : ℕ) : ℕ := (i + 1) % L.cap

/-- The displacement a record has at slot `i`. -/
def disp (s : S) (i : ℕ) : ℕ := (i + L.cap - L.home (L.key s)) % L.cap

/-- Displacement plus one at a live slot, 0 at an empty one. -/
def weight (T : ℕ → S) (i : ℕ) : ℕ := if L.live (T i) then L.disp (T i) i + 1 else 0

/-- The ordering invariant of a table. -/
def Ordered (T : ℕ → S) : Prop := ∀ i < L.cap, L.weight T (L.next i) ≤ L.weight T i + 1

/-- The live records of a slot: one or none. -/
def cell (s : S) : Multiset S := if L.live s then {s} else 0

/-- The live records of a table. -/
def contents (T : ℕ → S) : Multiset S := ∑ i ∈ Finset.range L.cap, L.cell (T i)

/-! ## Cyclic positions -/

theorem next_eq (hi : i < L.cap) : L.next i = if i + 1 = L.cap then 0 else i + 1 := by
  unfold next
  split_ifs with h
  · rw [h, Nat.mod_self]
  · exact Nat.mod_eq_of_lt (by omega)

theorem next_lt (i : ℕ) : L.next i < L.cap := Nat.mod_lt _ L.cap_pos

theorem next_ne (hi : i < L.cap) : L.next i ≠ i := by
  have := L.two_le_cap
  rw [L.next_eq hi]
  split_ifs <;> omega

theorem next_inj {i j : ℕ} (hi : i < L.cap) (hj : j < L.cap) (h : L.next i = L.next j) : i = j := by
  rw [L.next_eq hi, L.next_eq hj] at h
  split_ifs at h <;> omega

/-- Every slot is the successor of a slot. -/
theorem exists_next_eq (hi : i < L.cap) : ∃ p < L.cap, L.next p = i := by
  by_cases h : i = 0
  · refine ⟨L.cap - 1, by omega, ?_⟩
    rw [L.next_eq (by omega), if_pos (by omega), h]
  · refine ⟨i - 1, by omega, ?_⟩
    rw [L.next_eq (by omega), if_neg (by omega)]
    omega

theorem disp_eq (s : S) (hi : i < L.cap) :
    L.disp s i = if L.home (L.key s) ≤ i then i - L.home (L.key s)
      else i + L.cap - L.home (L.key s) := by
  have hh := L.home_lt (L.key s)
  unfold disp
  split_ifs with h
  · rw [show i + L.cap - L.home (L.key s) = (i - L.home (L.key s)) + L.cap by omega,
      Nat.add_mod_right, Nat.mod_eq_of_lt (by omega)]
  · exact Nat.mod_eq_of_lt (by omega)

theorem disp_lt (s : S) (i : ℕ) : L.disp s i < L.cap := Nat.mod_lt _ L.cap_pos

/-- A record `d` slots after its home has displacement `d`. -/
theorem disp_home_add (s : S) {d : ℕ} (hd : d < L.cap) :
    L.disp s ((L.home (L.key s) + d) % L.cap) = d := by
  have hh := L.home_lt (L.key s)
  rw [L.disp_eq s (Nat.mod_lt _ L.cap_pos)]
  by_cases h : L.home (L.key s) + d < L.cap
  · rw [Nat.mod_eq_of_lt h, if_pos (by omega)]
    omega
  · rw [Nat.mod_eq_sub_mod (by omega), Nat.mod_eq_of_lt (by omega), if_neg (by omega)]
    omega

theorem home_add_disp (s : S) (hi : i < L.cap) : (L.home (L.key s) + L.disp s i) % L.cap = i := by
  have hh := L.home_lt (L.key s)
  rw [L.disp_eq s hi]
  split_ifs with h
  · rw [Nat.mod_eq_of_lt (by omega)]
    omega
  · rw [show L.home (L.key s) + (i + L.cap - L.home (L.key s)) = i + L.cap by omega,
      Nat.add_mod_right, Nat.mod_eq_of_lt hi]

/-- One slot back, the displacement is one less. -/
theorem disp_of_next (hi : i < L.cap) (h : L.disp s (L.next i) ≠ 0) :
    L.disp s i + 1 = L.disp s (L.next i) := by
  have hh := L.home_lt (L.key s)
  have hn := L.next_lt i
  rw [L.disp_eq s hn] at h ⊢
  rw [L.disp_eq s hi]
  rw [L.next_eq hi] at h hn ⊢
  split_ifs at h ⊢ <;> omega

theorem next_home_add {i h d : ℕ} (hi : i = (h + d) % L.cap) : L.next i = (h + (d + 1)) % L.cap := by
  rw [hi, next, Nat.mod_add_mod, Nat.add_assoc]

/-- How many slots `e` lies after `i`. -/
def gap (i e : ℕ) : ℕ := if i ≤ e then e - i else e + L.cap - i

theorem gap_lt {i e : ℕ} (hi : i < L.cap) (he : e < L.cap) : L.gap i e < L.cap := by
  unfold gap; split_ifs <;> omega

theorem eq_of_gap_eq_zero {i e : ℕ} (hi : i < L.cap) (he : e < L.cap) (h : L.gap i e = 0) :
    i = e := by
  unfold gap at h
  split_ifs at h <;> omega

theorem ne_of_gap_eq_succ {i e m : ℕ} (h : L.gap i e = m + 1) : i ≠ e := by
  rintro rfl
  rw [gap, if_pos le_rfl, Nat.sub_self] at h
  cases h

theorem gap_next {i e : ℕ} (hi : i < L.cap) (he : e < L.cap) (hne : i ≠ e) :
    L.gap (L.next i) e + 1 = L.gap i e := by
  rw [L.next_eq hi]
  unfold gap
  split_ifs <;> omega
/-! ## Weights -/

theorem weight_of_live {T : ℕ → S} (h : L.live (T i) = true) :
    L.weight T i = L.disp (T i) i + 1 := by
  rw [weight, if_pos h]

theorem weight_of_empty {T : ℕ → S} (h : L.live (T i) = false) : L.weight T i = 0 := by
  rw [weight, if_neg (by simp [h])]

theorem live_of_weight_pos {T : ℕ → S} (h : 0 < L.weight T i) : L.live (T i) = true := by
  by_contra hl
  rw [L.weight_of_empty (by simpa using hl)] at h
  omega

theorem weight_update_of_ne {T : ℕ → S} {i j : ℕ} (s : S) (h : j ≠ i) :
    L.weight (Function.update T i s) j = L.weight T j := by
  simp only [weight, Function.update_of_ne h]

theorem weight_update_self (T : ℕ → S) (i : ℕ) (s : S) :
    L.weight (Function.update T i s) i = if L.live s then L.disp s i + 1 else 0 := by
  simp only [weight, Function.update_self]

end Layout

namespace Layout.Ordered

variable {L} {T : ℕ → S}

section

variable (h : L.Ordered T)
include h

/-- Replacing one slot keeps the order when it keeps the two inequalities the
    slot takes part in. -/
theorem update {p i : ℕ} (hp : p < L.cap) (hi : i < L.cap) (hpi : L.next p = i)
    (hle : L.weight (Function.update T i s) i ≤ L.weight T p + 1)
    (hge : L.weight T (L.next i) ≤ L.weight (Function.update T i s) i + 1) :
    L.Ordered (Function.update T i s) := by
  intro j hj
  by_cases hji : j = i
  · subst hji
    rwa [L.weight_update_of_ne s (L.next_ne hj)]
  · rw [L.weight_update_of_ne s hji]
    by_cases hn : L.next j = i
    · rw [hn, L.next_inj hj hp (hn.trans hpi.symm)]
      exact hle
    · rw [L.weight_update_of_ne s hn]
      exact h j hj

/-- Displacements grow by at most one from a live slot to the next. -/
theorem disp_next_le (hi : i < L.cap) (hl : L.live (T i) = true) (hn : L.live (T (L.next i)) = true)
    :
    L.disp (T (L.next i)) (L.next i) ≤ L.disp (T i) i + 1 := by
  have := h i hi
  rw [L.weight_of_live hl, L.weight_of_live hn] at this
  omega

/-- After an empty slot a record is at home. -/
theorem disp_after_empty (hi : i < L.cap) (hl : L.live (T i) = false)
    (hn : L.live (T (L.next i)) = true) : L.disp (T (L.next i)) (L.next i) = 0 := by
  have := h i hi
  rw [L.weight_of_empty hl, L.weight_of_live hn] at this
  omega

/-- Walking back from slot `h + D` to slot `h + d`, the weight drops by at most
    one a step. -/
theorem weight_le_add (a d : ℕ) :
    ∀ k, L.weight T ((a + (d + k)) % L.cap) ≤ L.weight T ((a + d) % L.cap) + k := by
  intro k
  induction k with
  | zero => simp
  | succ k ih =>
    have hstep := h _ (Nat.mod_lt (a + (d + k)) L.cap_pos)
    rw [L.next_home_add rfl, Nat.add_assoc] at hstep
    omega

/-- Every slot a probe for a live record passes is live, and its record is at
    least as displaced as the probe is long. -/
theorem weight_of_probe {j d : ℕ} (hj : j < L.cap) (hl : L.live (T j) = true)
    (hd : d ≤ L.disp (T j) j) :
    d < L.weight T ((L.home (L.key (T j)) + d) % L.cap) := by
  obtain ⟨k, hk⟩ := Nat.exists_eq_add_of_le hd
  have := h.weight_le_add (L.home (L.key (T j))) d k
  rw [← hk, L.home_add_disp _ hj, L.weight_of_live hl] at this
  omega

theorem live_of_probe {j d : ℕ} (hj : j < L.cap) (hl : L.live (T j) = true)
    (hd : d ≤ L.disp (T j) j) :
    L.live (T ((L.home (L.key (T j)) + d) % L.cap)) = true :=
  L.live_of_weight_pos (by have := h.weight_of_probe hj hl hd; omega)

/-- A slot that lies `k` slots after an empty one has weight at most `k`. -/
theorem weight_le_of_empty {e : ℕ} (he : e < L.cap) (hl : L.live (T e) = false) (k : ℕ)
    : L.weight T ((e + k) % L.cap) ≤ k := by
  have := h.weight_le_add e 0 k
  rw [Nat.add_zero, Nat.mod_eq_of_lt he, L.weight_of_empty hl] at this
  simpa using this

/-- With an empty slot in the table no weight reaches the capacity. -/
theorem weight_lt_cap {e i : ℕ} (he : e < L.cap) (hl : L.live (T e) = false) (hi : i < L.cap)
    : L.weight T i < L.cap := by
  have hk := h.weight_le_of_empty he hl (if e ≤ i then i - e else i + L.cap - e)
  split_ifs at hk with hei
  · rw [show e + (i - e) = i by omega, Nat.mod_eq_of_lt hi] at hk
    omega
  · rw [show e + (i + L.cap - e) = i + L.cap by omega, Nat.add_mod_right, Nat.mod_eq_of_lt hi] at hk
    omega

end

end Layout.Ordered

/-! ## Contents -/

namespace Layout

variable {L}

theorem contents_update (T : ℕ → S) (hi : i < L.cap) (s : S) :
    L.contents (Function.update T i s) + L.cell (T i) = L.contents T + L.cell s := by
  unfold contents
  rw [← Finset.add_sum_erase _ _ (Finset.mem_range.2 hi),
    ← Finset.add_sum_erase _ (fun j => L.cell (T j)) (Finset.mem_range.2 hi), Function.update_self,
    Finset.sum_congr rfl fun j hj => by rw [Function.update_of_ne (Finset.ne_of_mem_erase hj)]]
  abel

theorem cell_of_live (h : L.live s = true) : L.cell s = {s} := if_pos h

theorem cell_of_empty (h : L.live s = false) : L.cell s = 0 := if_neg (by simp [h])

theorem mem_contents {T : ℕ → S} : s ∈ L.contents T ↔ ∃ i < L.cap, T i = s ∧ L.live s = true := by
  unfold contents
  rw [Multiset.mem_sum]
  constructor
  · rintro ⟨i, hi, hs⟩
    unfold cell at hs
    split_ifs at hs with hl
    · rw [Multiset.mem_singleton] at hs
      subst hs
      exact ⟨i, Finset.mem_range.1 hi, rfl, hl⟩
    · simp at hs
  · rintro ⟨i, hi, rfl, hl⟩
    exact ⟨i, Finset.mem_range.2 hi, by rw [cell_of_live hl]; simp⟩

theorem mem_contents_of_live {T : ℕ → S} (hi : i < L.cap) (hl : L.live (T i) = true) :
    T i ∈ L.contents T := mem_contents.2 ⟨i, hi, rfl, hl⟩

/-- The number of live slots. -/
theorem card_contents (T : ℕ → S) :
    Multiset.card (L.contents T) = ((Finset.range L.cap).filter fun i => L.live (T i) = true).card := by
  unfold contents
  rw [Multiset.card_sum, Finset.card_filter]
  refine Finset.sum_congr rfl fun i _ => ?_
  unfold cell
  split_ifs <;> simp

theorem exists_empty {T : ℕ → S} (h : Multiset.card (L.contents T) < L.cap) :
    ∃ e < L.cap, L.live (T e) = false := by
  by_contra hne
  push Not at hne
  rw [card_contents, Finset.filter_true_of_mem, Finset.card_range] at h
  · omega
  · intro i hi
    simpa using hne i (Finset.mem_range.1 hi)

/-- If the keys of the live records are pairwise different, a key occurs in one
    slot only. -/
theorem slot_unique {T : ℕ → S} (hd : ((L.contents T).map L.key).Nodup) {i j : ℕ} (hi : i < L.cap)
    (hj : j < L.cap) (hli : L.live (T i) = true) (hlj : L.live (T j) = true)
    (hk : L.key (T i) = L.key (T j)) : i = j := by
  by_contra hne
  -- the two cells are separate summands of `contents`, so their keys occur twice
  have hsum : L.contents T = L.cell (T i) + (L.cell (T j) +
      ∑ k ∈ ((Finset.range L.cap).erase i).erase j, L.cell (T k)) := by
    unfold contents
    rw [Finset.add_sum_erase _ (fun k => L.cell (T k))
        (Finset.mem_erase.2 ⟨Ne.symm hne, Finset.mem_range.2 hj⟩),
      Finset.add_sum_erase _ (fun k => L.cell (T k)) (Finset.mem_range.2 hi)]
  rw [hsum, cell_of_live hli, cell_of_live hlj, Multiset.singleton_add, Multiset.singleton_add,
    Multiset.map_cons, Multiset.map_cons, Multiset.nodup_cons] at hd
  exact hd.1 (by rw [hk]; exact Multiset.mem_cons_self _ _)

end Layout

end OpCartesi.RobinHood
