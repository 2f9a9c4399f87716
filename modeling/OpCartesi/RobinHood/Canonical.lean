import OpCartesi.RobinHood.Ops

/-!
# Robin Hood hashing: the layout is determined by the homes

In an ordered table with an empty slot the weights depend on nothing but how many
records have each slot as their home. Following the slots around the table,
`pending T i` is the number of records that still need a slot when the walk comes to
slot `i`: those `k` slots further with a displacement of at least `k`. By the order
they form an initial run (`Ordered.lt_pending_iff`), so one slot serves one of them and
the records at home in the next slot join (`Ordered.pending_next`). At an empty slot
nothing is pending, and this recurrence has one solution (`Ordered.pending_unique`).

* `Ordered.weight_unique`: two ordered tables with the same homes have the same weights.
* `walk_congr`: a probe for an absent key examines the same number of slots in both.
-/

namespace OpCartesi.RobinHood.Layout

variable {S K : Type*} {L : Layout S K} {T T' : ℕ → S} {i : ℕ}

/-- A downward closed property of the numbers below `n` holds of exactly as many as it has
    below its bound. -/
theorem lt_card_filter_iff {p : ℕ → Prop} [DecidablePred p] {n k : ℕ} (hk : k < n)
    (hdown : ∀ j, j + 1 < n → p (j + 1) → p j) :
    k < ((Finset.range n).filter p).card ↔ p k := by
  have hbelow : ∀ i j, i ≤ j → j < n → p j → p i := by
    intro i j hij
    induction j, hij using Nat.le_induction with
    | base => exact fun _ h => h
    | succ j _ ih => exact fun hj h => ih (by omega) (hdown j hj h)
  constructor
  · intro h
    by_contra hp
    have hsub : (Finset.range n).filter p ⊆ Finset.range k := by
      intro i hi
      rw [Finset.mem_filter, Finset.mem_range] at hi
      rw [Finset.mem_range]
      by_contra hik
      exact hp (hbelow k i (by omega) hi.1 hi.2)
    have := Finset.card_le_card hsub
    rw [Finset.card_range] at this
    omega
  · intro hp
    have hsub : Finset.range (k + 1) ⊆ (Finset.range n).filter p := by
      intro i hi
      rw [Finset.mem_range] at hi
      rw [Finset.mem_filter, Finset.mem_range]
      exact ⟨by omega, hbelow i k (by omega) hk hp⟩
    have := Finset.card_le_card hsub
    rw [Finset.card_range] at this
    omega

variable (L) in
/-- The records that need a slot from `i` on and do not have one before it. -/
def pending (T : ℕ → S) (i : ℕ) : ℕ :=
  ((Finset.range L.cap).filter fun k => k < L.weight T ((i + k) % L.cap)).card

variable (L) in
/-- The records at home in slot `i`. -/
def arrivals (T : ℕ → S) (i : ℕ) : ℕ :=
  ((Finset.range L.cap).filter fun k => L.weight T ((i + k) % L.cap) = k + 1).card

theorem weight_le_cap (T : ℕ → S) (i : ℕ) : L.weight T i ≤ L.cap := by
  unfold weight
  split_ifs
  · exact L.disp_lt _ _
  · exact Nat.zero_le _

theorem pending_le_cap (T : ℕ → S) (i : ℕ) : L.pending T i ≤ L.cap := by
  have := Finset.card_filter_le (Finset.range L.cap)
    fun k => k < L.weight T ((i + k) % L.cap)
  rwa [Finset.card_range] at this

/-! ## The recurrence -/

/-- The pending records sit one after the other from slot `i` on. -/
theorem Ordered.lt_pending_iff (h : L.Ordered T) (i : ℕ) {k : ℕ} (hk : k < L.cap) :
    k < L.pending T i ↔ k < L.weight T ((i + k) % L.cap) := by
  refine lt_card_filter_iff hk fun j _ hj => ?_
  have hstep := h.weight_le_add i j 1
  omega

theorem Ordered.pending_of_empty (h : L.Ordered T) {e : ℕ} (he : e < L.cap)
    (hl : L.live (T e) = false) : L.pending T e = 0 := by
  have h0 := h.lt_pending_iff e L.cap_pos
  rw [Nat.add_zero, Nat.mod_eq_of_lt he, L.weight_of_empty hl] at h0
  omega

/-- One pending record takes the slot, and the records at home in the next slot join. -/
theorem Ordered.pending_next (h : L.Ordered T) (i : ℕ) :
    L.pending T (L.next i) = L.arrivals T (L.next i) + (L.pending T i - 1) := by
  have hshift : ∀ k, (L.next i + k) % L.cap = (i + (k + 1)) % L.cap := by
    intro k
    rw [next, Nat.mod_add_mod, Nat.add_assoc, Nat.add_comm 1 k]
  -- a pending record is at home here, or was pending before
  have hsplit : (Finset.range L.cap).filter (fun k => k < L.weight T ((L.next i + k) % L.cap)) =
      ((Finset.range L.cap).filter fun k => L.weight T ((L.next i + k) % L.cap) = k + 1) ∪
        Finset.range (L.pending T i - 1) := by
    ext k
    rw [Finset.mem_union, Finset.mem_filter, Finset.mem_filter, Finset.mem_range, Finset.mem_range,
      hshift]
    have hle := pending_le_cap (L := L) T i
    have hw := weight_le_cap (L := L) T ((i + (k + 1)) % L.cap)
    by_cases hk : k + 1 < L.cap
    · have hiff := h.lt_pending_iff i hk
      omega
    · omega
  have hdisj : Disjoint
      ((Finset.range L.cap).filter fun k => L.weight T ((L.next i + k) % L.cap) = k + 1)
      (Finset.range (L.pending T i - 1)) := by
    rw [Finset.disjoint_left]
    intro k hk hk'
    rw [Finset.mem_filter, Finset.mem_range, hshift] at hk
    rw [Finset.mem_range] at hk'
    have hle := pending_le_cap (L := L) T i
    have hiff := h.lt_pending_iff i (k := k + 1) (by omega)
    omega
  rw [pending, hsplit, Finset.card_union_of_disjoint hdisj, Finset.card_range, arrivals]

/-- From a slot where nothing is pending on, a table has no more pending records than another
    one with the same arrivals. -/
theorem Ordered.pending_le (h : L.Ordered T) (h' : L.Ordered T')
    (ha : ∀ i < L.cap, L.arrivals T i = L.arrivals T' i) {e : ℕ} (he : e < L.cap)
    (h0 : L.pending T e = 0) (k : ℕ) :
    L.pending T ((e + k) % L.cap) ≤ L.pending T' ((e + k) % L.cap) := by
  induction k with
  | zero =>
    rw [Nat.add_zero, Nat.mod_eq_of_lt he, h0]
    exact Nat.zero_le _
  | succ k ih =>
    rw [← L.next_home_add rfl, h.pending_next, h'.pending_next, ha _ (L.next_lt _)]
    omega

theorem Ordered.pending_unique (h : L.Ordered T) (h' : L.Ordered T')
    (ha : ∀ i < L.cap, L.arrivals T i = L.arrivals T' i) {e e' : ℕ} (he : e < L.cap)
    (he' : e' < L.cap) (hl : L.live (T e) = false) (hl' : L.live (T' e') = false) (hi : i < L.cap) :
    L.pending T i = L.pending T' i := by
  have hreach : ∀ e < L.cap, (e + L.gap e i) % L.cap = i := by
    intro e he
    unfold gap
    split_ifs with hei
    · rw [show e + (i - e) = i by omega, Nat.mod_eq_of_lt hi]
    · rw [show e + (i + L.cap - e) = i + L.cap by omega, Nat.add_mod_right, Nat.mod_eq_of_lt hi]
  have hle := h.pending_le h' ha he (h.pending_of_empty he hl) (L.gap e i)
  have hge := h'.pending_le h (fun i hi => (ha i hi).symm) he' (h'.pending_of_empty he' hl')
    (L.gap e' i)
  rw [hreach e he] at hle
  rw [hreach e' he'] at hge
  omega

/-! ## Arrivals are homes -/

variable (L) in
/-- The homes of the live records. -/
def homes (T : ℕ → S) : Multiset ℕ := (L.contents T).map fun s => L.home (L.key s)

theorem count_homes (T : ℕ → S) (i : ℕ) :
    (L.homes T).count i = ((Finset.range L.cap).filter fun j =>
      L.live (T j) = true ∧ L.home (L.key (T j)) = i).card := by
  have hsum : L.homes T = ∑ j ∈ Finset.range L.cap,
      (L.cell (T j)).map fun s => L.home (L.key s) :=
    map_sum (Multiset.mapAddMonoidHom fun s => L.home (L.key s)) _ _
  rw [hsum, Multiset.count_sum', Finset.card_filter]
  refine Finset.sum_congr rfl fun j _ => ?_
  unfold cell
  by_cases hl : L.live (T j) = true
  · by_cases hh : L.home (L.key (T j)) = i
    · simp [hl, hh]
    · simp [hl, hh, Ne.symm hh]
  · simp [hl]

theorem weight_eq_succ_iff {j k : ℕ} :
    L.weight T j = k + 1 ↔ L.live (T j) = true ∧ L.disp (T j) j = k := by
  unfold weight
  split_ifs with hl
  · simp [hl]
  · simp [hl]

/-- The records `k` slots after slot `i` with displacement `k` are those at home in `i`. -/
theorem arrivals_eq_count (hi : i < L.cap) : L.arrivals T i = (L.homes T).count i := by
  rw [count_homes, arrivals]
  refine Finset.card_nbij (fun k => (i + k) % L.cap) ?_ ?_ ?_
  · intro k hk
    rw [Finset.mem_coe, Finset.mem_filter, weight_eq_succ_iff] at hk
    rw [Finset.mem_coe, Finset.mem_filter, Finset.mem_range]
    have hj : (i + k) % L.cap < L.cap := Nat.mod_lt _ L.cap_pos
    refine ⟨hj, hk.2.1, ?_⟩
    have hback := L.home_add_disp (T ((i + k) % L.cap)) hj
    rw [hk.2.2] at hback
    have hmod : L.home (L.key (T ((i + k) % L.cap))) ≡ i [MOD L.cap] :=
      Nat.ModEq.add_right_cancel' k hback
    exact hmod.eq_of_lt_of_lt (L.home_lt _) hi
  · intro k hk k' hk' heq
    rw [Finset.mem_coe, Finset.mem_filter, Finset.mem_range] at hk hk'
    have hmod : k ≡ k' [MOD L.cap] := Nat.ModEq.add_left_cancel' i heq
    exact hmod.eq_of_lt_of_lt hk.1 hk'.1
  · intro j hj
    rw [Finset.mem_coe, Finset.mem_filter, Finset.mem_range] at hj
    have hback := L.home_add_disp (T j) hj.1
    rw [hj.2.2] at hback
    refine ⟨L.disp (T j) j, ?_, hback⟩
    rw [Finset.mem_coe, Finset.mem_filter, Finset.mem_range]
    exact ⟨L.disp_lt _ _, by rw [hback, L.weight_of_live hj.2.1]⟩

/-! ## The layout -/

theorem Ordered.lt_weight_iff (h : L.Ordered T) {j : ℕ} (hj : j < L.cap) (k : ℕ) :
    k < L.weight T j ↔ k < L.cap ∧ k < L.pending T ((j + L.cap - k) % L.cap) := by
  by_cases hk : k < L.cap
  · rw [h.lt_pending_iff _ hk, Nat.mod_add_mod, Nat.sub_add_cancel (by omega), Nat.add_mod_right,
      Nat.mod_eq_of_lt hj]
    exact (and_iff_right hk).symm
  · have := weight_le_cap (L := L) T j
    omega

/-- Two ordered tables that hold records with the same homes have the same live slots, and in
    every slot records of the same displacement. -/
theorem Ordered.weight_unique (h : L.Ordered T) (h' : L.Ordered T')
    (hhomes : L.homes T = L.homes T') {e e' : ℕ} (he : e < L.cap) (he' : e' < L.cap)
    (hl : L.live (T e) = false) (hl' : L.live (T' e') = false) (hi : i < L.cap) :
    L.weight T i = L.weight T' i := by
  have ha : ∀ i < L.cap, L.arrivals T i = L.arrivals T' i := by
    intro i hi
    rw [arrivals_eq_count hi, arrivals_eq_count hi, hhomes]
  have hiff : ∀ k, k < L.weight T i ↔ k < L.weight T' i := by
    intro k
    rw [h.lt_weight_iff hi, h'.lt_weight_iff hi,
      h.pending_unique h' ha he he' hl hl' (Nat.mod_lt _ L.cap_pos)]
  have h1 := hiff (L.weight T i)
  have h2 := hiff (L.weight T' i)
  omega

theorem live_iff_of_weight (h : L.weight T i = L.weight T' i) :
    L.live (T i) = true ↔ L.live (T' i) = true := by
  have hpos : ∀ T : ℕ → S, L.live (T i) = true ↔ 0 < L.weight T i := fun T =>
    ⟨fun hl => by rw [L.weight_of_live hl]; omega, L.live_of_weight_pos⟩
  rw [hpos, hpos, h]

theorem home_eq_of_weight (hi : i < L.cap) (h : L.weight T i = L.weight T' i)
    (hl : L.live (T i) = true) : L.home (L.key (T i)) = L.home (L.key (T' i)) := by
  have hl' := (live_iff_of_weight h).1 hl
  rw [L.weight_of_live hl, L.weight_of_live hl'] at h
  have hdisp : L.disp (T i) i = L.disp (T' i) i := by omega
  have h1 := L.home_add_disp (T i) hi
  have h2 := L.home_add_disp (T' i) hi
  rw [← hdisp] at h2
  have hmod : L.home (L.key (T i)) ≡ L.home (L.key (T' i)) [MOD L.cap] :=
    Nat.ModEq.add_right_cancel' _ (h1.trans h2.symm)
  exact hmod.eq_of_lt_of_lt (L.home_lt _) (L.home_lt _)

/-! ## Probes for absent keys -/

/-- The probe for a key that no record has stops at the first slot that weighs no more than
    the distance. -/
theorem walk_congr [DecidableEq K] (h : ∀ i < L.cap, L.weight T i = L.weight T' i) {k : K}
    (hT : ∀ i < L.cap, L.live (T i) = true → L.key (T i) ≠ k)
    (hT' : ∀ i < L.cap, L.live (T' i) = true → L.key (T' i) ≠ k) (a n d : ℕ) :
    L.walk T k a n d = L.walk T' k a n d := by
  induction n generalizing d with
  | zero => rfl
  | succ n ih =>
    have hi : (a + d) % L.cap < L.cap := Nat.mod_lt _ L.cap_pos
    have hw := h _ hi
    rw [walk, walk, ih]
    by_cases hl : L.live (T ((a + d) % L.cap)) = true
    · have hl' := (live_iff_of_weight hw).1 hl
      rw [L.weight_of_live hl, L.weight_of_live hl', Nat.add_right_cancel_iff] at hw
      simp only [hl, hl', hT _ hi hl, hT' _ hi hl', hw]
    · have hl' : ¬L.live (T' ((a + d) % L.cap)) = true := fun h' => hl ((live_iff_of_weight hw).2 h')
      simp only [Bool.not_eq_true] at hl hl'
      simp only [hl, hl', if_true]

end OpCartesi.RobinHood.Layout
