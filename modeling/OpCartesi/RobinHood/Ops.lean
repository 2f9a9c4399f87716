import OpCartesi.RobinHood.Basic

/-!
# Robin Hood hashing: lookup, insertion and deletion

The three loops on a table given as a function from slot indices to slots. The
insertion and deletion loops have no bound of their own, so they take fuel and
return `none` when it runs out; `insert_isSome` and `remove_isSome` show that
`cap` iterations are always enough when the table has an empty slot, whatever
it contains.

* `lookup_eq_some`, `lookup_eq_none`: on an ordered table the early exit never
  misses a key.
* `insertLoop_contents`, `removeLoop_contents`: exactly the inserted record is
  added, exactly the deleted one is dropped.
* `insert_ordered`, `remove_ordered`: the ordering invariant is kept.
* `insertLoop_empty`, `removeLoop_empty`: an empty slot of the result was left
  alone, or cleared.
-/

namespace OpCartesi.RobinHood.Layout

variable {S K : Type*} {L : Layout S K} {T : ℕ → S} {s : S} {k : K} {e : ℕ} {i : ℕ}

variable (L) in
/-- The probe for key `k` from distance `d` on, for at most `n` slots. -/
def lookupLoop [DecidableEq K] (T : ℕ → S) (k : K) (h : ℕ) : ℕ → ℕ → Option ℕ
  | 0, _ => none
  | n + 1, d =>
    let i := (h + d) % L.cap
    if L.live (T i) = false then none
    else if L.key (T i) = k then some i
    else if L.disp (T i) i < d then none
    else lookupLoop T k h n (d + 1)

variable (L) in
/-- How many slots that probe examines. -/
def walk [DecidableEq K] (T : ℕ → S) (k : K) (h : ℕ) : ℕ → ℕ → ℕ
  | 0, _ => 0
  | n + 1, d =>
    let i := (h + d) % L.cap
    if L.live (T i) = false then 1
    else if L.key (T i) = k then 1
    else if L.disp (T i) i < d then 1
    else walk T k h n (d + 1) + 1

variable (L) in
/-- The slot that holds key `k`. -/
def lookup [DecidableEq K] (T : ℕ → S) (k : K) : Option ℕ := L.lookupLoop T k (L.home k) L.cap 0

variable (L) in
/-- The insertion loop carrying `carry`, whose home is `h`, at distance `d`. -/
def insertLoop : ℕ → (ℕ → S) → S → ℕ → ℕ → Option (ℕ → S)
  | 0, _, _, _, _ => none
  | n + 1, T, carry, h, d =>
    let i := (h + d) % L.cap
    if L.live (T i) = false then some (Function.update T i carry)
    else if L.disp (T i) i < d then
      insertLoop n (Function.update T i carry) (T i) (L.home (L.key (T i))) (L.disp (T i) i + 1)
    else insertLoop n T carry h (d + 1)

variable (L) in
def insert (T : ℕ → S) (s : S) : Option (ℕ → S) :=
  L.insertLoop L.cap T s (L.home (L.key s)) 0

variable (L) in
/-- The backward shift into slot `i`. -/
def removeLoop : ℕ → (ℕ → S) → ℕ → Option (ℕ → S)
  | 0, _, _ => none
  | n + 1, T, i =>
    let j := L.next i
    if L.live (T j) = false ∨ L.disp (T j) j = 0 then some (Function.update T i L.empty)
    else removeLoop n (Function.update T i (T j)) j

variable (L) in
def remove (T : ℕ → S) (i : ℕ) : Option (ℕ → S) := L.removeLoop L.cap T i

/-! ## Lookup -/

section Lookup

variable [DecidableEq K]

theorem walk_le (T : ℕ → S) (k : K) (h n d : ℕ) : L.walk T k h n d ≤ n := by
  induction n generalizing d with
  | zero => exact le_rfl
  | succ n ih =>
    rw [walk]
    split_ifs
    · omega
    · omega
    · omega
    · exact Nat.succ_le_succ (ih (d + 1))

theorem walk_pos (T : ℕ → S) (k : K) (h d : ℕ) {n : ℕ} (hn : 0 < n) : 0 < L.walk T k h n d := by
  obtain ⟨n, rfl⟩ := Nat.exists_eq_succ_of_ne_zero hn.ne'
  rw [walk]
  split_ifs <;> omega

theorem lookupLoop_eq_some {h i : ℕ} :
    ∀ {n d : ℕ}, L.lookupLoop T k h n d = some i →
      i < L.cap ∧ L.live (T i) = true ∧ L.key (T i) = k := by
  intro n
  induction n with
  | zero => intro d hs; simp [lookupLoop] at hs
  | succ n ih =>
    intro d hs
    rw [lookupLoop] at hs
    split_ifs at hs with hl hk hd
    · rw [← Option.some.inj hs]
      exact ⟨Nat.mod_lt _ L.cap_pos, by simpa using hl, hk⟩
    · exact ih hs

theorem lookup_eq_some (h : L.lookup T k = some i) :
    i < L.cap ∧ L.live (T i) = true ∧ L.key (T i) = k := lookupLoop_eq_some h

/-- The probe for a live record goes on until it reaches the record or another
    one with its key. -/
theorem lookupLoop_isSome (ho : L.Ordered T) {j : ℕ} (hj : j < L.cap) (hl : L.live (T j) = true) :
    ∀ {n d : ℕ}, d ≤ L.disp (T j) j → L.disp (T j) j < d + n →
      (L.lookupLoop T (L.key (T j)) (L.home (L.key (T j))) n d).isSome = true := by
  intro n
  induction n with
  | zero => intro d h1 h2; omega
  | succ n ih =>
    intro d h1 h2
    have hlive := ho.live_of_probe hj hl h1
    have hw := ho.weight_of_probe hj hl h1
    rw [L.weight_of_live hlive] at hw
    rw [lookupLoop]
    rw [if_neg (by simp [hlive])]
    split_ifs with hk hd
    · rfl
    · omega
    · refine ih ?_ (by omega)
      -- at distance `disp` the probe is at `j` itself, where the key matches
      rcases Nat.lt_or_ge d (L.disp (T j) j) with hlt | hge
      · omega
      · have hde : d = L.disp (T j) j := by omega
        rw [hde, L.home_add_disp _ hj] at hk
        exact absurd rfl hk

theorem lookup_eq_none (ho : L.Ordered T) (h : L.lookup T k = none) {j : ℕ} (hj : j < L.cap)
    (hl : L.live (T j) = true) : L.key (T j) ≠ k := by
  rintro rfl
  have := lookupLoop_isSome ho hj hl (n := L.cap) (d := 0) (Nat.zero_le _)
    (by have := L.disp_lt (T j) j; omega)
  unfold lookup at h
  rw [h] at this
  cases this

/-- The record a lookup finds, as a statement about the contents. -/
theorem map_lookup_eq_some_iff (ho : L.Ordered T) (hd : ((L.contents T).map L.key).Nodup) :
    (L.lookup T k).map T = some s ↔ s ∈ L.contents T ∧ L.key s = k := by
  constructor
  · intro h
    obtain ⟨i, hi, rfl⟩ := Option.map_eq_some_iff.1 h
    obtain ⟨hlt, hl, hk⟩ := lookup_eq_some hi
    exact ⟨mem_contents_of_live hlt hl, hk⟩
  · rintro ⟨hs, rfl⟩
    obtain ⟨j, hj, rfl, hl⟩ := mem_contents.1 hs
    cases hlk : L.lookup T (L.key (T j)) with
    | none => exact absurd rfl (lookup_eq_none ho hlk hj hl)
    | some i =>
      obtain ⟨hi, hli, hk⟩ := lookup_eq_some hlk
      rw [Option.map_some, slot_unique hd hi hj hli hl hk]

theorem map_lookup_eq_none_iff (ho : L.Ordered T) :
    (L.lookup T k).map T = none ↔ ∀ s ∈ L.contents T, L.key s ≠ k := by
  rw [Option.map_eq_none_iff]
  constructor
  · intro h s hs
    obtain ⟨j, hj, rfl, hl⟩ := mem_contents.1 hs
    exact lookup_eq_none ho h hj hl
  · intro h
    cases hlk : L.lookup T k with
    | none => rfl
    | some i =>
      obtain ⟨hi, hl, hk⟩ := lookup_eq_some hlk
      exact absurd hk (h _ (mem_contents_of_live hi hl))

end Lookup

/-! ## Insertion -/

/-- The loop visits consecutive slots, also across a swap, so it stops at the
    first empty slot. -/
theorem insertLoop_isSome (he : e < L.cap) :
    ∀ {n : ℕ} {T : ℕ → S} {carry : S} {h d : ℕ}, L.live (T e) = false →
      L.gap ((h + d) % L.cap) e < n → (L.insertLoop n T carry h d).isSome = true := by
  intro n
  induction n with
  | zero => intro T carry h d _ hg; omega
  | succ n ih =>
    intro T carry h d hl hg
    have hi : (h + d) % L.cap < L.cap := Nat.mod_lt _ L.cap_pos
    rw [insertLoop]
    split_ifs with hli hd
    · rfl
    all_goals
      have hne : (h + d) % L.cap ≠ e := by
        intro heq
        rw [heq] at hli
        exact hli hl
      have hgap := L.gap_next hi he hne
    · apply ih
      · rwa [Function.update_of_ne (Ne.symm hne)]
      · rw [← L.next_home_add (L.home_add_disp _ hi).symm]
        omega
    · apply ih hl
      rw [← L.next_home_add rfl]
      omega

theorem insert_isSome (he : e < L.cap) (hl : L.live (T e) = false) : (L.insert T s).isSome = true :=
  insertLoop_isSome he hl (L.gap_lt (Nat.mod_lt _ L.cap_pos) he)

/-- A swap exchanges the carried record for the one in the slot. -/
theorem insertLoop_contents :
    ∀ {n : ℕ} {T T' : ℕ → S} {carry : S} {h d : ℕ}, L.live carry = true →
      L.insertLoop n T carry h d = some T' → L.contents T' = carry ::ₘ L.contents T := by
  intro n
  induction n with
  | zero => intro T T' carry h d _ hs; simp [insertLoop] at hs
  | succ n ih =>
    intro T T' carry h d hc hs
    have hi : (h + d) % L.cap < L.cap := Nat.mod_lt _ L.cap_pos
    have hup := contents_update T hi carry
    rw [insertLoop] at hs
    split_ifs at hs with hl hd
    · rw [cell_of_empty hl, cell_of_live hc, add_zero] at hup
      rw [← Option.some.inj hs, hup, Multiset.add_comm, Multiset.singleton_add]
    · have hli : L.live (T ((h + d) % L.cap)) = true := by simpa using hl
      rw [cell_of_live hli, cell_of_live hc, Multiset.add_comm _ {carry}, Multiset.singleton_add,
        Multiset.add_comm, Multiset.singleton_add] at hup
      rw [ih hli hs, hup]
    · exact ih hc hs

/-- The slots that are empty afterwards were not touched. -/
theorem insertLoop_empty :
    ∀ {n : ℕ} {T T' : ℕ → S} {carry : S} {h d j : ℕ}, L.live carry = true →
      L.insertLoop n T carry h d = some T' → L.live (T' j) = false → T' j = T j := by
  intro n
  induction n with
  | zero => intro T T' carry h d j _ hs; simp [insertLoop] at hs
  | succ n ih =>
    intro T T' carry h d j hc hs hj
    rw [insertLoop] at hs
    split_ifs at hs with hl hd
    · rw [← Option.some.inj hs] at hj ⊢
      by_cases hji : j = (h + d) % L.cap
      · rw [hji, Function.update_self, hc] at hj
        cases hj
      · rw [Function.update_of_ne hji]
    · have hli : L.live (T ((h + d) % L.cap)) = true := by simpa using hl
      have hT := ih hli hs hj
      by_cases hji : j = (h + d) % L.cap
      · rw [hT, hji, Function.update_self, hc] at hj
        cases hj
      · rw [hT, Function.update_of_ne hji]
    · exact ih hc hs hj

/-- Invariant of the loop: the slot before the current one weighs at least the
    distance, so the carried record may be placed here. -/
theorem insertLoop_ordered (he : e < L.cap) :
    ∀ {n : ℕ} {T T' : ℕ → S} {carry : S} {d p : ℕ}, L.Ordered T → L.live (T e) = false →
      L.live carry = true → p < L.cap → L.next p = (L.home (L.key carry) + d) % L.cap →
      d ≤ L.weight T p →
      L.insertLoop n T carry (L.home (L.key carry)) d = some T' → L.Ordered T' := by
  intro n
  induction n with
  | zero => intro T T' carry d p _ _ _ _ _ _ hs; simp [insertLoop] at hs
  | succ n ih =>
    intro T T' carry d p ho hle hc hp hpi hdp hs
    have hdc : d < L.cap := lt_of_le_of_lt hdp (ho.weight_lt_cap he hle hp)
    have hdisp := L.disp_home_add carry hdc
    rw [insertLoop] at hs
    set i := (L.home (L.key carry) + d) % L.cap with hidef
    have hi : i < L.cap := Nat.mod_lt _ L.cap_pos
    have hwi : L.weight (Function.update T i carry) i = d + 1 := by
      rw [L.weight_update_self, if_pos hc, hdisp]
    have hnext := ho i hi
    split_ifs at hs with hl hd
    · rw [← Option.some.inj hs]
      rw [L.weight_of_empty hl] at hnext
      exact ho.update hp hi hpi (by omega) (by omega)
    · have hli : L.live (T i) = true := by simpa using hl
      rw [L.weight_of_live hli] at hnext
      have hne : e ≠ i := by rintro rfl; rw [hle] at hli; cases hli
      refine ih (ho.update hp hi hpi (by omega) (by omega)) ?_ hli hi ?_ ?_ hs
      · rwa [Function.update_of_ne hne]
      · exact L.next_home_add (L.home_add_disp _ hi).symm
      · omega
    · have hli : L.live (T i) = true := by simpa using hl
      refine ih ho hle hc hi (L.next_home_add hidef) ?_ hs
      rw [L.weight_of_live hli]
      omega

theorem insert_ordered {T T' : ℕ → S} (ho : L.Ordered T) (he : e < L.cap)
    (hl : L.live (T e) = false) (hs : L.live s = true) (h : L.insert T s = some T') :
    L.Ordered T' := by
  obtain ⟨p, hp, hpi⟩ := L.exists_next_eq (L.home_lt (L.key s))
  refine insertLoop_ordered he (d := 0) (p := p) ho hl hs hp ?_ (Nat.zero_le _) h
  rw [hpi, Nat.add_zero, Nat.mod_eq_of_lt (L.home_lt _)]

/-! ## Deletion -/

theorem removeLoop_isSome (he : e < L.cap) :
    ∀ {n : ℕ} {T : ℕ → S} {i : ℕ}, L.live (T e) = false → i < L.cap → i ≠ e → L.gap i e ≤ n →
      (L.removeLoop n T i).isSome = true := by
  intro n
  induction n with
  | zero =>
    intro T i _ hi hne hg
    have := L.gap_next hi he hne
    omega
  | succ n ih =>
    intro T i hl hi hne hg
    have hgap := L.gap_next hi he hne
    rw [removeLoop]
    split_ifs with hstop
    · rfl
    · have hje : L.next i ≠ e := by
        rintro rfl
        exact hstop (Or.inl hl)
      exact ih (by rwa [Function.update_of_ne (Ne.symm hne)]) (L.next_lt i) hje (by omega)

theorem remove_isSome {i e : ℕ} (he : e < L.cap) (hl : L.live (T e) = false) (hi : i < L.cap)
    (hli : L.live (T i) = true) : (L.remove T i).isSome = true := by
  refine removeLoop_isSome he hl hi ?_ (L.gap_lt hi he).le
  rintro rfl
  rw [hl] at hli
  cases hli

/-- The shift copies each record one slot back and then clears the last copy. -/
theorem removeLoop_contents :
    ∀ {n : ℕ} {T T' : ℕ → S} {i : ℕ}, i < L.cap → L.live (T i) = true →
      L.removeLoop n T i = some T' → L.contents T = T i ::ₘ L.contents T' := by
  intro n
  induction n with
  | zero => intro T T' i _ _ hs; simp [removeLoop] at hs
  | succ n ih =>
    intro T T' i hi hli hs
    rw [removeLoop] at hs
    split_ifs at hs with hstop
    · have hup := contents_update T hi L.empty
      rw [cell_of_live hli, cell_of_empty L.live_empty, add_zero] at hup
      rw [← Option.some.inj hs, ← hup, Multiset.add_comm, Multiset.singleton_add]
    · have hlj : L.live (T (L.next i)) = true := by
        have := (not_or.1 hstop).1
        simpa using this
      have hup := contents_update T hi (T (L.next i))
      have hT1 : Function.update T i (T (L.next i)) (L.next i) = T (L.next i) :=
        Function.update_of_ne (L.next_ne hi) _ _
      have hih := ih (L.next_lt i) (by rw [hT1]; exact hlj) hs
      rw [hT1] at hih
      rw [hih, cell_of_live hli, cell_of_live hlj, Multiset.add_comm, Multiset.singleton_add,
        Multiset.add_comm, Multiset.singleton_add, Multiset.cons_swap] at hup
      exact ((Multiset.cons_inj_right _).1 hup).symm

theorem removeLoop_empty :
    ∀ {n : ℕ} {T T' : ℕ → S} {i j : ℕ}, L.removeLoop n T i = some T' → L.live (T' j) = false →
      T' j = T j ∨ T' j = L.empty := by
  intro n
  induction n with
  | zero => intro T T' i j hs; simp [removeLoop] at hs
  | succ n ih =>
    intro T T' i j hs hj
    rw [removeLoop] at hs
    split_ifs at hs with hstop
    · rw [← Option.some.inj hs]
      by_cases hji : j = i
      · rw [hji, Function.update_self]; exact Or.inr rfl
      · rw [Function.update_of_ne hji]; exact Or.inl rfl
    · have hlj : L.live (T (L.next i)) = true := by
        have := (not_or.1 hstop).1
        simpa using this
      rcases ih hs hj with hT | hT
      · by_cases hji : j = i
        · rw [hT, hji, Function.update_self, hlj] at hj
          cases hj
        · rw [hT, Function.update_of_ne hji]; exact Or.inl rfl
      · exact Or.inr hT

/-- Every table the shift passes through is ordered: copying the record of slot
    `i + 1` back gives slot `i` the weight of slot `i + 1` minus one. -/
theorem removeLoop_ordered :
    ∀ {n : ℕ} {T T' : ℕ → S} {i : ℕ}, L.Ordered T → i < L.cap →
      L.removeLoop n T i = some T' → L.Ordered T' := by
  intro n
  induction n with
  | zero => intro T T' i _ _ hs; simp [removeLoop] at hs
  | succ n ih =>
    intro T T' i ho hi hs
    obtain ⟨p, hp, hpi⟩ := L.exists_next_eq hi
    have hpi' := ho p hp
    have hnext := ho i hi
    rw [hpi] at hpi'
    rw [removeLoop] at hs
    split_ifs at hs with hstop
    · rw [← Option.some.inj hs]
      have hw : L.weight (Function.update T i L.empty) i = 0 := by
        rw [L.weight_update_self, if_neg (by simp [L.live_empty])]
      have hj : L.weight T (L.next i) ≤ 1 := by
        unfold weight
        split_ifs with hlj
        · rcases hstop with hstop | hstop
          · rw [hlj] at hstop; cases hstop
          · omega
        · omega
      exact ho.update hp hi hpi (by omega) (by omega)
    · obtain ⟨hlj, hd0⟩ := not_or.1 hstop
      have hlj : L.live (T (L.next i)) = true := by simpa using hlj
      have hdisp := L.disp_of_next hi hd0
      rw [L.weight_of_live hlj] at hnext
      have hw : L.weight (Function.update T i (T (L.next i))) i = L.disp (T (L.next i)) i + 1 := by
        rw [L.weight_update_self, if_pos hlj]
      refine ih (ho.update hp hi hpi (by omega) ?_) (L.next_lt i) hs
      rw [hw, L.weight_of_live hlj]
      omega

/-! ## Tables in good order -/

variable (L) in
/-- The representation invariant of a table: ordered, no key twice, and every
    empty slot holds the blank record. -/
structure Good (T : ℕ → S) : Prop where
  ordered : L.Ordered T
  nodup : ((L.contents T).map L.key).Nodup
  blank : ∀ i < L.cap, L.live (T i) = false → T i = L.empty

/-- The table of blank slots. -/
theorem good_of_blank (h : ∀ i < L.cap, T i = L.empty) : L.Good T ∧ L.contents T = 0 := by
  have hl : ∀ i < L.cap, L.live (T i) = false := fun i hi => by rw [h i hi]; exact L.live_empty
  have hc : L.contents T = 0 := by
    refine Finset.sum_eq_zero fun i hi => ?_
    exact cell_of_empty (hl i (Finset.mem_range.1 hi))
  refine ⟨⟨fun i _ => ?_, by simp [hc], fun i hi _ => h i hi⟩, hc⟩
  rw [L.weight_of_empty (hl _ (L.next_lt i))]
  omega

theorem Good.insert (hg : L.Good T) (hs : L.live s = true)
    (hk : ∀ r ∈ L.contents T, L.key r ≠ L.key s) (hcard : Multiset.card (L.contents T) < L.cap) :
    ∃ T', L.insert T s = some T' ∧ L.Good T' ∧ L.contents T' = s ::ₘ L.contents T := by
  obtain ⟨e, he, hle⟩ := exists_empty hcard
  obtain ⟨T', hT'⟩ := Option.isSome_iff_exists.1 (insert_isSome (s := s) he hle)
  have hc := insertLoop_contents hs hT'
  refine ⟨T', hT', ⟨insert_ordered hg.ordered he hle hs hT', ?_, fun i hi hl => ?_⟩, hc⟩
  · rw [hc, Multiset.map_cons, Multiset.nodup_cons]
    refine ⟨fun hmem => ?_, hg.nodup⟩
    obtain ⟨r, hr, hrk⟩ := Multiset.mem_map.1 hmem
    exact hk r hr hrk
  · have hTi := insertLoop_empty hs hT' hl
    rw [hTi] at hl ⊢
    exact hg.blank i hi hl

theorem Good.remove (hg : L.Good T) (hi : i < L.cap) (hl : L.live (T i) = true)
    (hcard : Multiset.card (L.contents T) < L.cap) :
    ∃ T', L.remove T i = some T' ∧ L.Good T' ∧ L.contents T = T i ::ₘ L.contents T' := by
  obtain ⟨e, he, hle⟩ := exists_empty hcard
  obtain ⟨T', hT'⟩ := Option.isSome_iff_exists.1 (remove_isSome he hle hi hl)
  have hc := removeLoop_contents hi hl hT'
  refine ⟨T', hT', ⟨removeLoop_ordered hg.ordered hi hT', ?_, fun j hj hlj => ?_⟩, hc⟩
  · have := hg.nodup
    rw [hc, Multiset.map_cons, Multiset.nodup_cons] at this
    exact this.2
  · rcases removeLoop_empty hT' hlj with hT | hT
    · rw [hT] at hlj ⊢
      exact hg.blank j hj hlj
    · exact hT

/-- Overwriting a record by one with the same key. -/
theorem Good.update (hg : L.Good T) (hi : i < L.cap) (hl : L.live (T i) = true)
    (hs : L.live s = true) (hk : L.key s = L.key (T i)) :
    L.Good (Function.update T i s) ∧
      T i ::ₘ L.contents (Function.update T i s) = s ::ₘ L.contents T := by
  have hc := contents_update T hi s
  rw [cell_of_live hl, cell_of_live hs, Multiset.add_comm, Multiset.singleton_add,
    Multiset.add_comm, Multiset.singleton_add] at hc
  have hw : ∀ j, L.weight (Function.update T i s) j = L.weight T j := by
    intro j
    by_cases hji : j = i
    · subst hji
      rw [L.weight_update_self, if_pos hs, L.weight_of_live hl, disp, disp, hk]
    · exact L.weight_update_of_ne s hji
  refine ⟨⟨fun j hj => ?_, ?_, fun j hj hlj => ?_⟩, hc⟩
  · rw [hw, hw]; exact hg.ordered j hj
  · have := congrArg (Multiset.map L.key) hc
    rw [Multiset.map_cons, Multiset.map_cons, hk, Multiset.cons_inj_right] at this
    rw [this]; exact hg.nodup
  · by_cases hji : j = i
    · rw [hji, Function.update_self, hs] at hlj
      cases hlj
    · rw [Function.update_of_ne hji] at hlj ⊢
      exact hg.blank j hj hlj

/-! ## The table as a map -/

section Find

variable [DecidableEq K]

variable (L) in
/-- The record a table holds under a key. -/
def find (T : ℕ → S) (k : K) : Option S := (L.lookup T k).map T

theorem Good.find_eq_some_iff (hg : L.Good T) :
    L.find T k = some s ↔ s ∈ L.contents T ∧ L.key s = k :=
  map_lookup_eq_some_iff hg.ordered hg.nodup

theorem Good.find_eq_none_iff (hg : L.Good T) :
    L.find T k = none ↔ ∀ s ∈ L.contents T, L.key s ≠ k :=
  map_lookup_eq_none_iff hg.ordered

/-- Adding a record to the contents defines its key and no other. -/
theorem Good.find_of_cons {T T' : ℕ → S} (hg : L.Good T) (hg' : L.Good T')
    (hc : L.contents T' = s ::ₘ L.contents T) (k : K) :
    L.find T' k = if L.key s = k then some s else L.find T k := by
  split_ifs with hk
  · rw [hg'.find_eq_some_iff, hc]
    exact ⟨Multiset.mem_cons_self _ _, hk⟩
  · apply Option.ext
    intro r
    rw [hg'.find_eq_some_iff, hg.find_eq_some_iff, hc, Multiset.mem_cons]
    constructor
    · rintro ⟨rfl | hr, hrk⟩
      · exact absurd hrk hk
      · exact ⟨hr, hrk⟩
    · rintro ⟨hr, hrk⟩
      exact ⟨Or.inr hr, hrk⟩

theorem Good.find_of_erase {T T' : ℕ → S} (hg : L.Good T) (hg' : L.Good T')
    (hc : L.contents T = s ::ₘ L.contents T') (k : K) :
    L.find T' k = if L.key s = k then none else L.find T k := by
  have h := hg'.find_of_cons hg hc k
  split_ifs at h ⊢ with hk
  · rw [hg'.find_eq_none_iff]
    intro r hr hrk
    have hd := hg.nodup
    rw [hc, Multiset.map_cons, Multiset.nodup_cons] at hd
    exact hd.1 (Multiset.mem_map.2 ⟨r, hr, hrk.trans hk.symm⟩)
  · exact h.symm

theorem Good.find_of_replace {T T' : ℕ → S} (hg : L.Good T) (hg' : L.Good T') {r s : S}
    (hr : r ∈ L.contents T) (hrs : L.key s = L.key r)
    (hc : r ::ₘ L.contents T' = s ::ₘ L.contents T) (k : K) :
    L.find T' k = if L.key s = k then some s else L.find T k := by
  obtain ⟨C, hC⟩ := Multiset.exists_cons_of_mem hr
  have hC' : L.contents T' = s ::ₘ C := by
    rw [hC, Multiset.cons_swap, Multiset.cons_inj_right] at hc
    exact hc
  split_ifs with hk
  · rw [hg'.find_eq_some_iff, hC']
    exact ⟨Multiset.mem_cons_self _ _, hk⟩
  · apply Option.ext
    intro q
    rw [hg'.find_eq_some_iff, hg.find_eq_some_iff, hC, hC', Multiset.mem_cons, Multiset.mem_cons]
    -- neither the old record nor the new one is under `k`
    constructor
    · rintro ⟨rfl | hq, hqk⟩
      · exact absurd hqk hk
      · exact ⟨Or.inr hq, hqk⟩
    · rintro ⟨rfl | hq, hqk⟩
      · exact absurd (hrs.trans hqk) hk
      · exact ⟨Or.inr hq, hqk⟩

/-- A table keyed by the image of `enc` holds as many records as `enc` has defined keys. -/
theorem Good.card_filter_find {A : Type*} [Fintype A] (hg : L.Good T) (enc : A → K)
    (hinj : Function.Injective enc) (hsurj : ∀ s ∈ L.contents T, ∃ a, enc a = L.key s) :
    (Finset.univ.filter fun a => (L.find T (enc a)).isSome).card =
      Multiset.card (L.contents T) := by
  have hkeys : (Finset.univ.filter fun a => (L.find T (enc a)).isSome).map ⟨enc, hinj⟩ =
      ((L.contents T).map L.key).toFinset := by
    ext k
    simp only [Finset.mem_map, Finset.mem_filter, Finset.mem_univ, true_and,
      Function.Embedding.coeFn_mk, Multiset.mem_toFinset, Multiset.mem_map,
      Option.isSome_iff_exists, hg.find_eq_some_iff]
    constructor
    · rintro ⟨a, ⟨s, hs, hk⟩, rfl⟩
      exact ⟨s, hs, hk⟩
    · rintro ⟨s, hs, rfl⟩
      obtain ⟨a, ha⟩ := hsurj s hs
      exact ⟨a, ⟨s, hs, ha.symm⟩, ha⟩
  rw [← Finset.card_map ⟨enc, hinj⟩, hkeys, Multiset.toFinset_card_of_nodup hg.nodup,
    Multiset.card_map]

end Find

end OpCartesi.RobinHood.Layout
