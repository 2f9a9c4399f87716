import OpCartesi.Drive.Geometry

/-!
# Reading an image nobody has validated

`Open` checks the magic, the version and the flags of a header and takes the rest of it as it
is (`drive.go:254-289`). The header is the guest's, and its fields become divisors, buffer
sizes and column offsets of the host's reads.

* `slotAt`: the slot a table has at an index, in any image.
* `Holds`: the image holds a record of a key that the probe for the key reaches.
* `Readable`: what the reads of a table need of an image; `Go.found_panics_iff` says that a
  read panics exactly without it.
* `Go.reads_safe_iff`: the images on which no read of the host panics.

A column offset is a `uint32` in Go. A token id is a `uint16`, so the offsets that are read are
below `64 + 32 · 2^16` and do not wrap.
-/

namespace OpCartesi.Drive

open Exec

/-! ## Tables of any image -/

section

variable (P : Platform) (g : Geometry) (t : Table) (m : MemStore)

/-- The bytes `readSlot` finds at index `i`, if the image has them. -/
def slotAt (i : ℕ) : Option Bytes :=
  if m.inBounds (P.add t.base (P.mul t.slotSize i)) t.slotSize then
    some (slice m.bytes (P.add t.base (P.mul t.slotSize i)) t.slotSize)
  else none

/-- The slot at distance `dist` of the probe for a key. -/
def probeSlot (key : Bytes) (dist : ℕ) : ℕ :=
  P.add (home P g key t.capacity) dist % t.capacity

/-- The probe for `key` goes on after distance `dist`: a live record of another key is there,
    displaced by at least the distance. -/
def Passes (key : Bytes) (dist : ℕ) : Prop :=
  ∃ s, slotAt P t m (probeSlot P g t key dist) = some s ∧ isZero (sub s t.liveOff 20) = false ∧
    t.key s ≠ key ∧ ¬displacement P g t s (probeSlot P g t key dist) < dist

/-- A record of `key` is at distance `dist` of the probe for it. -/
def Matches (key : Bytes) (dist : ℕ) : Prop :=
  ∃ s, slotAt P t m (probeSlot P g t key dist) = some s ∧ isZero (sub s t.liveOff 20) = false ∧
    t.key s = key

/-- The probe for `key` reaches a record of it within `n` slots from distance `dist` on. -/
def HoldsFrom (key : Bytes) (n dist : ℕ) : Prop :=
  ∃ k, dist ≤ k ∧ k < dist + n ∧ Matches P g t m key k ∧
    ∀ j, dist ≤ j → j < k → Passes P g t m key j

/-- The table of the image holds a record of `key` where a probe reaches it. -/
def Holds (key : Bytes) : Prop := HoldsFrom P g t m key t.capacity 0

/-- What a read of `need` bytes of the record of `key` needs: a divisor, room for an address in
    a slot that is read, and room for the bytes in a record that is found. -/
structure Readable (key : Bytes) (need : ℕ) : Prop where
  capacity : t.capacity ≠ 0
  address : t.slotSize < t.liveOff + 20 → slotAt P t m (probeSlot P g t key 0) = none
  bytes : t.slotSize < need → ¬Holds P g t m key

variable {P g t m}

theorem slotAt_length {i : ℕ} {s : Bytes} (h : slotAt P t m i = some s) :
    s.length = t.slotSize := by
  unfold slotAt at h
  split_ifs at h
  rw [← Option.some.inj h, slice_length]

theorem not_holdsFrom_zero {key : Bytes} {dist : ℕ} : ¬HoldsFrom P g t m key 0 dist := by
  rintro ⟨k, h1, h2, -⟩
  omega

theorem holdsFrom_of_matches {key : Bytes} {n dist : ℕ} (h : Matches P g t m key dist) :
    HoldsFrom P g t m key (n + 1) dist :=
  ⟨dist, le_rfl, by omega, h, fun j h1 h2 => by omega⟩

/-- Without a match at `dist` the probe has to pass it. -/
theorem holdsFrom_succ {key : Bytes} {n dist : ℕ} (hm : ¬Matches P g t m key dist) :
    HoldsFrom P g t m key (n + 1) dist ↔
      Passes P g t m key dist ∧ HoldsFrom P g t m key n (dist + 1) := by
  constructor
  · rintro ⟨k, h1, h2, h3, h4⟩
    have hne : dist ≠ k := by
      rintro rfl
      exact hm h3
    exact ⟨h4 dist le_rfl (by omega), k, by omega, by omega, h3, fun j hj hk => h4 j (by omega) hk⟩
  · rintro ⟨hp, k, h1, h2, h3, h4⟩
    refine ⟨k, by omega, by omega, h3, fun j hj hk => ?_⟩
    by_cases hjd : j = dist
    · exact hjd ▸ hp
    · exact h4 j (by omega) hk

end

theorem readSlot_some {P : Platform} {t : Table} {d : Drive MemStore} {i : ℕ} {s : Bytes}
    (h : slotAt P t d.store i = some s) : (readSlot P t i).run d = .ok s d := by
  unfold slotAt at h
  split_ifs at h with hin
  cases h
  have hread : (Store.readAt (P.add t.base (P.mul t.slotSize i)) t.slotSize).run d.store =
      .ok _ d.store := if_pos hin
  rw [readSlot, readAt, zoom_ok hread]

theorem readSlot_none {P : Platform} {t : Table} {d : Drive MemStore} {i : ℕ}
    (h : slotAt P t d.store i = none) : (readSlot P t i).run d = .error .bounds d := by
  unfold slotAt at h
  split_ifs at h with hin
  have hread : (Store.readAt (P.add t.base (P.mul t.slotSize i)) t.slotSize).run d.store =
      .error .bounds d.store := if_neg hin
  rw [readSlot, readAt, zoom_error hread]
  rfl

/-! ## Lookups in Go -/

namespace Go

variable {keccak256 : Bytes → Bytes → Bytes} {g : Geometry} {t : Table} {d : Drive MemStore}
  {key : Bytes}

theorem slice_of_short {b : Bytes} {lo n : ℕ} (h : b.length < lo + n) :
    (Go.platform keccak256).slice b lo n = .error .panic := if_neg (by omega)

theorem live_of_short {s : Bytes} (h : s.length < t.liveOff + 20) :
    live (Go.platform keccak256) t s = .error .panic := by
  rw [live, slice_of_short h]
  rfl

theorem live_of_long {s : Bytes} (h : t.liveOff + 20 ≤ s.length) :
    live (Go.platform keccak256) t s = .ok !isZero (sub s t.liveOff 20) := by
  rw [live, Platform.slice_eq _ h]
  rfl

/-- How a lookup ends on a table whose slots have room for an address. -/
inductive Outcome (t : Table) (d : Drive MemStore) (held : Prop) :
    EStateM.Result DriveError (Drive MemStore) (Option (ℕ × Bytes)) → Prop
  | found (h : held) (i : ℕ) (s : Bytes) (hs : s.length = t.slotSize) :
    Outcome t d held (.ok (some (i, s)) d)
  | absent (h : ¬held) : Outcome t d held (.ok none d)
  | outside (h : ¬held) : Outcome t d held (.error .bounds d)

theorem lookupLoop_outcome (hslot : t.liveOff + 20 ≤ t.slotSize) (n dist : ℕ) :
    Outcome t d (HoldsFrom (Go.platform keccak256) g t d.store key n dist)
      ((lookupLoop (Go.platform keccak256) g t key
        (home (Go.platform keccak256) g key t.capacity) n dist).run d) := by
  induction n generalizing dist with
  | zero => exact .absent not_holdsFrom_zero
  | succ n ih =>
    rw [lookupLoop]
    show Outcome t d _ (((readSlot _ t (probeSlot _ g t key dist)) >>= _).run d)
    cases hs : slotAt (Go.platform keccak256) t d.store
        (probeSlot (Go.platform keccak256) g t key dist) with
    | none =>
      have hm : ¬Matches (Go.platform keccak256) g t d.store key dist := by
        rintro ⟨s, h, -⟩
        rw [hs] at h
        cases h
      rw [bind_error (readSlot_none hs)]
      refine .outside ?_
      rw [holdsFrom_succ hm]
      rintro ⟨⟨s, h, -⟩, -⟩
      rw [hs] at h
      cases h
    | some s =>
      have hlen := slotAt_length hs
      rw [bind_ok (readSlot_some hs), live_of_long (by omega), bind_ok (check_ok _ _)]
      -- a match or a pass at this distance is about this slot
      have hmatch : Matches (Go.platform keccak256) g t d.store key dist ↔
          isZero (sub s t.liveOff 20) = false ∧ t.key s = key := by
        constructor
        · rintro ⟨s', h, hl, hk⟩
          rw [hs] at h
          cases h
          exact ⟨hl, hk⟩
        · rintro ⟨hl, hk⟩
          exact ⟨s, hs, hl, hk⟩
      have hpass : Passes (Go.platform keccak256) g t d.store key dist ↔
          isZero (sub s t.liveOff 20) = false ∧ t.key s ≠ key ∧
            ¬displacement (Go.platform keccak256) g t s
              (probeSlot (Go.platform keccak256) g t key dist) < dist := by
        constructor
        · rintro ⟨s', h, hrest⟩
          rw [hs] at h
          cases h
          exact hrest
        · intro h
          exact ⟨s, hs, h⟩
      by_cases hl : isZero (sub s t.liveOff 20) = false
      swap
      · rw [if_pos (by simpa using hl)]
        refine .absent fun h => ?_
        rw [holdsFrom_succ (by rw [hmatch]; exact fun h => hl h.1), hpass] at h
        exact hl h.1.1
      rw [if_neg (by simp [hl])]
      by_cases hk : t.key s = key
      · rw [if_pos hk]
        exact .found (holdsFrom_of_matches (hmatch.2 ⟨hl, hk⟩)) _ _ hlen
      rw [if_neg hk]
      have hm : ¬Matches (Go.platform keccak256) g t d.store key dist := by
        rw [hmatch]
        exact fun h => hk h.2
      by_cases hd : displacement (Go.platform keccak256) g t s
          (probeSlot (Go.platform keccak256) g t key dist) < dist
      · rw [if_pos (by exact hd)]
        refine .absent fun h => ?_
        rw [holdsFrom_succ hm, hpass] at h
        exact h.1.2.2 hd
      · have hiff : HoldsFrom (Go.platform keccak256) g t d.store key (n + 1) dist ↔
            HoldsFrom (Go.platform keccak256) g t d.store key n (dist + 1) := by
          rw [holdsFrom_succ hm, hpass]
          exact and_iff_right ⟨hl, hk, hd⟩
        rw [propext hiff, if_neg (by exact hd)]
        exact ih (dist + 1)

/-- A run that ended in a panic. -/
def Panics {σ α : Type} (r : EStateM.Result DriveError σ α) : Prop := answer r = .error .panic

/-- In a table of slots too short for an address the first slot decides: it is outside the
    image, or the liveness test slices past it. -/
theorem lookupLoop_short (hslot : t.slotSize < t.liveOff + 20) {n : ℕ} (hn : n ≠ 0) :
    (lookupLoop (Go.platform keccak256) g t key
        (home (Go.platform keccak256) g key t.capacity) n 0).run d =
      .error (if slotAt (Go.platform keccak256) t d.store
        (probeSlot (Go.platform keccak256) g t key 0) = none then .bounds else .panic) d := by
  obtain ⟨n, rfl⟩ := Nat.exists_eq_succ_of_ne_zero hn
  rw [lookupLoop]
  show ((readSlot _ t (probeSlot _ g t key 0)) >>= _).run d = _
  cases hs : slotAt (Go.platform keccak256) t d.store
      (probeSlot (Go.platform keccak256) g t key 0) with
  | none => rw [bind_error (readSlot_none hs), if_pos rfl]
  | some s =>
    have hlen := slotAt_length hs
    rw [bind_ok (readSlot_some hs), live_of_short (by omega), bind_error (check_error _ _),
      if_neg (by simp)]

theorem lookup_zero (h : t.capacity = 0) :
    (lookup (Go.platform keccak256) t key).run d = .error .panic d := by
  rw [lookup, bind_ok (get_run d), if_pos h]
  rfl

theorem lookup_pos (h : t.capacity ≠ 0) :
    (lookup (Go.platform keccak256) t key).run d =
      (lookupLoop (Go.platform keccak256) d.cfg t key
        (home (Go.platform keccak256) d.cfg key t.capacity) t.capacity 0).run d := by
  rw [lookup, bind_ok (get_run d), if_neg h]

/-- A table whose first slot is outside the image holds nothing under the key. -/
theorem not_holds_of_outside (h : slotAt (Go.platform keccak256) t d.store
    (probeSlot (Go.platform keccak256) g t key 0) = none) :
    ¬Holds (Go.platform keccak256) g t d.store key := by
  rintro ⟨k, -, -, ⟨s, hs, -⟩, hpass⟩
  rcases Nat.eq_zero_or_pos k with rfl | hk
  · rw [h] at hs
    cases hs
  · obtain ⟨s', hs', -⟩ := hpass 0 le_rfl hk
    rw [h] at hs'
    cases hs'

/-- A lookup, and what is done with the record it finds: when that needs `need` bytes of the
    record, the whole panics exactly if the table is not readable so far. -/
theorem found_panics_iff {α : Type} (need : ℕ) {f : Option (ℕ × Bytes) → DriveM MemStore α}
    (hnone : ¬Panics ((f none).run d))
    (hsome : ∀ i s, s.length = t.slotSize → (Panics ((f (some (i, s))).run d) ↔ t.slotSize < need)) :
    Panics ((lookup (Go.platform keccak256) t key >>= f).run d) ↔
      ¬Readable (Go.platform keccak256) d.cfg t d.store key need := by
  by_cases hcap : t.capacity = 0
  · rw [bind_error (lookup_zero hcap)]
    exact iff_of_true rfl fun h => h.capacity hcap
  have hlookup : (lookup (Go.platform keccak256) t key).run d = _ := lookup_pos hcap
  by_cases hslot : t.slotSize < t.liveOff + 20
  · rw [lookupLoop_short hslot hcap] at hlookup
    rw [bind_error hlookup]
    by_cases hs : slotAt (Go.platform keccak256) t d.store
        (probeSlot (Go.platform keccak256) d.cfg t key 0) = none
    · rw [if_pos hs]
      exact iff_of_false (fun h => by cases h)
        (not_not.2 ⟨hcap, fun _ => hs, fun _ => not_holds_of_outside hs⟩)
    · rw [if_neg hs]
      exact iff_of_true rfl fun h => hs (h.address hslot)
  · have hout : Outcome t d (Holds (Go.platform keccak256) d.cfg t d.store key) _ :=
      lookupLoop_outcome (not_lt.1 hslot) t.capacity 0
    rw [← hlookup] at hout
    have hread : Readable (Go.platform keccak256) d.cfg t d.store key need ↔
        (t.slotSize < need → ¬Holds (Go.platform keccak256) d.cfg t d.store key) :=
      ⟨fun h => h.bytes, fun h => ⟨hcap, fun h' => absurd h' hslot, h⟩⟩
    rw [hread]
    generalize hr : (lookup (Go.platform keccak256) t key).run d = r at hout
    cases hout with
    | found h i s hs =>
      rw [bind_ok hr, hsome i s hs]
      exact ⟨fun hneed hno => hno hneed h, fun hno => by_contra fun hneed =>
        hno fun h' => absurd h' hneed⟩
    | absent h =>
      rw [bind_ok hr]
      exact iff_of_false hnone (not_not.2 fun _ => h)
    | outside h =>
      rw [bind_error hr]
      exact iff_of_false (fun h => by cases h) (not_not.2 fun _ => h)

/-! ## The reads of the host -/

theorem slice_panics_iff {α : Type} {b : Bytes} {lo n : ℕ} {f : Bytes → DriveM MemStore α}
    (hf : ∀ b, ¬Panics ((f b).run d)) :
    Panics ((check ((Go.platform keccak256).slice b lo n) >>= f).run d) ↔ b.length < lo + n := by
  by_cases h : lo + n ≤ b.length
  · rw [Platform.slice_eq _ h, bind_ok (check_ok _ _)]
    exact iff_of_false (hf _) (by omega)
  · rw [slice_of_short (by omega), bind_error (check_error _ _)]
    exact iff_of_true rfl (by omega)

/-- How many bytes of its slot an account record has. -/
def recordNeed (g : Geometry) : ℕ := if g.compact then 32 else 64

theorem decodeAccount_panics_iff {α : Type} {s : Bytes} {f : ℕ × ℕ → DriveM MemStore α}
    (hf : ∀ r, ¬Panics ((f r).run d)) :
    Panics ((check (decodeAccount (Go.platform keccak256) g s) >>= f).run d) ↔
      s.length < recordNeed g := by
  rw [decodeAccount, recordNeed]
  by_cases hc : g.compact = true
  · rw [if_pos hc, if_pos hc]
    by_cases h1 : 20 + 4 ≤ s.length
    · by_cases h2 : 24 + 8 ≤ s.length
      · rw [Platform.slice_eq _ h1, Platform.slice_eq _ h2]
        exact iff_of_false (hf _) (by omega)
      · rw [Platform.slice_eq _ h1, slice_of_short (show s.length < 24 + 8 by omega)]
        exact iff_of_true rfl (by omega)
    · rw [slice_of_short (show s.length < 20 + 4 by omega)]
      exact iff_of_true rfl (by omega)
  · rw [if_neg hc, if_neg hc]
    by_cases h1 : 24 + 8 ≤ s.length
    · by_cases h2 : 32 + 32 ≤ s.length
      · rw [Platform.slice_eq _ h1, Platform.slice_eq _ h2]
        exact iff_of_false (hf _) (by omega)
      · rw [Platform.slice_eq _ h1, slice_of_short (show s.length < 32 + 32 by omega)]
        exact iff_of_true rfl (by omega)
    · rw [slice_of_short (show s.length < 24 + 8 by omega)]
      exact iff_of_true rfl (by omega)

theorem getAccount_panics_iff (addr : Address) :
    Panics ((getAccount (Go.platform keccak256) addr).run d) ↔ isZero addr.val = false ∧
      ¬Readable (Go.platform keccak256) d.cfg (accountsTable d.cfg) d.store addr.val
        (recordNeed d.cfg) := by
  rw [getAccount]
  by_cases h0 : isZero addr.val = true
  · rw [if_pos h0]
    exact iff_of_false (fun h => by cases h) (fun h => by rw [h0] at h; cases h.1)
  · rw [if_neg h0, bind_ok (get_run d), found_panics_iff (recordNeed d.cfg)]
    · simp [h0]
    · exact fun h => by cases h
    · intro i s hs
      rw [← hs]
      exact decodeAccount_panics_iff fun _ h => by cases h

/-- What the balance of token `id` needs of the image. -/
def BalanceReadable (P : Platform) (d : Drive MemStore) (addr : Address) (id : ℕ) (token : Token) :
    Prop :=
  (d.cfg.profile = profileWide →
    Readable P d.cfg (accountsTable d.cfg) d.store addr.val (d.colOff.getD id 0 + token.width)) ∧
  (d.cfg.profile = profileSparse →
    Readable P d.cfg (sparseTable d.cfg) d.store (sparseKey id addr)
      (d.cfg.sparseBalance.1 + d.cfg.sparseBalance.2))

theorem getTokenBalance_panics_iff (addr : Address) (id : ℕ) :
    Panics ((getTokenBalance (Go.platform keccak256) addr id).run d) ↔
      isZero addr.val = false ∧ ∃ token, d.tokens[id]? = some token ∧
        ¬BalanceReadable (Go.platform keccak256) d addr id token := by
  rw [getTokenBalance]
  by_cases h0 : isZero addr.val = true
  · rw [if_pos h0]
    exact iff_of_false (fun h => by cases h) (fun h => by rw [h0] at h; cases h.1)
  rw [if_neg h0, bind_ok (get_run d)]
  cases ht : d.tokens[id]? with
  | none =>
    refine iff_of_false (fun h => by cases h) ?_
    rintro ⟨-, token, h, -⟩
    cases h
  | some token =>
    simp only [BalanceReadable, Option.some.injEq, exists_eq_left']
    by_cases hw : d.cfg.profile = profileWide
    · have hs : d.cfg.profile ≠ profileSparse := by rw [hw]; decide
      rw [if_pos hw, found_panics_iff (d.colOff.getD id 0 + token.width)]
      · rw [and_iff_right (Bool.eq_false_iff.2 h0), not_iff_not]
        exact ⟨fun h => ⟨fun _ => h, fun h' => absurd h' hs⟩, fun h => h.1 hw⟩
      · exact fun h => by cases h
      · intro i s hs
        rw [← hs]
        exact slice_panics_iff fun _ h => by cases h
    rw [if_neg hw]
    by_cases hs : d.cfg.profile = profileSparse
    · rw [if_pos hs, found_panics_iff (d.cfg.sparseBalance.1 + d.cfg.sparseBalance.2)]
      · rw [and_iff_right (Bool.eq_false_iff.2 h0), not_iff_not]
        exact ⟨fun h => ⟨fun h' => absurd h' hw, fun _ => h⟩, fun h => h.2 hs⟩
      · exact fun h => by cases h
      · intro i s hs
        rw [← hs]
        exact slice_panics_iff fun _ h => by cases h
    · rw [if_neg hs]
      exact iff_of_false (fun h => by cases h) (by simp [hw, hs])

/-- Opening reads the store and does not change it. -/
theorem readAt_store {off n : ℕ} {b : Bytes} {d' : Drive MemStore}
    (h : (readAt off n).run d = .ok b d') : d'.store = d.store := by
  by_cases hin : d.store.inBounds off n = true
  · have hread : (Store.readAt off n).run d.store = .ok _ d.store := if_pos hin
    rw [readAt, zoom_ok hread] at h
    cases h
    rfl
  · have hread : (Store.readAt off n).run d.store = .error .bounds d.store := if_neg hin
    rw [readAt, zoom_error hread] at h
    cases h

theorem reloadLoop_store {P : Platform} {off n i col : ℕ} {d' : Drive MemStore}
    (h : (reloadLoop P off n i col).run d = .ok () d') : d'.store = d.store := by
  induction n generalizing i col d with
  | zero =>
    cases h
    rfl
  | succ n ih =>
    rw [reloadLoop] at h
    obtain ⟨e, d₁, h₁, h₂⟩ := bind_eq_ok.1 h
    have hstore := readAt_store h₁
    simp only at h₂
    split_ifs at h₂ with hw
    · cases h₂
    · obtain ⟨u, d₂, h₃, h₄⟩ := bind_eq_ok.1 h₂
      cases h₃
      exact (ih h₄).trans hstore

theorem openDrive_store {P : Platform} {m : MemStore} (h : openDrive P m = .ok d) :
    d.store = m := by
  unfold openDrive at h
  by_cases hin : m.inBounds 0 headerSize = true
  · have hread : (Store.readAt 0 headerSize).run m = .ok _ m := if_pos hin
    rw [hread] at h
    obtain ⟨g, -, h⟩ := except_bind_eq_ok.1 h
    cases hr : (reloadRegistry P).run (⟨m, g, [], []⟩ : Drive MemStore) with
    | error e d₁ =>
      rw [hr] at h
      cases h
    | ok u d₁ =>
      rw [hr] at h
      cases h
      rw [reloadRegistry, bind_ok (modify_run _ _), bind_ok (get_run _)] at hr
      split_ifs at hr with h0
      · cases hr
        rfl
      · obtain ⟨n, d₂, h₁, h₂⟩ := bind_eq_ok.1 hr
        obtain ⟨b, d₃, h₃, h₄⟩ := bind_eq_ok.1 h₁
        cases h₄
        split_ifs at h₂ with hn
        · cases h₂
        · exact (reloadLoop_store h₂).trans (readAt_store h₃)
  · have hread : (Store.readAt 0 headerSize).run m = .error .bounds m := if_neg hin
    rw [hread] at h
    cases h

/-- The image `m`, opened as `d`, is safe to read: the tables its header describes are readable
    as far as the records and columns of its geometry and registry reach. -/
structure SafeToRead (P : Platform) (m : MemStore) (d : Drive MemStore) : Prop where
  account : ∀ addr : Address, isZero addr.val = false →
    Readable P d.cfg (accountsTable d.cfg) m addr.val (recordNeed d.cfg)
  column : d.cfg.profile = profileWide → ∀ (id : UInt16) token, d.tokens[id.toNat]? = some token →
    ∀ addr : Address, isZero addr.val = false →
      Readable P d.cfg (accountsTable d.cfg) m addr.val (d.colOff.getD id.toNat 0 + token.width)
  sparse : d.cfg.profile = profileSparse → ∀ (id : UInt16) token,
    d.tokens[id.toNat]? = some token → ∀ addr : Address, isZero addr.val = false →
      Readable P d.cfg (sparseTable d.cfg) m (sparseKey id.toNat addr)
        (d.cfg.sparseBalance.1 + d.cfg.sparseBalance.2)

/-- On an image that `Open` accepts, no `GetAccount` and no `GetTokenBalance` panics exactly
    when the image is safe to read. -/
theorem reads_safe_iff {m : MemStore} (hopen : openDrive (Go.platform keccak256) m = .ok d) :
    (∀ addr, ¬Panics ((getAccount (Go.platform keccak256) addr).run d) ∧
      ∀ id : UInt16, ¬Panics ((getTokenBalance (Go.platform keccak256) addr id.toNat).run d)) ↔
    SafeToRead (Go.platform keccak256) m d := by
  obtain rfl := openDrive_store hopen
  constructor
  · intro h
    have hbalance : ∀ (id : UInt16) token, d.tokens[id.toNat]? = some token → ∀ addr : Address,
        isZero addr.val = false → BalanceReadable (Go.platform keccak256) d addr id.toNat token := by
      intro id token ht addr h0
      by_contra hc
      exact (h addr).2 id ((getTokenBalance_panics_iff addr _).2 ⟨h0, token, ht, hc⟩)
    refine ⟨fun addr h0 => ?_, fun hw id token ht addr h0 => (hbalance id token ht addr h0).1 hw,
      fun hs id token ht addr h0 => (hbalance id token ht addr h0).2 hs⟩
    by_contra hc
    exact (h addr).1 ((getAccount_panics_iff addr).2 ⟨h0, hc⟩)
  · intro h addr
    constructor
    · intro hp
      obtain ⟨h0, hc⟩ := (getAccount_panics_iff addr).1 hp
      exact hc (h.account addr h0)
    · intro id hp
      obtain ⟨h0, token, ht, hc⟩ := (getTokenBalance_panics_iff addr _).1 hp
      exact hc ⟨fun hw => h.column hw id token ht addr h0, fun hs => h.sparse hs id token ht addr h0⟩

/-- A freshly formatted drive is safe to read. -/
theorem reads_safe_iff_sample :
    let P := Go.platform fun _ key => key
    openDrive P (blank sampleConfig).store = .ok (blank sampleConfig) ∧
      ¬Panics ((getAccount P sampleAddress).run (blank sampleConfig)) := by
  have hopen : openDrive (Go.platform fun _ key => key) (blank sampleConfig).store =
      .ok (blank sampleConfig) :=
    openDrive_blank ((sampleConfig.inRange _).defaults.geometry (by decide)) rfl (by decide)
  refine ⟨hopen, (((reads_safe_iff hopen).2 ⟨fun addr _ => ?_, fun h => ?_, fun _ id token ht => ?_⟩)
    sampleAddress).1⟩
  · exact ⟨by decide, fun h => absurd h (by decide), fun h => absurd h (by decide)⟩
  · exact absurd h (by decide)
  · cases ht

/-- A header of zeros but for its magic and version: `Open` takes it for a drive of no slots. -/
def hollow : Geometry where
  capacity := 0
  loadLimit := 0
  seed := zeros 32
  profile := 0
  slotSize := 64
  tableOffset := 0
  registryOffset := 0
  registryCapacity := 0
  sparseOffset := 0
  sparseCapacity := 0
  sparseLoadLimit := 0
  sparseSlotSize := 0

def hollowImage : MemStore := ⟨4096, headerImage hollow⟩

/-- `Open` accepts it, and the remainder by its capacity panics in `GetAccount`. -/
theorem hollow_panics :
    let P := Go.platform fun _ key => key
    openDrive P hollowImage = .ok ⟨hollowImage, hollow, [], []⟩ ∧
      Panics ((getAccount P sampleAddress).run ⟨hollowImage, hollow, [], []⟩) := by
  refine ⟨openDrive_blank ?_ rfl le_rfl, ?_⟩
  · exact ⟨by decide, by decide, rfl, by decide, by decide, by decide, by decide, by decide,
      by decide, by decide, by decide, by decide, by decide⟩
  · exact (getAccount_panics_iff sampleAddress).2 ⟨by decide, fun h => h.capacity rfl⟩

end Go

end OpCartesi.Drive
