import OpCartesi.Drive.Runs

/-!
# The Go and the TypeScript drive library agree

The two libraries write the same statements over different numbers: `uint64` wraps, a
double rounds. This module compares one drive operation on two platforms with the same
keccak, first in general and then for `Go.platform` and `Ts.platform`:

* `Config.validate_agree`: the two accept the same configurations and refuse the others for
  the same reason, also when a region is too large for a double.
* `insertLoop_agree`, `removeLoop_agree`, `setRecord_agree`, …: on a drive whose tables lie in
  the exact range of both platforms, an operation is the same computation on either.
* `guest_host_agree`: after a `Format`, any sequence of calls gets the same answers from the
  two libraries and leaves the same drive, byte for byte, and either reopens it.
-/

namespace OpCartesi.Drive

open Exec RobinHood

/-! ## Configurations -/

/-- The region check of `validate` decides by the exact end of the region, although the
    platform may not represent it. -/
def Platform.Judges (P : Platform) : Prop :=
  ∀ {off a b n : ℕ}, off < P.bound → a * b < 2 ^ 64 → n < P.bound →
    ((n < P.add off (P.mul a b) ∨ P.wrapped off (P.mul a b) = true) ↔ n < off + a * b)

/-- A sum that wraps is caught by the second test. -/
theorem Go.platform_judges (keccak256 : Bytes → Bytes → Bytes) :
    (Go.platform keccak256).Judges := by
  intro off a b n hoff hab hn
  have hmul : (Go.platform keccak256).mul a b = a * b := Nat.mod_eq_of_lt hab
  rw [hmul]
  show n < (off + a * b) % 2 ^ 64 ∨ decide ((off + a * b) % 2 ^ 64 < off) = true ↔ _
  have hoff' : off < 2 ^ 64 := hoff
  have hn' : n < 2 ^ 64 := hn
  rw [decide_eq_true_iff]
  generalize a * b = m at *
  omega

/-- A sum that is rounded stays above every exact length. -/
theorem Ts.platform_judges (keccak256 : Bytes → Bytes → Bytes) :
    (Ts.platform keccak256).Judges := by
  intro off a b n hoff _ hn
  have hn' : n < 2 ^ 53 := hn
  show n < toNumber (off + toNumber (a * b)) ∨ false = true ↔ _
  simp only [Bool.false_eq_true, or_false]
  by_cases hsmall : off + a * b < 2 ^ 53
  · rw [toNumber_eq (by omega : a * b < 2 ^ 53), toNumber_eq hsmall]
  · have hbig : 2 ^ 53 ≤ off + toNumber (a * b) := by
      by_cases hm : a * b < 2 ^ 53
      · rw [toNumber_eq hm]
        omega
      · have := le_toNumber (not_lt.1 hm)
        omega
    have := le_toNumber hbig
    omega

namespace Config

variable {P Q : Platform} {c : Config} {n : ℕ}

theorem refuse_congr {p q : Prop} [Decidable p] [Decidable q] (h : p ↔ q) (e : ConfigError) :
    refuse p e = refuse q e := by
  simp only [refuse, h]

/-- One region as two platforms compute it, in a drive of `n` bytes. -/
structure SameRegion (P Q : Platform) (n : ℕ) (r r' : Region) : Prop where
  name : r.name = r'.name
  off : r.off = r'.off
  outside : (n < P.add r.off r.len ∨ P.wrapped r.off r.len = true) ↔
    (n < Q.add r'.off r'.len ∨ Q.wrapped r'.off r'.len = true)
  inside : ¬(n < P.add r.off r.len ∨ P.wrapped r.off r.len = true) →
    r.len = r'.len ∧ r.off + r.len ≤ n

theorem sameRegion (hP : P.Judges) (hQ : Q.Judges) (name : String) {off a b : ℕ}
    (hoP : off < P.bound) (hoQ : off < Q.bound) (hab : a * b < 2 ^ 64) (hnP : n < P.bound)
    (hnQ : n < Q.bound) :
    SameRegion P Q n ⟨name, off, P.mul a b⟩ ⟨name, off, Q.mul a b⟩ where
  name := rfl
  off := rfl
  outside := (hP hoP hab hnP).trans (hQ hoQ hab hnQ).symm
  inside h := by
    have hle := not_lt.1 (mt (hP hoP hab hnP).2 h)
    show P.mul a b = Q.mul a b ∧ off + P.mul a b ≤ n
    rw [P.mul_eq (by omega), Q.mul_eq (by omega)]
    exact ⟨rfl, hle⟩

theorem checkInside_agree {rs rs' : List Region}
    (h : List.Forall₂ (SameRegion P Q n) rs rs') :
    checkInside P n rs = checkInside Q n rs' ∧
      (checkInside P n rs = .ok () → rs = rs' ∧ ∀ r ∈ rs, r.off + r.len ≤ n) := by
  induction h with
  | nil => exact ⟨rfl, fun _ => ⟨rfl, by simp⟩⟩
  | @cons r r' rs rs' hr _ ih =>
    obtain ⟨heq, hok⟩ := ih
    constructor
    · rw [checkInside, checkInside, refuse_congr hr.outside, hr.name, heq]
    · intro hrun
      rw [checkInside, bind_ok_unit, refuse_ok] at hrun
      obtain ⟨hlen, hin⟩ := hr.inside hrun.1
      obtain ⟨hrs, hall⟩ := hok hrun.2
      have hrr : r = r' := by
        cases r
        cases r'
        exact Region.mk.injEq .. ▸ ⟨hr.name, hr.off, hlen⟩
      refine ⟨by rw [hrr, hrs], fun s hs => ?_⟩
      rcases List.mem_cons.1 hs with rfl | hs
      · exact hin
      · exact hall s hs

theorem checkApart_agree (hnP : n < P.bound) (hnQ : n < Q.bound) {a : Region}
    (ha : a.off + a.len ≤ n) {rs : List Region} (hrs : ∀ r ∈ rs, r.off + r.len ≤ n) :
    checkApart P a rs = checkApart Q a rs := by
  induction rs with
  | nil => rfl
  | cons b rs ih =>
    have hb := hrs b List.mem_cons_self
    rw [checkApart, checkApart, ih fun r hr => hrs r (List.mem_cons_of_mem _ hr),
      P.add_eq (by omega), P.add_eq (by omega), Q.add_eq (by omega), Q.add_eq (by omega)]

theorem checkDisjoint_agree (hnP : n < P.bound) (hnQ : n < Q.bound) {rs : List Region}
    (hrs : ∀ r ∈ rs, r.off + r.len ≤ n) : checkDisjoint P rs = checkDisjoint Q rs := by
  induction rs with
  | nil => rfl
  | cons a rs ih =>
    have htail : ∀ r ∈ rs, r.off + r.len ≤ n := fun r hr => hrs r (List.mem_cons_of_mem _ hr)
    rw [checkDisjoint, checkDisjoint, ih htail,
      checkApart_agree hnP hnQ (hrs a List.mem_cons_self) htail]

/-- An in-header registry is small enough for any platform. -/
theorem validateRegistry_agree (c : Config) : validateRegistry P c = validateRegistry Q c := by
  have hP := P.le_bound
  have hQ := Q.le_bound
  have hhead : headerSize = 4096 := rfl
  rw [validateRegistry, validateRegistry]
  split_ifs with h0
  · rfl
  refine except_bind_congr fun _ hcap => ?_
  rw [refuse_ok] at hcap
  refine except_bind_congr fun _ _ => refuse_congr (and_congr_right fun hlt => ?_) _
  rw [P.mul_eq (by omega), P.add_eq (by omega), Q.mul_eq (by omega), Q.add_eq (by omega)]

/-- The region sizes do not overflow 64 bits. -/
structure Sized (c : Config) : Prop where
  accounts : c.capacity * c.slotSize < 2 ^ 64
  registry : 32 * c.registryCapacity < 2 ^ 64
  sparse : c.profile = profileSparse → c.sparseCapacity * c.sparseSlotSize < 2 ^ 64

theorem regions_agree (hP : P.Judges) (hQ : Q.Judges) (hrP : c.InRange P) (hrQ : c.InRange Q)
    (hs : c.Sized) :
    List.Forall₂ (SameRegion P Q c.driveLength) (regions P c) (regions Q c) := by
  have hlP := hrP.driveLength
  have hlQ := hrQ.driveLength
  have hbP := P.le_bound
  have hbQ := Q.le_bound
  have hhead : SameRegion P Q c.driveLength ⟨"header", 0, headerSize⟩
      ⟨"header", 0, headerSize⟩ := by
    have hsmall : 1 * headerSize < 2 ^ 32 := by decide
    have h := sameRegion hP hQ "header" (show 0 < P.bound by omega) (show 0 < Q.bound by omega)
      (show 1 * headerSize < 2 ^ 64 by omega) hlP hlQ
    rwa [P.mul_eq (by omega), Q.mul_eq (by omega), Nat.one_mul] at h
  refine List.rel_append (List.rel_append (.cons hhead (.cons ?_ .nil)) ?_) ?_
  · exact sameRegion hP hQ _ hrP.tableOffset hrQ.tableOffset hs.accounts hlP hlQ
  · split_ifs
    · exact .cons
        (sameRegion hP hQ _ hrP.registryOffset hrQ.registryOffset hs.registry hlP hlQ) .nil
    · exact .nil
  · split_ifs with hp
    · exact .cons
        (sameRegion hP hQ _ hrP.sparseOffset hrQ.sparseOffset (hs.sparse hp) hlP hlQ) .nil
    · exact .nil

/-- Two platforms accept the same configurations, and refuse one for the same reason. -/
theorem validate_agree (hP : P.Judges) (hQ : Q.Judges) (hrP : c.InRange P) (hrQ : c.InRange Q)
    (hs : c.Sized) : c.validate P = c.validate Q := by
  obtain ⟨heq, hok⟩ := checkInside_agree (regions_agree hP hQ hrP hrQ hs)
  have htail : (do checkInside P c.driveLength (regions P c); checkDisjoint P (regions P c)) =
      (do checkInside Q c.driveLength (regions Q c); checkDisjoint Q (regions Q c)) := by
    rw [← heq]
    refine except_bind_congr fun _ h => ?_
    obtain ⟨hrs, hall⟩ := hok h
    rw [← hrs]
    exact checkDisjoint_agree hrP.driveLength hrQ.driveLength hall
  simp only [validate]
  rw [validateRegistry_agree (Q := Q) c, htail]

end Config

/-- The sizes of a geometry do not depend on the platform, once the drive is exact. -/
theorem Geometry.Valid.change {P Q : Platform} {g : Geometry} {n : ℕ} (h : g.Valid P n)
    (hn : n ≤ Q.bound) : g.Valid Q n :=
  { h with
    accounts := { h.accounts with exact := hn }
    sparse := fun hp => { h.sparse hp with exact := hn } }

/-! ## Tables -/

section Tables

variable {σ : Type} [Store σ] [LawfulStore σ] {P Q : Platform} (hk : P.keccak256 = Q.keccak256)
  {g : Geometry} {t : Table} {d : Drive σ}

open Table

include hk in
theorem layout_agree (h2 : 2 ≤ t.capacity) : t.layout P g h2 = t.layout Q g h2 := by
  simp only [layout, home, hk]

include hk in
theorem displacement_agree {n : ℕ} (hP : t.Fits P n) (hQ : t.Fits Q n) (s : Bytes) {i : ℕ}
    (hi : i < t.capacity) : displacement P g t s i = displacement Q g t s i := by
  rw [hP.displacement_eq (g := g) s hi, hQ.displacement_eq (g := g) s hi, layout_agree hk]

omit [LawfulStore σ] in
theorem writeSlot_agree {n : ℕ} (hP : t.Fits P n) (hQ : t.Fits Q n) {i : ℕ}
    (hi : i < t.capacity) (s : Bytes) :
    (writeSlot P t i s : DriveM σ Unit) = writeSlot Q t i s := by
  rw [writeSlot, writeSlot, hP.offset_eq hi, hQ.offset_eq hi]

include hk in
/-- A lookup, and what either platform does with its result. -/
theorem lookup_bind_agree {α : Type} {f f' : Option (ℕ × Bytes) → DriveM σ α}
    (hP : t.Fits P d.size) (hQ : t.Fits Q d.size) (key : Bytes)
    (hnone : (f none).run d = (f' none).run d)
    (hsome : ∀ i < t.capacity, ∀ s : Bytes, s.length = t.slotSize →
      (f (some (i, s))).run d = (f' (some (i, s))).run d) :
    (lookup P t key >>= f).run d = (lookup Q t key >>= f').run d := by
  rw [bind_ok (lookup_run hP key), bind_ok (lookup_run hQ key), layout_agree hk]
  cases hl : (t.layout Q d.cfg hQ.two_le).lookup (t.slots d.image) key with
  | none => exact hnone
  | some i =>
    have hi := (Layout.lookup_eq_some hl).1
    exact hsome i hi _ (slots_length hi)

include hk in
theorem insertLoop_agree :
    ∀ {n : ℕ} {d : Drive σ}, t.Fits P d.size → t.Fits Q d.size → ∀ {carry : Bytes} {h dist : ℕ},
      carry.length = t.slotSize → h < t.capacity → dist + n ≤ t.capacity →
      (insertLoop P g t n carry h dist).run d = (insertLoop Q g t n carry h dist).run d := by
  intro n
  induction n with
  | zero => intro d _ _ carry h dist _ _ _; rfl
  | succ n ih =>
    intro d hP hQ carry h dist hc hh hd
    have h1 := hP.two_mul_le
    have h2 := hP.exact
    have h3 := hQ.exact
    have hi : (h + dist) % t.capacity < t.capacity := Nat.mod_lt _ (by omega)
    have hlen : (t.slots d.image ((h + dist) % t.capacity)).length = t.slotSize := slots_length hi
    obtain ⟨d₁, hw, hev, -⟩ := writeSlot_run hQ hi hc
    have hlive := (hP.live_eq (g := g) hlen).trans (hQ.live_eq (g := g) hlen).symm
    rw [insertLoop, insertLoop, P.add_eq (by omega), Q.add_eq (by omega)]
    simp only [bind_ok (readSlot_run hP hi), bind_ok (readSlot_run hQ hi), hlive,
      displacement_agree hk hP hQ _ hi, writeSlot_agree hP hQ hi]
    refine bind_run_congr rfl fun alive d' hchk => ?_
    rw [hQ.live_eq (g := g) hlen] at hchk
    obtain ⟨rfl, rfl⟩ := EStateM.Result.ok.inj hchk
    split_ifs with hl hdisp
    · rfl
    · rw [bind_ok hw, bind_ok hw, home, hk]
      exact ih (hev.size ▸ hP) (hev.size ▸ hQ) hlen (Nat.mod_lt _ (by omega)) (by omega)
    · exact ih hP hQ hc hh (by omega)

include hk in
theorem insert_agree (hP : t.Fits P d.size) (hQ : t.Fits Q d.size) {s : Bytes}
    (hs : s.length = t.slotSize) : (insert P t s).run d = (insert Q t s).run d := by
  have h2 := hP.two_le
  rw [insert, insert, bind_ok (get_run d), bind_ok (get_run d), home, home, hk]
  exact insertLoop_agree hk hP hQ hs (Nat.mod_lt _ (by omega)) (by omega)

include hk in
theorem removeLoop_agree :
    ∀ {n : ℕ} {d : Drive σ}, t.Fits P d.size → t.Fits Q d.size → ∀ {i : ℕ}, i < t.capacity →
      (removeLoop P g t n i).run d = (removeLoop Q g t n i).run d := by
  intro n
  induction n with
  | zero => intro d _ _ i _; rfl
  | succ n ih =>
    intro d hP hQ i hi
    have h1 := hP.two_mul_le
    have h2 := hP.exact
    have h3 := hQ.exact
    have hj : (i + 1) % t.capacity < t.capacity := Nat.mod_lt _ (by omega)
    have hlen : (t.slots d.image ((i + 1) % t.capacity)).length = t.slotSize := slots_length hj
    obtain ⟨d₁, hw, hev, -⟩ := writeSlot_run hQ hi hlen
    have hlive := (hP.live_eq (g := g) hlen).trans (hQ.live_eq (g := g) hlen).symm
    rw [removeLoop, removeLoop, P.add_eq (by omega), Q.add_eq (by omega)]
    simp only [bind_ok (readSlot_run hP hj), bind_ok (readSlot_run hQ hj), hlive,
      displacement_agree hk hP hQ _ hj, writeSlot_agree hP hQ hi]
    refine bind_run_congr rfl fun alive d' hchk => ?_
    rw [hQ.live_eq (g := g) hlen] at hchk
    obtain ⟨rfl, rfl⟩ := EStateM.Result.ok.inj hchk
    split_ifs with hstop
    · rfl
    · rw [bind_ok hw, bind_ok hw]
      exact ih (hev.size ▸ hP) (hev.size ▸ hQ) hj

include hk in
theorem remove_agree (hP : t.Fits P d.size) (hQ : t.Fits Q d.size) {i : ℕ}
    (hi : i < t.capacity) : (remove P t i).run d = (remove Q t i).run d := by
  rw [remove, remove, bind_ok (get_run d), bind_ok (get_run d)]
  exact removeLoop_agree hk hP hQ hi

include hk in
/-- The end of every operation that may add a record: check the load limit and insert. -/
theorem counter_insert_agree (hP : t.Fits P d.size) (hQ : t.Fits Q d.size) {s : Bytes}
    (hs : s.length = t.slotSize) :
    (do let n ← counter t.countOff
        if t.limit ≤ n then throw .tableFull else insert P t s : DriveM σ Unit).run d =
      (do let n ← counter t.countOff
          if t.limit ≤ n then throw .tableFull else insert Q t s : DriveM σ Unit).run d := by
  have h1 := hP.counter_le
  have h2 := hP.inside
  have hcount := counter_run (show t.countOff + 8 ≤ d.size by omega)
  rw [bind_ok hcount, bind_ok hcount]
  split_ifs
  · rfl
  · exact insert_agree hk hP hQ hs

end Tables

/-! ## Operations -/

section Operations

variable {σ : Type} [Store σ] [LawfulStore σ] {P Q : Platform} {d : Drive σ}

/-- A valid drive of the platform `P` whose keccak and exact range are also those of `Q`. -/
structure Shared (P Q : Platform) (d : Drive σ) : Prop where
  keccak256 : P.keccak256 = Q.keccak256
  valid : Valid P d
  size_le : d.size ≤ Q.bound

namespace Shared

variable (h : Shared P Q d)

include h

theorem geometry : d.cfg.Valid Q d.size := h.valid.geometry.change h.size_le

/-- The column of a token lies in a wide slot. -/
theorem column_le {id : ℕ} {token : Token} (ht : d.tokens[id]? = some token)
    (hw : d.cfg.profile = profileWide) : d.colOff.getD id 0 + token.width ≤ d.cfg.slotSize := by
  obtain ⟨hid, -⟩ := List.getElem?_eq_some_iff.1 ht
  rw [h.valid.colOff_getD hid]
  exact (column_add_width_le ht).trans (h.valid.registry.columns hw)

theorem accounts_bind_agree {α : Type} {f f' : Option (ℕ × Bytes) → DriveM σ α} (key : Bytes)
    (hnone : (f none).run d = (f' none).run d)
    (hsome : ∀ i < d.cfg.capacity, ∀ s : Bytes, s.length = d.cfg.slotSize →
      (f (some (i, s))).run d = (f' (some (i, s))).run d) :
    (lookup P (accountsTable d.cfg) key >>= f).run d =
      (lookup Q (accountsTable d.cfg) key >>= f').run d :=
  lookup_bind_agree h.keccak256 h.valid.geometry.accounts h.geometry.accounts key hnone hsome

theorem getAccount_agree (addr : Address) :
    (getAccount P addr).run d = (getAccount Q addr).run d := by
  rw [getAccount, getAccount]
  split_ifs
  · rfl
  rw [bind_ok (get_run d), bind_ok (get_run d)]
  refine h.accounts_bind_agree _ rfl fun i hi s hs => ?_
  have hrec := h.geometry.recordSize_le.trans hs.ge
  simp only [decodeAccount_eq P d.cfg hrec, decodeAccount_eq Q d.cfg hrec]

theorem setRecord_agree (addr : Address) {encoded : Geometry → Except DriveError Bytes}
    (hlen : ∀ r, encoded d.cfg = .ok r → r.length = d.cfg.recordSize) :
    (setRecord P addr encoded).run d = (setRecord Q addr encoded).run d := by
  rw [setRecord, setRecord]
  split_ifs
  · rfl
  rw [bind_ok (get_run d), bind_ok (get_run d)]
  cases henc : encoded d.cfg with
  | error e => rfl
  | ok record =>
    have hrec := hlen record henc
    have hle := h.geometry.recordSize_le
    rw [bind_ok (check_ok record d), bind_ok (check_ok record d)]
    refine h.accounts_bind_agree _ ?_ fun i hi s hs => ?_
    · refine counter_insert_agree h.keccak256 h.valid.geometry.accounts h.geometry.accounts ?_
      rw [splice_length (by simp only [zeros_length, accountsTable]; omega), zeros_length]
    · simp only [writeSlot_agree h.valid.geometry.accounts h.geometry.accounts hi]

theorem deleteAccount_agree (addr : Address) (force : Bool) :
    (deleteAccount P addr force).run d = (deleteAccount Q addr force).run d := by
  rw [deleteAccount, deleteAccount]
  split_ifs
  · rfl
  rw [bind_ok (get_run d), bind_ok (get_run d)]
  refine h.accounts_bind_agree _ rfl fun i hi s hs => ?_
  have hrec := h.geometry.recordSize_le.trans hs.ge
  simp only [decodeAccount_eq P d.cfg hrec, decodeAccount_eq Q d.cfg hrec, bind_ok (check_ok _ d)]
  split_ifs
  · rfl
  · exact bind_run_congr
      (remove_agree h.keccak256 h.valid.geometry.accounts h.geometry.accounts hi) fun _ _ _ => rfl

theorem registerToken_agree (addr : Address) (width : ℕ) :
    (registerToken P addr width).run d = (registerToken Q addr width).run d := by
  have hP := h.valid.geometry.accounts.exact
  have hQ := h.size_le
  have hin := h.valid.geometry.registry_inside
  rw [registerToken, registerToken, bind_ok (get_run d), bind_ok (get_run d)]
  simp only
  split_ifs with h0 h1 h2 h3 h4 h5 h6
  case neg =>
    have := hin h0
    rw [P.mul_eq (by omega), P.add_eq (by omega), Q.mul_eq (by omega), Q.add_eq (by omega)]
  all_goals rfl

theorem getTokenBalance_agree (addr : Address) (id : ℕ) :
    (getTokenBalance P addr id).run d = (getTokenBalance Q addr id).run d := by
  rw [getTokenBalance, getTokenBalance]
  split_ifs
  · rfl
  rw [bind_ok (get_run d), bind_ok (get_run d)]
  cases htok : d.tokens[id]? with
  | none => rfl
  | some token =>
    simp only
    split_ifs with hw hs
    · refine h.accounts_bind_agree _ rfl fun i hi s hlen => ?_
      have hcol := (h.column_le htok hw).trans hlen.ge
      simp only [P.slice_eq hcol, Q.slice_eq hcol]
    · refine lookup_bind_agree h.keccak256 (h.valid.geometry.sparse hs) (h.geometry.sparse hs) _
        rfl fun i hi s hlen => ?_
      have hcol := (h.valid.sparseBalance_le hs).trans hlen.ge
      simp only [P.slice_eq hcol, Q.slice_eq hcol]
    · rfl

theorem setWideBalance_agree (addr : Address) {off width : ℕ} (hcol : off + width ≤ d.cfg.slotSize)
    (value : ℤ) :
    (setWideBalance P addr off width value).run d =
      (setWideBalance Q addr off width value).run d := by
  have hslot : 20 ≤ d.cfg.slotSize := (Nat.zero_add 20).ge.trans h.geometry.accounts.slot
  rw [setWideBalance, setWideBalance, bind_ok (get_run d), bind_ok (get_run d)]
  refine h.accounts_bind_agree _ ?_ fun i hi s hs => ?_
  · simp only
    split_ifs
    · rfl
    · refine counter_insert_agree h.keccak256 h.valid.geometry.accounts h.geometry.accounts ?_
      have hfull : (splice (zeros d.cfg.slotSize) 0 addr.val).length = d.cfg.slotSize := by
        rw [splice_length (by rw [zeros_length, addr.2]; omega), zeros_length]
      show (splice (splice (zeros d.cfg.slotSize) 0 addr.val) off _).length = d.cfg.slotSize
      rw [splice_length (by rw [hfull, beBytes_length]; exact hcol), hfull]
  · simp only [writeSlot_agree h.valid.geometry.accounts h.geometry.accounts hi]

theorem setSparseBalance_agree (hs : d.cfg.profile = profileSparse) (addr : Address) (id : ℕ)
    (value : ℤ) :
    (setSparseBalance P addr id value).run d = (setSparseBalance Q addr id value).run d := by
  have hP := h.valid.geometry.sparse hs
  have hQ := h.geometry.sparse hs
  have hslot : 24 ≤ d.cfg.sparseSlotSize := hQ.slot
  rw [setSparseBalance, setSparseBalance, bind_ok (get_run d), bind_ok (get_run d)]
  refine lookup_bind_agree h.keccak256 hP hQ _ ?_ fun i hi s hs => ?_
  · simp only
    split_ifs
    · rfl
    -- the record is encoded between the counter and the insertion
    have h1 := hQ.counter_le
    have h2 := hQ.inside
    have hcount := counter_run (show (sparseTable d.cfg).countOff + 8 ≤ d.size by omega)
    rw [bind_ok hcount, bind_ok hcount]
    split_ifs
    · rfl
    have hid : (splice (zeros d.cfg.sparseSlotSize) 0 (leBytes 2 id)).length =
        d.cfg.sparseSlotSize := by
      rw [splice_length (by rw [zeros_length, leBytes_length]; omega), zeros_length]
    have hblank : (splice (splice (zeros d.cfg.sparseSlotSize) 0 (leBytes 2 id)) 4
        addr.val).length = d.cfg.sparseSlotSize := by
      rw [splice_length (by rw [hid, addr.2]; omega), hid]
    rw [putSparseBalance, putBE]
    split_ifs
    · rfl
    refine insert_agree h.keccak256 hP hQ ?_
    rw [splice_length ?_]
    · exact hblank
    · rw [beBytes_length]
      exact (h.valid.sparseBalance_le hs).trans hblank.ge
  · simp only [writeSlot_agree hP hQ hi]
    split_ifs
    · exact remove_agree h.keccak256 hP hQ hi
    · rfl

theorem setTokenBalance_agree (addr : Address) (id : ℕ) (value : ℤ) :
    (setTokenBalance P addr id value).run d = (setTokenBalance Q addr id value).run d := by
  rw [setTokenBalance, setTokenBalance]
  split_ifs
  · rfl
  rw [bind_ok (get_run d), bind_ok (get_run d)]
  cases htok : d.tokens[id]? with
  | none => rfl
  | some token =>
    simp only
    split_ifs with hv hw hs
    · rfl
    · exact h.setWideBalance_agree addr (h.column_le htok hw) value
    · exact h.setSparseBalance_agree hs addr id value
    · rfl

end Shared

end Operations

/-! ## Calls of the two libraries -/

/-- The two record encoders differ only in the type of the nonce. -/
theorem encodeAccount_agree (g : Geometry) (addr : Address) (nonce : UInt64)
    (balance : Option ℤ) :
    Ts.encodeAccount g addr nonce.toNat (balance.getD 0) =
      Go.encodeAccount g addr nonce balance := by
  have hlt := nonce.toNat_lt
  have hstd : ((nonce.toNat : ℤ) % 2 ^ 64).toNat = nonce.toNat := by omega
  rw [Ts.encodeAccount, Go.encodeAccount, hstd, if_neg (by omega : ¬(nonce.toNat : ℤ) < 0),
    Int.natAbs_natCast]
  by_cases hbig : 0xffffffff < nonce.toNat
  · rw [if_pos (by omega : (0xffffffff : ℤ) < nonce.toNat), if_pos hbig]
  · have hcompact : ((toNumber nonce.toNat : ℤ) % 2 ^ 32).toNat = nonce.toNat := by
      rw [toNumber_eq (by omega)]
      omega
    rw [if_neg (by omega : ¬(0xffffffff : ℤ) < nonce.toNat), if_neg hbig]
    simp only [hcompact]

/-- A call of either library. -/
inductive Call
  | write (op : Go.Op)
  | getAccount (addr : Address)
  | getTokenBalance (addr : Address) (id : UInt16)
  | tokenByAddress (addr : Address)
  | liveCount
  | sparseLiveCount
  | tokenCount
  | reloadRegistry

/-- What a call returns. -/
inductive Reply
  | wrote (a : Answer)
  | account (a : Option Account)
  | amount (n : ℕ)
  | token (found : Option (ℕ × Option Token))
  | reloaded

section Exec

variable {σ : Type} [Store σ] (keccak256 : Bytes → Bytes → Bytes)

/-- A call of the Go library; token ids are `uint16`. -/
def Go.call : Call → DriveM σ Reply
  | .write op => do return .wrote (← op.exec (Go.platform keccak256))
  | .getAccount addr => do return .account (← Drive.getAccount (Go.platform keccak256) addr)
  | .getTokenBalance addr id => do
    return .amount (← Drive.getTokenBalance (Go.platform keccak256) addr id.toNat)
  | .tokenByAddress addr => do
    let d ← get
    return .token ((Drive.tokenByAddress d.tokens addr).map fun i => (i % 2 ^ 16, d.tokens[i]?))
  | .liveCount => do return .amount (← Drive.liveCount)
  | .sparseLiveCount => do return .amount (← Drive.sparseLiveCount)
  | .tokenCount => do return .amount (← Drive.tokenCount)
  | .reloadRegistry => do
    Drive.reloadRegistry (Go.platform keccak256)
    return .reloaded

/-- A write operation of the TypeScript library. Its nonce and its balance are BigInts, and
    an absent balance is zero. -/
def Ts.exec (P : Platform) : Go.Op → DriveM σ Answer
  | .setAccount addr nonce balance => do
    Ts.setAccount P addr nonce.toNat (balance.getD 0)
    return .done
  | .deleteAccount addr force => do
    let found ← Drive.deleteAccount P addr force
    return .deleted found
  | .registerToken addr width => do
    let id ← Drive.registerToken P addr width.toNat
    return .registered id
  | .setTokenBalance addr id value => do
    Drive.setTokenBalance P addr id.toNat value
    return .done

/-- A call of the TypeScript library. -/
def Ts.call : Call → DriveM σ Reply
  | .write op => do return .wrote (← Ts.exec (Ts.platform keccak256) op)
  | .getAccount addr => do return .account (← Drive.getAccount (Ts.platform keccak256) addr)
  | .getTokenBalance addr id => do
    return .amount (← Drive.getTokenBalance (Ts.platform keccak256) addr id.toNat)
  | .tokenByAddress addr => do
    let d ← get
    return .token ((Drive.tokenByAddress d.tokens addr).map fun i => (i, d.tokens[i]?))
  | .liveCount => do return .amount (← Drive.liveCount)
  | .sparseLiveCount => do return .amount (← Drive.sparseLiveCount)
  | .tokenCount => do return .amount (← Drive.tokenCount)
  | .reloadRegistry => do
    Drive.reloadRegistry (Ts.platform keccak256)
    return .reloaded

end Exec

section Calls

variable {σ : Type} [Store σ] [LawfulStore σ] {P Q : Platform} {d : Drive σ}
  {keccak256 : Bytes → Bytes → Bytes}

/-- Token ids fit in a `uint16`. -/
theorem Valid.tokens_length_le (hv : Valid P d) : d.tokens.length ≤ 65536 := by
  by_cases h0 : d.cfg.registryOffset = 0
  · rw [hv.registry.absent h0]
    exact Nat.zero_le _
  · exact (hv.registry.bounded h0).trans (hv.geometry.registryCapacity_le h0)

theorem registerToken_id_lt (hv : Valid P d) {addr : Address} {width n : ℕ} {d' : Drive σ}
    (hrun : (registerToken P addr width).run d = .ok n d') : n < 2 ^ 16 := by
  have h := registerToken_refines hv addr width
  rw [Book.registerToken, show (book P d).tokens = d.tokens from rfl] at h
  split_ifs at h with h0 h1 h2 h3 h4 h5 h6
  case neg =>
    obtain ⟨d'', hrun', -⟩ := h
    have hcap := hv.geometry.registryCapacity_le h0
    rw [hrun'] at hrun
    obtain ⟨rfl, -⟩ := EStateM.Result.ok.inj hrun
    omega
  all_goals
    rw [Refines, hrun] at h
    cases h

/-- A write operation is the same computation in both libraries. -/
theorem Shared.exec_agree (h : Shared P Q d) (op : Go.Op) :
    (op.exec P).run d = (Ts.exec Q op).run d := by
  cases op with
  | setAccount addr nonce balance =>
    refine bind_run_congr ?_ fun _ _ _ => rfl
    rw [Ts.setAccount, Go.setAccount]
    simp only [encodeAccount_agree]
    refine h.setRecord_agree addr fun r hr => ?_
    have henc := Go.encodeAccount_encodes d.cfg addr nonce balance
    rw [hr] at henc
    exact henc.1
  | deleteAccount addr force =>
    exact bind_run_congr (h.deleteAccount_agree addr force) fun _ _ _ => rfl
  | registerToken addr width =>
    have hreg := h.registerToken_agree addr width.toNat
    show (do let id ← Go.registerToken P addr width; return Answer.registered id).run d = _
    rw [Go.registerToken, bind_assoc]
    refine bind_run_congr hreg fun n d' hn => ?_
    have hlt := registerToken_id_lt h.valid (hreg.trans hn)
    rw [pure_bind, Nat.mod_eq_of_lt hlt]
  | setTokenBalance addr id value =>
    exact bind_run_congr (h.setTokenBalance_agree addr id.toNat value) fun _ _ _ => rfl

/-- The address of a registered token is found under an id that fits in a `uint16`. -/
theorem tokenByAddress_lt {tokens : List Token} {addr : Address} {i : ℕ}
    (h : tokenByAddress tokens addr = some i) : i < tokens.length := by
  rw [tokenByAddress, List.findIdx?_eq_some_iff_findIdx_eq] at h
  exact h.1

/-- A header counter is read from a drive of any platform. -/
theorem Valid.counter_run (hv : Valid P d) {off : ℕ} (h : off + 8 ≤ headerSize) :
    (counter off).run d = .ok (leNat (slice d.image off 8)) d := by
  refine Drive.counter_run ?_
  have h1 := hv.geometry.tableOffset_le
  have h2 : d.cfg.tableOffset + _ ≤ d.size := hv.geometry.accounts.inside
  omega

/-- Reloading finds the registry as it is cached. -/
theorem Valid.reloadRegistry_run (hv : Valid P d) : (reloadRegistry P).run d = .ok () d :=
  Drive.reloadRegistry_run hv.geometry hv.registry

/-- Any call is the same computation in both libraries. -/
theorem Shared.call_agree (h : Shared (Go.platform keccak256) (Ts.platform keccak256) d)
    (call : Call) : (Go.call keccak256 call).run d = (Ts.call keccak256 call).run d := by
  cases call with
  | write op => exact bind_run_congr (h.exec_agree op) fun _ _ _ => rfl
  | getAccount addr => exact bind_run_congr (h.getAccount_agree addr) fun _ _ _ => rfl
  | getTokenBalance addr id =>
    exact bind_run_congr (h.getTokenBalance_agree addr id.toNat) fun _ _ _ => rfl
  | tokenByAddress addr =>
    rw [Go.call, Ts.call, bind_ok (get_run d), bind_ok (get_run d)]
    cases hfind : tokenByAddress d.tokens addr with
    | none => rfl
    | some i =>
      have hlt := tokenByAddress_lt hfind
      have hle := h.valid.tokens_length_le
      rw [Option.map_some, Option.map_some, Nat.mod_eq_of_lt (by omega)]
  | liveCount => rfl
  | sparseLiveCount => rfl
  | tokenCount => rfl
  | reloadRegistry =>
    have hgo := h.valid.reloadRegistry_run
    have hts := Drive.reloadRegistry_run h.geometry h.valid.registry
    exact bind_run_congr (hgo.trans hts.symm) fun _ _ _ => rfl

omit [Store σ] [LawfulStore σ] in
theorem endState_returns {α : Type} (d : Drive σ) (r : Except DriveError α) :
    endState (returns d r) = d := by
  cases r <;> rfl

/-- A write operation leaves a valid drive of the same geometry and size. -/
theorem Go.Op.exec_keeps (hv : Valid P d) (op : Go.Op) :
    Valid P (endState ((op.exec P).run d)) ∧ Later d (endState ((op.exec P).run d)) := by
  have h := op.exec_refines hv
  cases hs : op.spec d.cfg (book P d) with
  | error e =>
    rw [hs] at h
    rw [show (op.exec P).run d = .error e d from h]
    exact ⟨hv, Later.refl d⟩
  | ok r =>
    rw [hs] at h
    obtain ⟨d', hrun, hv', -, hl⟩ := h
    rw [hrun]
    exact ⟨hv', hl⟩

/-- So does any call: the others leave the drive as it is. -/
theorem Go.call_keeps (hv : Valid (Go.platform keccak256) d) (call : Call) :
    Valid (Go.platform keccak256) (endState ((Go.call keccak256 call).run d)) ∧
      Later d (endState ((Go.call keccak256 call).run d)) := by
  have hcount : ∀ {off : ℕ}, off + 8 ≤ headerSize →
      endState ((do return .amount (← counter off) : DriveM σ Reply).run d) = d := by
    intro off hoff
    rw [endState_bind_pure, hv.counter_run hoff]
    rfl
  cases call with
  | write op =>
    rw [Go.call, endState_bind_pure]
    exact op.exec_keeps hv
  | getAccount addr =>
    rw [Go.call, endState_bind_pure, getAccount_refines hv, endState_returns]
    exact ⟨hv, Later.refl d⟩
  | getTokenBalance addr id =>
    rw [Go.call, endState_bind_pure, getTokenBalance_refines hv, endState_returns]
    exact ⟨hv, Later.refl d⟩
  | tokenByAddress addr => exact ⟨hv, Later.refl d⟩
  | liveCount =>
    rw [Go.call, liveCount, hcount (by decide)]
    exact ⟨hv, Later.refl d⟩
  | sparseLiveCount =>
    rw [Go.call, sparseLiveCount, hcount (by decide)]
    exact ⟨hv, Later.refl d⟩
  | tokenCount =>
    rw [Go.call, tokenCount, hcount (by decide)]
    exact ⟨hv, Later.refl d⟩
  | reloadRegistry =>
    rw [Go.call, bind_ok hv.reloadRegistry_run]
    exact ⟨hv, Later.refl d⟩

end Calls

/-! ## From Format on -/

section Format

variable {keccak256 : Bytes → Bytes → Bytes} {c : Go.Config}

theorem Config.NoWrap.sized {c : Config} (hw : c.NoWrap (Go.platform keccak256))
    (hr : c.InRange (Ts.platform keccak256)) : c.Sized where
  accounts := hw.accounts
  registry := by
    have h : c.registryCapacity < 2 ^ 53 := hr.registryCapacity
    omega
  sparse := hw.sparse

/-- The two libraries format a zeroed store alike, or refuse for the same reason. -/
theorem format_agree (hr : c.toConfig.InRange (Ts.platform keccak256))
    (hw : c.toConfig.defaults.NoWrap (Go.platform keccak256)) :
    Go.format keccak256 (MemStore.new c.DriveLength.toNat) c =
      Ts.format keccak256 (MemStore.new c.DriveLength.toNat) c.toConfig := by
  have hval := Config.validate_agree (Go.platform_judges keccak256) (Ts.platform_judges keccak256)
    (c.inRange keccak256).defaults hr.defaults (hw.sized hr.defaults)
  cases hgo : c.toConfig.defaults.validate (Go.platform keccak256) with
  | error e =>
    rw [Go.format, Ts.format, format, format]
    simp only [hgo, ← hval]
  | ok u =>
    obtain ⟨s, hs, himg, hsize, -⟩ := format_header (c.inRange keccak256) hgo
      (s := MemStore.new c.DriveLength.toNat) (fun _ => rfl) rfl
    obtain ⟨s', hs', himg', hsize', -⟩ := format_header hr (hval.symm.trans hgo)
      (s := MemStore.new c.DriveLength.toNat) (fun _ => rfl) rfl
    have heq : s = s' := by
      cases s
      cases s'
      exact congrArg₂ MemStore.mk (hsize.trans hsize'.symm) (himg.trans himg'.symm)
    rw [Go.format, Ts.format, hs, hs', heq]

/-- A drive of the geometry `g` that both libraries can use. -/
structure Usable (keccak256 : Bytes → Bytes → Bytes) (g : Geometry) (d : Drive MemStore) :
    Prop where
  shared : Shared (Go.platform keccak256) (Ts.platform keccak256) d
  cfg : d.cfg = g

theorem Usable.call {g : Geometry} {d : Drive MemStore} (h : Usable keccak256 g d) (call : Call) :
    Usable keccak256 g (endState ((Go.call keccak256 call).run d)) := by
  obtain ⟨hv, hl⟩ := Go.call_keeps h.shared.valid call
  exact ⟨⟨rfl, hv, hl.size.trans_le h.shared.size_le⟩, hl.cfg.trans h.cfg⟩

theorem format_usable (hr : c.toConfig.InRange (Ts.platform keccak256))
    (hw : c.toConfig.defaults.NoWrap (Go.platform keccak256)) {d : Drive MemStore}
    (hfmt : Go.format keccak256 (MemStore.new c.DriveLength.toNat) c = .ok d) :
    Usable keccak256 c.toConfig.defaults.geometry d := by
  obtain ⟨d', hd', hv, -, hcfg, hsize, -⟩ := format_run (c.inRange keccak256) hw
    (format_ok_validate hfmt) (s := MemStore.new c.DriveLength.toNat) (fun _ => rfl) rfl
  rw [Go.format, hd'] at hfmt
  obtain rfl := Except.ok.inj hfmt
  exact ⟨⟨rfl, hv, hsize.trans_le hr.driveLength.le⟩, hcfg⟩

/-- The Go and the TypeScript library agree. For every configuration that both can represent
    and whose region sizes fit in 64 bits they accept or refuse alike and write the same
    header. After that, any sequence of calls gets the same results and errors from the two
    and leaves the same drive: the same bytes, since the store is part of it, and the same
    cached geometry and registry. Either library, opening the store, gets that drive. -/
theorem guest_host_agree (hr : c.toConfig.InRange (Ts.platform keccak256))
    (hw : c.toConfig.defaults.NoWrap (Go.platform keccak256)) :
    Go.format keccak256 (MemStore.new c.DriveLength.toNat) c =
      Ts.format keccak256 (MemStore.new c.DriveLength.toNat) c.toConfig ∧
    ∀ d, Go.format keccak256 (MemStore.new c.DriveLength.toNat) c = .ok d → ∀ calls,
      runAll (Go.call keccak256) d calls = runAll (Ts.call keccak256) d calls ∧
      openDrive (Go.platform keccak256) (runAll (Go.call keccak256) d calls).2.store =
        .ok (runAll (Go.call keccak256) d calls).2 ∧
      openDrive (Ts.platform keccak256) (runAll (Go.call keccak256) d calls).2.store =
        .ok (runAll (Go.call keccak256) d calls).2 := by
  refine ⟨format_agree hr hw, fun d hfmt calls => ?_⟩
  have hslot := Config.slotSize_ne (format_ok_validate hfmt)
  have hkeep : ∀ (e : Drive MemStore) (call : Call),
      Usable keccak256 c.toConfig.defaults.geometry e →
      Usable keccak256 c.toConfig.defaults.geometry (endState ((Go.call keccak256 call).run e)) :=
    fun _ call h => h.call call
  have hd := format_usable hr hw hfmt
  obtain ⟨hend, hgeo⟩ := runAll_keeps hkeep hd calls
  refine ⟨runAll_congr hkeep (fun e call h => h.shared.call_agree call) hd calls, ?_, ?_⟩
  · have hgo := (c.inRange keccak256).defaults.geometry hslot
    exact openDrive_reads (readsAs _) hend.valid.geometry (hgeo ▸ hgo) hend.valid.header
      hend.valid.registry
  · have hts := hr.defaults.geometry hslot
    exact openDrive_reads (readsAs _) hend.geometry (hgeo ▸ hts) hend.valid.header
      hend.valid.registry

theorem guest_host_agree_sample :
    ∃ d, Go.format (fun _ key => key) Go.sampleStore Go.sampleConfig = .ok d ∧
      Ts.format (fun _ key => key) Go.sampleStore Go.sampleConfig.toConfig = .ok d ∧
      runAll (Go.call (σ := MemStore) fun _ key => key) d (Go.sampleOps.map .write) =
        runAll (Ts.call (σ := MemStore) fun _ key => key) d (Go.sampleOps.map .write) := by
  have hr : Go.sampleConfig.toConfig.InRange (Ts.platform fun _ key => key) := by
    constructor <;> decide
  obtain ⟨hfmt, hrun⟩ := guest_host_agree hr Go.sampleConfig_noWrap
  obtain ⟨d, hd⟩ := Go.sampleConfig_format
  exact ⟨d, hd, hfmt.symm.trans hd, (hrun d hd _).1⟩

end Format

end OpCartesi.Drive
