import OpCartesi.Drive.Book
import OpCartesi.Drive.Valid

/-!
# The book a drive holds

`book P d` is what the read operations of a drive return for every address and
token. On a valid drive it is determined by the records of the two tables:

* `getAccount_run`, `getTokenBalance_run`: the read operations, in terms of the
  records found.
* `getAccount_refines`, `getTokenBalance_refines`: they read the book.
* `book_of_accountsStep`, `book_of_sparseStep`: how one step of a table changes the book.
* `size_eq`, `holders_eq`: the live counters count the book's entries.
-/

namespace OpCartesi.Drive

open Exec
open Function (update update_of_ne update_self)

section

variable {σ : Type} [Store σ] (P : Platform)

/-- The nonce and balance `GetAccount` returns. -/
def accountOf (d : Drive σ) (a : Address) : Option (ℕ × ℕ) :=
  match (getAccount P a).run d with
  | .ok (some acc) _ => some (acc.nonce, acc.balance)
  | _ => none

/-- The balance `GetTokenBalance` returns. -/
def holdingOf (d : Drive σ) (id : ℕ) (a : Address) : ℕ :=
  match (getTokenBalance P a id).run d with
  | .ok v _ => v
  | .error _ _ => 0

def book (d : Drive σ) : Book := ⟨accountOf P d, holdingOf P d, d.tokens⟩

variable {P} {d : Drive σ}

theorem getAccount_zero {a : Address} (h0 : isZero a.val = true) :
    (getAccount P a).run d = .error .zeroAddress d := by
  rw [getAccount, if_pos h0]
  rfl

theorem getTokenBalance_zero {a : Address} (h0 : isZero a.val = true) (id : ℕ) :
    (getTokenBalance P a id).run d = .error .zeroAddress d := by
  rw [getTokenBalance, if_pos h0]
  rfl

theorem getTokenBalance_unknown {a : Address} (h0 : isZero a.val = false) {id : ℕ}
    (ht : d.tokens[id]? = none) : (getTokenBalance P a id).run d = .error .unknownToken d := by
  rw [getTokenBalance, if_neg (by simp [h0]), bind_ok (get_run d), ht]
  rfl

end

/-! ## Columns of a wide record -/

/-- The balance of token `id` in a wide record. -/
def wideValue (tokens : List Token) (slot : Bytes) (id : ℕ) : ℕ :=
  match tokens[id]? with
  | some token => beNat (sub slot (column tokens id) token.width)
  | none => 0

theorem le_column (tokens : List Token) (id : ℕ) : 64 ≤ column tokens id := Nat.le_add_right _ _

/-- Writing the record bytes leaves the columns. -/
theorem wideValue_splice_record {tokens : List Token} {slot record : Bytes} (id : ℕ)
    (hr : record.length ≤ 64) (hs : record.length ≤ slot.length) :
    wideValue tokens (splice slot 0 record) id = wideValue tokens slot id := by
  rw [wideValue, wideValue]
  cases tokens[id]? with
  | none => rfl
  | some token =>
    have := le_column tokens id
    simp only
    rw [sub_splice_after (by omega) (by omega)]

/-- Writing one column leaves the others. -/
theorem wideValue_splice_column {tokens : List Token} {slot : Bytes} {id v : ℕ} {token : Token}
    (ht : tokens[id]? = some token) (hs : columnsEnd tokens ≤ slot.length)
    (hv : v < 256 ^ token.width) (id' : ℕ) :
    wideValue tokens (splice slot (column tokens id) (beBytes token.width v)) id' =
      if id' = id then v else wideValue tokens slot id' := by
  have hend := column_add_width_le ht
  have hfit : column tokens id + (beBytes token.width v).length ≤ slot.length := by
    rw [beBytes_length]
    omega
  rw [wideValue]
  split_ifs with hid
  · subst hid
    have hself := sub_splice_self hfit
    rw [beBytes_length] at hself
    rw [ht]
    simp only
    rw [hself, beNat_beBytes_of_lt hv]
  · rw [wideValue]
    cases ht' : tokens[id']? with
    | none => rfl
    | some token' =>
      simp only
      rcases Nat.lt_or_gt_of_ne hid with h | h
      · have := column_mono tokens (Nat.succ_le_of_lt h)
        rw [Nat.succ_eq_add_one, column_succ ht'] at this
        rw [sub_splice_before hfit this]
      · have := column_mono tokens (Nat.succ_le_of_lt h)
        rw [Nat.succ_eq_add_one, column_succ ht] at this
        rw [sub_splice_after hfit (by rw [beBytes_length]; omega)]

theorem fields_splice_column {g : Geometry} {slot col : Bytes} {off : ℕ} (hc : g.compact = false)
    (ho : 64 ≤ off) (hfit : off + col.length ≤ slot.length) :
    g.fields (splice slot off col) = g.fields slot := by
  rw [Geometry.fields, Geometry.fields, hc]
  simp only [Bool.false_eq_true, if_false]
  rw [sub_splice_before hfit (by omega), sub_splice_before hfit (by omega)]

/-- The bytes of a string written over the start of another. -/
theorem sub_splice_start {bs src : Bytes} {lo n : ℕ} (h : src.length ≤ bs.length)
    (hn : lo + n ≤ src.length) : sub (splice bs 0 src) lo n = sub src lo n := by
  have hs : sub (sub (splice bs 0 src) 0 src.length) lo n = sub (splice bs 0 src) (0 + lo) n :=
    sub_sub hn
  rw [Nat.zero_add] at hs
  rw [← hs, sub_splice_self (by omega)]

theorem fields_splice_record {g : Geometry} {slot record : Bytes}
    (hr : record.length = g.recordSize) (hs : record.length ≤ slot.length) :
    g.fields (splice slot 0 record) = g.fields record := by
  rw [Geometry.recordSize] at hr
  rw [Geometry.fields, Geometry.fields]
  split_ifs at hr ⊢ with hc
  · rw [sub_splice_start hs (by omega), sub_splice_start hs (by omega)]
  · rw [sub_splice_start hs (by omega), sub_splice_start hs (by omega)]

/-! ## Reading a valid drive -/

section

variable {σ : Type} [Store σ] [LawfulStore σ] {P : Platform} {d : Drive σ}

/-- The account record of an address. -/
def Valid.record (hv : Valid P d) (a : Address) : Option Bytes :=
  (accountsTable d.cfg).find P d.cfg hv.geometry.accounts.two_le d.image a.val

/-- The sparse record of a token and an address. -/
def Valid.sparseEntry (hv : Valid P d) (hp : d.cfg.profile = profileSparse) (id : ℕ)
    (a : Address) : Option Bytes :=
  (sparseTable d.cfg).find P d.cfg (hv.geometry.sparse hp).two_le d.image (sparseKey id a)

section

variable (hv : Valid P d)
include hv

/-- A lookup in the accounts table. -/
theorem Valid.record_cases (a : Address) :
    (hv.record a = none ∧ (lookup P (accountsTable d.cfg) a.val).run d = .ok none d) ∨
    ∃ i s, hv.record a = some s ∧
      (lookup P (accountsTable d.cfg) a.val).run d = .ok (some (i, s)) d ∧
      i < d.cfg.capacity ∧ (accountsTable d.cfg).slots d.image i = s ∧
      s.length = d.cfg.slotSize ∧ sub s 0 20 = a.val ∧ isZero a.val = false := by
  rcases lookup_cases hv.geometry.accounts a.val with h | ⟨i, s, hs, hrun, hi, hsl, hl, hk⟩
  · exact Or.inl h
  · have hk' : sub s 0 20 = a.val := hk
    have hl' : (!isZero (sub s 0 20)) = true := hl
    rw [hk', Bool.not_eq_true'] at hl'
    exact Or.inr ⟨i, s, hs, hrun, hi, hsl, hsl ▸ Table.slots_length hi, hk', hl'⟩

/-- A lookup in the sparse table. -/
theorem Valid.sparse_cases (hp : d.cfg.profile = profileSparse) (id : ℕ) (a : Address) :
    (hv.sparseEntry hp id a = none ∧
      (lookup P (sparseTable d.cfg) (sparseKey id a)).run d = .ok none d) ∨
    ∃ i s, hv.sparseEntry hp id a = some s ∧
      (lookup P (sparseTable d.cfg) (sparseKey id a)).run d = .ok (some (i, s)) d ∧
      i < d.cfg.sparseCapacity ∧ (sparseTable d.cfg).slots d.image i = s ∧
      s.length = d.cfg.sparseSlotSize ∧ sub s 0 2 = leBytes 2 id ∧ sub s 4 20 = a.val ∧
      isZero a.val = false := by
  rcases lookup_cases (hv.geometry.sparse hp) (sparseKey id a) with
    h | ⟨i, s, hs, hrun, hi, hsl, hl, hk⟩
  · exact Or.inl h
  · have hlen : s.length = d.cfg.sparseSlotSize := hsl ▸ Table.slots_length hi
    have hslot : 24 ≤ d.cfg.sparseSlotSize := (hv.geometry.sparse hp).slot
    have hk' : sub s 0 2 ++ sub s 4 20 = leBytes 2 id ++ a.val := hk
    obtain ⟨hid, ha⟩ := List.append_inj hk' (by rw [sub_length (by omega), leBytes_length])
    have hl' : (!isZero (sub s 4 20)) = true := hl
    rw [ha, Bool.not_eq_true'] at hl'
    exact Or.inr ⟨i, s, hs, hrun, hi, hsl, hlen, hid, ha, hl'⟩

theorem Valid.record_zero {a : Address} (h : isZero a.val = true) :
    hv.record a = none := by
  rcases hv.record_cases a with ⟨hn, -⟩ | ⟨i, s, -, -, -, -, -, -, h0⟩
  · exact hn
  · rw [h] at h0
    cases h0

theorem Valid.sparseEntry_zero (hp : d.cfg.profile = profileSparse) (id : ℕ) {a : Address}
    (h : isZero a.val = true) : hv.sparseEntry hp id a = none := by
  rcases hv.sparse_cases hp id a with ⟨hn, -⟩ | ⟨i, s, -, -, -, -, -, -, -, h0⟩
  · exact hn
  · rw [h] at h0
    cases h0

theorem getAccount_run {a : Address} (h0 : isZero a.val = false) :
    (getAccount P a).run d =
      .ok ((hv.record a).map fun s => ⟨a, (d.cfg.fields s).1, (d.cfg.fields s).2⟩) d := by
  rw [getAccount, if_neg (by simp [h0]), bind_ok (get_run d)]
  rcases hv.record_cases a with ⟨hn, hrun⟩ | ⟨i, s, hs, hrun, -, -, hlen, -, -⟩
  · rw [bind_ok hrun, hn]
    rfl
  · have hdec := decodeAccount_eq P d.cfg
      (hlen ▸ hv.geometry.recordSize_le : d.cfg.recordSize ≤ s.length)
    rw [bind_ok hrun, hs]
    simp only [hdec, bind_ok (check_ok (d.cfg.fields s) d)]
    rfl

theorem accountOf_eq (a : Address) :
    accountOf P d a = (hv.record a).map d.cfg.fields := by
  rw [accountOf]
  cases h0 : isZero a.val with
  | true => rw [getAccount_zero h0, hv.record_zero h0]; rfl
  | false =>
    rw [getAccount_run hv h0]
    cases hv.record a <;> rfl

theorem Valid.colOff_getD {id : ℕ} (h : id < d.tokens.length) :
    d.colOff.getD id 0 = column d.tokens id := by
  rw [hv.registry.colOff, List.getD_eq_getElem?_getD, List.getElem?_map, List.getElem?_range h]
  rfl

theorem Valid.sparseBalance_le (hp : d.cfg.profile = profileSparse) :
    d.cfg.sparseBalance.1 + d.cfg.sparseBalance.2 ≤ d.cfg.sparseSlotSize := by
  rcases hv.geometry.sparseSlotSize hp with h | h <;> simp [Geometry.sparseBalance, h]

/-- `GetTokenBalance` on a valid drive. -/
theorem getTokenBalance_run {a : Address} (h0 : isZero a.val = false) {id : ℕ} {token : Token}
    (ht : d.tokens[id]? = some token) :
    (d.cfg.profile = profileWide → (getTokenBalance P a id).run d =
      .ok ((hv.record a).elim 0 fun s => wideValue d.tokens s id) d) ∧
    (∀ hp : d.cfg.profile = profileSparse, (getTokenBalance P a id).run d =
      .ok ((hv.sparseEntry hp id a).elim 0 d.cfg.sparseValue) d) ∧
    (d.cfg.profile = profileSingleAsset →
      (getTokenBalance P a id).run d = .error .profile d) := by
  obtain ⟨hid, -⟩ := List.getElem?_eq_some_iff.1 ht
  rw [getTokenBalance, if_neg (by simp [h0]), bind_ok (get_run d), ht]
  refine ⟨fun hw => ?_, fun hp => ?_, fun hs => ?_⟩
  · simp only [if_pos hw]
    rcases hv.record_cases a with ⟨hn, hrun⟩ | ⟨i, s, hs, hrun, -, -, hlen, -, -⟩
    · rw [bind_ok hrun, hn]
      rfl
    · have hfit := (column_add_width_le ht).trans (hv.registry.columns hw)
      rw [bind_ok hrun, hs]
      simp only [hv.colOff_getD hid, P.slice_eq (hlen ▸ hfit : _ ≤ s.length), Option.elim_some,
        wideValue, ht]
      rw [bind_ok (check_ok _ d)]
      rfl
  · simp only [hp, show profileSparse ≠ profileWide by decide, if_false, if_true]
    rcases hv.sparse_cases hp id a with ⟨hn, hrun⟩ | ⟨i, s, hs, hrun, -, -, hlen, -, -, -⟩
    · rw [bind_ok hrun, hn]
      rfl
    · rw [bind_ok hrun, hs]
      simp only [P.slice_eq (hlen ▸ hv.sparseBalance_le hp : _ ≤ s.length), Option.elim_some]
      rw [bind_ok (check_ok _ d)]
      rfl
  · simp only [hs, show profileSingleAsset ≠ profileWide by decide,
      show profileSingleAsset ≠ profileSparse by decide, if_false]
    rfl

end

/-! ## The book of a valid drive -/

theorem holdingOf_wide (hv : Valid P d) (hw : d.cfg.profile = profileWide) (id : ℕ)
    (a : Address) :
    holdingOf P d id a = (hv.record a).elim 0 fun s => wideValue d.tokens s id := by
  rw [holdingOf]
  cases h0 : isZero a.val with
  | true => rw [getTokenBalance_zero h0, hv.record_zero h0]; rfl
  | false =>
    cases ht : d.tokens[id]? with
    | none =>
      rw [getTokenBalance_unknown h0 ht]
      cases hv.record a with
      | none => rfl
      | some s => simp only [Option.elim_some, wideValue, ht]
    | some token => rw [(getTokenBalance_run hv h0 ht).1 hw]

theorem holdingOf_sparse (hv : Valid P d) (hp : d.cfg.profile = profileSparse) (id : ℕ)
    (a : Address) :
    holdingOf P d id a =
      if id < d.tokens.length then (hv.sparseEntry hp id a).elim 0 d.cfg.sparseValue else 0 := by
  rw [holdingOf]
  cases h0 : isZero a.val with
  | true => rw [getTokenBalance_zero h0, hv.sparseEntry_zero hp id h0, Option.elim_none, ite_self]
  | false =>
    split_ifs with hid
    · rw [(getTokenBalance_run hv h0 (List.getElem?_eq_getElem hid)).2.1 hp]
    · rw [getTokenBalance_unknown h0 (List.getElem?_eq_none (not_lt.1 hid))]

theorem holdingOf_single (hv : Valid P d) (hs : d.cfg.profile = profileSingleAsset) (id : ℕ)
    (a : Address) : holdingOf P d id a = 0 := by
  rw [holdingOf]
  cases h0 : isZero a.val with
  | true => rw [getTokenBalance_zero h0]
  | false =>
    cases ht : d.tokens[id]? with
    | none => rw [getTokenBalance_unknown h0 ht]
    | some token => rw [(getTokenBalance_run hv h0 ht).2.2 hs]

/-! ## Reading the book -/

/-- The result of a read operation that answers `x`: the drive is not changed. -/
def returns {α : Type} (d : Drive σ) : Except DriveError α → EStateM.Result DriveError (Drive σ) α
  | .ok a => .ok a d
  | .error e => .error e d

theorem getAccount_refines (hv : Valid P d) (a : Address) :
    (getAccount P a).run d = returns d ((book P d).getAccount a) := by
  rw [Book.getAccount]
  cases h0 : isZero a.val with
  | true => exact getAccount_zero h0
  | false =>
    rw [getAccount_run hv h0, if_neg Bool.false_ne_true,
      show (book P d).accounts a = accountOf P d a from rfl, accountOf_eq hv, Option.map_map]
    rfl

theorem getTokenBalance_refines (hv : Valid P d) (a : Address) (id : ℕ) :
    (getTokenBalance P a id).run d = returns d ((book P d).getTokenBalance d.cfg a id) := by
  rw [Book.getTokenBalance, show (book P d).tokens = d.tokens from rfl,
    show (book P d).holdings id a = holdingOf P d id a from rfl]
  cases h0 : isZero a.val with
  | true => exact getTokenBalance_zero h0 id
  | false =>
    rw [if_neg Bool.false_ne_true]
    split_ifs with hid hs
    · exact getTokenBalance_unknown h0 (List.getElem?_eq_none hid)
    · exact (getTokenBalance_run hv h0 (List.getElem?_eq_getElem (not_le.1 hid))).2.2 hs
    · have hle := hv.geometry.profile_le
      obtain ⟨hwide, hsparse, -⟩ :=
        getTokenBalance_run hv h0 (List.getElem?_eq_getElem (not_le.1 hid))
      rcases (by simp only [profileSparse, profileWide, profileSingleAsset] at *; omega :
        d.cfg.profile = profileWide ∨ d.cfg.profile = profileSparse) with hw | hp
      · rw [hwide hw, holdingOf_wide hv hw]
        rfl
      · rw [hsparse hp, holdingOf_sparse hv hp, if_pos (not_le.1 hid)]
        rfl

/-! ## Counting -/

/-- The accounts counter counts the book's accounts. -/
theorem size_eq (hv : Valid P d) : (book P d).size = (accountsTable d.cfg).count d.image := by
  have hcard := hv.accounts.good.card_filter_find (fun a : Address => a.val)
    Subtype.val_injective (fun s hs => by
      obtain ⟨i, hi, hsl, -⟩ := RobinHood.Layout.mem_contents.1 hs
      have hlen : s.length = d.cfg.slotSize := hsl ▸ Table.slots_length hi
      have hslot : 20 ≤ d.cfg.slotSize := hv.geometry.accounts.slot
      exact ⟨⟨sub s 0 20, sub_length (by omega)⟩, rfl⟩)
  rw [hv.accounts.count, ← hcard, Book.size]
  refine congrArg Finset.card (Finset.filter_congr fun a _ => ?_)
  show (accountOf P d a).isSome = true ↔ (hv.record a).isSome = true
  rw [accountOf_eq hv, Option.isSome_map]

theorem sparseKey_inj {id id' : ℕ} {a a' : Address} (h : id < 65536) (h' : id' < 65536)
    (hk : sparseKey id a = sparseKey id' a') : id = id' ∧ a = a' := by
  rw [sparseKey, sparseKey] at hk
  obtain ⟨h1, h2⟩ := List.append_inj hk (by rw [leBytes_length, leBytes_length])
  refine ⟨?_, Subtype.ext h2⟩
  have h256 : (65536 : ℕ) = 256 ^ 2 := by norm_num
  rw [h256] at h h'
  calc id = leNat (leBytes 2 id) := (leNat_leBytes_of_lt h).symm
    _ = leNat (leBytes 2 id') := by rw [h1]
    _ = id' := leNat_leBytes_of_lt h'

theorem Valid.tokens_le (hv : Valid P d) : d.tokens.length ≤ 65536 := by
  by_cases h0 : d.cfg.registryOffset = 0
  · rw [hv.registry.absent h0]
    simp
  · exact (hv.registry.bounded h0).trans (hv.geometry.registryCapacity_le h0)

/-- The sparse counter counts the book's nonzero token balances. -/
theorem holders_eq (hv : Valid P d) (hp : d.cfg.profile = profileSparse) :
    (book P d).holders = (sparseTable d.cfg).count d.image := by
  have htok := hv.tokens_le
  have hcard := (hv.sparse hp).good.card_filter_find
    (fun p : Fin d.tokens.length × Address => sparseKey p.1 p.2)
    (fun p q hpq => by
      obtain ⟨h1, h2⟩ := sparseKey_inj (by omega) (by omega) hpq
      exact Prod.ext (Fin.ext h1) h2)
    (fun s hs => by
      obtain ⟨i, hi, hsl, -⟩ := RobinHood.Layout.mem_contents.1 hs
      have hlen : s.length = d.cfg.sparseSlotSize := hsl ▸ Table.slots_length hi
      have hslot : 24 ≤ d.cfg.sparseSlotSize := (hv.geometry.sparse hp).slot
      have hid := (hv.sparseRecord hp _ s
        ((hv.sparse hp).good.find_eq_some_iff.2 ⟨hs, rfl⟩)).1
      refine ⟨⟨⟨leNat (sub s 0 2), hid⟩, ⟨sub s 4 20, sub_length (by omega)⟩⟩, ?_⟩
      have h2 : (sub s 0 2).length = 2 := sub_length (by omega)
      have hle := leBytes_leNat (sub s 0 2)
      rw [h2] at hle
      show leBytes 2 (leNat (sub s 0 2)) ++ sub s 4 20 = sub s 0 2 ++ sub s 4 20
      rw [hle])
  rw [(hv.sparse hp).count, ← hcard, Book.holders]
  refine congrArg Finset.card (Finset.filter_congr fun p _ => ?_)
  have hlt : p.1.val < d.tokens.length := p.1.isLt
  show holdingOf P d p.1 p.2 ≠ 0 ↔ (hv.sparseEntry hp p.1 p.2).isSome = true
  rw [holdingOf_sparse hv hp, if_pos hlt]
  cases hs : hv.sparseEntry hp p.1 p.2 with
  | none => simp
  | some s =>
    have := (hv.sparseRecord hp _ s hs).2
    simp [this]

/-! ## The book after a step -/

variable {d' : Drive σ}

/-- What the read operations return after a step of the accounts table. -/
theorem book_of_accountsStep (hv : Valid P d) (hv' : Valid P d') {a : Address}
    {r : Option Bytes}
    (hst : (accountsTable d.cfg).Step P d.cfg hv.geometry.accounts.two_le d d' a.val r)
    (hspr : d.cfg.profile = profileSparse →
      (sparseTable d.cfg).slots d'.image = (sparseTable d.cfg).slots d.image) :
    accountOf P d' = update (accountOf P d) a (r.map d.cfg.fields) ∧
    (d.cfg.profile = profileWide → ∀ id, holdingOf P d' id =
      update (holdingOf P d id) a (r.elim 0 fun s => wideValue d.tokens s id)) ∧
    (d.cfg.profile ≠ profileWide → holdingOf P d' = holdingOf P d) := by
  have hd' := hst.evolves.eq_update
  generalize hs : d'.store = s at hd'
  subst hd'
  have hrec : ∀ a', hv'.record a' = if a = a' then r else hv.record a' := by
    intro a'
    split_ifs with h
    · exact (hst.find _).trans (if_pos (congrArg _ h))
    · exact (hst.find _).trans (if_neg fun h' => h (Subtype.ext h'))
  refine ⟨?_, fun hw id => ?_, fun hw => ?_⟩
  · funext a'
    rw [accountOf_eq hv', hrec]
    by_cases h : a' = a
    · subst h
      rw [if_pos rfl, update_self]
    · rw [if_neg (Ne.symm h), update_of_ne h, accountOf_eq hv]
  · funext a'
    rw [holdingOf_wide hv' hw, hrec]
    by_cases h : a' = a
    · subst h
      rw [if_pos rfl, update_self]
    · rw [if_neg (Ne.symm h), update_of_ne h, holdingOf_wide hv hw]
  · funext id a'
    have hle := hv.geometry.profile_le
    rcases (by simp only [profileSparse, profileWide, profileSingleAsset] at *; omega :
      d.cfg.profile = profileSingleAsset ∨ d.cfg.profile = profileSparse) with h1 | hp
    · rw [holdingOf_single hv' h1, holdingOf_single hv h1]
    · rw [holdingOf_sparse hv' hp, holdingOf_sparse hv hp]
      have : hv'.sparseEntry hp id a' = hv.sparseEntry hp id a' := Table.find_congr (hspr hp) _
      rw [this]

/-- What the read operations return after a step of the sparse table. -/
theorem book_of_sparseStep (hv : Valid P d) (hv' : Valid P d')
    (hp : d.cfg.profile = profileSparse) {id : ℕ} (hid : id < d.tokens.length) {a : Address}
    {r : Option Bytes}
    (hst : (sparseTable d.cfg).Step P d.cfg (hv.geometry.sparse hp).two_le d d' (sparseKey id a) r)
    (hacc : (accountsTable d.cfg).slots d'.image = (accountsTable d.cfg).slots d.image) :
    book P d' = (book P d).setHolding id a (r.elim 0 d.cfg.sparseValue) := by
  have htok := hv.tokens_le
  have hd' := hst.evolves.eq_update
  generalize hs : d'.store = s at hd'
  subst hd'
  refine Book.ext ?_ ?_ rfl
  · funext a'
    show accountOf P _ a' = accountOf P d a'
    rw [accountOf_eq hv', accountOf_eq hv]
    have : hv'.record a' = hv.record a' := Table.find_congr hacc _
    rw [this]
  · funext id' a'
    show holdingOf P _ id' a' = _
    rw [holdingOf_sparse hv' hp]
    simp only [Book.setHolding, book]
    by_cases hid' : id' = id
    · subst hid'
      rw [if_pos hid, update_self]
      by_cases ha : a' = a
      · subst ha
        have h : hv'.sparseEntry hp id' a' = r := (hst.find _).trans (if_pos rfl)
        rw [h, update_self]
      · have h : hv'.sparseEntry hp id' a' = hv.sparseEntry hp id' a' :=
          (hst.find _).trans (if_neg fun h => ha (sparseKey_inj (by omega) (by omega) h).2.symm)
        rw [h, update_of_ne ha, holdingOf_sparse hv hp, if_pos hid]
    · rw [update_of_ne hid', holdingOf_sparse hv hp]
      split_ifs with hlt
      · have h : hv'.sparseEntry hp id' a' = hv.sparseEntry hp id' a' := (hst.find _).trans
          (if_neg fun h => hid' (sparseKey_inj (by omega) (lt_of_lt_of_le hlt htok) h).1.symm)
        rw [h]
      · rfl

end

end OpCartesi.Drive
