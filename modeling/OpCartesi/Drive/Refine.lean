import OpCartesi.Drive.View

/-!
# The drive refines the book

Each write operation of a valid drive does what the operation of the same name does to
the drive's book: it fails with the same error, and then changes nothing at all,
or it returns the same value and leaves a valid drive that holds the new book.

* `setRecord_refines`, `deleteAccount_refines`, `registerToken_refines`.

`SetTokenBalance` is in `OpCartesi.Drive.RefineTokens`.
-/

namespace OpCartesi.Drive

open Exec

section

variable {σ : Type} [Store σ] [LawfulStore σ] (P : Platform)

/-- `d'` is a later state of the drive `d`. -/
structure Later (d d' : Drive σ) : Prop where
  cfg : d'.cfg = d.cfg
  size : d'.size = d.size
  store : LawfulStore.Extends d.store d'.store

/-- The computation `x` on the drive `d` does what `spec` does to its book. -/
def Refines {α : Type} (d : Drive σ) (x : DriveM σ α) (spec : Except DriveError (α × Book)) :
    Prop :=
  match spec with
  | .error e => x.run d = .error e d
  | .ok (r, b) => ∃ d', x.run d = .ok r d' ∧ Valid P d' ∧ book P d' = b ∧ Later d d'

variable {P} {d d' : Drive σ}

theorem Evolves.later (h : Evolves d d') : Later d d' := ⟨h.cfg, h.size, h.store⟩

theorem Later.refl (d : Drive σ) : Later d d := ⟨rfl, rfl, LawfulStore.extends_refl _⟩

theorem Refines.congr {α : Type} {x y : DriveM σ α} {spec : Except DriveError (α × Book)}
    (h : x.run d = y.run d) (hy : Refines P d y spec) : Refines P d x spec := by
  unfold Refines at hy ⊢
  rw [h]
  exact hy

/-! ## SetAccount -/

/-- An encoder's result `x` is a record of `addr` that holds `r`, or `r`'s refusal. -/
def Encodes (g : Geometry) (addr : Address) (x : Except DriveError Bytes)
    (r : Except DriveError (ℕ × ℕ)) : Prop :=
  match x with
  | .error e => r = .error e
  | .ok record =>
    record.length = g.recordSize ∧ sub record 0 20 = addr.val ∧ r = .ok (g.fields record)

theorem live_accounts {g : Geometry} {h2 : 2 ≤ (accountsTable g).capacity} {s : Bytes}
    {a : Address} (hk : sub s 0 20 = a.val) (h0 : isZero a.val = false) :
    ((accountsTable g).layout P g h2).live s = true := by
  show (!isZero (sub s 0 20)) = true
  rw [hk, h0]
  rfl

/-- A record written over the start of a slot keeps the slot's key and its length. -/
theorem splice_record {g : Geometry} (slot : Bytes) {record : Bytes} {a : Address}
    (hr : record.length = g.recordSize) (ha : sub record 0 20 = a.val)
    (hs : record.length ≤ slot.length) :
    (splice slot 0 record).length = slot.length ∧ sub (splice slot 0 record) 0 20 = a.val := by
  have h32 : 20 ≤ record.length := by
    rw [hr, Geometry.recordSize]
    split_ifs <;> omega
  refine ⟨splice_length (by omega), ?_⟩
  rw [sub_splice_start hs (by omega), ha]

theorem not_compact_of_wide {g : Geometry} (hw : g.profile = profileWide) : g.compact = false := by
  rw [← Bool.not_eq_true, Geometry.compact_iff, hw]
  simp [profileWide, profileSingleAsset]

/-- A step that writes a record without touching the wide columns. -/
theorem Valid.of_recordStep (hv : Valid P d) {a : Address} {slot record : Bytes}
    (hr : record.length = d.cfg.recordSize) (hs : slot.length = d.cfg.slotSize)
    (hst : (accountsTable d.cfg).Step P d.cfg hv.geometry.accounts.two_le d d' a.val
      (some (splice slot 0 record)))
    (htail : d.cfg.profile = profileWide →
      sub slot (columnsEnd d.tokens) (d.cfg.slotSize - columnsEnd d.tokens) =
        zeros (d.cfg.slotSize - columnsEnd d.tokens))
    (hold : d.cfg.profile = profileWide → ∀ id,
      wideValue d.tokens slot id = holdingOf P d id a) :
    Valid P d' ∧ book P d' = (book P d).setRecord a (some (d.cfg.fields record)) := by
  have hle := hv.geometry.recordSize_le
  obtain ⟨hv', hspr⟩ := hv.of_accountsStep hst (fun hw s hs' => by
    obtain rfl := Option.some.inj hs'
    have h64 : record.length = 64 := by
      rw [hr, Geometry.recordSize, not_compact_of_wide hw]
      rfl
    rw [sub_splice_after (by omega) (by rw [columnsEnd]; omega)]
    exact htail hw)
  obtain ⟨hacc, hwide, hother⟩ := book_of_accountsStep hv hv' hst hspr
  refine ⟨hv', Book.ext ?_ ?_ hst.evolves.tokens⟩
  · show accountOf P d' = _
    rw [hacc, Option.map_some, fields_splice_record hr (by omega)]
    rfl
  · show holdingOf P d' = holdingOf P d
    by_cases hw : d.cfg.profile = profileWide
    · funext id
      have h64 : record.length = 64 := by
        rw [hr, Geometry.recordSize, not_compact_of_wide hw]
        rfl
      rw [hwide hw id, Option.elim_some, wideValue_splice_record id (by omega) (by omega),
        hold hw id, Function.update_eq_self]
    · exact hother hw

theorem wideValue_zeros (tokens : List Token) {n : ℕ} (h : columnsEnd tokens ≤ n) (id : ℕ) :
    wideValue tokens (zeros n) id = 0 := by
  rw [wideValue]
  cases ht : tokens[id]? with
  | none => rfl
  | some token =>
    have := column_add_width_le ht
    simp only
    rw [sub_zeros (by omega), beNat_zeros]

section

variable (hv : Valid P d)
include hv

theorem book_account_none {a : Address} (h : hv.record a = none) :
    (book P d).accounts a = none := by
  show accountOf P d a = none
  rw [accountOf_eq hv, h]
  rfl

theorem book_account_some {a : Address} {s : Bytes} (h : hv.record a = some s) :
    (book P d).accounts a = some (d.cfg.fields s) := by
  show accountOf P d a = _
  rw [accountOf_eq hv, h]
  rfl

theorem holdingOf_none {a : Address} (h : hv.record a = none) (hw : d.cfg.profile = profileWide)
    (id : ℕ) : holdingOf P d id a = 0 := by
  rw [holdingOf_wide hv hw, h]
  rfl

theorem holdingOf_some {a : Address} {s : Bytes} (h : hv.record a = some s)
    (hw : d.cfg.profile = profileWide) (id : ℕ) :
    holdingOf P d id a = wideValue d.tokens s id := by
  rw [holdingOf_wide hv hw, h]
  rfl

theorem liveCount_run :
    (counter (accountsTable d.cfg).countOff).run d = .ok (book P d).size d := by
  have h1 := hv.geometry.accounts.counter_le
  have h2 := hv.geometry.accounts.inside
  rw [counter_run (by omega), size_eq hv]
  rfl

/-- Inserting an account record: refused by a full table, a step of the table otherwise. -/
theorem insertAccount_run {a : Address} {s : Bytes} (hs : s.length = d.cfg.slotSize)
    (hk : sub s 0 20 = a.val) (h0 : isZero a.val = false) (hn : hv.record a = none) :
    if d.cfg.loadLimit ≤ (book P d).size then
      (do let n ← counter (accountsTable d.cfg).countOff
          if (accountsTable d.cfg).limit ≤ n then throw .tableFull
          else insert P (accountsTable d.cfg) s : DriveM σ Unit).run d = .error .tableFull d
    else ∃ d', (do let n ← counter (accountsTable d.cfg).countOff
                   if (accountsTable d.cfg).limit ≤ n then throw .tableFull
                   else insert P (accountsTable d.cfg) s : DriveM σ Unit).run d = .ok () d' ∧
      (accountsTable d.cfg).Step P d.cfg hv.geometry.accounts.two_le d d' a.val (some s) := by
  rw [bind_ok (liveCount_run hv)]
  have hkey : (accountsTable d.cfg).key s = a.val := hk
  split_ifs with hfull hfull' hfull'
  · rfl
  · exact absurd hfull hfull'
  · exact absurd hfull' hfull
  · obtain ⟨d', hins, hst⟩ := insert_run hv.geometry.accounts hv.accounts hs
      (live_accounts hk h0) (by rw [hkey]; exact hn)
      (by rw [← size_eq hv]; exact not_le.1 hfull)
    exact ⟨d', hins, hkey ▸ hst⟩

theorem setRecord_refines {a : Address} {encoded : Geometry → Except DriveError Bytes}
    {r : Except DriveError (ℕ × ℕ)} (henc : Encodes d.cfg a (encoded d.cfg) r) :
    Refines P d (setRecord P a encoded) ((book P d).setAccount d.cfg a r) := by
  have hf := hv.geometry.accounts
  have hle := hv.geometry.recordSize_le
  cases h0 : isZero a.val with
  | true =>
    unfold Book.setAccount
    rw [setRecord, if_pos h0, if_pos h0]
    rfl
  | false =>
    unfold Book.setAccount
    rw [setRecord, if_neg (by simp [h0]), if_neg (by simp [h0])]
    cases he : encoded d.cfg with
    | error e =>
      rw [he] at henc
      obtain rfl : r = .error e := henc
      show EStateM.run _ d = _
      rw [bind_ok (get_run d), he, bind_error (check_error e d)]
    | ok record =>
      rw [he] at henc
      obtain ⟨hlen, haddr, rfl⟩ := henc
      rcases hv.record_cases a with ⟨hn, hlook⟩ | ⟨i, s, hs, hlook, hi, hsl, hslen, hkey, -⟩
      · -- no record: a full table refuses it, otherwise it is inserted
        have hz : (zeros d.cfg.slotSize).length = d.cfg.slotSize := zeros_length _
        have hrec := splice_record (zeros d.cfg.slotSize) hlen haddr (by omega)
        have hins := insertAccount_run hv (hrec.1.trans hz) hrec.2 h0 hn
        simp only [book_account_none hv hn, true_and]
        split_ifs at hins ⊢ with hfull
        · show EStateM.run _ d = _
          rw [bind_ok (get_run d), he, bind_ok (check_ok record d)]
          simp only [bind_ok hlook]
          exact hins
        · obtain ⟨d', hrun, hst⟩ := hins
          obtain ⟨hv', hbook⟩ := hv.of_recordStep hlen hz hst
            (fun hw => by
              have := hv.registry.columns hw
              rw [sub_zeros (by omega)])
            (fun hw id => by
              rw [wideValue_zeros _ (hv.registry.columns hw), holdingOf_none hv hn hw])
          refine ⟨d', ?_, hv', hbook, hst.evolves.later⟩
          rw [bind_ok (get_run d), he, bind_ok (check_ok record d)]
          simp only [bind_ok hlook]
          exact hrun
      · -- a record: its bytes are overwritten in place
        have hrec := splice_record s hlen haddr (by omega)
        simp only [book_account_some hv hs, reduceCtorEq, false_and, if_false]
        have hnew : (accountsTable d.cfg).key (splice s 0 record) = a.val := hrec.2
        obtain ⟨d', hwr, hst⟩ := update_run hf hv.accounts hi (s := splice s 0 record)
          (hsl.symm ▸ live_accounts hkey h0) (hrec.1.trans hslen) (live_accounts hrec.2 h0)
          (by rw [hnew, hsl]; exact hkey.symm)
        rw [hnew] at hst
        obtain ⟨hv', hbook⟩ := hv.of_recordStep hlen hslen hst
          (fun hw => hv.wideRecord hw a.val s hs) (fun hw id => (holdingOf_some hv hs hw id).symm)
        refine ⟨d', ?_, hv', hbook, hst.evolves.later⟩
        rw [bind_ok (get_run d), he, bind_ok (check_ok record d)]
        simp only [bind_ok hlook]
        exact hwr

end

/-! ### The encoders of the two libraries -/

theorem sub_middle {x y z : Bytes} {lo n : ℕ} (hx : x.length = lo) (hy : y.length = n) :
    sub (x ++ y ++ z) lo n = y := by
  subst hx hy
  rw [sub, List.append_assoc, List.drop_left, List.take_left]

theorem compactRecord_spec {g : Geometry} (hc : g.compact = true) (addr : Address) {n b : Bytes}
    (hn : n.length = 4) (hb : b.length = 8) :
    (compactRecord addr n b).length = g.recordSize ∧
      sub (compactRecord addr n b) 0 20 = addr.val ∧
      g.fields (compactRecord addr n b) = (leNat n, beNat b) := by
  have ha := addr.2
  have h1 : sub (compactRecord addr n b) 0 20 = addr.val := by
    rw [compactRecord, List.append_assoc]
    exact sub_middle (x := []) rfl ha
  have h2 : sub (compactRecord addr n b) 20 4 = n := sub_middle ha hn
  have h3 : sub (compactRecord addr n b) 24 8 = b := by
    rw [compactRecord, ← List.append_nil (addr.val ++ n ++ b)]
    exact sub_middle (by rw [List.length_append]; omega) hb
  refine ⟨?_, h1, ?_⟩
  · rw [compactRecord, List.length_append, List.length_append, Geometry.recordSize, if_pos hc]
    omega
  · rw [Geometry.fields, if_pos hc, h2, h3]

theorem standardRecord_spec {g : Geometry} (hc : g.compact = false) (addr : Address)
    {n b : Bytes} (hn : n.length = 8) (hb : b.length = 32) :
    (standardRecord addr n b).length = g.recordSize ∧
      sub (standardRecord addr n b) 0 20 = addr.val ∧
      g.fields (standardRecord addr n b) = (leNat n, beNat b) := by
  have ha := addr.2
  have hz : (zeros 4).length = 4 := zeros_length 4
  have h1 : sub (standardRecord addr n b) 0 20 = addr.val := by
    rw [standardRecord, List.append_assoc, List.append_assoc]
    exact sub_middle (x := []) rfl ha
  have h2 : sub (standardRecord addr n b) 24 8 = n :=
    sub_middle (by rw [List.length_append]; omega) hn
  have h3 : sub (standardRecord addr n b) 32 32 = b := by
    rw [standardRecord, ← List.append_nil (addr.val ++ zeros 4 ++ n ++ b)]
    exact sub_middle (by rw [List.length_append, List.length_append]; omega) hb
  refine ⟨?_, h1, ?_⟩
  · rw [standardRecord, List.length_append, List.length_append, List.length_append,
      Geometry.recordSize, hc, if_neg Bool.false_ne_true]
    omega
  · rw [Geometry.fields, hc, if_neg Bool.false_ne_true, h2, h3]

/-- A balance that fits its field, read back. -/
theorem beNat_beBytes_toNat {w : ℕ} {v : ℤ} (h : 0 ≤ v ∧ v < 256 ^ w) :
    beNat (beBytes w v.toNat) = v.toNat := by
  refine beNat_beBytes_of_lt ?_
  have h2 : (v.toNat : ℤ) < 256 ^ w := by
    rw [Int.toNat_of_nonneg h.1]
    exact h.2
  exact_mod_cast h2

theorem encodes_compact {g : Geometry} (hc : g.compact = true) (addr : Address) (n : ℕ)
    (nonce balance : ℤ) (hn : nonce ≤ 0xffffffff → n = nonce.toNat) :
    Encodes g addr (if 0xffffffff < nonce then .error .overflow else do
        let b ← putBE 8 balance
        return compactRecord addr (leBytes 4 n) b) (recordOf g nonce balance) := by
  rw [recordOf, putBE, hc, if_pos rfl, if_pos rfl]
  by_cases h1 : 0xffffffff < nonce
  · rw [if_pos h1, if_pos (Or.inl (by omega))]
    rfl
  by_cases h2 : balance < 0 ∨ 256 ^ 8 ≤ balance
  · rw [if_neg h1, if_pos h2, if_pos (Or.inr h2)]
    rfl
  · rw [if_neg h1, if_neg h2, if_neg (by omega)]
    obtain ⟨hl, ha, hf⟩ := compactRecord_spec hc addr (leBytes_length 4 n)
      (beBytes_length 8 balance.toNat)
    refine ⟨hl, ha, ?_⟩
    rw [hf, beNat_beBytes_toNat (by omega), hn (by omega), leNat_leBytes_of_lt (by omega)]

theorem encodes_standard {g : Geometry} (hc : g.compact = false) (addr : Address)
    (nonce balance : ℤ) (h0 : 0 ≤ nonce) (hn : nonce < 2 ^ 64) :
    Encodes g addr (do
        let b ← putBE 32 balance
        return standardRecord addr (leBytes 8 nonce.toNat) b) (recordOf g nonce balance) := by
  rw [recordOf, putBE, hc, if_neg Bool.false_ne_true, if_neg Bool.false_ne_true]
  by_cases h2 : balance < 0 ∨ 256 ^ 32 ≤ balance
  · rw [if_pos h2, if_pos (Or.inr h2)]
    rfl
  · rw [if_neg h2, if_neg (by omega)]
    obtain ⟨hl, ha, hf⟩ := standardRecord_spec hc addr (leBytes_length 8 nonce.toNat)
      (beBytes_length 32 balance.toNat)
    refine ⟨hl, ha, ?_⟩
    rw [hf, beNat_beBytes_toNat (by omega), leNat_leBytes_of_lt (by omega)]

theorem Go.encodeAccount_encodes (g : Geometry) (addr : Address) (nonce : UInt64)
    (balance : Option ℤ) :
    Encodes g addr (Go.encodeAccount g addr nonce balance)
      (recordOf g nonce.toNat (balance.getD 0)) := by
  have hlt := nonce.toNat_lt
  rw [Go.encodeAccount]
  split_ifs with hc h
  · have := encodes_compact hc addr nonce.toNat nonce.toNat (balance.getD 0) (fun _ => rfl)
    rwa [if_pos (by exact_mod_cast h)] at this
  · have := encodes_compact hc addr nonce.toNat nonce.toNat (balance.getD 0) (fun _ => rfl)
    rwa [if_neg (by exact_mod_cast h)] at this
  · exact encodes_standard (by simpa using hc) addr nonce.toNat _ (by omega) (by omega)

theorem Go.setAccount_refines (hv : Valid P d) (a : Address) (nonce : UInt64)
    (balance : Option ℤ) :
    Refines P d (Go.setAccount P a nonce balance)
      ((book P d).setAccount d.cfg a (recordOf d.cfg nonce.toNat (balance.getD 0))) :=
  setRecord_refines hv (Go.encodeAccount_encodes d.cfg a nonce balance)

/-- In TypeScript this needs a nonce in the range of a `uint64`: others are stored modulo
    the width of the field. -/
theorem Ts.encodeAccount_encodes (g : Geometry) (addr : Address) {nonce : ℤ} (balance : ℤ)
    (h0 : 0 ≤ nonce) (hn : nonce < 2 ^ 64) :
    Encodes g addr (Ts.encodeAccount g addr nonce balance) (recordOf g nonce balance) := by
  have hnat : (nonce.natAbs : ℤ) = nonce := Int.natAbs_of_nonneg h0
  rw [Ts.encodeAccount]
  split_ifs with hc h
  · have := encodes_compact hc addr nonce.toNat nonce balance (fun _ => rfl)
    rwa [if_pos h] at this
  · omega
  · have := encodes_compact hc addr ((toNumber nonce.natAbs : ℤ) % 2 ^ 32).toNat nonce balance
      (fun hle => by
        rw [toNumber_eq (by omega), hnat, Int.emod_eq_of_lt h0 (by omega)])
    rwa [if_neg h] at this
  · have := encodes_standard (by simpa using hc) addr nonce balance h0 hn
    rw [Int.emod_eq_of_lt h0 hn]
    exact this

theorem Ts.setAccount_refines (hv : Valid P d) (a : Address) {nonce : ℤ} (balance : ℤ)
    (h0 : 0 ≤ nonce) (hn : nonce < 2 ^ 64) :
    Refines P d (Ts.setAccount P a nonce balance)
      ((book P d).setAccount d.cfg a (recordOf d.cfg nonce balance)) :=
  setRecord_refines hv (Ts.encodeAccount_encodes d.cfg a balance h0 hn)

/-! ## DeleteAccount -/

theorem deleteAccount_refines (hv : Valid P d) (a : Address) (force : Bool) :
    Refines P d (deleteAccount P a force) ((book P d).deleteAccount d.cfg a force) := by
  unfold Book.deleteAccount
  cases h0 : isZero a.val with
  | true =>
    rw [deleteAccount, h0, if_pos rfl]
    rfl
  | false =>
    rw [if_neg Bool.false_ne_true]
    rcases hv.record_cases a with ⟨hn, hlook⟩ | ⟨i, s, hs, hlook, hi, hsl, hslen, hkey, -⟩
    · simp only [book_account_none hv hn]
      refine ⟨d, ?_, hv, rfl, Later.refl d⟩
      rw [deleteAccount, if_neg (by simp [h0]), bind_ok (get_run d)]
      simp only [bind_ok hlook]
      rfl
    · have hdec := decodeAccount_eq P d.cfg
        (hslen ▸ hv.geometry.recordSize_le : d.cfg.recordSize ≤ s.length)
      have hrun : (deleteAccount P a force).run d =
          (if force = false ∧ (d.cfg.fields s).1 ≠ 0 then throw .nonceProtected
            else do
              remove P (accountsTable d.cfg) i
              return true : DriveM σ Bool).run d := by
        rw [deleteAccount, if_neg (by simp [h0]), bind_ok (get_run d)]
        simp only [bind_ok hlook, hdec, bind_ok (check_ok (d.cfg.fields s) d)]
      simp only [book_account_some hv hs]
      split_ifs at hrun ⊢ with hprot hwide
      · exact hrun
      all_goals
        obtain ⟨d', hrem, hst⟩ := remove_run hv.geometry.accounts hv.accounts hi
          (hsl.symm ▸ live_accounts hkey h0)
        have hk : (accountsTable d.cfg).key ((accountsTable d.cfg).slots d.image i) = a.val := by
          rw [hsl]
          exact hkey
        rw [hk] at hst
        rw [bind_ok hrem] at hrun
        obtain ⟨hv', hspr⟩ := hv.of_accountsStep hst (fun _ s' hs' => by cases hs')
        obtain ⟨hacc, hcols, hother⟩ := book_of_accountsStep hv hv' hst hspr
        refine ⟨d', hrun, hv', Book.ext hacc ?_ hst.evolves.tokens, hst.evolves.later⟩
      · -- the columns went with the record
        funext id
        exact hcols hwide id
      · exact hother hwide

/-! ## RegisterToken -/

theorem tokenByAddress_isSome (tokens : List Token) (a : Address) :
    (tokenByAddress tokens a).isSome = true ↔ a ∈ tokens.map Token.address := by
  rw [tokenByAddress, List.findIdx?_isSome, List.any_eq_true]
  simp only [decide_eq_true_eq, List.mem_map]

section

variable (hv : Valid P d)
include hv

/-- The incrementally kept offset of the next column is the end of the last one. -/
theorem Valid.nextColumn :
    nextColumn d.colOff d.tokens = columnsEnd d.tokens := by
  rw [hv.registry.colOff, Drive.nextColumn]
  rcases List.eq_nil_or_concat d.tokens with h | ⟨ts, t, h⟩
  · rw [h]
    rfl
  · have hcol : column d.tokens ts.length = columnsEnd ts := by
      rw [h, List.concat_eq_append, column_append ts t le_rfl, column_length]
    rw [h] at hcol ⊢
    simp only [List.concat_eq_append, List.length_append, List.length_singleton, List.range_succ,
      List.map_append, List.map_cons, List.map_nil, List.getLast?_append, List.getLast?_singleton,
      Option.some_or] at hcol ⊢
    rw [hcol, columnsEnd_append]

/-- A token registered later has no balances yet. -/
theorem holdingOf_register (hv' : Valid P d') (token : Token) (hcfg : d'.cfg = d.cfg)
    (htok : d'.tokens = d.tokens ++ [token])
    (hacc : (accountsTable d.cfg).slots d'.image = (accountsTable d.cfg).slots d.image)
    (hspr : d.cfg.profile = profileSparse → (sparseTable d.cfg).slots d'.image = (sparseTable d.cfg).slots d.image)
    :
    accountOf P d' = accountOf P d ∧ holdingOf P d' = holdingOf P d := by
  obtain ⟨st, cfg, tokens, cols⟩ := d'
  simp only at hcfg htok
  subst hcfg htok
  have hrec : ∀ a, hv'.record a = hv.record a := fun a => Table.find_congr hacc _
  have hle := hv.geometry.profile_le
  refine ⟨?_, ?_⟩
  · funext a
    rw [accountOf_eq hv', accountOf_eq hv, hrec]
  · funext id a
    rcases (by simp only [profileSparse, profileWide, profileSingleAsset] at *; omega :
      d.cfg.profile = profileSingleAsset ∨ d.cfg.profile = profileWide ∨
        d.cfg.profile = profileSparse) with h1 | hw | hp
    · rw [holdingOf_single hv' h1, holdingOf_single hv h1]
    · rw [holdingOf_wide hv' hw, holdingOf_wide hv hw, hrec]
      cases hs : hv.record a with
      | none => rfl
      | some s =>
        simp only [Option.elim_some]
        have htail := hv.wideRecord hw a.val s hs
        have hcols := hv'.registry.columns hw
        simp only [columnsEnd_append] at hcols
        rw [wideValue, wideValue]
        by_cases hid : id < d.tokens.length
        · simp only [List.getElem?_append_left hid, column_append _ _ hid.le]
        · rw [List.getElem?_eq_none (not_lt.1 hid)]
          by_cases hid' : id = d.tokens.length
          · -- the new column lies in the zero tail of the record
            subst hid'
            simp only [List.getElem?_append_right le_rfl, Nat.sub_self, List.getElem?_cons_zero,
              column_append _ _ le_rfl, column_length]
            have h : sub (sub s (columnsEnd d.tokens) (d.cfg.slotSize - columnsEnd d.tokens)) 0
                token.width = sub s (columnsEnd d.tokens + 0) token.width := sub_sub (by omega)
            rw [Nat.add_zero] at h
            rw [← h, htail, sub_zeros (by omega), beNat_zeros]
          · rw [List.getElem?_eq_none]
            rw [List.length_append, List.length_singleton]
            omega
    · have hent : ∀ id, hv'.sparseEntry hp id a = hv.sparseEntry hp id a :=
        fun id => Table.find_congr (hspr hp) _
      rw [holdingOf_sparse hv' hp, holdingOf_sparse hv hp, hent]
      simp only [List.length_append, List.length_singleton]
      by_cases hid : id < d.tokens.length
      · rw [if_pos (by omega), if_pos hid]
      · rw [if_neg hid]
        split_ifs with hid'
        · -- every record is of an older token
          obtain rfl : id = d.tokens.length := by omega
          have htok := hv'.tokens_le
          simp only [List.length_append, List.length_singleton] at htok
          rcases hv.sparse_cases hp d.tokens.length a with
            ⟨hn, -⟩ | ⟨i, s, hs, -, -, -, hlen, hsid, -, -⟩
          · rw [hn]
            rfl
          · have hlt := (hv.sparseRecord hp _ s hs).1
            rw [hsid, leNat_leBytes_of_lt (by norm_num; omega)] at hlt
            omega
        · rfl

/-- The writes of `RegisterToken` past its checks. -/
theorem registerWrites_run (h0 : d.cfg.registryOffset ≠ 0)
    (hroom : d.tokens.length < d.cfg.registryCapacity) (a : Address) (width : ℕ) :
    ∃ d₂, Evolves d d₂ ∧ d₂.image = registerImage d.cfg d.tokens.length ⟨a, width⟩ d.image ∧
      ∀ k : DriveM σ ℕ, (do
        writeAt (P.add d.cfg.registryOffset (P.mul 32 d.tokens.length)) (registryEntry a width)
        setCounter offTokenCount (d.tokens.length + 1)
        k).run d = k.run d₂ := by
  have hin := hv.geometry.registry_inside h0
  have hex := hv.geometry.accounts.exact
  have hhead : offTokenCount + 8 ≤ d.size := by
    have h1 := hv.geometry.accounts.inside
    have h2 := hv.geometry.tableOffset_le
    have h3 : offTokenCount + 8 ≤ headerSize := by decide
    simp only [accountsTable] at h1
    omega
  obtain ⟨d₁, hw, hev₁, himg₁⟩ := writeAt_run d
    (d.cfg.registryOffset + 32 * d.tokens.length) (registryEntry a width)
    (by rw [registryEntry_length]; omega)
  obtain ⟨d₂, hc, hev₂, himg₂⟩ := setCounter_run d₁ offTokenCount
    (d.tokens.length + 1) (by rw [hev₁.size]; exact hhead)
  refine ⟨d₂, hev₁.trans hev₂, by rw [himg₂, himg₁]; rfl, fun k => ?_⟩
  rw [P.mul_eq (by omega), P.add_eq (by omega), bind_ok hw, bind_ok hc]

theorem registerToken_refines (a : Address) (width : ℕ) :
    Refines P d (registerToken P a width) ((book P d).registerToken d.cfg a width) := by
  have htok : (book P d).tokens = d.tokens := rfl
  unfold Book.registerToken
  rw [htok]
  have hdup := tokenByAddress_isSome d.tokens a
  have hrun : (registerToken P a width).run d = (registerToken P a width).run d := rfl
  nth_rewrite 2 [registerToken] at hrun
  rw [bind_ok (get_run d)] at hrun
  simp only [hdup] at hrun
  split_ifs at hrun ⊢ with h0 hwidth hd hfull hcols hnarrow hcomp
  · exact hrun
  · exact hrun
  · exact hrun
  · exact hrun
  · exact hrun
  · exact hrun
  · exact hrun
  · obtain ⟨d₂, hev, himg, hk⟩ := registerWrites_run hv h0 (not_le.1 hfull) a width
    rw [hk, bind_ok (modify_run _ d₂)] at hrun
    rw [hev.colOff, hev.tokens, hv.nextColumn] at hrun
    have hwidth' : width = 8 ∨ width = 16 ∨ width = 32 := by omega
    obtain ⟨hv', hacc, hspr⟩ := hv.of_register
      { d₂ with
        tokens := d.tokens ++ [⟨a, width⟩], colOff := d.colOff ++ [columnsEnd d.tokens] }
      ⟨a, width⟩ h0 hwidth' hd (not_le.1 hfull) (fun hw => not_lt.1 fun h => hcols ⟨hw, h⟩)
      (fun hp hs => not_not.1 fun h => hnarrow ⟨hp, hs, h⟩) hev.cfg hev.size rfl rfl himg
    obtain ⟨hacc', hhold'⟩ := holdingOf_register hv hv' ⟨a, width⟩ hev.cfg rfl hacc hspr
    exact ⟨_, hrun, hv', Book.ext hacc' hhold' rfl, hev.cfg, hev.size, hev.store⟩

end

end

end OpCartesi.Drive
