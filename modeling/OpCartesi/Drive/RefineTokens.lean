import OpCartesi.Drive.Refine

/-!
# The drive refines the book: token balances

`SetTokenBalance` keeps a token balance in a column of the account record (wide
profile) or in a record of its own table (sparse profile):

* `setWideBalance_refines`, `setSparseBalance_refines`: the two branches.
* `setTokenBalance_refines`: the operation.
-/

namespace OpCartesi.Drive

open Exec

variable {σ : Type} [Store σ] [LawfulStore σ] {P : Platform} {d d' : Drive σ} {a : Address}
  {token : Token} {id : ℕ} {value : ℤ}

/-! ## SetTokenBalance in the wide profile -/

/-- A step that writes one column of a wide record. -/
theorem Valid.of_columnStep (hv : Valid P d) (hw : d.cfg.profile = profileWide)
    {slot : Bytes} (hs : slot.length = d.cfg.slotSize) {id v : ℕ}
    (ht : d.tokens[id]? = some token) (hval : v < 256 ^ token.width)
    (hst : (accountsTable d.cfg).Step P d.cfg hv.geometry.accounts.two_le d d' a.val
      (some (splice slot (column d.tokens id) (beBytes token.width v))))
    (htail : sub slot (columnsEnd d.tokens) (d.cfg.slotSize - columnsEnd d.tokens) =
      zeros (d.cfg.slotSize - columnsEnd d.tokens))
    (hold : ∀ id, wideValue d.tokens slot id = holdingOf P d id a) :
    Valid P d' ∧
      book P d' = ((book P d).setRecord a (some (d.cfg.fields slot))).setHolding id a v := by
  have hend := column_add_width_le ht
  have hcols := hv.registry.columns hw
  have hfit : column d.tokens id + (beBytes token.width v).length ≤ slot.length := by
    rw [beBytes_length]
    omega
  obtain ⟨hv', hspr⟩ := hv.of_accountsStep hst (fun _ s hs' => by
    obtain rfl := Option.some.inj hs'
    rw [sub_splice_after hfit (by rw [beBytes_length]; exact hend)]
    exact htail)
  obtain ⟨hacc, hwide, -⟩ := book_of_accountsStep hv hv' hst hspr
  refine ⟨hv', Book.ext ?_ ?_ hst.evolves.tokens⟩
  · show accountOf P d' = _
    rw [hacc, Option.map_some,
      fields_splice_column (not_compact_of_wide hw) (le_column _ _) hfit]
    rfl
  · funext id' a'
    show holdingOf P d' id' a' = Function.update (holdingOf P d) id _ id' a'
    rw [hwide hw id', Option.elim_some, wideValue_splice_column ht (by omega) hval]
    by_cases hid : id' = id
    · subst hid
      rw [if_pos rfl, Function.update_self]
      rfl
    · rw [if_neg hid, Function.update_of_ne hid, hold id', Function.update_eq_self]

/-- The record `SetTokenBalance` creates for an address without one. -/
theorem newAccount_spec {n : ℕ} (h : 64 ≤ n) {g : Geometry} (hc : g.compact = false) :
    (splice (zeros n) 0 a.val).length = n ∧ sub (splice (zeros n) 0 a.val) 0 20 = a.val ∧
      g.fields (splice (zeros n) 0 a.val) = (0, 0) ∧
      ∀ lo k, 20 ≤ lo → lo + k ≤ n → sub (splice (zeros n) 0 a.val) lo k = zeros k := by
  have ha := a.2
  have hz : (zeros n).length = n := zeros_length n
  have hrest : ∀ lo k, 20 ≤ lo → lo + k ≤ n →
      sub (splice (zeros n) 0 a.val) lo k = zeros k := by
    intro lo k h1 h2
    rw [sub_splice_after (by omega) (by omega), sub_zeros h2]
  refine ⟨(splice_length (by omega)).trans hz, ?_, ?_, hrest⟩
  · have : sub (splice (zeros n) 0 a.val) 0 a.val.length = a.val := sub_splice_self (by omega)
    rwa [ha] at this
  · rw [Geometry.fields, hc]
    simp only [Bool.false_eq_true, if_false]
    rw [hrest _ _ (by omega) (by omega), hrest _ _ (by omega) (by omega), leNat_zeros, beNat_zeros]

theorem setWideBalance_refines (hv : Valid P d) (hw : d.cfg.profile = profileWide)
    (h0 : isZero a.val = false) (ht : d.tokens[id]? = some token)
    (hval : value.toNat < 256 ^ token.width) :
    Refines P d (setWideBalance P a (column d.tokens id) token.width value)
      ((book P d).setWide d.cfg a id value) := by
  have hend := column_add_width_le ht
  have hcols := hv.registry.columns hw
  have hcol := le_column d.tokens id
  have hss := hv.geometry.wide hw
  rw [Book.setWide]
  rcases hv.record_cases a with ⟨hn, hlook⟩ | ⟨i, s, hs, hlook, hi, hsl, hslen, hkey, -⟩
  · obtain ⟨hlen, haddr, hfields, hrest⟩ :=
      newAccount_spec (a := a) (by omega : 64 ≤ d.cfg.slotSize) (not_compact_of_wide hw)
    have hfit : column d.tokens id + (beBytes token.width value.toNat).length ≤
        (splice (zeros d.cfg.slotSize) 0 a.val).length := by
      rw [beBytes_length, hlen]
      omega
    have hins := insertAccount_run hv ((splice_length hfit).trans hlen)
      (by rw [sub_splice_before hfit (by omega)]; exact haddr) h0 hn
    have hrun : (setWideBalance P a (column d.tokens id) token.width value).run d =
        (if value = 0 then return () else do
          let n ← counter (accountsTable d.cfg).countOff
          if (accountsTable d.cfg).limit ≤ n then throw .tableFull
          else insert P (accountsTable d.cfg) (splice (splice (zeros d.cfg.slotSize) 0 a.val)
            (column d.tokens id) (beBytes token.width value.toNat)) : DriveM σ Unit).run d := by
      rw [setWideBalance, bind_ok (get_run d)]
      simp only [bind_ok hlook]
      rfl
    rw [if_pos (book_account_none hv hn)]
    split_ifs at hrun hins ⊢ with hz hfull
    · exact ⟨d, hrun, hv, rfl, Later.refl d⟩
    · exact ⟨d, hrun, hv, rfl, Later.refl d⟩
    · exact hrun.trans hins
    · obtain ⟨d', hrun', hst⟩ := hins
      obtain ⟨hv', hbook⟩ := hv.of_columnStep hw hlen ht hval hst
        (hrest _ _ (by rw [columnsEnd]; omega) (by omega))
        (fun id' => by
          rw [holdingOf_none hv hn hw, wideValue]
          cases ht' : d.tokens[id']? with
          | none => rfl
          | some token' =>
            have h1 := column_add_width_le ht'
            have h2 := le_column d.tokens id'
            simp only
            rw [hrest _ _ (by omega) (by omega), beNat_zeros])
      exact ⟨d', hrun.trans hrun', hv', by rw [hbook, hfields], hst.evolves.later⟩
  · have hfit : column d.tokens id + (beBytes token.width value.toNat).length ≤ s.length := by
      rw [beBytes_length]
      omega
    have hkey' : sub (splice s (column d.tokens id) (beBytes token.width value.toNat)) 0 20 =
        a.val := by
      rw [sub_splice_before hfit (by omega)]
      exact hkey
    obtain ⟨d', hwr, hst⟩ := update_run hv.geometry.accounts hv.accounts hi
      (hsl.symm ▸ live_accounts hkey h0) ((splice_length hfit).trans hslen)
      (live_accounts hkey' h0) (by rw [hsl]; exact hkey'.trans hkey.symm)
    have hk : (accountsTable d.cfg).key
        (splice s (column d.tokens id) (beBytes token.width value.toNat)) = a.val := hkey'
    rw [hk] at hst
    obtain ⟨hv', hbook⟩ := hv.of_columnStep hw hslen ht hval hst
      (hv.wideRecord hw a.val s hs) (fun id' => (holdingOf_some hv hs hw id').symm)
    rw [if_neg (by rw [book_account_some hv hs]; simp)]
    refine ⟨d', ?_, hv', ?_, hst.evolves.later⟩
    · rw [setWideBalance, bind_ok (get_run d)]
      simp only [bind_ok hlook]
      exact hwr
    · rw [hbook]
      congr 1
      rw [Book.setRecord, ← book_account_some hv hs, Function.update_eq_self]

/-! ## SetTokenBalance in the sparse profile -/

theorem live_sparse {g : Geometry} {h2 : 2 ≤ (sparseTable g).capacity} {s : Bytes}
    (hk : sub s 4 20 = a.val) (h0 : isZero a.val = false) :
    ((sparseTable g).layout P g h2).live s = true := by
  show (!isZero (sub s 4 20)) = true
  rw [hk, h0]
  rfl

/-- A sparse slot with a new balance. -/
theorem putSparse_spec (hv : Valid P d) (hp : d.cfg.profile = profileSparse) {slot : Bytes}
    (hs : slot.length = d.cfg.sparseSlotSize) (ht : d.tokens[id]? = some token)
    (hid : sub slot 0 2 = leBytes 2 id) (ha : sub slot 4 20 = a.val)
    (hval : 0 ≤ value ∧ value < 256 ^ token.width) :
    ∃ s, putSparseBalance d.cfg slot value = .ok s ∧ s.length = d.cfg.sparseSlotSize ∧
      sub s 4 20 = a.val ∧ (sparseTable d.cfg).key s = sparseKey id a ∧
      leNat (sub s 0 2) < d.tokens.length ∧ d.cfg.sparseValue s = value.toNat := by
  have hoff : 24 ≤ d.cfg.sparseBalance.1 := by
    rw [Geometry.sparseBalance]
    split_ifs <;> simp
  have hle := hv.sparseBalance_le hp
  have hwidth : token.width ≤ d.cfg.sparseBalance.2 := by
    have hmem := List.mem_of_getElem? ht
    rcases hv.geometry.sparseSlotSize hp with h | h
    · have := hv.registry.widths token hmem
      simp only [Geometry.sparseBalance, h]
      norm_num
      omega
    · rw [hv.registry.narrow hp h token hmem]
      simp [Geometry.sparseBalance, h]
  have hfits : value < 256 ^ d.cfg.sparseBalance.2 :=
    lt_of_lt_of_le hval.2 (pow_le_pow_right₀ (by norm_num) hwidth)
  have hlen : d.cfg.sparseBalance.1 + (beBytes d.cfg.sparseBalance.2 value.toNat).length ≤
      slot.length := by
    rw [beBytes_length, hs]
    exact hle
  have hput : putSparseBalance d.cfg slot value =
      .ok (splice slot d.cfg.sparseBalance.1 (beBytes d.cfg.sparseBalance.2 value.toNat)) := by
    rw [putSparseBalance, putBE, if_neg (by omega)]
    rfl
  have hid' : sub (splice slot d.cfg.sparseBalance.1
      (beBytes d.cfg.sparseBalance.2 value.toNat)) 0 2 = leBytes 2 id := by
    rw [sub_splice_before hlen (by omega), hid]
  have ha' : sub (splice slot d.cfg.sparseBalance.1
      (beBytes d.cfg.sparseBalance.2 value.toNat)) 4 20 = a.val := by
    rw [sub_splice_before hlen (by omega), ha]
  obtain ⟨hlt, -⟩ := List.getElem?_eq_some_iff.1 ht
  have htok := hv.tokens_le
  refine ⟨_, hput, (splice_length hlen).trans hs, ha', ?_, ?_, ?_⟩
  · show sub _ 0 2 ++ sub _ 4 20 = _
    rw [hid', ha', sparseKey]
  · rw [hid', leNat_leBytes_of_lt (by norm_num; omega)]
    exact hlt
  · have hself := sub_splice_self hlen
    rw [beBytes_length] at hself
    rw [Geometry.sparseValue, hself, beNat_beBytes_of_lt]
    have h2 : (value.toNat : ℤ) < 256 ^ d.cfg.sparseBalance.2 := by
      rw [Int.toNat_of_nonneg hval.1]
      exact hfits
    exact_mod_cast h2

theorem sparseLiveCount_run (hv : Valid P d) (hp : d.cfg.profile = profileSparse) :
    (counter (sparseTable d.cfg).countOff).run d = .ok (book P d).holders d := by
  have h1 := (hv.geometry.sparse hp).counter_le
  have h2 := (hv.geometry.sparse hp).inside
  rw [counter_run (by omega), holders_eq hv hp]
  rfl

/-- The empty sparse record of a token and an address. -/
theorem newSparse_spec (a : Address) (id : ℕ) {n : ℕ} (h : 24 ≤ n) :
    (splice (splice (zeros n) 0 (leBytes 2 id)) 4 a.val).length = n ∧
      sub (splice (splice (zeros n) 0 (leBytes 2 id)) 4 a.val) 0 2 = leBytes 2 id ∧
      sub (splice (splice (zeros n) 0 (leBytes 2 id)) 4 a.val) 4 20 = a.val := by
  have ha := a.2
  have hz : (zeros n).length = n := zeros_length n
  have h2 : (leBytes 2 id).length = 2 := leBytes_length 2 id
  have h1 : (splice (zeros n) 0 (leBytes 2 id)).length = n :=
    (splice_length (by omega)).trans hz
  have hfit : 4 + a.val.length ≤ (splice (zeros n) 0 (leBytes 2 id)).length := by omega
  refine ⟨(splice_length hfit).trans h1, ?_, ?_⟩
  · rw [sub_splice_before hfit (by omega)]
    have : sub (splice (zeros n) 0 (leBytes 2 id)) 0 (leBytes 2 id).length = leBytes 2 id :=
      sub_splice_self (by omega)
    rwa [h2] at this
  · have := sub_splice_self hfit
    rwa [ha] at this

theorem setHolding_self (b : Book) (id : ℕ) (a : Address) :
    b.setHolding id a (b.holdings id a) = b := by
  rw [Book.setHolding, Function.update_eq_self, Function.update_eq_self]

theorem book_holding_sparse (hv : Valid P d) (hp : d.cfg.profile = profileSparse)
    (hid : id < d.tokens.length) (a : Address) :
    (book P d).holdings id a = (hv.sparseEntry hp id a).elim 0 d.cfg.sparseValue := by
  show holdingOf P d id a = _
  rw [holdingOf_sparse hv hp, if_pos hid]

theorem setSparseBalance_refines (hv : Valid P d) (hp : d.cfg.profile = profileSparse)
    (h0 : isZero a.val = false) (ht : d.tokens[id]? = some token)
    (hval : 0 ≤ value ∧ value < 256 ^ token.width) :
    Refines P d (setSparseBalance P a id value) ((book P d).setSparse d.cfg a id value) := by
  have hf := hv.geometry.sparse hp
  obtain ⟨hid, -⟩ := List.getElem?_eq_some_iff.1 ht
  have hbook := book_holding_sparse hv hp hid a
  rw [Book.setSparse]
  rcases hv.sparse_cases hp id a with
    ⟨hn, hlook⟩ | ⟨i, s, hs, hlook, hi, hsl, hslen, hsid, hsa, -⟩
  · rw [hn, Option.elim_none] at hbook
    by_cases hz : value = 0
    · -- nothing there and nothing to write
      rw [if_neg (by simp [hz])]
      refine ⟨d, ?_, hv, ?_, Later.refl d⟩
      · rw [setSparseBalance, bind_ok (get_run d)]
        simp only [bind_ok hlook, if_pos hz]
        rfl
      · rw [hz, Int.toNat_zero, ← hbook, setHolding_self]
    · have hslot : 24 ≤ d.cfg.sparseSlotSize := hf.slot
      obtain ⟨hlen, hnid, hna⟩ := newSparse_spec a id hslot
      obtain ⟨new, hput, hnlen, hnewa, hnkey, hnid', hnval⟩ :=
        putSparse_spec hv hp hlen ht hnid hna hval
      have hrun : (setSparseBalance P a id value).run d =
          (if d.cfg.sparseLoadLimit ≤ (book P d).holders then throw .tableFull
            else insert P (sparseTable d.cfg) new : DriveM σ Unit).run d := by
        rw [setSparseBalance, bind_ok (get_run d)]
        simp only [bind_ok hlook, if_neg hz, bind_ok (sparseLiveCount_run hv hp)]
        rw [show (sparseTable d.cfg).slotSize = d.cfg.sparseSlotSize from rfl,
          show (sparseTable d.cfg).limit = d.cfg.sparseLoadLimit from rfl, hput]
        split_ifs
        · rfl
        · rw [bind_ok (check_ok new d)]
      simp only [hbook, hz, ne_eq, not_false_eq_true, true_and]
      split_ifs at hrun ⊢ with hfull
      · exact hrun
      · obtain ⟨d', hins, hst⟩ := insert_run hf (hv.sparse hp) hnlen (live_sparse hnewa h0)
          (by rw [hnkey]; exact hn) (by rw [← holders_eq hv hp]; exact not_le.1 hfull)
        rw [hnkey] at hst
        obtain ⟨hv', hacc⟩ := hv.of_sparseStep hp hst (fun s' hs' => by
          obtain rfl := Option.some.inj hs'
          exact ⟨hnid', by rw [hnval]; omega⟩)
        refine ⟨d', hrun.trans hins, hv', ?_, hst.evolves.later⟩
        rw [book_of_sparseStep hv hv' hp hid hst hacc, Option.elim_some, hnval]
  · rw [hs, Option.elim_some] at hbook
    have hnz : (book P d).holdings id a ≠ 0 := by
      rw [hbook]
      exact (hv.sparseRecord hp _ s hs).2
    have hold : (sparseTable d.cfg).key s = sparseKey id a := by
      show sub s 0 2 ++ sub s 4 20 = _
      rw [hsid, hsa, sparseKey]
    have hlive : ((sparseTable d.cfg).layout P d.cfg hf.two_le).live
        ((sparseTable d.cfg).slots d.image i) = true := hsl.symm ▸ live_sparse hsa h0
    rw [if_neg (by simp [hnz])]
    by_cases hz : value = 0
    · -- a balance that reaches zero removes its record
      obtain ⟨d', hrem, hst⟩ := remove_run hf (hv.sparse hp) hi hlive
      rw [hsl, hold] at hst
      obtain ⟨hv', hacc⟩ := hv.of_sparseStep hp hst (fun s' hs' => by cases hs')
      refine ⟨d', ?_, hv', ?_, hst.evolves.later⟩
      · rw [setSparseBalance, bind_ok (get_run d)]
        simp only [bind_ok hlook, if_pos hz]
        exact hrem
      · rw [book_of_sparseStep hv hv' hp hid hst hacc, hz]
        rfl
    · obtain ⟨new, hput, hnlen, hnewa, hnkey, hnid', hnval⟩ :=
        putSparse_spec hv hp hslen ht hsid hsa hval
      obtain ⟨d', hwr, hst⟩ := update_run hf (hv.sparse hp) hi hlive hnlen
        (live_sparse hnewa h0) (by rw [hnkey, hsl, hold])
      rw [hnkey] at hst
      obtain ⟨hv', hacc⟩ := hv.of_sparseStep hp hst (fun s' hs' => by
        obtain rfl := Option.some.inj hs'
        exact ⟨hnid', by rw [hnval]; omega⟩)
      refine ⟨d', ?_, hv', ?_, hst.evolves.later⟩
      · rw [setSparseBalance, bind_ok (get_run d)]
        simp only [bind_ok hlook, if_neg hz, hput, bind_ok (check_ok new d)]
        exact hwr
      · rw [book_of_sparseStep hv hv' hp hid hst hacc, Option.elim_some, hnval]

/-! ## SetTokenBalance -/

theorem setTokenBalance_refines (hv : Valid P d) (a : Address) (id : ℕ) (value : ℤ) :
    Refines P d (setTokenBalance P a id value) ((book P d).setTokenBalance d.cfg a id value) := by
  unfold Book.setTokenBalance
  cases h0 : isZero a.val with
  | true =>
    rw [setTokenBalance, h0, if_pos rfl]
    rfl
  | false =>
    rw [if_neg Bool.false_ne_true, show (book P d).tokens = d.tokens from rfl]
    cases ht : d.tokens[id]? with
    | none =>
      show EStateM.run _ d = _
      rw [setTokenBalance, if_neg (by simp [h0]), bind_ok (get_run d), ht]
      rfl
    | some token =>
      obtain ⟨hid, -⟩ := List.getElem?_eq_some_iff.1 ht
      have hrun : (setTokenBalance P a id value).run d =
          (if value < 0 ∨ 256 ^ token.width ≤ value then throw .overflow
            else if d.cfg.profile = profileWide then
              setWideBalance P a (column d.tokens id) token.width value
            else if d.cfg.profile = profileSparse then setSparseBalance P a id value
            else throw .profile : DriveM σ Unit).run d := by
        rw [setTokenBalance, if_neg (by simp [h0]), bind_ok (get_run d), ht]
        simp only [hv.colOff_getD hid]
      refine Refines.congr hrun ?_
      simp only
      split_ifs with hover hw hp
      · rfl
      · refine setWideBalance_refines hv hw h0 ht ?_
        have h2 : (value.toNat : ℤ) < 256 ^ token.width := by
          rw [Int.toNat_of_nonneg (by omega)]
          omega
        exact_mod_cast h2
      · exact setSparseBalance_refines hv hp h0 ht ⟨by omega, by omega⟩
      · rfl

end OpCartesi.Drive
