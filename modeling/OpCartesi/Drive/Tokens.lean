import OpCartesi.Drive.Geometry

/-!
# Token columns and the token registry

What a run of write operations keeps about the registered tokens:

* `WideLayout`, `Separate`: in the wide profile the columns of the tokens lie side by side
  in the slot behind the account record, what is behind the last column is zero, and no
  operation reaches a column or a field that is not its own.
* `Go.wide_columns_separate`: every drive a run reaches has both properties.
* `Go.registry_coherent`: the registry bytes hold the tokens the run has registered, in order
  and under the ids it returned, and the cache is what `ReloadRegistry` reads from them.

Both need a table that does not wrap around the address space. `Go.wrappedWide` is a
configuration that `Format` accepts and whose second slot is the registry.
-/

namespace OpCartesi.Drive

open Exec

/-! ## Columns -/

section

variable {σ : Type} [Store σ] [LawfulStore σ]

/-- The columns lie side by side in `[64, slotSize)`, and the rest of every slot is zero. -/
structure WideLayout (d : Drive σ) : Prop where
  length : d.colOff.length = d.tokens.length
  inside : ∀ (id : ℕ) (t : Token) off, d.tokens[id]? = some t → d.colOff[id]? = some off →
    64 ≤ off ∧ off + t.width ≤ d.cfg.slotSize
  apart : ∀ (i j : ℕ) (t : Token) off off', i < j → d.tokens[i]? = some t → d.colOff[i]? = some off →
    d.colOff[j]? = some off' → off + t.width ≤ off'
  tail : ∀ i < d.cfg.capacity, ∀ k, columnsEnd d.tokens ≤ k → k < d.cfg.slotSize →
    d.image (d.cfg.tableOffset + d.cfg.slotSize * i + k) = 0

omit [LawfulStore σ] in
/-- What an operation does not touch reads as before, whether it succeeds or fails. -/
structure Separate (P : Platform) (d : Drive σ) : Prop where
  /-- `SetAccount` changes no token balance. -/
  setAccount : ∀ a nonce balance x id,
    answer ((getTokenBalance P x id).run (endState ((Go.setAccount P a nonce balance).run d))) =
      answer ((getTokenBalance P x id).run d)
  /-- `SetTokenBalance` changes no other token balance, -/
  setTokenBalance : ∀ a (id : UInt16) value x j, (j, x) ≠ (id.toNat, a) →
    answer ((getTokenBalance P x j).run
        (endState ((Drive.setTokenBalance P a id.toNat value).run d))) =
      answer ((getTokenBalance P x j).run d)
  /-- and no account, except that it may create an empty one. -/
  setTokenBalance_account : ∀ a (id : UInt16) value x,
    accountOf P (endState ((Drive.setTokenBalance P a id.toNat value).run d)) x =
        accountOf P d x ∨
      accountOf P d x = none ∧
        accountOf P (endState ((Drive.setTokenBalance P a id.toNat value).run d)) x = some (0, 0)
  /-- `RegisterToken` changes no account and no balance of the tokens there are, -/
  registerToken : ∀ a width x,
    answer ((getAccount P x).run (endState ((Go.registerToken P a width).run d))) =
        answer ((getAccount P x).run d) ∧
      ∀ j < d.tokens.length,
        answer ((getTokenBalance P x j).run (endState ((Go.registerToken P a width).run d))) =
          answer ((getTokenBalance P x j).run d)
  /-- and the token it registers has the balance zero everywhere. -/
  registerToken_zero : ∀ a width id d', (Go.registerToken P a width).run d = .ok id d' →
    ∀ x, isZero x.val = false → (getTokenBalance P x id).run d' = .ok 0 d'

variable {P : Platform} {d : Drive σ}

/-- A byte of a slot. -/
theorem Table.image_slot {t : Table} {img : Image} {i k : ℕ} (hi : i < t.capacity)
    (hk : k < t.slotSize) : (t.slots img i)[k]? = some (img (t.base + t.slotSize * i + k)) := by
  rw [Table.slots, if_pos hi, slice, List.getElem?_ofFn, dif_pos hk]

theorem Valid.wideLayout (hv : Valid P d) (hw : d.cfg.profile = profileWide) : WideLayout d := by
  have hoff : ∀ {id off}, d.colOff[id]? = some off → off = column d.tokens id := by
    intro id off h
    rw [hv.registry.colOff] at h
    obtain ⟨hid, h⟩ := List.getElem?_eq_some_iff.1 h
    rw [← h, List.getElem_map, List.getElem_range]
  have hcols := hv.registry.columns hw
  refine ⟨?_, fun id t off ht ho => ?_, fun i j t off off' hij ht ho ho' => ?_,
    fun i hi k hk hks => ?_⟩
  · rw [hv.registry.colOff, List.length_map, List.length_range]
  · rw [hoff ho]
    exact ⟨le_column _ _, (column_add_width_le ht).trans hcols⟩
  · rw [hoff ho, hoff ho', ← column_succ ht]
    exact column_mono _ hij
  · have hbyte : ((accountsTable d.cfg).slots d.image i)[k]? = some (d.image
        ((accountsTable d.cfg).base + (accountsTable d.cfg).slotSize * i + k)) :=
      Table.image_slot hi hks
    have hzero : ((accountsTable d.cfg).slots d.image i)[k]? = some 0 := by
      cases hl : ((accountsTable d.cfg).layout P d.cfg hv.geometry.accounts.two_le).live
          ((accountsTable d.cfg).slots d.image i) with
      | false =>
        rw [hv.accounts.good.blank i hi hl]
        exact List.getElem?_replicate_of_lt hks
      | true =>
        have htail := hv.wideRecord hw _ _ (hv.accounts.good.find_eq_some_iff.2
          ⟨RobinHood.Layout.mem_contents_of_live hi hl, rfl⟩)
        have h := congrArg (fun bs : Bytes => bs[k - columnsEnd d.tokens]?) htail
        simp only [sub, zeros] at h
        rw [List.getElem?_take_of_lt (by omega), List.getElem?_drop,
          Nat.add_sub_cancel' hk] at h
        rw [h]
        exact List.getElem?_replicate_of_lt (by omega)
    exact Option.some.inj (hbyte.symm.trans hzero)

omit [Store σ] [LawfulStore σ] in
theorem answer_returns {α : Type} (r : Except DriveError α) : answer (returns d r) = r := by
  cases r <;> rfl

/-- The drive after an operation, whether it succeeded or failed. -/
theorem Refines.endState {α : Type} {x : DriveM σ α} {spec : Except DriveError (α × Book)}
    (h : Refines P d x spec) (hv : Valid P d) :
    Valid P (endState (x.run d)) ∧ (Exec.endState (x.run d)).cfg = d.cfg ∧
      (book P (Exec.endState (x.run d)) = book P d ∨
        ∃ r, spec = .ok (r, book P (Exec.endState (x.run d)))) := by
  cases spec with
  | error e =>
    rw [show x.run d = .error e d from h]
    exact ⟨hv, rfl, Or.inl rfl⟩
  | ok r =>
    obtain ⟨d', hrun, hv', hb, hl⟩ := h
    rw [hrun]
    exact ⟨hv', hl.cfg, Or.inr ⟨r.1, by rw [endState_ok, hb]⟩⟩

omit [LawfulStore σ] in
/-- A token that is not registered has no balances. -/
theorem holdingOf_unknown {id : ℕ} (h : d.tokens.length ≤ id) (a : Address) :
    holdingOf P d id a = 0 := by
  rw [holdingOf]
  cases h0 : isZero a.val with
  | true => rw [getTokenBalance_zero h0]
  | false => rw [getTokenBalance_unknown h0 (List.getElem?_eq_none h)]

theorem Valid.separate (hv : Valid P d) (hw : d.cfg.profile = profileWide) : Separate P d := by
  constructor
  · intro a nonce balance x id
    obtain ⟨hv', hcfg, hb⟩ := (Go.setAccount_refines hv a nonce balance).endState hv
    rw [getTokenBalance_refines hv', getTokenBalance_refines hv, answer_returns, answer_returns, hcfg]
    rcases hb with hb | ⟨r, hr⟩
    · rw [hb]
    · obtain ⟨-, r', -, -, hb⟩ := Book.setAccount_ok_iff.1 hr
      rw [hb]
      rfl
  · intro a id value x j hne
    obtain ⟨hv', hcfg, hb⟩ := (setTokenBalance_refines hv a id.toNat value).endState hv
    rw [getTokenBalance_refines hv', getTokenBalance_refines hv, answer_returns, answer_returns, hcfg]
    rcases hb with hb | ⟨r, hr⟩
    · rw [hb]
    · obtain ⟨htok, hheld, -⟩ := Book.setTokenBalance_frame hr
      rw [Book.getTokenBalance, Book.getTokenBalance, htok, hheld j x hne]
  · intro a id value x
    obtain ⟨hv', hcfg, hb⟩ := (setTokenBalance_refines hv a id.toNat value).endState hv
    rcases hb with hb | ⟨r, hr⟩
    · exact Or.inl (congrFun (congrArg Book.accounts hb) x)
    · exact (Book.setTokenBalance_frame hr).2.2 x
  · intro a width x
    obtain ⟨hv', hcfg, hb⟩ := (Go.registerToken_refines hv a width).endState hv
    rw [getAccount_refines hv', getAccount_refines hv, answer_returns, answer_returns]
    rcases hb with hb | ⟨r, hr⟩
    · rw [hb]
      refine ⟨rfl, fun j hj => ?_⟩
      rw [getTokenBalance_refines hv', getTokenBalance_refines hv, answer_returns, answer_returns,
        hcfg, hb]
    · obtain ⟨hid, hb⟩ := Book.registerToken_ok hr
      rw [hb]
      refine ⟨rfl, fun j hj => ?_⟩
      rw [getTokenBalance_refines hv', getTokenBalance_refines hv, answer_returns, answer_returns,
        hcfg, hb, Book.getTokenBalance, Book.getTokenBalance]
      simp only [List.length_append, List.length_singleton]
      have hj : j < (book P d).tokens.length := hj
      rw [if_neg (by omega : ¬(book P d).tokens.length + 1 ≤ j), if_neg (not_le.2 hj)]
  · intro a width id d' hrun x hx
    obtain ⟨hv', hcfg, hb⟩ := (Go.registerToken_refines hv a width).endState hv
    have href := Go.registerToken_refines hv a width
    rw [hrun, endState_ok] at hv' hcfg
    cases hs : (book P d).registerToken d.cfg a width.toNat with
    | error e =>
      rw [hs] at href
      rw [show (Go.registerToken P a width).run d = .error e d from href] at hrun
      cases hrun
    | ok r =>
      rw [hs] at href
      obtain ⟨d₁, hrun₁, -, hb₁, -⟩ := href
      rw [hrun] at hrun₁
      cases hrun₁
      obtain ⟨hid, hb'⟩ := Book.registerToken_ok hs
      rw [getTokenBalance_refines hv', hcfg, hb₁, Book.getTokenBalance, hb', hid, hx]
      have hzero : (book P d).holdings (book P d).tokens.length x = 0 :=
        holdingOf_unknown le_rfl x
      simp only [List.length_append, List.length_singleton, Bool.false_eq_true, if_false, hw,
        hzero]
      rw [if_neg (by omega), if_neg (by decide)]
      rfl

end

/-! ## The registry along a run -/

namespace Go

/-- The token a call asks for. -/
def Op.token : Op → List Token
  | .registerToken addr width => [⟨addr, width.toNat⟩]
  | _ => []

/-- The id an answer carries. -/
def Answer.ids : Answer → List ℕ
  | .registered id => [id]
  | _ => []

/-- The tokens whose registration succeeded, in the order of the calls. -/
def registered : List Op → List (Except DriveError Answer) → List Token
  | op :: ops, .ok _ :: answers => op.token ++ registered ops answers
  | _ :: ops, .error _ :: answers => registered ops answers
  | _, _ => []

/-- The ids the calls have returned, in their order. -/
def returnedIds : List (Except DriveError Answer) → List ℕ
  | [] => []
  | .ok a :: answers => Answer.ids a ++ returnedIds answers
  | .error _ :: answers => returnedIds answers

/-- One call appends the token it registers and answers with its index. -/
theorem Op.spec_tokens {g : Geometry} {b b' : Book} {op : Op} {a : Answer}
    (h : op.spec g b = .ok (a, b')) :
    b'.tokens = b.tokens ++ op.token ∧
      Answer.ids a = List.range' b.tokens.length op.token.length := by
  cases op with
  | setAccount addr nonce balance =>
    obtain ⟨⟨u, b₁⟩, hr, he⟩ := except_map_eq_ok.1 h
    cases he
    obtain ⟨-, r', -, -, rfl⟩ := Book.setAccount_ok_iff.1 hr
    exact ⟨(List.append_nil _).symm, rfl⟩
  | deleteAccount addr force =>
    obtain ⟨⟨u, b₁⟩, hr, he⟩ := except_map_eq_ok.1 h
    cases he
    have htok : b₁.tokens = b.tokens := by
      unfold Book.deleteAccount at hr
      cases h0 : isZero addr.val with
      | true => simp [h0] at hr
      | false =>
        rw [h0, if_neg Bool.false_ne_true] at hr
        split at hr
        · cases hr
          rfl
        · split_ifs at hr <;> cases hr <;> rfl
    exact ⟨htok.trans (List.append_nil _).symm, rfl⟩
  | registerToken addr width =>
    obtain ⟨⟨u, b₁⟩, hr, he⟩ := except_map_eq_ok.1 h
    cases he
    obtain ⟨rfl, rfl⟩ := Book.registerToken_ok hr
    exact ⟨rfl, rfl⟩
  | setTokenBalance addr id value =>
    obtain ⟨⟨u, b₁⟩, hr, he⟩ := except_map_eq_ok.1 h
    cases he
    exact ⟨(Book.setTokenBalance_frame hr).1.trans (List.append_nil _).symm, rfl⟩

/-- A run appends the tokens it registers and answers with their indices. -/
theorem runBook_tokens (g : Geometry) (b : Book) (ops : List Op) :
    (runBook g b ops).2.tokens = b.tokens ++ registered ops (runBook g b ops).1 ∧
      returnedIds (runBook g b ops).1 =
        List.range' b.tokens.length (registered ops (runBook g b ops).1).length := by
  induction ops generalizing b with
  | nil => exact ⟨(List.append_nil _).symm, rfl⟩
  | cons op ops ih =>
    rw [runBook]
    cases hs : op.spec g b with
    | error e => exact ih b
    | ok r =>
      obtain ⟨a, b'⟩ := r
      obtain ⟨htok, hid⟩ := Op.spec_tokens hs
      obtain ⟨ih₁, ih₂⟩ := ih b'
      simp only [registered, returnedIds]
      refine ⟨?_, ?_⟩
      · rw [ih₁, htok, List.append_assoc]
      · rw [hid, ih₂, htok, List.length_append, List.length_append, List.range'_append_1]

section

variable {σ : Type} [Store σ] (P : Platform)

theorem run_append (d : Drive σ) (ops more : List Op) :
    (Go.run P d (ops ++ more)).2 = (Go.run P (Go.run P d ops).2 more).2 := by
  induction ops generalizing d with
  | nil => rfl
  | cons op ops ih =>
    rw [List.cons_append, Go.run, Go.run]
    cases (op.exec P).run d with
    | ok a d' => exact ih d'
    | error e d' => exact ih d'

end

/-! ## Formatted drives -/

section

variable {keccak256 : Bytes → Bytes → Bytes} {c : Config} {σ : Type} [Store σ] [LawfulStore σ]
  {s : σ} {d : Drive σ}

/-- On every drive that a run reaches from a formatted wide one, the columns are disjoint, the
    rest of each slot is zero, and no operation reaches what is not its own. -/
theorem wide_columns_separate (hz : ∀ a, LawfulStore.image s a = 0)
    (hsize : LawfulStore.size s = c.DriveLength.toNat) (hfmt : Go.format keccak256 s c = .ok d)
    (hw : c.toConfig.defaults.NoWrap (Go.platform keccak256)) (hwide : c.Profile.toNat = profileWide)
    (ops : List Op) :
    WideLayout (Go.run (Go.platform keccak256) d ops).2 ∧
      Separate (Go.platform keccak256) (Go.run (Go.platform keccak256) d ops).2 := by
  obtain ⟨hv₀, -, hcfg⟩ := formatted_valid hz hsize hfmt hw
  obtain ⟨hv, hcfg', -, -⟩ := Go.run_valid hv₀ ops
  have hprofile : (Go.run (Go.platform keccak256) d ops).2.cfg.profile = profileWide := by
    rw [hcfg', hcfg, Config.geometry]
    split_ifs <;> exact hwide
  exact ⟨hv.wideLayout hprofile, hv.separate hprofile⟩

/-- A wide drive of eight accounts with room for one 32-byte and two 16-byte columns. -/
def wideConfig : Config where
  DriveLength := 8192
  Capacity := 8
  LoadLimit := 0
  Seed := sampleConfig.Seed
  Profile := 1
  SlotSize := 128
  TableOffset := 0
  RegistryOffset := 0x100
  RegistryCapacity := 4
  SparseOffset := 0
  SparseCapacity := 0
  SparseLoadLimit := 0
  SparseSlotSize := 0

theorem wideConfig_noWrap :
    wideConfig.toConfig.defaults.NoWrap (Go.platform fun _ key => key) where
  accounts := by decide
  sparse h := absurd h (by decide)

theorem wideConfig_format : Go.format (fun _ key => key)
    (MemStore.new wideConfig.DriveLength.toNat) wideConfig = .ok (blank wideConfig) :=
  format_new (by decide)

/-- A run that registers, fills a column and registers again. -/
def wideOps : List Op :=
  [.registerToken (addressAt 1 1) 32, .setTokenBalance (addressAt 3 1) 0 9,
    .registerToken (addressAt 1 2) 16]

theorem wide_columns_separate_sample :
    let P := Go.platform fun _ key => key
    WideLayout (Go.run P (blank wideConfig) wideOps).2 ∧
      Separate P (Go.run P (blank wideConfig) wideOps).2 :=
  wide_columns_separate (fun _ => rfl) rfl wideConfig_format wideConfig_noWrap rfl wideOps

/-- `2^57 + 1` slots of 128 bytes: the size of the table wraps to 128, and the registry is
    where the second slot is. -/
def wrappedWide : Config := { wideConfig with
  Capacity := 144115188075855873
  RegistryOffset := 4224 }

theorem wrappedWide_format : Go.format (fun _ key => key)
    (MemStore.new wrappedWide.DriveLength.toNat) wrappedWide = .ok (blank wrappedWide) :=
  format_new (by decide)

/-- The first registry entry reads as the account of the token's address, and the third is
    written into that account's first column. -/
theorem wrappedWide_registers_balance :
    let P := Go.platform fun _ key => key
    let d := (Go.run P (blank wrappedWide)
      [.registerToken (addressAt 1 1) 32, .registerToken (addressAt 1 2) 8]).2
    Go.format (fun _ key => key) (MemStore.new wrappedWide.DriveLength.toNat) wrappedWide =
        .ok (blank wrappedWide) ∧
      answer ((getTokenBalance P (addressAt 1 1) 0).run d) = .ok 0 ∧
      ∃ d', (Go.registerToken P (addressAt 1 3) 8).run d = .ok 2 d' ∧
        answer ((getTokenBalance P (addressAt 1 1) 0).run d') ≠ .ok 0 :=
  ⟨wrappedWide_format, by decide +kernel, _, eq_of_answer_ok (by decide +kernel),
    by decide +kernel⟩

/-- The registry of every drive a run reaches from a formatted one. -/
theorem registry_coherent (hz : ∀ a, LawfulStore.image s a = 0)
    (hsize : LawfulStore.size s = c.DriveLength.toNat) (hfmt : Go.format keccak256 s c = .ok d)
    (hw : c.toConfig.defaults.NoWrap (Go.platform keccak256)) (ops : List Op) :
    let P := Go.platform keccak256
    let r := Go.run P d ops
    -- the registered tokens, in order, under the ids that were returned
    r.2.tokens = registered ops r.1 ∧
    returnedIds r.1 = List.range (registered ops r.1).length ∧
    (r.2.tokens.map Token.address).Nodup ∧
    -- the bytes
    leNat (slice r.2.image offTokenCount 8) = r.2.tokens.length ∧
    (∀ i t, r.2.tokens[i]? = some t →
      slice r.2.image (r.2.cfg.registryOffset + 32 * i) 32 = registryEntry t.address t.width) ∧
    -- whatever follows, they stay
    (∀ more, r.2.tokens <+: (Go.run P d (ops ++ more)).2.tokens ∧
      ∀ i < r.2.tokens.length,
        slice (Go.run P d (ops ++ more)).2.image (r.2.cfg.registryOffset + 32 * i) 32 =
          slice r.2.image (r.2.cfg.registryOffset + 32 * i) 32) ∧
    -- the cache, column offsets included, is what `ReloadRegistry` makes of the bytes
    (reloadRegistry P).run r.2 = .ok () r.2 := by
  obtain ⟨hv₀, hb₀, -⟩ := formatted_valid hz hsize hfmt hw
  intro P r
  obtain ⟨hv, hcfg, hans, hbook⟩ := Go.run_valid hv₀ ops
  obtain ⟨htok, hids⟩ := runBook_tokens d.cfg (book P d) ops
  rw [← hans, ← hbook, hb₀] at htok
  rw [← hans, hb₀] at hids
  refine ⟨htok, by rw [hids, List.range_eq_range']; rfl, hv.registry.distinct, hv.registry.count,
    hv.registry.entries, fun more => ?_, reloadRegistry_run hv.geometry hv.registry⟩
  obtain ⟨hv', hcfg', -, hbook'⟩ := Go.run_valid hv more
  rw [run_append]
  have hmore := (runBook_tokens r.2.cfg (book P r.2) more).1
  rw [← hbook'] at hmore
  refine ⟨⟨_, hmore.symm⟩, fun i hi => ?_⟩
  have ht : r.2.tokens[i]? = some r.2.tokens[i] := List.getElem?_eq_getElem hi
  have ht' : (Go.run P r.2 more).2.tokens[i]? = some r.2.tokens[i] := by
    rw [← ht, show (Go.run P r.2 more).2.tokens = _ from hmore]
    exact List.getElem?_append_left hi
  have hlater := hv'.registry.entries i _ ht'
  rw [hcfg'] at hlater
  rw [hlater, hv.registry.entries i _ ht]

theorem registry_coherent_sample :
    let P := Go.platform fun _ key => key
    let r := Go.run P (blank wideConfig) wideOps
    r.2.tokens = registered wideOps r.1 ∧ returnedIds r.1 = [0, 1] ∧
      (reloadRegistry P).run r.2 = .ok () r.2 := by
  obtain ⟨htok, hids, -, -, -, -, hreload⟩ :=
    registry_coherent (fun _ => rfl) rfl wideConfig_format wideConfig_noWrap wideOps
  exact ⟨htok, hids.trans (by decide +kernel), hreload⟩

/-- The account of the token's address is found in the registry entry, and writing it destroys
    the entry's width. -/
theorem wrappedWide_overwrites_registry :
    let P := Go.platform fun _ key => key
    let d := (Go.run P (blank wrappedWide)
      [.registerToken (addressAt 1 1) 8, .setAccount (addressAt 1 1) 0 none]).2
    Go.format (fun _ key => key) (MemStore.new wrappedWide.DriveLength.toNat) wrappedWide =
        .ok (blank wrappedWide) ∧
      d.tokens = [⟨addressAt 1 1, 8⟩] ∧
      slice d.store.bytes d.cfg.registryOffset 32 ≠ registryEntry (addressAt 1 1) 8 ∧
      answer ((reloadRegistry P).run d) = .error .badWidth :=
  ⟨wrappedWide_format, by decide +kernel, by decide +kernel, by decide +kernel⟩

end

end Go

end OpCartesi.Drive
