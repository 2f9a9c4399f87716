import OpCartesi.App.Accounting

/-!
# The ledger between inputs

* `Ledger.Idle`: well formed, with an empty journal.
* `Ledger.committed`: what `commit` leaves, which differs in the journal only.
* `Ledger.inMemory_run`: the fresh ledger exists, is idle and empty.
* `Ledger.Genesis`: a ledger over a drive that was formatted and not written since.
* `Ledger.creditEther_run`, `Ledger.writable_of_room`: writes that succeed.
-/

namespace OpCartesi.App

open Drive Exec

namespace Ledger

/-- A ledger between inputs. -/
structure Idle (V : Viem) (l : Ledger) : Prop where
  wf : l.WF V
  entries : l.entries = []

/-- The ledger with its journal emptied. -/
def committed (l : Ledger) : Ledger := { l with drive.store.entries := [] }

variable {V : Viem} {l l' : Ledger}

theorem committed_idle (hwf : l.WF V) : l.committed.Idle V :=
  ⟨⟨valid_note hwf.drive _, hwf.facades⟩, rfl⟩

theorem committed_book (hwf : l.WF V) : l.committed.book V = l.book V := book_note hwf.drive _

theorem committed_record (hwf : l.WF V) (a : Address) :
    l.committed.record V a = l.record V a := by
  rw [record, record, committed_book hwf]

theorem committed_view (hwf : l.WF V) : l.committed.view V = l.view V := by
  refine View.ext (funext fun a => ?_) ?_ rfl rfl
  · exact congrArg Prod.snd (committed_record hwf a)
  · exact congrArg Book.holdings (committed_book hwf)

theorem committed_nonces (hwf : l.WF V) : l.committed.nonces V = l.nonces V :=
  funext fun a => congrArg Prod.fst (committed_record hwf a)
/-! ## The fresh ledger -/

section

variable (k k' : Bytes → Bytes → Bytes)

theorem checkInside_ts (n : ℕ) (rs : List Config.Region) :
    Config.checkInside (Ts.platform k) n rs = Config.checkInside (Ts.platform k') n rs := by
  induction rs with
  | nil => rfl
  | cons r rs ih =>
    rw [Config.checkInside, Config.checkInside, ih]
    rfl

theorem checkApart_ts (a : Config.Region) (rs : List Config.Region) :
    Config.checkApart (Ts.platform k) a rs = Config.checkApart (Ts.platform k') a rs := by
  induction rs with
  | nil => rfl
  | cons r rs ih =>
    rw [Config.checkApart, Config.checkApart, ih]
    rfl

theorem checkDisjoint_ts (rs : List Config.Region) :
    Config.checkDisjoint (Ts.platform k) rs = Config.checkDisjoint (Ts.platform k') rs := by
  induction rs with
  | nil => rfl
  | cons r rs ih => rw [Config.checkDisjoint, Config.checkDisjoint, ih, checkApart_ts k k']

/-- No check of `validate` hashes. -/
theorem validate_ts (c : Drive.Config) :
    c.validate (Ts.platform k) = c.validate (Ts.platform k') := by
  rw [Config.validate, Config.validate, checkInside_ts k k', checkDisjoint_ts k k']
  rfl

end

variable (V : Viem)

theorem devnet_validate : DEVNET_DRIVE_CONFIG.defaults.validate V.platform = .ok () := by
  rw [Viem.platform, validate_ts _ fun _ key => key]
  decide

theorem devnet_inRange : DEVNET_DRIVE_CONFIG.InRange V.platform := by
  have h : ∀ n : ℕ, n < 2 ^ 53 → n < V.platform.bound := fun _ h => h
  refine ⟨h _ ?_, h _ ?_, h _ ?_, rfl, ?_, ?_, h _ ?_, h _ ?_, h _ ?_, h _ ?_, h _ ?_, h _ ?_, ?_⟩
  all_goals decide

theorem devnet_noWrap : DEVNET_DRIVE_CONFIG.defaults.NoWrap V.platform := by
  have h : ∀ n : ℕ, n < 2 ^ 53 → n < V.platform.bound := fun _ h => h
  exact ⟨h _ (by decide), fun _ => h _ (by decide)⟩

theorem inMemory_run : ∃ l, inMemory V = .ok l ∧ l.Idle V ∧ l.book V = Book.empty ∧
    l.ram = Ram.new ∧ l.drive.cfg = DEVNET_DRIVE_CONFIG.defaults.geometry := by
  set n := DEVNET_DRIVE_CONFIG.driveLength with hn
  have hread : (Store.readAt 0 8).run (MemStore.new n) = .ok (zeros 8) (MemStore.new n) :=
    LawfulStore.readAt_eq (by decide)
  obtain ⟨d, hfmt, hv, hb, hcfg, -⟩ := format_run (devnet_inRange V) (devnet_noWrap V)
    (devnet_validate V) (s := (⟨MemStore.new n, []⟩ : JournaledStore)) (fun _ => rfl) rfl
  have htok : d.tokens = [] := congrArg Book.tokens hb
  refine ⟨⟨{ d with store.entries := [] }, Ram.new, facadesOf V d.tokens⟩, ?_,
    ⟨⟨valid_note hv [], rfl⟩, rfl⟩, (book_note hv []).trans hb, rfl, hcfg⟩
  rw [inMemory, create, hread]
  simp only
  rw [if_neg (by decide), hfmt]
  rfl

variable {V} {l l' : Ledger}

/-- Every record of an empty book reads as zero. -/
theorem view_of_empty (hb : l.book V = Book.empty) (hr : l.ram = Ram.new) :
    l.nonces V = (fun _ => 0) ∧ l.view V = ⟨fun _ => 0, fun _ _ => 0, [], Ram.new⟩ := by
  have hrec : ∀ a, l.record V a = (0, 0) := fun a => by
    rw [record, hb]
    rfl
  refine ⟨funext fun a => congrArg Prod.fst (hrec a), View.ext ?_ ?_ ?_ hr⟩
  · exact funext fun a => congrArg Prod.snd (hrec a)
  · exact congrArg Book.holdings hb
  · exact congrArg Book.tokens hb

theorem size_empty : Book.empty.size = 0 := by
  simp [Book.size, Book.empty]

theorem size_setRecord_le (b : Book) (a : Address) (r : Option (ℕ × ℕ)) :
    (b.setRecord a r).size ≤ b.size + 1 := by
  have hsub : (Finset.univ.filter fun x => ((b.setRecord a r).accounts x).isSome) ⊆
      insert a (Finset.univ.filter fun x => (b.accounts x).isSome) := by
    intro x
    simp only [Finset.mem_insert, Finset.mem_filter, Finset.mem_univ, true_and, Book.setRecord,
      Function.update_apply]
    split_ifs with hxa
    · exact fun _ => Or.inl hxa
    · exact Or.inr
  rw [Book.size, Book.size]
  exact (Finset.card_le_card hsub).trans (Finset.card_insert_le _ _)

/-! ## Writes that succeed -/

theorem recordOf_devnet {nonce balance : ℤ} (hn : nonce < 2 ^ 64) (h0 : 0 ≤ balance)
    (hb : balance < 2 ^ 256) :
    ∃ r, recordOf DEVNET_DRIVE_CONFIG.defaults.geometry nonce balance = .ok r := by
  have hc : DEVNET_DRIVE_CONFIG.defaults.geometry.compact = false := by decide
  simp only [recordOf, hc]
  refine ⟨_, if_neg ?_⟩
  norm_num
  omega

/-- A record of the devnet drive can be written while the table has room. -/
theorem writable_of_room {a : Address} {nonce balance : ℤ}
    (hcfg : l.drive.cfg = DEVNET_DRIVE_CONFIG.defaults.geometry) (ha : isZero a.val = false)
    (hsize : (l.book V).size < 3584) (hn : nonce < 2 ^ 64) (h0 : 0 ≤ balance)
    (hb : balance < 2 ^ 256) : Writable V l a nonce balance := by
  refine ⟨ha, ?_, fun _ => ?_⟩
  · rw [hcfg]
    exact recordOf_devnet hn h0 hb
  · rw [hcfg]
    exact hsize.trans_le (by decide)

/-- A writable record is read, and another balance written to it. -/
theorem account_setAccount_run (hwf : l.WF V) {a : Address} {balance : ℤ}
    (hw : Writable V l a (l.nonces V a) balance) :
    (account V a).run l = .ok (l.record V a) l ∧
      ∃ l', (onDrive (Ts.setAccount V.platform a (l.record V a).1 balance)).run l = .ok () l' := by
  have hacc := account_run hwf a
  rw [if_neg (by simp [hw.1])] at hacc
  have hn := nonces_lt hwf a
  rcases setAccount_run hwf a (l.record V a).1 balance (Int.natCast_nonneg _)
    (by rw [nonces] at hn; exact_mod_cast hn) with ⟨hbad, -⟩ | ⟨-, -, l', hrun, -⟩
  · exact absurd hw hbad
  · exact ⟨hacc, l', hrun⟩

theorem creditEther_run (hwf : l.WF V) {a : Address} {amount : ℤ}
    (hw : Writable V l a (l.nonces V a) ((l.view V).balances a + amount)) :
    ∃ l', (creditEther V a amount).run l = .ok () l' := by
  obtain ⟨hacc, hset⟩ := account_setAccount_run hwf hw
  rw [creditEther]
  split_ifs
  · exact ⟨l, rfl⟩
  · rw [bind_ok hacc]
    exact hset

theorem debitEther_run (hwf : l.WF V) (a : Address) (amount : ℤ)
    (hle : amount ≤ (l.view V).balances a)
    (hw : Writable V l a (l.nonces V a) ((l.view V).balances a - amount)) :
    ∃ l', (debitEther V a amount).run l = .ok () l' := by
  obtain ⟨hacc, hset⟩ := account_setAccount_run hwf hw
  rw [debitEther]
  split_ifs
  · exact ⟨l, rfl⟩
  · have hcovers : ¬((l.record V a).2 : ℤ) < amount := not_lt.2 hle
    rw [bind_ok hacc, if_neg hcovers]
    exact hset

/-- A devnet ledger with at most `n` account records. -/
structure Room (V : Viem) (l : Ledger) (n : ℕ) : Prop where
  cfg : l.drive.cfg = DEVNET_DRIVE_CONFIG.defaults.geometry
  size : (l.book V).size ≤ n

theorem Room.writable {n : ℕ} (h : Room V l n) (hn : n < 3584) {a : Address}
    (ha : isZero a.val = false) {nonce balance : ℤ} (hnonce : nonce < 2 ^ 64)
    (h0 : 0 ≤ balance) (hb : balance < 2 ^ 256) : Writable V l a nonce balance :=
  writable_of_room h.cfg ha (h.size.trans_lt hn) hnonce h0 hb

theorem Room.creditEther {n : ℕ} (h : Room V l n) (hwf : l.WF V) {a : Address} {amount : ℤ}
    {u : Unit} (hrun : (creditEther V a amount).run l = .ok u l') : Room V l' (n + 1) := by
  have hs := ((creditEther_does hwf a amount).ok _ _ hrun).1
  refine ⟨hs.ext.cfg.trans h.cfg, ?_⟩
  have hsize := h.size
  rcases creditEther_book hwf hrun with ⟨-, rfl⟩ | ⟨r, hb⟩
  · omega
  · have := size_setRecord_le (l.book V) a (some r)
    rw [hb]
    omega

/-- A fresh ledger. -/
structure Fresh (V : Viem) (l : Ledger) : Prop where
  created : inMemory V = .ok l
  idle : l.Idle V
  book : l.book V = Book.empty
  ram : l.ram = Ram.new
  cfg : l.drive.cfg = DEVNET_DRIVE_CONFIG.defaults.geometry

theorem fresh_exists (V : Viem) : ∃ l, Fresh V l := by
  obtain ⟨l, h₁, h₂, h₃, h₄, h₅⟩ := inMemory_run V
  exact ⟨l, h₁, h₂, h₃, h₄, h₅⟩

theorem fresh_of_inMemory (h : inMemory V = .ok l) : Fresh V l := by
  obtain ⟨l', hf⟩ := fresh_exists V
  rw [hf.created] at h
  cases h
  exact hf

namespace Fresh

theorem nonces (h : Fresh V l) : l.nonces V = fun _ => 0 := (view_of_empty h.book h.ram).1

theorem view (h : Fresh V l) : l.view V = ⟨fun _ => 0, fun _ _ => 0, [], Ram.new⟩ :=
  (view_of_empty h.book h.ram).2

theorem room (h : Fresh V l) : Room V l 0 := by
  refine ⟨h.cfg, ?_⟩
  rw [h.book, size_empty]

/-- A small credit to a fresh ledger succeeds. -/
theorem creditEther (h : Fresh V l) {a : Address} (ha : isZero a.val = false) (amount : ℕ)
    (hb : amount < 2 ^ 256) : ∃ l₁, (Ledger.creditEther V a amount).run l = .ok () l₁ ∧
      Step V l l₁ ∧ l₁.view V = (l.view V).addEther a amount := by
  have hw : Writable V l a (l.nonces V a) ((l.view V).balances a + amount) := by
    rw [h.nonces, h.view]
    exact h.room.writable (by norm_num) ha (by norm_num) (by positivity) (by push_cast; omega)
  obtain ⟨l₁, hrun⟩ := creditEther_run h.idle.wf hw
  obtain ⟨hs, hv, -⟩ := (creditEther_does h.idle.wf a amount).ok _ _ hrun
  exact ⟨l₁, hrun, hs, hv⟩

end Fresh

/-! ## Genesis -/

/-- The ledger of a chain's first boot: `create` formats the device, or opens one that was
    formatted before with a geometry of its own. -/
inductive Genesis (V : Viem) (l : Ledger) : Prop
  | devnet (h : inMemory V = .ok l)
  | formatted (c : Drive.Config) (d : Drive MemStore) (hr : c.InRange V.platform)
      (hw : c.defaults.NoWrap V.platform)
      (hfmt : Drive.format V.platform (MemStore.new c.driveLength) c = .ok d)
      (h : create V d.store = .ok l)

/-- Opening a drive that was formatted and not written since. -/
theorem create_formatted {c : Drive.Config} {d : Drive MemStore} (hr : c.InRange V.platform)
    (hw : c.defaults.NoWrap V.platform)
    (hfmt : Drive.format V.platform (MemStore.new c.driveLength) c = .ok d) :
    ∃ l, create V d.store = .ok l ∧ l.Idle V ∧ l.book V = Book.empty ∧ l.ram = Ram.new := by
  have hval := format_ok_validate hfmt
  have hhead : headerSize ≤ c.driveLength := Config.headerSize_le (c := c.defaults) hval
  have hg := Config.validate_valid hr.defaults hw hval
  obtain ⟨m, hm, himg, hsize, hgr, -⟩ :=
    format_header hr hval (s := MemStore.new c.driveLength) (fun _ => rfl) rfl
  rw [hm] at hfmt
  obtain rfl := Except.ok.inj hfmt
  set g := c.defaults.geometry with hgdef
  have hmagic : (Store.readAt 0 8).run m = .ok magic m := by
    have h8 : 8 ≤ headerSize := by decide
    rw [LawfulStore.readAt_eq (by omega), himg]
    exact congrArg (fun b => EStateM.Result.ok b m) (headerImage_fields g hgr.seed).1
  set s : JournaledStore := ⟨m, []⟩ with hs
  have hopen : openDrive V.platform s = .ok ⟨s, g, [], []⟩ :=
    openDrive_blank hgr himg (by show headerSize ≤ LawfulStore.size m; omega)
  obtain ⟨hv, hb⟩ := valid_blank (P := V.platform) (d := (⟨s, g, [], []⟩ : Drive JournaledStore))
    (by show g.Valid V.platform (LawfulStore.size m); rw [hsize]; exact hg) hgr himg rfl rfl
  refine ⟨⟨⟨s, g, [], []⟩, Ram.new, facadesOf V []⟩, ?_, ⟨⟨hv, rfl⟩, rfl⟩, hb, rfl⟩
  rw [create, hmagic]
  simp only
  rw [if_pos trivial, hopen]
  rfl

/-- Nothing is recorded yet. -/
theorem Genesis.empty (h : Genesis V l) :
    l.Idle V ∧ l.nonces V = (fun _ => 0) ∧ l.view V = ⟨fun _ => 0, fun _ _ => 0, [], Ram.new⟩ := by
  cases h with
  | devnet h =>
    have hf := fresh_of_inMemory h
    exact ⟨hf.idle, hf.nonces, hf.view⟩
  | formatted c d hr hw hfmt h =>
    obtain ⟨l', hl', hidle, hb, hram⟩ := create_formatted (V := V) hr hw hfmt
    rw [hl'] at h
    obtain rfl := Except.ok.inj h
    exact ⟨hidle, view_of_empty hb hram⟩

end Ledger

end OpCartesi.App
