import OpCartesi.App.Journal

/-!
# What the ledger's methods do

A `View` is what can be observed of a ledger: balances, token balances, registered
tokens and the RAM. Each method is specified on views, `Does`: a method that throws
leaves the ledger as it was, one that returns extends it, moves no nonce and has the
stated effect.

* `creditEther_does`, `debitEther_does`, `creditToken_does`, `debitToken_does`,
  `registerToken_does`: the methods that move value.
* `bump_run`: exactly when the charge can be written, and what it writes.
-/

namespace OpCartesi.App

open Drive Exec
open Function (update update_apply update_eq_self update_of_ne update_self)

/-! ## Views -/

/-- What can be observed of a ledger, nonces apart. -/
@[ext]
structure View where
  balances : Address → ℕ
  holdings : ℕ → Address → ℕ
  tokens : List Token
  ram : Ram

namespace View

def addEther (a : Address) (delta : ℤ) (v : View) : View :=
  { v with balances := update v.balances a (v.balances a + delta).toNat }

/-- A change of a token balance, and of the token's total with it. -/
def addToken (id : ℕ) (a : Address) (delta : ℤ) (v : View) : View :=
  { v with
    holdings := update v.holdings id
      (update (v.holdings id) a (v.holdings id a + delta).toNat)
    ram.totals := update v.ram.totals id (v.ram.totals id + delta) }

def addTokenType (l1Token : Address) (v : View) : View :=
  { v with tokens := v.tokens ++ [⟨l1Token, 32⟩] }

theorem addEther_zero (a : Address) (v : View) : v.addEther a 0 = v := by
  rw [addEther, Int.add_zero, Int.toNat_natCast, update_eq_self]

theorem addEther_of_ne {a b : Address} (h : b ≠ a) (delta : ℤ) (v : View) :
    (v.addEther a delta).balances b = v.balances b := update_of_ne h _ _

theorem addEther_self (a : Address) (delta : ℤ) (v : View) :
    (v.addEther a delta).balances a = (v.balances a + delta).toNat := update_self _ _ _

/-- A credit lowers no balance. -/
theorem le_addEther (a b : Address) (n : ℕ) (v : View) :
    v.balances b ≤ (v.addEther a n).balances b := by
  by_cases h : b = a
  · rw [h, addEther_self]
    omega
  · rw [addEther_of_ne h]

/-- A debit lowers a balance by no more than its amount. -/
theorem le_addEther_neg (a b : Address) (n : ℕ) (v : View) :
    v.balances b ≤ (v.addEther a (-n)).balances b + n := by
  by_cases h : b = a
  · rw [h, addEther_self]
    omega
  · rw [addEther_of_ne h]
    exact Nat.le_add_right _ _

theorem addToken_zero (id : ℕ) (a : Address) (v : View) : v.addToken id a 0 = v := by
  rw [addToken, Int.add_zero, Int.add_zero, Int.toNat_natCast, update_eq_self,
    update_eq_self, update_eq_self]

end View

namespace Ledger

section

variable (V : Viem) (l : Ledger)

/-- The book of the ledger's drive. -/
def book : Book := Drive.book V.platform l.drive

def record (a : Address) : ℕ × ℕ := ((l.book V).accounts a).getD (0, 0)

def nonces (a : Address) : ℕ := (l.record V a).1

def view : View where
  balances a := (l.record V a).2
  holdings := (l.book V).holdings
  tokens := l.drive.tokens
  ram := l.ram

end

variable {V : Viem} {l l' l'' : Ledger}

/-- `l'` is a later state of `l` in which no nonce has moved. -/
structure Step (V : Viem) (l l' : Ledger) : Prop where
  wf : l'.WF V
  ext : Extends l l'
  nonces : l'.nonces V = l.nonces V

theorem Step.refl (hwf : l.WF V) : Step V l l := ⟨hwf, Extends.refl l, rfl⟩

theorem Step.trans (h : Step V l l') (h' : Step V l' l'') : Step V l l'' :=
  ⟨h'.wf, h.ext.trans h'.ext, h'.nonces.trans h.nonces⟩

/-- The method `x` on the ledger `l`: a throw leaves `l`, a return is a step of `l` whose
    result and view satisfy `post`. -/
structure Does {α : Type} (V : Viem) (l : Ledger) (x : LedgerM α) (post : α → View → Prop) :
    Prop where
  error : ∀ e l', x.run l = .error e l' → l' = l
  ok : ∀ a l', x.run l = .ok a l' → Step V l l' ∧ post a (l'.view V)

theorem Does.of_error {α : Type} {x : LedgerM α} {post : α → View → Prop} {e : AppError}
    (h : x.run l = .error e l) : Does V l x post := by
  refine ⟨fun e' l' h' => ?_, fun a l' h' => ?_⟩
  · rw [h] at h'
    cases h'
    rfl
  · rw [h] at h'
    cases h'

theorem Does.of_ok {α : Type} {x : LedgerM α} {post : α → View → Prop} {a : α}
    (h : x.run l = .ok a l') (hs : Step V l l') (hp : post a (l'.view V)) : Does V l x post := by
  refine ⟨fun e l₁ h' => ?_, fun a₁ l₁ h' => ?_⟩
  · rw [h] at h'
    cases h'
  · rw [h] at h'
    cases h'
    exact ⟨hs, hp⟩

/-! ## Drive operations -/

/-- A drive operation that registers no token. -/
theorem onDrive_of_ok {α : Type} {x : DriveM JournaledStore α} {r : α} {b : Book} (hwf : l.WF V)
    (h : Refines V.platform l.drive x (.ok (r, b))) (ht : b.tokens = (l.book V).tokens) :
    ∃ l', (onDrive x).run l = .ok r l' ∧ l'.WF V ∧ Extends l l' ∧ l'.book V = b ∧
      l'.ram = l.ram ∧ l'.drive.tokens = l.drive.tokens := by
  obtain ⟨d, hrun, hv, hb, hl⟩ := h
  have htok : d.tokens = l.drive.tokens := by
    rw [show d.tokens = (Drive.book V.platform d).tokens from rfl, hb, ht]
    rfl
  refine ⟨{ l with drive := d }, onDrive_ok hrun, ⟨hv, ?_⟩, Extends.of_drive hl, hb, rfl, htok⟩
  show l.facades = facadesOf V d.tokens
  rw [htok, hwf.facades]

theorem account_run (hwf : l.WF V) (a : Address) :
    (account V a).run l =
      if isZero a.val then .error (.drive .zeroAddress) l else .ok (l.record V a) l := by
  have h := getAccount_refines hwf.drive a
  rw [Book.getAccount] at h
  split_ifs at h ⊢ with h0
  · rw [account, bind_error (onDrive_error h)]
  · rw [account, bind_ok (onDrive_ok h)]
    show _ = EStateM.Result.ok (l.record V a) l
    rw [record, show (l.book V).accounts a = (Drive.book V.platform l.drive).accounts a from rfl]
    cases (Drive.book V.platform l.drive).accounts a <;> rfl

/-- A record's nonce is a 64-bit number. -/
theorem nonces_lt (hwf : l.WF V) (a : Address) : l.nonces V a < 2 ^ 64 := by
  rw [nonces, record, book, show (Drive.book V.platform l.drive).accounts a =
    accountOf V.platform l.drive a from rfl, accountOf_eq hwf.drive]
  cases hwf.drive.record a with
  | none => norm_num
  | some s =>
    have h4 := leNat_lt (sub s 20 4)
    have h8 := leNat_lt (sub s 24 8)
    have hl4 : (sub s 20 4).length ≤ 4 := List.length_take_le _ _
    have hl8 : (sub s 24 8).length ≤ 8 := List.length_take_le _ _
    have hp4 := h4.trans_le (Nat.pow_le_pow_right (by norm_num) hl4)
    have hp8 := h8.trans_le (Nat.pow_le_pow_right (by norm_num) hl8)
    simp only [Option.map_some, Option.getD_some, Geometry.fields]
    split_ifs <;> simp only <;> omega

/-- Exactly when a record can be written. -/
def Writable (V : Viem) (l : Ledger) (a : Address) (nonce balance : ℤ) : Prop :=
  isZero a.val = false ∧ (∃ r, recordOf l.drive.cfg nonce balance = .ok r) ∧
    ((l.book V).accounts a = none → (l.book V).size < l.drive.cfg.loadLimit)

theorem recordOf_ok {g : Geometry} {nonce balance : ℤ} {r : ℕ × ℕ}
    (h : recordOf g nonce balance = .ok r) : r = (nonce.toNat, balance.toNat) ∧ 0 ≤ balance := by
  simp only [recordOf] at h
  split_ifs at h with hc hbad hbad
  · exact ⟨(Except.ok.inj h).symm, not_lt.1 (not_or.1 (not_or.1 hbad).2).1⟩
  · exact ⟨(Except.ok.inj h).symm, not_lt.1 (not_or.1 (not_or.1 hbad).2).1⟩

/-- Writing a record: the new book, or a refusal. -/
theorem setAccount_run (hwf : l.WF V) (a : Address) (nonce balance : ℤ) (h0 : 0 ≤ nonce)
    (hn : nonce < 2 ^ 64) :
    (¬Writable V l a nonce balance ∧
      ∃ e, (onDrive (Ts.setAccount V.platform a nonce balance)).run l = .error (.drive e) l) ∨
    (Writable V l a nonce balance ∧ 0 ≤ balance ∧
      ∃ l', (onDrive (Ts.setAccount V.platform a nonce balance)).run l = .ok () l' ∧ l'.WF V ∧
        Extends l l' ∧ l'.book V = (l.book V).setRecord a (some (nonce.toNat, balance.toNat)) ∧
        l'.ram = l.ram ∧ l'.drive.tokens = l.drive.tokens) := by
  have href := Ts.setAccount_refines hwf.drive a balance h0 hn
  cases hs : (Drive.book V.platform l.drive).setAccount l.drive.cfg a
      (recordOf l.drive.cfg nonce balance) with
  | error e =>
    rw [hs] at href
    refine Or.inl ⟨fun hw => ?_, e, onDrive_error href⟩
    obtain ⟨hz, ⟨r, hr⟩, hroom⟩ := hw
    have hok := (Book.setAccount_ok_iff (u := ())).2 ⟨hz, r, hr, hroom, rfl⟩
    rw [book, hs] at hok
    cases hok
  | ok p =>
    rw [hs] at href
    obtain ⟨hz, r, hr, hroom, hb⟩ := Book.setAccount_ok_iff.1 hs
    obtain ⟨rfl, hbal⟩ := recordOf_ok hr
    have h := onDrive_of_ok hwf href (by rw [hb]; rfl)
    rw [hb] at h
    exact Or.inr ⟨⟨hz, ⟨_, hr⟩, hroom⟩, hbal, h⟩

/-- What a written record does to nonces and view. -/
theorem of_setRecord {a : Address} {n b : ℕ}
    (hb : l'.book V = (l.book V).setRecord a (some (n, b))) (hr : l'.ram = l.ram)
    (ht : l'.drive.tokens = l.drive.tokens) :
    l'.nonces V = update (l.nonces V) a n ∧
      l'.view V = { l.view V with balances := update (l.view V).balances a b } := by
  have hrec : ∀ x, l'.record V x = if x = a then (n, b) else l.record V x := by
    intro x
    rw [record, record, hb, Book.setRecord]
    simp only [update_apply]
    split_ifs <;> rfl
  constructor
  · funext x
    rw [nonces, hrec, update_apply]
    split_ifs <;> rfl
  · refine View.ext ?_ ?_ ht hr
    · funext x
      show (l'.record V x).2 = update (l.view V).balances a b x
      rw [hrec, update_apply]
      split_ifs <;> rfl
    · show (l'.book V).holdings = (l.book V).holdings
      rw [hb]
      rfl

/-! ## Ether -/

/-- A new balance under the old nonce. -/
theorem setBalance_does (hwf : l.WF V) (a : Address) (balance : ℤ) :
    Does V l (onDrive (Ts.setAccount V.platform a (l.record V a).1 balance)) fun _ v =>
      v = { l.view V with balances := update (l.view V).balances a balance.toNat } ∧
        0 ≤ balance := by
  have hn := nonces_lt hwf a
  rcases setAccount_run hwf a (l.record V a).1 balance (Int.natCast_nonneg _)
    (by rw [nonces] at hn; exact_mod_cast hn) with ⟨-, e, he⟩ | ⟨-, hb, l', hrun, hwf', hext, hbook,
      hram, htok⟩
  · exact Does.of_error he
  · obtain ⟨hnon, hview⟩ := of_setRecord hbook hram htok
    refine Does.of_ok hrun ⟨hwf', hext, ?_⟩ ⟨hview, hb⟩
    rw [hnon, Int.toNat_natCast]
    exact update_eq_self a (l.nonces V)

theorem creditEther_does (hwf : l.WF V) (a : Address) (amount : ℤ) :
    Does V l (creditEther V a amount) fun _ v =>
      v = (l.view V).addEther a amount ∧ 0 ≤ (l.view V).balances a + amount := by
  rw [creditEther]
  split_ifs with h
  · subst h
    exact Does.of_ok rfl (Step.refl hwf) ⟨(View.addEther_zero _ _).symm, by simp⟩
  · have hacc := account_run hwf a
    split_ifs at hacc with h0
    · exact Does.of_error (bind_error hacc)
    · have hset := setBalance_does hwf a ((l.record V a).2 + amount)
      exact ⟨fun e l' h' => hset.error e l' (by rwa [bind_ok hacc] at h'),
        fun u l' h' => hset.ok u l' (by rwa [bind_ok hacc] at h')⟩

theorem debitEther_does (hwf : l.WF V) (a : Address) (amount : ℤ) :
    Does V l (debitEther V a amount) fun _ v =>
      v = (l.view V).addEther a (-amount) ∧ amount ≤ (l.view V).balances a := by
  rw [debitEther]
  split_ifs with h
  · subst h
    exact Does.of_ok rfl (Step.refl hwf) ⟨(View.addEther_zero _ _).symm, by simp⟩
  · have hacc := account_run hwf a
    split_ifs at hacc with h0
    · exact Does.of_error (bind_error hacc)
    · by_cases hlt : ((l.record V a).2 : ℤ) < amount
      · refine Does.of_error (e := .insufficientFunds "ether balance") ?_
        rw [bind_ok hacc, if_pos hlt]
        rfl
      · have hset := setBalance_does hwf a ((l.record V a).2 - amount)
        have hle : amount ≤ (l.view V).balances a := not_lt.1 hlt
        refine ⟨fun e l' h' => hset.error e l' (by rwa [bind_ok hacc, if_neg hlt] at h'),
          fun u l' h' => ?_⟩
        obtain ⟨hs, hv, -⟩ := hset.ok u l' (by rwa [bind_ok hacc, if_neg hlt] at h')
        exact ⟨hs, hv, hle⟩

theorem setBalance_book (hwf : l.WF V) {a : Address} {balance : ℤ} {u : Unit}
    (h : (onDrive (Ts.setAccount V.platform a (l.record V a).1 balance)).run l = .ok u l') :
    ∃ r, l'.book V = (l.book V).setRecord a (some r) := by
  have hn := nonces_lt hwf a
  rcases setAccount_run hwf a (l.record V a).1 balance (Int.natCast_nonneg _)
    (by rw [nonces] at hn; exact_mod_cast hn) with ⟨-, e, he⟩ | ⟨-, -, l₁, hrun, -, -, hbook, -⟩
  · rw [he] at h
    cases h
  · rw [hrun] at h
    cases h
    exact ⟨_, hbook⟩

/-- A credit that is not zero writes the record of its address. -/
theorem creditEther_book (hwf : l.WF V) {a : Address} {amount : ℤ} {u : Unit}
    (h : (creditEther V a amount).run l = .ok u l') :
    amount = 0 ∧ l' = l ∨ ∃ r, l'.book V = (l.book V).setRecord a (some r) := by
  rw [creditEther] at h
  split_ifs at h with h0
  · cases h
    exact Or.inl ⟨h0, rfl⟩
  · have hacc := account_run hwf a
    split_ifs at hacc
    · rw [bind_error hacc] at h
      cases h
    · rw [bind_ok hacc] at h
      exact Or.inr (setBalance_book hwf h)

theorem debitEther_book (hwf : l.WF V) {a : Address} {amount : ℤ} {u : Unit}
    (h : (debitEther V a amount).run l = .ok u l') :
    amount = 0 ∧ l' = l ∨ ∃ r, l'.book V = (l.book V).setRecord a (some r) := by
  rw [debitEther] at h
  split_ifs at h with h0
  · cases h
    exact Or.inl ⟨h0, rfl⟩
  · have hacc := account_run hwf a
    split_ifs at hacc
    · rw [bind_error hacc] at h
      cases h
    · rw [bind_ok hacc] at h
      split_ifs at h
      · cases h
      · exact Or.inr (setBalance_book hwf h)

/-- Exactly when the charge can be written. -/
def CanCharge (V : Viem) (l : Ledger) (a : Address) (fee : ℤ) : Prop :=
  fee ≤ (l.view V).balances a ∧
    Writable V l a (l.nonces V a + 1) ((l.view V).balances a - fee)

/-- The charge, for a nonce that has a successor. -/
theorem bump_run (hwf : l.WF V) (a : Address) (fee : ℤ) (hn : l.nonces V a + 1 < 2 ^ 64) :
    (¬CanCharge V l a fee ∧ ∃ e, (bumpNonceAndCharge V a fee).run l = .error e l) ∨
    (CanCharge V l a fee ∧ ∃ l', (bumpNonceAndCharge V a fee).run l = .ok () l' ∧ l'.WF V ∧
      Extends l l' ∧ l'.ram = l.ram ∧ l'.drive.tokens = l.drive.tokens ∧
      l'.book V = (l.book V).setRecord a
        (some (l.nonces V a + 1, ((l.view V).balances a - fee).toNat))) := by
  have hacc := account_run hwf a
  rw [bumpNonceAndCharge]
  split_ifs at hacc with h0
  · exact Or.inl ⟨fun hc => absurd hc.2.1 (by simp [h0]), _, bind_error hacc⟩
  · rw [bind_ok hacc]
    by_cases hlt : ((l.record V a).2 : ℤ) < fee
    · rw [if_pos hlt]
      exact Or.inl ⟨fun hc => absurd hc.1 (not_le.2 hlt), _, rfl⟩
    · rw [if_neg hlt]
      rcases setAccount_run hwf a ((l.record V a).1 + 1) ((l.record V a).2 - fee)
        (by positivity) (by rw [nonces] at hn; exact_mod_cast hn) with
        ⟨hw, e, he⟩ | ⟨hw, -, l', hrun, hwf', hext, hbook, hram, htok⟩
      · exact Or.inl ⟨fun hc => hw hc.2, _, he⟩
      · refine Or.inr ⟨⟨not_lt.1 hlt, hw⟩, l', hrun, hwf', hext, hram, htok, ?_⟩
        rw [hbook]
        rfl

/-! ## Entries and RAM -/

/-- Noting an entry changes no byte. -/
theorem valid_note {d : Drive JournaledStore} (hv : Drive.Valid V.platform d) (es : List Restore) :
    Drive.Valid V.platform { d with store.entries := es } :=
  ⟨hv.geometry, hv.header, hv.accounts, hv.sparse, hv.wideRecord, hv.sparseRecord, hv.registry⟩

theorem book_note {d : Drive JournaledStore} (hv : Drive.Valid V.platform d) (es : List Restore) :
    Drive.book V.platform { d with store.entries := es } = Drive.book V.platform d := by
  have hv' := valid_note hv es
  refine Book.ext ?_ ?_ rfl
  · funext a
    show accountOf V.platform _ a = accountOf V.platform d a
    rw [accountOf_eq hv, accountOf_eq hv']
    rfl
  · funext id a
    show holdingOf V.platform _ id a = holdingOf V.platform d id a
    have hle := hv.geometry.profile_le
    rcases (by simp only [profileSparse, profileWide, profileSingleAsset] at *; omega :
      d.cfg.profile = profileSingleAsset ∨ d.cfg.profile = profileWide ∨
        d.cfg.profile = profileSparse) with h | h | h
    · rw [holdingOf_single hv h, holdingOf_single hv' h]
    · rw [holdingOf_wide hv h, holdingOf_wide hv' h]
      rfl
    · rw [holdingOf_sparse hv h, holdingOf_sparse hv' h]
      rfl

/-- The ledger after an entry is noted and the RAM changed. -/
def noted (l : Ledger) (r : Restore) (ram : Ram) : Ledger :=
  { l with drive.store.entries := r :: l.entries, ram := ram }

theorem noted_book (hwf : l.WF V) (r : Restore) (ram : Ram) :
    (l.noted r ram).book V = l.book V := book_note hwf.drive _

theorem noted_step (hwf : l.WF V) (r : Restore) (ram : Ram)
    (h : r.undo (l.drive.store.inner, ram) = some (l.drive.store.inner, l.ram)) :
    Step V l (l.noted r ram) ∧ (l.noted r ram).view V = { l.view V with ram := ram } := by
  have hb := noted_book hwf r ram
  refine ⟨⟨⟨valid_note hwf.drive _, hwf.facades⟩, Extends.of_ram h, ?_⟩, ?_⟩
  · funext a
    rw [nonces, nonces, record, record, hb]
  · refine View.ext ?_ ?_ rfl rfl
    · funext a
      show ((l.noted r ram).record V a).2 = (l.record V a).2
      rw [record, record, hb]
    · exact congrArg Book.holdings hb

/-- A method that notes an entry, changes the RAM and returns. -/
theorem does_of_noted {α : Type} (hwf : l.WF V) {x : LedgerM α} {a : α} {r : Restore} {ram : Ram}
    {post : α → View → Prop} (hrun : x.run l = .ok a (l.noted r ram))
    (h : r.undo (l.drive.store.inner, ram) = some (l.drive.store.inner, l.ram))
    (hp : post a { l.view V with ram := ram }) : Does V l x post := by
  obtain ⟨hs, hv⟩ := noted_step hwf r ram h
  exact Does.of_ok hrun hs (by rwa [hv])

theorem setMetadata_does (hwf : l.WF V) (id : ℕ) (m : TokenMetadata) :
    Does V l (setMetadata id m) fun _ v => v = { l.view V with
      ram := { l.ram with metadata := update l.ram.metadata id (some m) } } :=
  does_of_noted hwf (r := .metadata id (l.ram.metadata id)) rfl (by simp [Restore.undo]) rfl

theorem addTotal_run (l : Ledger) (id : ℕ) (delta : ℤ) :
    (addTotal id delta).run l = .ok () (l.noted (.total id (l.ram.totals id))
      { l.ram with totals := update l.ram.totals id (l.ram.totals id + delta) }) := rfl

theorem registerPortal_does (hwf : l.WF V) (a : Address) (kind : ℕ) :
    Does V l (registerPortal a kind) fun _ v => v = { l.view V with
      ram := { l.ram with portals := update l.ram.portals a (some kind) } } :=
  does_of_noted hwf (r := .portal a (l.ram.portals a)) rfl (by simp [Restore.undo]) rfl

theorem setFee_does (hwf : l.WF V) (fee : ℤ) :
    Does V l (setFee fee) fun _ v => v = { l.view V with ram := { l.ram with fee := fee } } :=
  does_of_noted hwf (r := .fee l.ram.fee) rfl (by simp [Restore.undo]) rfl

theorem registerCrossDomain_does (hwf : l.WF V) (cfg : CrossDomainConfig) :
    Does V l (registerCrossDomain cfg) fun _ v => v = { l.view V with
      ram := { l.ram with crossDomainConfig := some cfg } } :=
  does_of_noted hwf (r := .crossDomain l.ram.crossDomainConfig) rfl (by simp [Restore.undo]) rfl

theorem nextMessageNonce_does (hwf : l.WF V) :
    Does V l nextMessageNonce fun n v => n = l.ram.msgNonce ∧ v = { l.view V with
      ram := { l.ram with msgNonce := l.ram.msgNonce + 1 } } :=
  does_of_noted hwf (r := .msgNonce l.ram.msgNonce) rfl (by simp [Restore.undo]) ⟨rfl, rfl⟩

theorem setMessageStatus_does (hwf : l.WF V) (hash : Bytes) (status : MessageStatus) :
    Does V l (setMessageStatus hash status) fun _ v => v = { l.view V with
      ram := { l.ram with messages := update l.ram.messages hash (some status) } } :=
  does_of_noted hwf (r := .message hash (l.ram.messages hash)) rfl (by simp [Restore.undo]) rfl

/-! ## Tokens -/

theorem tokenBalance_run (hwf : l.WF V) (a : Address) (id : ℕ) :
    (tokenBalance V a id).run l = .ok ((l.view V).holdings id a) l ∨
      ∃ e, (tokenBalance V a id).run l = .error (.drive e) l := by
  have h := getTokenBalance_refines hwf.drive a id
  rw [Book.getTokenBalance] at h
  split_ifs at h
  · exact Or.inr ⟨_, onDrive_error h⟩
  · exact Or.inr ⟨_, onDrive_error h⟩
  · exact Or.inr ⟨_, onDrive_error h⟩
  · exact Or.inl (onDrive_ok h)

/-- An address without a record has no columns in the wide profile. -/
theorem holdings_of_absent (hwf : l.WF V) {a : Address} (id : ℕ)
    (hw : l.drive.cfg.profile = profileWide) (h : (l.book V).accounts a = none) :
    (l.book V).holdings id a = 0 := by
  have hrec : hwf.drive.record a = none := by
    have h' : accountOf V.platform l.drive a = none := h
    rw [accountOf_eq hwf.drive] at h'
    exact Option.map_eq_none_iff.1 h'
  exact holdingOf_none hwf.drive hrec hw id

/-- A new token balance, with the change of the total that follows it. -/
theorem setToken_does (hwf : l.WF V) (a : Address) (id : ℕ) (value delta : ℤ)
    (hd : value = (l.view V).holdings id a + delta) :
    Does V l (do onDrive (Drive.setTokenBalance V.platform a id value); addTotal id delta)
      fun _ v => v = (l.view V).addToken id a delta ∧ 0 ≤ value ∧ id < l.drive.tokens.length := by
  have href := setTokenBalance_refines hwf.drive a id value
  cases hs : (Drive.book V.platform l.drive).setTokenBalance l.drive.cfg a id value with
  | error e =>
    rw [hs] at href
    exact Does.of_error (bind_error (onDrive_error href))
  | ok p =>
    rw [hs] at href
    obtain ⟨hval, hid, htok, hhold, hacc⟩ :=
      Book.setTokenBalance_ok (fun hw hn => holdings_of_absent hwf id hw hn) hs
    obtain ⟨l₁, hrun, hwf₁, hext, hbook, hram, htok₁⟩ := onDrive_of_ok hwf href htok
    have hrec : ∀ x, l₁.record V x = l.record V x := fun x => by
      rw [record, hbook]
      exact hacc x
    obtain ⟨hs₁, hv₁⟩ := noted_step hwf₁ (.total id (l₁.ram.totals id))
      { l₁.ram with totals := update l₁.ram.totals id (l₁.ram.totals id + delta) }
      (by simp [Restore.undo])
    refine Does.of_ok ((bind_ok hrun).trans (addTotal_run l₁ id delta))
      ⟨hs₁.wf, hext.trans hs₁.ext, hs₁.nonces.trans (funext fun x => ?_)⟩ ⟨?_, hval, hid⟩
    · rw [nonces, nonces, hrec]
    · rw [hv₁]
      refine View.ext (funext fun x => ?_) ?_ htok₁ ?_
      · exact congrArg Prod.snd (hrec x)
      · show (l₁.book V).holdings = _
        rw [hbook, hhold, hd]
        rfl
      · show ({ l₁.ram with totals := _ } : Ram) = _
        rw [hram]
        rfl

theorem creditToken_does (hwf : l.WF V) (a : Address) (id : ℕ) (amount : ℤ) :
    Does V l (creditToken V a id amount) fun _ v =>
      v = (l.view V).addToken id a amount ∧ 0 ≤ (l.view V).holdings id a + amount ∧
        (amount ≠ 0 → id < l.drive.tokens.length) := by
  rw [creditToken]
  split_ifs with h
  · subst h
    exact Does.of_ok rfl (Step.refl hwf)
      ⟨(View.addToken_zero _ _ _).symm, by simp, fun h => absurd rfl h⟩
  · rcases tokenBalance_run hwf a id with hbal | ⟨e, he⟩
    · have hset := setToken_does hwf a id ((l.view V).holdings id a + amount) amount rfl
      refine ⟨fun e l' h' => hset.error e l' (by rwa [bind_ok hbal] at h'), fun u l' h' => ?_⟩
      obtain ⟨hs, hv, hval, hid⟩ := hset.ok u l' (by rwa [bind_ok hbal] at h')
      exact ⟨hs, hv, hval, fun _ => hid⟩
    · exact Does.of_error (bind_error he)

theorem debitToken_does (hwf : l.WF V) (a : Address) (id : ℕ) (amount : ℤ) :
    Does V l (debitToken V a id amount) fun _ v =>
      v = (l.view V).addToken id a (-amount) ∧ amount ≤ (l.view V).holdings id a := by
  rw [debitToken]
  split_ifs with h
  · subst h
    exact Does.of_ok rfl (Step.refl hwf) ⟨(View.addToken_zero _ _ _).symm, by simp⟩
  · rcases tokenBalance_run hwf a id with hbal | ⟨e, he⟩
    · by_cases hlt : ((l.view V).holdings id a : ℤ) < amount
      · refine Does.of_error (e := .insufficientFunds "token balance") ?_
        rw [bind_ok hbal, if_pos hlt]
        rfl
      · have hset := setToken_does hwf a id ((l.view V).holdings id a - amount) (-amount) rfl
        refine ⟨fun e l' h' => hset.error e l' (by rwa [bind_ok hbal, if_neg hlt] at h'),
          fun u l' h' => ?_⟩
        obtain ⟨hs, hv, -⟩ := hset.ok u l' (by rwa [bind_ok hbal, if_neg hlt] at h')
        exact ⟨hs, hv, not_lt.1 hlt⟩
    · exact Does.of_error (bind_error he)

theorem facadesOf_append (tokens : List Token) (t : Token) :
    facadesOf V (tokens ++ [t]) =
      update (facadesOf V tokens) (V.l2TokenAddress t.address) (some tokens.length) := by
  rw [facadesOf, List.zipIdx_append, List.foldl_append]
  simp [facadesOf]

/-- The RAM after a registration. -/
def metadataRam (ram : Ram) (id : ℕ) : Option TokenMetadata → Ram
  | none => ram
  | some m => { ram with metadata := update ram.metadata id (some m) }

/-- The registration itself, before the metadata. -/
theorem register_run (hwf : l.WF V) (l1Token : Address) :
    (∃ e, (onDrive (Drive.registerToken V.platform l1Token 32)).run l = .error (.drive e) l) ∨
    ∃ d, (onDrive (Drive.registerToken V.platform l1Token 32)).run l =
        .ok l.drive.tokens.length { l with drive := d } ∧
      Drive.Valid V.platform d ∧ Later l.drive d ∧
      Drive.book V.platform d =
        { l.book V with tokens := l.drive.tokens ++ [⟨l1Token, 32⟩] } ∧
      l1Token ∉ l.drive.tokens.map Token.address := by
  have href := registerToken_refines hwf.drive l1Token 32
  have htok : (Drive.book V.platform l.drive).tokens = l.drive.tokens := rfl
  rw [Book.registerToken, htok] at href
  split_ifs at href with h1 h2 h3
  case neg =>
    obtain ⟨d, hrun, hv, hb, hl⟩ := href
    exact Or.inr ⟨d, onDrive_ok hrun, hv, hl, hb, h3⟩
  all_goals exact Or.inl ⟨_, onDrive_error href⟩

theorem registerToken_does (hwf : l.WF V) (l1Token : Address) (metadata : Option TokenMetadata) :
    Does V l (registerToken V l1Token metadata) fun r v =>
      r = (l.drive.tokens.length, V.l2TokenAddress l1Token) ∧
      v = { (l.view V).addTokenType l1Token with
        ram := metadataRam l.ram l.drive.tokens.length metadata } ∧
      l1Token ∉ l.drive.tokens.map Token.address := by
  rcases register_run hwf l1Token with ⟨e, he⟩ | ⟨d, hrun, hv, hl, hb, hnew⟩
  · exact Does.of_error (bind_error he)
  · set id := l.drive.tokens.length with hid
    have hdtok : d.tokens = l.drive.tokens ++ [⟨l1Token, 32⟩] := congrArg Book.tokens hb
    -- the ledger after the façade is noted
    set l₁ : Ledger := { l with
      drive := { d with store.entries := .facade (V.l2TokenAddress l1Token) :: d.store.entries }
      facades := update l.facades (V.l2TokenAddress l1Token) (some id) } with hl₁
    have hwf₁ : l₁.WF V := by
      refine ⟨valid_note hv _, ?_⟩
      show update l.facades _ _ = facadesOf V d.tokens
      rw [hdtok, facadesOf_append, hwf.facades]
    have hbook₁ : l₁.book V = { l.book V with tokens := l.drive.tokens ++ [⟨l1Token, 32⟩] } :=
      (book_note hv _).trans hb
    have hrec : ∀ x, l₁.record V x = l.record V x := fun x => by
      rw [record, hbook₁]
      rfl
    have hstep₁ : Step V l l₁ := by
      refine ⟨hwf₁, ?_, funext fun x => by rw [nonces, nonces, hrec]⟩
      exact (Extends.of_drive (f := l.facades) hl).trans (Extends.of_ram rfl)
    have hview₁ : l₁.view V = (l.view V).addTokenType l1Token := by
      refine View.ext (funext fun x => congrArg Prod.snd (hrec x)) ?_ hdtok rfl
      show (l₁.book V).holdings = (l.book V).holdings
      rw [hbook₁]
    cases metadata with
    | none => exact Does.of_ok (bind_ok hrun) hstep₁ ⟨rfl, hview₁, hnew⟩
    | some m =>
      obtain ⟨hs, hv₂⟩ := noted_step hwf₁ (.metadata id (l₁.ram.metadata id))
        (metadataRam l.ram id (some m)) (by simp [Restore.undo, metadataRam, hl₁])
      have hrun₂ : (registerToken V l1Token (some m)).run l =
          .ok (id, V.l2TokenAddress l1Token)
            (l₁.noted (.metadata id (l₁.ram.metadata id)) (metadataRam l.ram id (some m))) :=
        bind_ok hrun
      refine Does.of_ok hrun₂ (hstep₁.trans hs) ⟨rfl, ?_, hnew⟩
      rw [hv₂, hview₁]

end Ledger

end OpCartesi.App
