import OpCartesi.Drive.Basic

/-!
# What an accounts drive is for: the book

A `Book` is the abstract drive: a finite map from addresses to nonce and
balance, a balance for every token and address, and the list of registered
tokens. Its operations state the rules a drive enforces in these terms:

* a record's nonce and balance must fit the record, a token balance its token's
  width, a new record its table's load limit, a new token the registry and, in
  the wide profile, the slot;
* updating one key changes no other key (`update`);
* in the wide profile the token balances live in the account record, so deleting
  it clears them and setting one creates it;
* in the sparse profile every nonzero token balance is a record of its own table.

The order in which an operation's rules apply decides which error it reports.
-/

namespace OpCartesi.Drive

open Function (update update_apply update_eq_self update_of_ne update_self)

/-- The abstract drive. -/
@[ext]
structure Book where
  accounts : Address → Option (ℕ × ℕ)
  holdings : ℕ → Address → ℕ
  tokens : List Token

/-- The nonce and balance a record can hold. -/
def recordOf (g : Geometry) (nonce balance : ℤ) : Except DriveError (ℕ × ℕ) :=
  let nonceWidth := if g.compact then 4 else 8
  let balanceWidth := if g.compact then 8 else 32
  if 256 ^ nonceWidth ≤ nonce ∨ balance < 0 ∨ 256 ^ balanceWidth ≤ balance then .error .overflow
  else .ok (nonce.toNat, balance.toNat)

namespace Book

def empty : Book := ⟨fun _ => none, fun _ _ => 0, []⟩

/-- The number of account records. -/
def size (b : Book) : ℕ := (Finset.univ.filter fun a => (b.accounts a).isSome).card

/-- The number of nonzero token balances. -/
def holders (b : Book) : ℕ :=
  (Finset.univ.filter fun p : Fin b.tokens.length × Address => b.holdings p.1 p.2 ≠ 0).card

def setRecord (a : Address) (r : Option (ℕ × ℕ)) (b : Book) : Book :=
  { b with accounts := update b.accounts a r }

def setHolding (id : ℕ) (a : Address) (v : ℕ) (b : Book) : Book :=
  { b with holdings := update b.holdings id (update (b.holdings id) a v) }

/-- Forget every token balance of an address. -/
def clearHoldings (a : Address) (b : Book) : Book :=
  { b with holdings := fun id => update (b.holdings id) a 0 }

variable (g : Geometry)

/-! ## Reading -/

def getAccount (a : Address) (b : Book) : Except DriveError (Option Account) :=
  if isZero a.val then .error .zeroAddress
  else .ok ((b.accounts a).map fun r => ⟨a, r.1, r.2⟩)

def getTokenBalance (a : Address) (id : ℕ) (b : Book) : Except DriveError ℕ :=
  if isZero a.val then .error .zeroAddress
  else if b.tokens.length ≤ id then .error .unknownToken
  else if g.profile = profileSingleAsset then .error .profile
  else .ok (b.holdings id a)

/-! ## Writing -/

def setAccount (a : Address) (r : Except DriveError (ℕ × ℕ)) (b : Book) :
    Except DriveError (Unit × Book) :=
  if isZero a.val then .error .zeroAddress
  else
    match r with
    | .error e => .error e
    | .ok r =>
      if b.accounts a = none ∧ g.loadLimit ≤ b.size then .error .tableFull
      else .ok ((), b.setRecord a (some r))

def deleteAccount (a : Address) (force : Bool) (b : Book) : Except DriveError (Bool × Book) :=
  if isZero a.val then .error .zeroAddress
  else
    match b.accounts a with
    | none => .ok (false, b)
    | some (nonce, _) =>
      if force = false ∧ nonce ≠ 0 then .error .nonceProtected
      else if g.profile = profileWide then .ok (true, (b.setRecord a none).clearHoldings a)
      else .ok (true, b.setRecord a none)

def registerToken (a : Address) (width : ℕ) (b : Book) : Except DriveError (ℕ × Book) :=
  if g.registryOffset = 0 then .error .profile
  else if width ≠ 8 ∧ width ≠ 16 ∧ width ≠ 32 then .error .badWidth
  else if a ∈ b.tokens.map Token.address then .error .duplicateToken
  else if g.registryCapacity ≤ b.tokens.length then .error .registryFull
  else if g.profile = profileWide ∧ g.slotSize < columnsEnd b.tokens + width then
    .error .tableFull
  else if g.profile = profileSparse ∧ g.sparseSlotSize = 32 ∧ width ≠ 8 then .error .badWidth
  else if g.compact ∧ width ≠ 8 then .error .badWidth
  else .ok (b.tokens.length, { b with tokens := b.tokens ++ [⟨a, width⟩] })

/-- A token balance in the wide profile. -/
def setWide (a : Address) (id : ℕ) (value : ℤ) (b : Book) : Except DriveError (Unit × Book) :=
  if b.accounts a = none then
    if value = 0 then .ok ((), b)
    else if g.loadLimit ≤ b.size then .error .tableFull
    else .ok ((), (b.setRecord a (some (0, 0))).setHolding id a value.toNat)
  else .ok ((), b.setHolding id a value.toNat)

/-- A token balance in the sparse profile. -/
def setSparse (a : Address) (id : ℕ) (value : ℤ) (b : Book) : Except DriveError (Unit × Book) :=
  if value ≠ 0 ∧ b.holdings id a = 0 ∧ g.sparseLoadLimit ≤ b.holders then .error .tableFull
  else .ok ((), b.setHolding id a value.toNat)

def setTokenBalance (a : Address) (id : ℕ) (value : ℤ) (b : Book) :
    Except DriveError (Unit × Book) :=
  if isZero a.val then .error .zeroAddress
  else
    match b.tokens[id]? with
    | none => .error .unknownToken
    | some token =>
      if value < 0 ∨ 256 ^ token.width ≤ value then .error .overflow
      else if g.profile = profileWide then b.setWide g a id value
      else if g.profile = profileSparse then b.setSparse g a id value
      else .error .profile

/-! ## Operations that succeed -/

variable {g}

theorem setAccount_ok_iff {a : Address} {r : Except DriveError (ℕ × ℕ)} {b b' : Book} {u : Unit} :
    b.setAccount g a r = .ok (u, b') ↔ isZero a.val = false ∧ ∃ r', r = .ok r' ∧
      (b.accounts a = none → b.size < g.loadLimit) ∧ b' = b.setRecord a (some r') := by
  unfold setAccount
  cases h0 : isZero a.val with
  | true => simp
  | false =>
    cases r with
    | error e => simp
    | ok r =>
      simp only [Bool.false_eq_true, if_false, true_and]
      split_ifs with hfull
      · simp only [Except.ok.injEq, false_iff, not_exists, not_and]
        rintro r' rfl hroom
        exact absurd (hroom hfull.1) (not_lt.2 hfull.2)
      · have hroom : b.accounts a = none → b.size < g.loadLimit := fun hn =>
          not_le.1 fun hle => hfull ⟨hn, hle⟩
        constructor
        · intro h
          cases h
          exact ⟨r, rfl, hroom, rfl⟩
        · rintro ⟨r', hr, -, rfl⟩
          cases hr
          rfl

/-- Registering a token appends it, under the index it gets. -/
theorem registerToken_ok {a : Address} {width id : ℕ} {b b' : Book}
    (h : b.registerToken g a width = .ok (id, b')) :
    id = b.tokens.length ∧ b' = { b with tokens := b.tokens ++ [⟨a, width⟩] } := by
  unfold registerToken at h
  split_ifs at h
  cases h
  exact ⟨rfl, rfl⟩

/-- A token balance that is set is not negative, and at most an empty record is created for it. -/
theorem setTokenBalance_eq_ok {a : Address} {id : ℕ} {value : ℤ} {b b' : Book} {u : Unit}
    (h : b.setTokenBalance g a id value = .ok (u, b')) :
    0 ≤ value ∧ id < b.tokens.length ∧
      (b' = b.setHolding id a value.toNat ∨ b.accounts a = none ∧
        (b' = (b.setRecord a (some (0, 0))).setHolding id a value.toNat ∨
          g.profile = profileWide ∧ value = 0 ∧ b' = b)) := by
  unfold setTokenBalance at h
  cases h0 : isZero a.val with
  | true => simp [h0] at h
  | false =>
    cases ht : b.tokens[id]? with
    | none => simp [h0, ht] at h
    | some token =>
      simp only [h0, ht, Bool.false_eq_true, if_false] at h
      split_ifs at h with hval hw hs
      all_goals
        refine ⟨not_lt.1 (not_or.1 hval).1, (List.getElem?_eq_some_iff.1 ht).1, ?_⟩
      · unfold setWide at h
        split_ifs at h with hn hv0 <;> cases h
        · exact Or.inr ⟨hn, Or.inr ⟨hw, hv0, rfl⟩⟩
        · exact Or.inr ⟨hn, Or.inl rfl⟩
        · exact Or.inl rfl
      · unfold setSparse at h
        split_ifs at h
        cases h
        exact Or.inl rfl

/-- Setting a token balance changes no nonce and no native balance: at most it creates an empty
    record. In the wide profile an address without a record must have no token balances. -/
theorem setTokenBalance_ok {a : Address} {id : ℕ} {value : ℤ} {b b' : Book} {u : Unit}
    (hnone : g.profile = profileWide → b.accounts a = none → b.holdings id a = 0)
    (h : b.setTokenBalance g a id value = .ok (u, b')) :
    0 ≤ value ∧ id < b.tokens.length ∧ b'.tokens = b.tokens ∧
      b'.holdings = (b.setHolding id a value.toNat).holdings ∧
      ∀ x, (b'.accounts x).getD (0, 0) = (b.accounts x).getD (0, 0) := by
  obtain ⟨hval, hid, rfl | ⟨hn, rfl | ⟨hw, rfl, rfl⟩⟩⟩ := setTokenBalance_eq_ok h
  all_goals refine ⟨hval, hid, rfl, ?_⟩
  · exact ⟨rfl, fun _ => rfl⟩
  · refine ⟨rfl, fun x => ?_⟩
    simp only [setHolding, setRecord, update_apply]
    split_ifs with hx
    · rw [hx, hn]
      rfl
    · rfl
  · -- clearing a balance that is not there
    refine ⟨?_, fun _ => rfl⟩
    rw [setHolding, Int.toNat_zero, ← hnone hw hn, update_eq_self, update_eq_self]

/-- What setting a token balance leaves alone: the registry, every other token balance, and
    every account but one it creates empty. -/
theorem setTokenBalance_frame {a : Address} {id : ℕ} {value : ℤ} {b b' : Book} {u : Unit}
    (h : b.setTokenBalance g a id value = .ok (u, b')) :
    b'.tokens = b.tokens ∧
      (∀ j x, (j, x) ≠ (id, a) → b'.holdings j x = b.holdings j x) ∧
      ∀ x, b'.accounts x = b.accounts x ∨ b.accounts x = none ∧ b'.accounts x = some (0, 0) := by
  have hheld : ∀ (b : Book) (v : ℕ) j x, (j, x) ≠ (id, a) →
      (b.setHolding id a v).holdings j x = b.holdings j x := by
    intro b v j x hne
    show update b.holdings id (update (b.holdings id) a v) j x = _
    by_cases hj : j = id
    · have hx : x ≠ a := fun hx => hne (Prod.ext hj hx)
      rw [hj, update_self, update_of_ne hx]
    · rw [update_of_ne hj]
  obtain ⟨-, -, rfl | ⟨hn, rfl | ⟨-, -, rfl⟩⟩⟩ := setTokenBalance_eq_ok h
  · exact ⟨rfl, fun j x hne => hheld _ _ j x hne, fun _ => Or.inl rfl⟩
  · refine ⟨rfl, fun j x hne => hheld _ _ j x hne, fun x => ?_⟩
    simp only [setHolding, setRecord, update_apply]
    split_ifs with hx
    · exact Or.inr ⟨hx ▸ hn, rfl⟩
    · exact Or.inl rfl
  · exact ⟨rfl, fun _ _ _ => rfl, fun _ => Or.inl rfl⟩

end Book

end OpCartesi.Drive
