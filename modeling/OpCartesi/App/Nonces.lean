import OpCartesi.App.Inputs
import OpCartesi.Drive.Geometry

/-!
# Nonces that do not fit their field

The TypeScript drive takes nonces as BigInts and stores them with `setUint32` and
`setBigUint64` (`drive.ts:619-634`), which reduce them modulo the width of the field. Only the
compact record refuses a nonce that is too large, and neither refuses a negative one.

* `Ts.encodeAccount_cases`: what the encoder makes of any integers.
* `Ts.setAccount_honest_iff`: `setAccount` throws or stores what it was given exactly when the
  balance is refused or the nonce fits.
* `Ledger.bump_honest_iff`: `bumpNonceAndCharge` lowers no nonce exactly when the successor of
  the nonce fits.
-/

namespace OpCartesi

open Exec

namespace Drive

/-- The balance is refused, or the nonce is one that the record can hold or refuses. -/
def Ts.Honoured (g : Geometry) (nonce balance : ℤ) : Prop :=
  balance < 0 ∨ 256 ^ (if g.compact then 8 else 32) ≤ balance ∨
    0 ≤ nonce ∧ (g.compact = true ∨ nonce < 2 ^ 64)

/-- A call of `setAccount` throws and changes nothing, or `getAccount` then returns what it was
    given. -/
def Ts.Honest {σ : Type} [Store σ] (P : Platform) (d : Drive σ) (a : Address)
    (nonce balance : ℤ) : Prop :=
  (∃ e, (Ts.setAccount P a nonce balance).run d = .error e d) ∨
  ∃ d' acc, (Ts.setAccount P a nonce balance).run d = .ok () d' ∧
    (getAccount P a).run d' = .ok (some acc) d' ∧
    (acc.nonce : ℤ) = nonce ∧ (acc.balance : ℤ) = balance

/-- The encoder on any integers: a refusal, or a record with some nonce. -/
theorem Ts.encodeAccount_cases (g : Geometry) (a : Address) (nonce balance : ℤ) :
    (Encodes g a (Ts.encodeAccount g a nonce balance) (.error .overflow) ∧
      Ts.Honoured g nonce balance) ∨
    ∃ n : ℕ, Encodes g a (Ts.encodeAccount g a nonce balance) (.ok (n, balance.toNat)) ∧
      0 ≤ balance ∧ ((n : ℤ) = nonce ↔ Ts.Honoured g nonce balance) ∧
      (nonce = 2 ^ 64 → n = 0) := by
  rw [Ts.encodeAccount, putBE, putBE, Ts.Honoured]
  cases hc : g.compact with
  | true =>
    simp only [if_true, true_or, and_true]
    by_cases h1 : 0xffffffff < nonce
    · rw [if_pos h1]
      exact Or.inl ⟨rfl, by omega⟩
    by_cases h2 : balance < 0 ∨ 256 ^ 8 ≤ balance
    · rw [if_neg h1, if_pos h2]
      exact Or.inl ⟨rfl, by omega⟩
    rw [if_neg h1, if_neg h2]
    generalize hn : ((if nonce < 0 then -(toNumber nonce.natAbs : ℤ)
      else (toNumber nonce.natAbs : ℤ)) % 2 ^ 32).toNat = n
    obtain ⟨hl, ha, hf⟩ := compactRecord_spec hc a (leBytes_length 4 n)
      (beBytes_length 8 balance.toNat)
    have hlt : n < 256 ^ 4 := by omega
    refine Or.inr ⟨n, ⟨hl, ha, ?_⟩, by omega, ?_, by omega⟩
    · rw [hf, beNat_beBytes_toNat (by omega), leNat_leBytes_of_lt hlt]
    · constructor
      · intro h
        omega
      · intro h
        have h0 : 0 ≤ nonce := by omega
        rw [if_neg (by omega), toNumber_eq (by omega), Int.natAbs_of_nonneg h0] at hn
        omega
  | false =>
    simp only [Bool.false_eq_true, if_false, false_or]
    by_cases h2 : balance < 0 ∨ 256 ^ 32 ≤ balance
    · rw [if_pos h2]
      exact Or.inl ⟨rfl, by omega⟩
    rw [if_neg h2]
    obtain ⟨hl, ha, hf⟩ := standardRecord_spec hc a (leBytes_length 8 (nonce % 2 ^ 64).toNat)
      (beBytes_length 32 balance.toNat)
    refine Or.inr ⟨(nonce % 2 ^ 64).toNat, ⟨hl, ha, ?_⟩, by omega, ?_, by omega⟩
    · rw [hf, beNat_beBytes_toNat (by omega), leNat_leBytes_of_lt (by omega)]
    · omega

section

variable {σ : Type} [Store σ] [LawfulStore σ] {P : Platform} {d : Drive σ}

/-- The nonce law of `setAccount`, for an address that has a record or for which there is
    room. -/
theorem Ts.setAccount_honest_iff (hv : Valid P d) {a : Address} (h0 : isZero a.val = false)
    (hroom : accountOf P d a = none → (accountsTable d.cfg).count d.image < d.cfg.loadLimit)
    (nonce balance : ℤ) :
    Ts.Honest P d a nonce balance ↔ Ts.Honoured d.cfg nonce balance := by
  rcases Ts.encodeAccount_cases d.cfg a nonce balance with ⟨henc, hh⟩ | ⟨n, henc, hb, hn, -⟩
  · have href : Refines P d (Ts.setAccount P a nonce balance)
        ((book P d).setAccount d.cfg a (.error .overflow)) := setRecord_refines hv henc
    have hspec : (book P d).setAccount d.cfg a (.error .overflow) = .error .overflow := by
      rw [Book.setAccount, if_neg (by simp [h0])]
    rw [hspec] at href
    exact ⟨fun _ => hh, fun _ => Or.inl ⟨_, href⟩⟩
  · have href : Refines P d (Ts.setAccount P a nonce balance)
        ((book P d).setAccount d.cfg a (.ok (n, balance.toNat))) := setRecord_refines hv henc
    have hspec := (Book.setAccount_ok_iff (u := ())).2 ⟨h0, (n, balance.toNat), rfl,
      fun hnone => (size_eq hv).trans_lt (hroom hnone), rfl⟩
    rw [hspec] at href
    obtain ⟨d', hrun, hv', hbook, -⟩ := href
    have hget : (getAccount P a).run d' = .ok (some ⟨a, n, balance.toNat⟩) d' := by
      rw [getAccount_refines hv', hbook, Book.getAccount, if_neg (by simp [h0]), Book.setRecord]
      simp only [Function.update_self, Option.map_some]
      rfl
    rw [← hn]
    constructor
    · rintro (⟨e, he⟩ | ⟨d₁, acc, hrun₁, hget₁, hnonce, -⟩)
      · rw [hrun] at he
        cases he
      · rw [hrun] at hrun₁
        cases hrun₁
        rw [hget] at hget₁
        cases hget₁
        exact hnonce
    · intro hnonce
      exact Or.inr ⟨d', _, hrun, hget, hnonce, Int.toNat_of_nonneg hb⟩

end

end Drive

namespace App.Ledger

open Drive

variable {V : Viem} {l : Ledger}

/-- The charge of a transaction lowers no nonce exactly when the successor of its sender's nonce
    fits the record, or the write is refused. -/
theorem bump_honest_iff (hwf : l.WF V) (a : Address) (fee : ℤ) :
    (∀ x, l.nonces V x ≤ (endState ((bumpNonceAndCharge V a fee).run l)).nonces V x) ↔
      Ts.Honoured l.drive.cfg (l.nonces V a + 1) ((l.view V).balances a - fee) := by
  by_cases hn : l.nonces V a + 1 < 2 ^ 64
  · refine iff_of_true (fun x => ?_) (Or.inr (Or.inr ⟨by omega, Or.inr (by exact_mod_cast hn)⟩))
    rcases bump_run hwf a fee hn with ⟨-, e, he⟩ | ⟨-, l', hrun, -, -, hram, htok, hbook⟩
    · rw [he]
      exact le_rfl
    · rw [hrun, endState_ok, (of_setRecord hbook hram htok).1, Function.update_apply]
      split_ifs with hx
      · rw [hx]
        omega
      · exact le_rfl
  -- the nonce is the largest one a record can hold
  have hlt := nonces_lt hwf a
  have hmax : ((l.record V a).1 : ℤ) + 1 = 2 ^ 64 := by
    rw [nonces] at hn hlt
    omega
  have hsome : (l.book V).accounts a ≠ none := by
    intro hnone
    rw [nonces, record, hnone] at hn
    exact hn (by norm_num)
  have h0 : isZero a.val = false := by
    by_contra hz
    refine hsome ?_
    show accountOf V.platform l.drive a = none
    rw [accountOf, getAccount_zero (by simpa using hz)]
  have hacc := account_run hwf a
  rw [h0, if_neg Bool.false_ne_true] at hacc
  have hrun : (bumpNonceAndCharge V a fee).run l =
      (if ((l.record V a).2 : ℤ) < fee then throw (.insufficientFunds "fee")
        else onDrive (Ts.setAccount V.platform a ((l.record V a).1 + 1)
          ((l.record V a).2 - fee)) : LedgerM Unit).run l := by
    rw [bumpNonceAndCharge, bind_ok hacc]
  rw [hrun]
  show _ ↔ Ts.Honoured l.drive.cfg ((l.record V a).1 + 1) ((l.record V a).2 - fee)
  split_ifs with hfee
  · exact iff_of_true (fun x => le_rfl) (Or.inl (by omega))
  rcases Ts.encodeAccount_cases l.drive.cfg a ((l.record V a).1 + 1) ((l.record V a).2 - fee) with
    ⟨henc, hh⟩ | ⟨n, henc, hb, hiff, hzero⟩
  · have href : Refines V.platform l.drive (Ts.setAccount V.platform a ((l.record V a).1 + 1)
        ((l.record V a).2 - fee))
        ((Drive.book V.platform l.drive).setAccount l.drive.cfg a (.error .overflow)) :=
      setRecord_refines hwf.drive henc
    rw [Book.setAccount, if_neg (by simp [h0])] at href
    rw [onDrive_error href]
    exact iff_of_true (fun x => le_rfl) hh
  · have href : Refines V.platform l.drive (Ts.setAccount V.platform a ((l.record V a).1 + 1)
        ((l.record V a).2 - fee)) ((Drive.book V.platform l.drive).setAccount l.drive.cfg a
          (.ok (n, ((l.record V a).2 - fee).toNat))) := setRecord_refines hwf.drive henc
    have hspec : (Drive.book V.platform l.drive).setAccount l.drive.cfg a
        (.ok (n, ((l.record V a).2 - fee).toNat)) = .ok ((), (l.book V).setRecord a
          (some (n, ((l.record V a).2 - fee).toNat))) :=
      Book.setAccount_ok_iff.2 ⟨h0, _, rfl, fun hnone => absurd hnone hsome, rfl⟩
    rw [hspec] at href
    obtain ⟨l', hrun', -, -, hbook, hram, htok⟩ := onDrive_of_ok hwf href rfl
    rw [hrun', endState_ok, ← hiff, hzero hmax, (of_setRecord hbook hram htok).1]
    refine iff_of_false (fun h => ?_) (by omega)
    have hself := h a
    rw [Function.update_self, hzero hmax] at hself
    omega

/-- The nonce law, of the drive and of the charge. -/
theorem nonce_width_law_iff {σ : Type} [Store σ] [LawfulStore σ] {d : Drive σ}
    {keccak256 : Bytes → Bytes → Bytes} (hv : Valid (Ts.platform keccak256) d) {a : Address}
    (h0 : isZero a.val = false)
    (hroom : accountOf (Ts.platform keccak256) d a = none →
      (accountsTable d.cfg).count d.image < d.cfg.loadLimit)
    (nonce balance : ℤ) (hwf : l.WF V) (sender : Address) (fee : ℤ) :
    (Ts.Honest (Ts.platform keccak256) d a nonce balance ↔
      Ts.Honoured d.cfg nonce balance) ∧
    ((∀ x, l.nonces V x ≤ (endState ((bumpNonceAndCharge V sender fee).run l)).nonces V x) ↔
      Ts.Honoured l.drive.cfg (l.nonces V sender + 1) ((l.view V).balances sender - fee)) :=
  ⟨Ts.setAccount_honest_iff hv h0 hroom nonce balance, bump_honest_iff hwf sender fee⟩

theorem sample_format : Ts.format (fun _ key => key) Go.sampleStore Go.sampleConfig.toConfig =
    .ok (Go.blank Go.sampleConfig) := by
  have hr : Go.sampleConfig.toConfig.InRange (Ts.platform fun _ key => key) := by
    constructor <;> decide
  obtain ⟨s, hs, himg, hsize, -⟩ := format_header hr (by decide) (s := Go.sampleStore)
    (fun _ => rfl) rfl
  have hstore : s = (Go.blank Go.sampleConfig).store := by
    cases s
    exact congrArg₂ MemStore.mk hsize himg
  rw [hstore] at hs
  exact hs

theorem sample_valid : Valid (Ts.platform fun _ key => key) (Go.blank Go.sampleConfig) := by
  have hr : Go.sampleConfig.toConfig.InRange (Ts.platform fun _ key => key) := by
    constructor <;> decide
  obtain ⟨d, hd, hv, -⟩ := format_run hr ⟨by decide, fun _ => by decide⟩ (by decide)
    (s := Go.sampleStore) (fun _ => rfl) rfl
  rw [show format _ _ _ = _ from sample_format] at hd
  cases hd
  exact hv

theorem nonce_width_law_iff_sample :
    Ts.Honest (Ts.platform fun _ key => key) (Go.blank Go.sampleConfig) Go.sampleAddress
      (2 ^ 64 - 1) 5 := by
  obtain ⟨l, hl⟩ := fresh_exists Sample.viem
  exact (nonce_width_law_iff sample_valid (by decide) (fun _ => by decide +kernel) _ _ hl.idle.wf
    Sample.alice 0).1.2 (Or.inr (Or.inr ⟨by norm_num, Or.inr (by norm_num)⟩))

/-- The nonce `2^64` is stored as zero, and so is the successor of `2^64 - 1`. -/
theorem nonce_wraps :
    (Ts.format (fun _ key => key) Go.sampleStore Go.sampleConfig.toConfig =
        .ok (Go.blank Go.sampleConfig) ∧
      let P := Ts.platform fun _ key => key
      ∃ d', (Ts.setAccount P Go.sampleAddress (2 ^ 64) 5).run (Go.blank Go.sampleConfig) =
          .ok () d' ∧
        answer ((getAccount P Go.sampleAddress).run d') = .ok (some ⟨Go.sampleAddress, 0, 5⟩)) ∧
    ∃ l l₁, inMemory Sample.viem = .ok l ∧
      (onDrive (Ts.setAccount Sample.viem.platform Sample.alice (2 ^ 64 - 1) 0)).run l = .ok () l₁ ∧
      ∃ x, (endState ((bumpNonceAndCharge Sample.viem Sample.alice 0).run l₁)).nonces Sample.viem x <
        l₁.nonces Sample.viem x := by
  refine ⟨⟨sample_format, _, eq_of_answer_ok (by decide +kernel), by decide +kernel⟩, ?_⟩
  obtain ⟨l, hl⟩ := fresh_exists Sample.viem
  have halice : isZero Sample.alice.val = false := by decide
  rcases setAccount_run hl.idle.wf Sample.alice (2 ^ 64 - 1) 0 (by norm_num) (by norm_num) with
    ⟨hbad, -⟩ | ⟨-, -, l₁, hrun, hwf, hext, hbook, hram, htok⟩
  · exact absurd (hl.room.writable (by norm_num) halice (by norm_num) le_rfl (by norm_num)) hbad
  · refine ⟨l, l₁, hl.created, hrun, ?_⟩
    by_contra hnone
    have hkeep := (bump_honest_iff hwf Sample.alice 0).1 fun x =>
      not_lt.1 fun hx => hnone ⟨x, hx⟩
    obtain ⟨hnonces, hview⟩ := of_setRecord hbook hram htok
    rw [hnonces, hview, hext.cfg, hl.cfg, Ts.Honoured] at hkeep
    simp only [Function.update_self] at hkeep
    have hcompact : DEVNET_DRIVE_CONFIG.defaults.geometry.compact = false := by decide
    rw [hcompact] at hkeep
    norm_num at hkeep

end App.Ledger

end OpCartesi
