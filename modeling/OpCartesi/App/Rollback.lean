import OpCartesi.App.Inputs
import OpCartesi.Drive.Along

/-!
# Rolling back to a mark

After a mark, operations may return or throw, and rollbacks to later marks may undo some of them,
with the caches rebuilt or not. Whatever happened, the rollback to the mark and `afterRollback`
give the ledger of the mark (`ledger.ts:41-87`, `ledger.ts:174-389`).

* `Ledger.Since l`: the ledgers that operations and rollbacks lead to after the mark taken at `l`.
* `along_operation`: every operation extends every ledger, also one whose caches do not match its
  bytes, and also when it throws between two writes.
* `Ledger.Current`: the caches are those the bytes give, as in every well-formed ledger.
* `rollback_exact`: bytes, caches, façade map and RAM are those of the mark.
-/

namespace OpCartesi.App

open Drive Exec

/-! ## The journaled store -/

instance : Std.Refl JournaledStore.Extends := ⟨JournaledStore.Extends.refl⟩

instance : IsTrans JournaledStore JournaledStore.Extends := ⟨fun _ _ _ => .trans⟩

/-- A before-image is noted for every write that is made. -/
theorem journaledStore_served : Served JournaledStore.Extends where
  readAt off n := by
    refine Along.of_same fun s => ?_
    by_cases h : off + n ≤ s.inner.len
    · rw [show (Store.readAt off n).run s = .ok _ s from LawfulStore.readAt_eq h]
      rfl
    · have hread : (Store.readAt off n).run s.inner = .error .bounds s.inner :=
        if_neg (by simpa [MemStore.inBounds] using h)
      rw [show (Store.readAt off n).run s = .error .bounds s from zoom_error hread]
      rfl
  writeAt off p := by
    intro s
    by_cases h : off + p.length ≤ s.inner.len
    · obtain ⟨s', hrun, -, -, hext⟩ := LawfulStore.writeAt_eq (s := s) h
      rw [hrun]
      exact hext
    · -- the before-image cannot be read, so nothing is noted or written
      have hread : (JournaledStore.onInner (Store.readAt off p.length)).run s = .error .bounds s :=
        zoom_error (if_neg (by simpa [MemStore.inBounds] using h))
      rw [show (Store.writeAt off p).run s = .error .bounds s from bind_error hread]
      exact JournaledStore.Extends.refl s

namespace Ledger

variable {V : Viem} {l l' : Ledger}

instance : Std.Refl Extends := ⟨Extends.refl⟩

instance : IsTrans Ledger Extends := ⟨fun _ _ _ => .trans⟩

theorem along_onDrive {α : Type} {x : DriveM JournaledStore α}
    (hx : Along (Kept JournaledStore.Extends) x) : Along Extends (onDrive x) := by
  refine hx.zoom fun l d h => ?_
  obtain ⟨es, he, hu⟩ := h.2
  exact ⟨h.1, es, he, hu l.ram⟩

/-- The façade map is rebuilt after a rollback, so a change of it needs no entry. -/
theorem along_facades (f : Ledger → Address → Option ℕ) :
    Along Extends (modify fun l => { l with facades := f l } : LedgerM PUnit) :=
  Along.modify fun _ => ⟨rfl, [], rfl, rfl⟩

/-- A computation that notes the value it then overwrites in RAM. -/
theorem along_ram {α : Type} {x : LedgerM α} {r : Ledger → Restore} {ram : Ledger → Ram}
    (hx : ∀ l, endState (x.run l) =
      { l with drive.store.entries := r l :: l.entries, ram := ram l, facades := l.facades })
    (hr : ∀ l m, (r l).undo (m, ram l) = some (m, l.ram)) : Along Extends x := by
  intro l
  rw [hx l]
  exact Extends.of_ram (hr l _)

/-! ## Operations -/

theorem along_account (a : Address) : Along Extends (account V a) := by
  refine (along_onDrive (along_getAccount journaledStore_served _ _)).bind fun found => ?_
  split
  · exact Along.pure _
  · exact Along.pure _

theorem along_tokenBalance (a : Address) (id : ℕ) : Along Extends (tokenBalance V a id) :=
  along_onDrive (along_getTokenBalance journaledStore_served _ _ _)

theorem along_setBalance (a : Address) (nonce balance : ℤ) :
    Along Extends (onDrive (Ts.setAccount V.platform a nonce balance)) :=
  along_onDrive (along_setAccount journaledStore_served _ _ _ _)

theorem along_addTotal (id : ℕ) (delta : ℤ) : Along Extends (addTotal id delta) := by
  refine along_ram (r := fun l => .total id (l.ram.totals id)) (fun l => rfl) fun l m => ?_
  simp only [Restore.undo, Function.update_idem, Function.update_eq_self]

theorem along_setMetadata (id : ℕ) (m : TokenMetadata) : Along Extends (setMetadata id m) := by
  refine along_ram (r := fun l => .metadata id (l.ram.metadata id)) (fun l => rfl) fun l m => ?_
  simp only [Restore.undo, Function.update_idem, Function.update_eq_self]

/-- What the source calls on a ledger between marks: the methods of handlers, and the charge. -/
inductive Operation (V : Viem) : {α : Type} → LedgerM α → Prop
  | method {α : Type} {x : LedgerM α} (hx : Method V x) : Operation V x
  | bumpNonceAndCharge (a : Address) (fee : ℤ) : Operation V (bumpNonceAndCharge V a fee)

theorem along_method {α : Type} {x : LedgerM α} (hx : Method V x) : Along Extends x := by
  cases hx with
  | account a => exact along_account a
  | tokenBalance a id => exact along_tokenBalance a id
  | creditEther a amount =>
    unfold creditEther
    split_ifs
    · exact Along.pure _
    · exact (along_account a).bind fun _ => along_setBalance _ _ _
  | debitEther a amount =>
    unfold debitEther
    split_ifs
    · exact Along.pure _
    · refine (along_account a).bind fun r => ?_
      split_ifs
      · exact Along.throw _
      · exact along_setBalance _ _ _
  | creditToken a id amount =>
    unfold creditToken
    split_ifs
    · exact Along.pure _
    · refine (along_tokenBalance a id).bind fun b => Along.bind (along_onDrive ?_) fun _ => ?_
      · exact along_setTokenBalance journaledStore_served _ _ _ _
      · exact along_addTotal _ _
  | debitToken a id amount =>
    unfold debitToken
    split_ifs
    · exact Along.pure _
    · refine (along_tokenBalance a id).bind fun b => ?_
      split_ifs
      · exact Along.throw _
      · refine Along.bind (along_onDrive ?_) fun _ => along_addTotal _ _
        exact along_setTokenBalance journaledStore_served _ _ _ _
  | registerToken l1Token m =>
    refine Along.bind (along_onDrive (along_registerToken journaledStore_served _ _ _)) fun id => ?_
    refine (along_facades _).bind fun _ => Along.bind ?_ fun _ => ?_
    · -- undoing this entry changes neither bytes nor RAM
      exact along_ram (r := fun _ => .facade (V.l2TokenAddress l1Token)) (fun l => rfl)
        fun _ _ => rfl
    · cases m with
      | none => exact Along.pure _
      | some m => exact (along_setMetadata _ _).bind fun _ => Along.pure _
  | setMetadata id m => exact along_setMetadata id m
  | registerPortal a kind =>
    refine along_ram (r := fun l => .portal a (l.ram.portals a)) (fun l => rfl) fun l m => ?_
    simp only [Restore.undo, Function.update_idem, Function.update_eq_self]
  | setFee fee => exact along_ram (r := fun l => .fee l.ram.fee) (fun l => rfl) fun _ _ => rfl
  | registerCrossDomain cfg =>
    exact along_ram (r := fun l => .crossDomain l.ram.crossDomainConfig) (fun l => rfl) fun _ _ => rfl
  | nextMessageNonce =>
    exact along_ram (r := fun l => .msgNonce l.ram.msgNonce) (fun l => rfl) fun _ _ => rfl
  | setMessageStatus hash status =>
    refine along_ram (r := fun l => .message hash (l.ram.messages hash)) (fun l => rfl)
      fun l m => ?_
    simp only [Restore.undo, Function.update_idem, Function.update_eq_self]

theorem along_operation {α : Type} {x : LedgerM α} (hx : Operation V x) : Along Extends x := by
  cases hx with
  | method hx => exact along_method hx
  | bumpNonceAndCharge a fee =>
    refine (along_account a).bind fun r => ?_
    split_ifs
    · exact Along.throw _
    · exact along_setBalance _ _ _

theorem along_afterRollback : Along Extends (afterRollback V) := by
  refine Along.bind (along_onDrive (along_reloadRegistry journaledStore_served _)) fun _ => ?_
  exact along_facades _

/-! ## Rollbacks -/

/-- A rollback that stops above a ledger leaves an extension of it. -/
theorem Extends.rollbackTo (h : Extends l l') {k : ℕ} (hk : l.entries.length ≤ k) :
    Extends l (endState ((Ledger.rollbackTo k).run l')) := by
  obtain ⟨hcfg, es, he, hu⟩ := h
  have hlen : l'.entries.length = es.length + l.entries.length := by rw [he, List.length_append]
  -- the entries down to `k` go, the others stay on top of those of `l`
  have hn : (es.take (l'.entries.length - k)).length = l'.entries.length - k := by
    rw [List.length_take]
    omega
  rw [← List.take_append_drop (l'.entries.length - k) es, undoAll_append] at hu
  obtain ⟨⟨m, ram⟩, htop, hrest⟩ := Option.bind_eq_some_iff.1 hu
  have hsplit : l'.entries =
      es.take (l'.entries.length - k) ++ (es.drop (l'.entries.length - k) ++ l.entries) := by
    conv_lhs => rw [he]
    rw [← List.append_assoc, List.take_append_drop]
  obtain ⟨f, hf⟩ := undoLoop_run hsplit htop
  rw [hn] at hf
  rw [Ledger.rollbackTo, bind_ok (get_run _), hf]
  exact ⟨hcfg, _, rfl, hrest⟩

/-- What operations, thrown or not, rollbacks to later marks and rebuilt caches lead to after the
    mark at `l`. -/
inductive Since (V : Viem) (l : Ledger) : Ledger → Prop
  | mark : Since V l l
  | call {α : Type} {x : LedgerM α} {l₁ : Ledger} (h : Since V l l₁) (hx : Operation V x) :
      Since V l (endState (x.run l₁))
  | rollback {l₁ : Ledger} (h : Since V l l₁) {k : ℕ} (hk : l.entries.length ≤ k) :
      Since V l (endState ((rollbackTo k).run l₁))
  | rebuild {l₁ : Ledger} (h : Since V l l₁) : Since V l (endState ((afterRollback V).run l₁))

theorem Since.ext (h : Since V l l') : Extends l l' := by
  induction h with
  | mark => exact Extends.refl l
  | call _ hx ih => exact ih.trans (along_operation hx _)
  | rollback _ hk ih => exact ih.rollbackTo hk
  | rebuild _ ih => exact ih.trans (along_afterRollback _)

/-- The registry cache and the façade map are those that the bytes give. -/
def Current (V : Viem) (l : Ledger) : Prop := (afterRollback V).run l = .ok () l

/-- They are in every well-formed ledger, so between the operations of every run from genesis. -/
theorem WF.current (hwf : l.WF V) : l.Current V := by
  obtain ⟨l₁, hr, ha⟩ := rollback_run hwf (Extends.refl l)
  have hnone : (rollbackTo l.entries.length).run l = .ok () l := by
    rw [Ledger.rollbackTo, bind_ok (get_run _), Nat.sub_self]
    rfl
  rw [hnone] at hr
  cases hr
  exact ha

/-- Rebuilding reads nothing of the caches it replaces. -/
theorem Current.rebuilt (h : l.Current V) (tokens : List Token) (colOff : List ℕ)
    (f : Address → Option ℕ) :
    (afterRollback V).run ⟨⟨l.drive.store, l.drive.cfg, tokens, colOff⟩, l.ram, f⟩ = .ok () l := by
  have hsame : (reloadRegistry V.platform).run
      (⟨l.drive.store, l.drive.cfg, tokens, colOff⟩ : Drive JournaledStore) =
        (reloadRegistry V.platform).run l.drive := rfl
  rw [Current, afterRollback] at h
  cases hreload : (reloadRegistry V.platform).run l.drive with
  | ok u d =>
    rw [hreload] at hsame
    rw [bind_ok (onDrive_ok hreload)] at h
    rw [afterRollback, bind_ok (onDrive_ok hsame)]
    exact h
  | error e d =>
    rw [bind_error (show (onDrive _).run l = _ from zoom_error hreload)] at h
    cases h

/-- The rollback to a mark, with the caches rebuilt, gives the ledger of the mark. -/
theorem rollback_exact {mark : ℕ} (hcur : l.Current V) (hmark : Ledger.mark.run l = .ok mark l)
    (h : Since V l l') :
    ∃ l₁, (rollbackTo mark).run l' = .ok () l₁ ∧ (afterRollback V).run l₁ = .ok () l := by
  obtain rfl : l.entries.length = mark := by
    cases hmark
    rfl
  obtain ⟨⟨store, cfg, tokens, colOff⟩, ram, facades⟩ := l'
  obtain ⟨hcfg, es, he, hu⟩ := h.ext
  obtain rfl : cfg = l.drive.cfg := hcfg
  obtain ⟨f, hf⟩ := undoLoop_run he hu
  refine ⟨⟨⟨l.drive.store, l.drive.cfg, tokens, colOff⟩, l.ram, f⟩, ?_, ?_⟩
  · rw [rollbackTo, bind_ok (get_run _), he, List.length_append, Nat.add_sub_cancel]
    exact hf
  · exact hcur.rebuilt tokens colOff f

/-- A credit and a registration are rolled back in two rounds, a credit on a stale cache between
    them. -/
theorem rollback_exact_sample : ∃ l l₁ l₂, inMemory Sample.viem = .ok l ∧
    l₁ = endState ((registerToken Sample.viem Sample.bob none).run
      (endState ((creditEther Sample.viem Sample.alice 5).run l))) ∧
    (rollbackTo 0).run (endState ((creditToken Sample.viem Sample.alice 0 7).run
      (endState ((rollbackTo 1).run l₁)))) = .ok () l₂ ∧
    (afterRollback Sample.viem).run l₂ = .ok () l := by
  obtain ⟨l, hf⟩ := fresh_exists Sample.viem
  have hempty : l.entries.length = 0 := by rw [hf.idle.entries]; rfl
  have hmark : Ledger.mark.run l = .ok 0 l := by rw [← hempty]; rfl
  have hsince := (((Since.mark (V := Sample.viem) (l := l)).call
    (.method (.creditEther Sample.alice 5))).call
    (.method (.registerToken Sample.bob none))).rollback (k := 1) (by omega)
  obtain ⟨l₂, h₁, h₂⟩ := rollback_exact hf.idle.wf.current hmark
    (hsince.call (.method (.creditToken Sample.alice 0 7)))
  exact ⟨l, _, l₂, hf.created, rfl, h₁, h₂⟩

end Ledger

end OpCartesi.App
