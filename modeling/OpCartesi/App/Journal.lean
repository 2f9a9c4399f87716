import OpCartesi.App.Router
import OpCartesi.Drive.Format
import OpCartesi.Drive.RefineTokens

/-!
# Rolling the ledger back

A ledger `l'` extends `l` when the journal of `l'` is that of `l` with entries on
top whose closures, run newest first, restore the bytes and the RAM of `l`. Every
ledger method extends its ledger, and so does any sequence of them.

* The journaled store is a lawful store, so every drive operation extends it.
* `Ledger.WF`: the drive is valid and the façade map is that of its registry.
* `Ledger.rollback_run`: rolling an extension of a well-formed ledger back and
  rebuilding the caches gives exactly that ledger.
-/

namespace OpCartesi.App

open Drive Exec

/-! ## Undoing entries -/

/-- What an entry's closure does to the bytes and the RAM; the façade map is rebuilt after. -/
def Restore.undo : Restore → MemStore × Ram → Option (MemStore × Ram)
  | .bytes off before, (m, r) =>
    if off + before.length ≤ m.len then some ({ m with bytes := blit m.bytes off before }, r)
    else none
  | .facade _, s => some s
  | .total id before, (m, r) => some (m, { r with totals := Function.update r.totals id before })
  | .metadata id before, (m, r) =>
    some (m, { r with metadata := Function.update r.metadata id before })
  | .portal key before, (m, r) =>
    some (m, { r with portals := Function.update r.portals key before })
  | .fee before, (m, r) => some (m, { r with fee := before })
  | .crossDomain before, (m, r) => some (m, { r with crossDomainConfig := before })
  | .msgNonce before, (m, r) => some (m, { r with msgNonce := before })
  | .message key before, (m, r) =>
    some (m, { r with messages := Function.update r.messages key before })

/-- Undo a list of entries, the first one first. -/
def undoAll : List Restore → MemStore × Ram → Option (MemStore × Ram)
  | [], s => some s
  | e :: es, s => (e.undo s).bind (undoAll es)

theorem undoAll_append (es es' : List Restore) (s : MemStore × Ram) :
    undoAll (es ++ es') s = (undoAll es s).bind (undoAll es') := by
  induction es generalizing s with
  | nil => rfl
  | cons e es ih =>
    rw [List.cons_append, undoAll, undoAll, Option.bind_assoc]
    exact congrArg _ (funext ih)

/-! ## The journaled store -/

namespace JournaledStore

theorem onInner_ok {α : Type} {x : EStateM DriveError MemStore α} {s : JournaledStore} {a : α}
    {m : MemStore} (h : x.run s.inner = .ok a m) :
    (onInner x).run s = .ok a { s with inner := m } := zoom_ok h

/-- `s'` has entries on top of those of `s` that take its bytes back, whatever the RAM. -/
def Extends (s s' : JournaledStore) : Prop :=
  ∃ es, s'.entries = es ++ s.entries ∧ ∀ r, undoAll es (s'.inner, r) = some (s.inner, r)

theorem Extends.refl (s : JournaledStore) : Extends s s := ⟨[], rfl, fun _ => rfl⟩

theorem Extends.trans {s t u : JournaledStore} (h : Extends s t) (h' : Extends t u) :
    Extends s u := by
  obtain ⟨es, he, hu⟩ := h
  obtain ⟨es', he', hu'⟩ := h'
  refine ⟨es' ++ es, by rw [he', he, List.append_assoc], fun r => ?_⟩
  rw [undoAll_append, hu', Option.bind_some, hu]

theorem writeAt_run {s : JournaledStore} {off : ℕ} {p : Bytes} (h : off + p.length ≤ s.inner.len) :
    (Store.writeAt off p).run s = .ok ()
      ⟨{ s.inner with bytes := blit s.inner.bytes off p },
        .bytes off (slice s.inner.bytes off p.length) :: s.entries⟩ := by
  have hread : (onInner (Store.readAt off p.length)).run s =
      .ok (slice s.inner.bytes off p.length) s := onInner_ok (LawfulStore.readAt_eq h)
  have hwrite : ∀ t : JournaledStore, t.inner = s.inner →
      (onInner (Store.writeAt off p)).run t =
        .ok () { t with inner := { s.inner with bytes := blit s.inner.bytes off p } } := by
    rintro t ht
    refine onInner_ok ?_
    rw [ht]
    exact if_pos (decide_eq_true h)
  show (onInner (Store.readAt off p.length) >>= _).run s = _
  rw [bind_ok hread, bind_ok (modify_run _ _)]
  exact hwrite _ rfl

instance : LawfulStore JournaledStore where
  image s := s.inner.bytes
  size s := s.inner.len
  Extends := Extends
  extends_refl := Extends.refl
  extends_trans := Extends.trans
  readAt_eq h := onInner_ok (LawfulStore.readAt_eq h)
  writeAt_eq {s off p} h := by
    refine ⟨_, writeAt_run h, rfl, rfl, [_], rfl, fun r => ?_⟩
    simp only [undoAll, Restore.undo]
    rw [if_pos (by rw [slice_length]; exact h), Option.bind_some, blit_slice_blit]

end JournaledStore

/-! ## The ledger -/

namespace Ledger

/-- The invariant of a ledger. -/
structure WF (V : Viem) (l : Ledger) : Prop where
  drive : Drive.Valid V.platform l.drive
  facades : l.facades = facadesOf V l.drive.tokens

/-- `l'` is a later state of `l` from which the journal leads back to `l`. -/
structure Extends (l l' : Ledger) : Prop where
  cfg : l'.drive.cfg = l.drive.cfg
  undo : ∃ es, l'.entries = es ++ l.entries ∧
    undoAll es (l'.drive.store.inner, l'.ram) = some (l.drive.store.inner, l.ram)

theorem Extends.refl (l : Ledger) : Extends l l := ⟨rfl, [], rfl, rfl⟩

theorem Extends.trans {l l' l'' : Ledger} (h : Extends l l') (h' : Extends l' l'') :
    Extends l l'' := by
  obtain ⟨es, he, hu⟩ := h.undo
  obtain ⟨es', he', hu'⟩ := h'.undo
  refine ⟨h'.cfg.trans h.cfg, es' ++ es, by rw [he', he, List.append_assoc], ?_⟩
  rw [undoAll_append, hu', Option.bind_some, hu]

/-- A step of the drive. -/
theorem Extends.of_drive {l : Ledger} {d : Drive JournaledStore} {f : Address → Option ℕ}
    (h : Later l.drive d) : Extends l { l with drive := d, facades := f } := by
  obtain ⟨es, he, hu⟩ := h.store
  exact ⟨h.cfg, es, he, hu l.ram⟩

/-- A step of the RAM with the entry that takes it back. -/
theorem Extends.of_ram {l : Ledger} {r : Restore} {ram : Ram} {f : Address → Option ℕ}
    (h : r.undo (l.drive.store.inner, ram) = some (l.drive.store.inner, l.ram)) :
    Extends l { l with drive.store.entries := r :: l.entries, ram := ram, facades := f } :=
  ⟨rfl, [r], rfl, by rw [undoAll]; show (r.undo (l.drive.store.inner, ram)).bind _ = _; rw [h]; rfl⟩

theorem onDrive_ok {α : Type} {x : DriveM JournaledStore α} {l : Ledger} {a : α}
    {d : Drive JournaledStore} (h : x.run l.drive = .ok a d) :
    (onDrive x).run l = .ok a { l with drive := d } := zoom_ok h

theorem onDrive_error {α : Type} {x : DriveM JournaledStore α} {l : Ledger} {e : DriveError}
    (h : x.run l.drive = .error e l.drive) : (onDrive x).run l = .error (.drive e) l := zoom_error h

/-! ## Rollback -/

/-- Running one closure. -/
theorem restore_run {r : Restore} {l : Ledger} {m : MemStore} {ram : Ram}
    (h : r.undo (l.drive.store.inner, l.ram) = some (m, ram)) :
    ∃ f, (restore r).run l = .ok () ⟨{ l.drive with store := ⟨m, l.entries⟩ }, ram, f⟩ := by
  cases r with
  | bytes off before =>
    simp only [Restore.undo] at h
    split_ifs at h with hin
    cases h
    refine ⟨l.facades, ?_⟩
    have hw : (JournaledStore.onInner (Store.writeAt off before)).run l.drive.store =
        .ok () { l.drive.store with inner :=
          { l.drive.store.inner with bytes := blit l.drive.store.inner.bytes off before } } :=
      JournaledStore.onInner_ok (if_pos (decide_eq_true hin))
    exact onDrive_ok (zoom_ok hw)
  | facade l2Token =>
    cases h
    exact ⟨_, rfl⟩
  | _ =>
    cases h
    exact ⟨l.facades, rfl⟩

/-- Undoing the entries above `base`. -/
theorem undoLoop_run {es base : List Restore} {l : Ledger} {m : MemStore} {ram : Ram}
    (he : l.entries = es ++ base)
    (hu : undoAll es (l.drive.store.inner, l.ram) = some (m, ram)) :
    ∃ f, (undoLoop es.length).run l = .ok () ⟨{ l.drive with store := ⟨m, base⟩ }, ram, f⟩ := by
  induction es generalizing l with
  | nil =>
    obtain ⟨⟨⟨inner, entries⟩, cfg, tokens, colOff⟩, lram, facades⟩ := l
    cases hu
    obtain rfl : entries = base := he
    exact ⟨facades, rfl⟩
  | cons e es ih =>
    obtain ⟨⟨m', ram'⟩, hs, hrest⟩ := Option.bind_eq_some_iff.1 hu
    obtain ⟨f, hf⟩ := restore_run (r := e) (l := { l with drive.store.entries := es ++ base }) hs
    obtain ⟨g, hg⟩ := ih (l := ⟨{ l.drive with store := ⟨m', es ++ base⟩ }, ram', f⟩) rfl hrest
    refine ⟨g, ?_⟩
    rw [List.length_cons, undoLoop, bind_ok (get_run _)]
    simp only [he, List.cons_append]
    rw [bind_ok (set_run _ _)]
    exact (bind_ok hf).trans hg

/-- Undoing an extension of a ledger and rebuilding its caches gives the ledger back. -/
theorem rollback_run {V : Viem} {l l' : Ledger} (hwf : WF V l) (h : Extends l l') :
    ∃ l₁, (rollbackTo l.entries.length).run l' = .ok () l₁ ∧
      (afterRollback V).run l₁ = .ok () l := by
  obtain ⟨⟨store, cfg, tokens, colOff⟩, ram, facades⟩ := l'
  obtain ⟨hcfg, es, he, hu⟩ := h
  obtain rfl : cfg = l.drive.cfg := hcfg
  obtain ⟨f, hf⟩ := undoLoop_run he hu
  refine ⟨⟨⟨l.drive.store, l.drive.cfg, tokens, colOff⟩, l.ram, f⟩, ?_, ?_⟩
  · rw [rollbackTo, bind_ok (get_run _), he, List.length_append, Nat.add_sub_cancel]
    exact hf
  · have hreload : (reloadRegistry V.platform).run
        (⟨l.drive.store, l.drive.cfg, tokens, colOff⟩ : Drive JournaledStore) = .ok () l.drive :=
      reloadRegistry_run (d := ⟨l.drive.store, l.drive.cfg, tokens, colOff⟩)
        hwf.drive.geometry hwf.drive.registry
    rw [afterRollback, bind_ok (onDrive_ok hreload), rebuildFacades, modify_run]
    simp only [← hwf.facades]

end Ledger

end OpCartesi.App
