import OpCartesi.Common.Along
import OpCartesi.Drive.Config

/-!
# What every drive operation keeps

The operations touch the store through `ReadAt` and `WriteAt` only, and never the geometry. So a
preorder on stores that both move along is one that every operation moves along, on any drive
whatever its bytes, and also when the operation stops half-way.

* `Kept E`: the preorder on drives that a preorder `E` on stores gives.
* `along_setAccount`, `along_registerToken`, `along_setTokenBalance`, `along_reloadRegistry`:
  the operations move along it.
-/

namespace OpCartesi.Drive

open Exec

/-- `d'` has the geometry of `d` and a store `E`-after that of `d`. -/
def Kept {σ : Type} (E : σ → σ → Prop) (d d' : Drive σ) : Prop := d'.cfg = d.cfg ∧ E d.store d'.store

/-- Reads and writes of the store move along `E`. -/
structure Served {σ : Type} [Store σ] (E : σ → σ → Prop) : Prop where
  readAt : ∀ off n, Along E (Store.readAt off n : EStateM DriveError σ Bytes)
  writeAt : ∀ off p, Along E (Store.writeAt off p : EStateM DriveError σ Unit)

section

variable {σ : Type} {E : σ → σ → Prop} [Std.Refl E] [IsTrans σ E]

instance : Std.Refl (Kept E) := ⟨fun d => ⟨rfl, Std.Refl.refl d.store⟩⟩

instance : IsTrans (Drive σ) (Kept E) :=
  ⟨fun _ _ _ h h' => ⟨h'.1.trans h.1, IsTrans.trans _ _ _ h.2 h'.2⟩⟩

variable [Store σ] (hE : Served E) (P : Platform)
include hE

theorem along_readAt (off n : ℕ) : Along (Kept E) (readAt off n : DriveM σ Bytes) :=
  (hE.readAt off n).zoom fun _ _ h => ⟨rfl, h⟩

theorem along_writeAt (off : ℕ) (p : Bytes) : Along (Kept E) (writeAt off p : DriveM σ Unit) :=
  (hE.writeAt off p).zoom fun _ _ h => ⟨rfl, h⟩

theorem along_counter (off : ℕ) : Along (Kept E) (counter off : DriveM σ ℕ) :=
  (along_readAt hE _ _).bind fun _ => Along.pure _

theorem along_lookupLoop (g : Geometry) (t : Table) (key : Bytes) (h : ℕ) :
    ∀ n dist, Along (Kept E) (lookupLoop P g t key h n dist : DriveM σ (Option (ℕ × Bytes))) := by
  intro n
  induction n with
  | zero => intro dist; exact Along.pure _
  | succ n ih =>
    intro dist
    refine (along_readAt hE _ _).bind fun slot => (Along.check _).bind fun alive => ?_
    split_ifs
    · exact Along.pure _
    · exact Along.pure _
    · exact Along.pure _
    · exact ih _

theorem along_lookup (t : Table) (key : Bytes) :
    Along (Kept E) (lookup P t key : DriveM σ (Option (ℕ × Bytes))) := by
  refine Along.get.bind fun d => ?_
  split_ifs
  · exact Along.throw _
  · exact along_lookupLoop hE P _ _ _ _ _ _

theorem along_insertLoop (g : Geometry) (t : Table) :
    ∀ n carry h dist, Along (Kept E) (insertLoop P g t n carry h dist : DriveM σ Unit) := by
  intro n
  induction n with
  | zero => intro carry h dist; exact Along.throw _
  | succ n ih =>
    intro carry h dist
    refine (along_readAt hE _ _).bind fun slot => (Along.check _).bind fun alive => ?_
    split_ifs
    · refine (along_writeAt hE _ _).bind fun _ => (along_counter hE _).bind fun c => ?_
      exact along_writeAt hE _ _
    · exact (along_writeAt hE _ _).bind fun _ => ih _ _ _
    · exact ih _ _ _

theorem along_insert (t : Table) (record : Bytes) :
    Along (Kept E) (insert P t record : DriveM σ Unit) :=
  Along.get.bind fun _ => along_insertLoop hE P _ _ _ _ _ _

theorem along_removeLoop (g : Geometry) (t : Table) :
    ∀ n i, Along (Kept E) (removeLoop P g t n i : DriveM σ Unit) := by
  intro n
  induction n with
  | zero => intro i; exact Along.throw _
  | succ n ih =>
    intro i
    refine (along_readAt hE _ _).bind fun slot => (Along.check _).bind fun alive => ?_
    split_ifs
    · refine (along_writeAt hE _ _).bind fun _ => (along_counter hE _).bind fun c => ?_
      exact along_writeAt hE _ _
    · exact (along_writeAt hE _ _).bind fun _ => ih _

theorem along_remove (t : Table) (i : ℕ) : Along (Kept E) (remove P t i : DriveM σ Unit) :=
  Along.get.bind fun _ => along_removeLoop hE P _ _ _ _

/-! ## Accounts -/

theorem along_getAccount (addr : Address) :
    Along (Kept E) (getAccount P addr : DriveM σ (Option Account)) := by
  unfold getAccount
  split_ifs
  · exact Along.throw _
  · refine Along.get.bind fun d => (along_lookup hE P _ _).bind fun found => ?_
    split
    · exact Along.pure _
    · exact (Along.check _).bind fun _ => Along.pure _

theorem along_setRecord (addr : Address) (encoded : Geometry → Except DriveError Bytes) :
    Along (Kept E) (setRecord P addr encoded : DriveM σ Unit) := by
  unfold setRecord
  split_ifs
  · exact Along.throw _
  · refine Along.get.bind fun d => (Along.check _).bind fun record => ?_
    refine (along_lookup hE P _ _).bind fun found => ?_
    split
    · exact along_writeAt hE _ _
    · refine (along_counter hE _).bind fun n => ?_
      split_ifs
      · exact Along.throw _
      · exact along_insert hE P _ _

theorem along_setAccount (addr : Address) (nonce balance : ℤ) :
    Along (Kept E) (Ts.setAccount P addr nonce balance : DriveM σ Unit) :=
  along_setRecord hE P _ _

/-! ## Tokens -/

theorem along_registerToken (addr : Address) (width : ℕ) :
    Along (Kept E) (registerToken P addr width : DriveM σ ℕ) := by
  refine Along.get.bind fun d => ?_
  dsimp only
  split_ifs
  case neg =>
    refine (along_writeAt hE _ _).bind fun _ => (along_writeAt hE _ _).bind fun _ => ?_
    refine Along.bind (Along.modify ?_) fun _ => Along.pure _
    intro d
    exact ⟨rfl, Std.Refl.refl _⟩
  all_goals exact Along.throw _

theorem along_getTokenBalance (addr : Address) (id : ℕ) :
    Along (Kept E) (getTokenBalance P addr id : DriveM σ ℕ) := by
  unfold getTokenBalance
  split_ifs
  · exact Along.throw _
  refine Along.get.bind fun d => ?_
  split
  · exact Along.throw _
  split_ifs
  · refine (along_lookup hE P _ _).bind fun found => ?_
    split
    · exact Along.pure _
    · exact (Along.check _).bind fun _ => Along.pure _
  · refine (along_lookup hE P _ _).bind fun found => ?_
    split
    · exact Along.pure _
    · exact (Along.check _).bind fun _ => Along.pure _
  · exact Along.throw _

theorem along_setWideBalance (addr : Address) (off width : ℕ) (value : ℤ) :
    Along (Kept E) (setWideBalance P addr off width value : DriveM σ Unit) := by
  refine Along.get.bind fun d => (along_lookup hE P _ _).bind fun found => ?_
  split
  · split_ifs
    · exact Along.pure _
    · refine (along_counter hE _).bind fun n => ?_
      split_ifs
      · exact Along.throw _
      · exact along_insert hE P _ _
  · exact along_writeAt hE _ _

theorem along_setSparseBalance (addr : Address) (id : ℕ) (value : ℤ) :
    Along (Kept E) (setSparseBalance P addr id value : DriveM σ Unit) := by
  refine Along.get.bind fun d => (along_lookup hE P _ _).bind fun found => ?_
  split_ifs
  · split
    · exact Along.pure _
    · exact along_remove hE P _ _
  · split
    · exact (Along.check _).bind fun _ => along_writeAt hE _ _
    · refine (along_counter hE _).bind fun n => ?_
      split_ifs
      · exact Along.throw _
      · exact (Along.check _).bind fun _ => along_insert hE P _ _

theorem along_setTokenBalance (addr : Address) (id : ℕ) (value : ℤ) :
    Along (Kept E) (setTokenBalance P addr id value : DriveM σ Unit) := by
  unfold setTokenBalance
  split_ifs
  · exact Along.throw _
  refine Along.get.bind fun d => ?_
  split
  · exact Along.throw _
  split_ifs
  · exact Along.throw _
  · exact along_setWideBalance hE P _ _ _ _
  · exact along_setSparseBalance hE P _ _ _
  · exact Along.throw _

theorem along_reloadLoop (regOff : ℕ) :
    ∀ n i col, Along (Kept E) (reloadLoop P regOff n i col : DriveM σ Unit) := by
  intro n
  induction n with
  | zero => intro i col; exact Along.pure _
  | succ n ih =>
    intro i col
    refine (along_readAt hE _ _).bind fun e => ?_
    dsimp only
    split_ifs
    · exact Along.throw _
    · refine Along.bind (Along.modify ?_) fun _ => ih _ _
      intro d
      exact ⟨rfl, Std.Refl.refl _⟩

theorem along_reloadRegistry : Along (Kept E) (reloadRegistry P : DriveM σ Unit) := by
  refine Along.bind (Along.modify ?_) fun _ => Along.get.bind fun d => ?_
  · intro d
    exact ⟨rfl, Std.Refl.refl _⟩
  split_ifs
  · exact Along.pure _
  · refine (along_counter hE _).bind fun n => ?_
    split_ifs
    · exact Along.throw _
    · exact along_reloadLoop hE P _ _ _ _

end

end OpCartesi.Drive
