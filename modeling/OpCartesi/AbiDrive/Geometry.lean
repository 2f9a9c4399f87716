import OpCartesi.AbiDrive.Registry

/-!
# The geometry check of the ABI drive (`abidrive.go:78-82`)

`Format` computes the end of the index on 32 bits, so a capacity whose index is longer than that
passes the check with an end that has wrapped around. `abi-drive/js/src/index.ts:121` computes the
same end as a double, which is exact for 32-bit fields.

* `Intact`: what the calls wrote is still there.
* `Sound`: the index ends before the heap, the heap inside the drive, and no call overwrites what an
  earlier one wrote.
* `geometry_sound_iff_exact`: an accepted geometry is sound exactly if the index end did not wrap.
* `wrapped_index_overwritten`: a geometry that is accepted with an index of 4 GiB, and two
  registrations that succeed and destroy the first one's entry and text.
-/

namespace OpCartesi.Abi

open Exec
open Drive (Store DriveError LawfulStore MemStore)

section

variable {σ : Type} [Store σ] [LawfulStore σ] {s : σ} {cfg : Config} {d : AbiDrive σ}

/-- Every contract of the calls has its index entry in the index and its text where the entry
    says. -/
def Intact (d : AbiDrive σ) (calls : List Entry) : Prop :=
  ∀ e ∈ calls, ∃ i off, i < d.count ∧
    slice (image d) (headerLength + i * entryLength) entryLength =
      indexEntry e.address e.kind off e.abi.length ∧
    slice (image d) off e.abi.length = e.abi

/-- The index of `Capacity` entries ends at or before the heap, the heap lies inside the drive, and
    calls that all succeed leave everything they wrote in place. -/
structure Sound (cfg : Config) (d : AbiDrive σ) : Prop where
  index : headerLength + cfg.Capacity.toNat * entryLength ≤ cfg.HeapOffset.toNat
  heap : d.heapOffset = cfg.HeapOffset.toNat ∧ d.heapOffset + d.heapLength ≤ cfg.DriveLength.toNat
  intact : ∀ calls, (∀ r ∈ (run d calls).1, r = .ok ()) → Intact (run d calls).2 calls

omit [LawfulStore σ] in
theorem run_length (d : AbiDrive σ) (calls : List Entry) : (run d calls).1.length = calls.length := by
  induction calls generalizing d with
  | nil => rfl
  | cons e calls ih => exact congrArg Nat.succ (ih _)

theorem subset_recorded {es : List Entry} {e : Entry} (he : e ∈ es)
    (l : List (Entry × Except AbiError Unit)) : e ∈ recorded es l := by
  induction l generalizing es with
  | nil => exact he
  | cons x l ih =>
    obtain ⟨e', r⟩ := x
    cases r with
    | error err => exact ih he
    | ok u =>
      refine ih ?_
      unfold record
      split_ifs
      · exact he
      · exact List.mem_append_left _ he

/-- If every call was answered without an error, every contract is recorded. -/
theorem mem_recorded {es calls : List Entry} {answers : List (Except AbiError Unit)}
    (hlen : answers.length = calls.length) (hok : ∀ r ∈ answers, r = .ok ()) :
    ∀ e ∈ calls, e ∈ recorded es (calls.zip answers) := by
  induction calls generalizing es answers with
  | nil =>
    intro e he
    cases he
  | cons e' calls ih =>
    cases answers with
    | nil => cases hlen
    | cons r answers =>
      obtain rfl := hok r (List.mem_cons_self ..)
      intro e he
      rcases List.mem_cons.1 he with rfl | he
      · refine subset_recorded ?_ (calls.zip answers)
        unfold record
        split_ifs with hin
        · exact hin
        · exact List.mem_append_right _ (List.mem_singleton_self e)
      · exact ih (Nat.succ.inj hlen) (fun r hr => hok r (List.mem_cons_of_mem _ hr)) e he

/-- A drive that holds contracts has their entries and texts in place. -/
theorem Holds.intact {es calls : List Entry} (h : Holds d es) (hsub : ∀ e ∈ calls, e ∈ es) :
    Intact d calls := by
  intro e he
  obtain ⟨i, hi, hget⟩ := List.mem_iff_getElem.1 (hsub e he)
  have hget? : es[i]? = some e := by rw [List.getElem?_eq_getElem hi, hget]
  exact ⟨i, _, h.count ▸ hi, h.index i e hget?, h.texts i e hget?⟩

omit [LawfulStore σ] in
/-- What `Format` accepts: the two tests, and the drive it returns. -/
theorem format_accepts (hfmt : format s cfg = .ok d) :
    (headerLength + cfg.Capacity.toNat * entryLength) % 2 ^ 32 ≤ cfg.HeapOffset.toNat ∧
      cfg.HeapOffset.toNat < cfg.DriveLength.toNat ∧ d.heapOffset = cfg.HeapOffset.toNat ∧
      d.heapLength = cfg.DriveLength.toNat - cfg.HeapOffset.toNat := by
  rw [format] at hfmt
  dsimp only at hfmt
  split_ifs at hfmt with hbad
  rw [not_or, not_lt, not_le] at hbad
  split at hfmt
  · cases hfmt
  · cases hfmt
    exact ⟨hbad.1, hbad.2, rfl, rfl⟩

/-- A geometry that `Format` accepts is sound exactly if the end of the index fits 32 bits. -/
theorem geometry_sound_iff_exact (hsize : cfg.DriveLength.toNat ≤ LawfulStore.size s)
    (hfmt : format s cfg = .ok d) :
    Sound cfg d ↔ headerLength + cfg.Capacity.toNat * entryLength < 2 ^ 32 := by
  obtain ⟨hindex, hheap, hoffset, hlength⟩ := format_accepts hfmt
  have hlt := cfg.HeapOffset.toNat_lt
  constructor
  · intro h
    exact lt_of_le_of_lt h.index hlt
  · intro hexact
    rw [Nat.mod_eq_of_lt hexact] at hindex
    refine ⟨hindex, ⟨hoffset, by omega⟩, fun calls hok => ?_⟩
    obtain ⟨-, hholds, -⟩ := (format_holds hindex hsize hfmt).run calls
    exact hholds.intact (mem_recorded (run_length d calls) hok)

end

open Sample in
theorem geometry_sound_iff_exact_sample : Sound config drive :=
  (geometry_sound_iff_exact (by decide) format_config).2 (by decide)

namespace Sample

/-- An index of `2^27` entries is `2^32` bytes long, so that it seems to end where it starts. -/
def wrappedConfig : Config := ⟨256, 2 ^ 27, 64⟩

def wrappedDrive : AbiDrive MemStore where
  store := { store with bytes := blit store.bytes 0 (header (2 ^ 27) 64 192) }
  capacity := 2 ^ 27
  count := 0
  indexOffset := 64
  heapOffset := 64
  heapLength := 192
  heapUsed := 0
end Sample

open Sample in
/-- The index ends `2^32` bytes behind the heap's start. Both registrations succeed; the first text
    is gone once its own entry is written, and the second text destroys the first entry. -/
theorem wrapped_index_overwritten :
    format store wrappedConfig = .ok wrappedDrive ∧
      headerLength + wrappedConfig.Capacity.toNat * entryLength =
        wrappedConfig.HeapOffset.toNat + 2 ^ 32 ∧
      (run wrappedDrive [entry 1 0 4, entry 2 1 4]).1 = [.ok (), .ok ()] ∧
      slice (image (run wrappedDrive [entry 1 0 4]).2) 64 4 ≠ (entry 1 0 4).abi ∧
      slice (image (run wrappedDrive [entry 1 0 4, entry 2 1 4]).2) 64 20 ≠
        slice (image (run wrappedDrive [entry 1 0 4]).2) 64 20 :=
  ⟨rfl, by decide, by decide +kernel, by decide +kernel, by decide +kernel⟩

end OpCartesi.Abi
