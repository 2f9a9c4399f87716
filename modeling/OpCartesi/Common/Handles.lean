import Mathlib

/-!
# Linear handles

A program opens handles, uses them and closes them. Its log is tidy when every handle is closed at
most once, nothing is done with a handle after it is closed, and every handle that is open has one
owner.

* `Event`: what a program does with a handle.
* `Linear log live`: the log is tidy, and `live` lists the open handles.
* `Linear.opens`, `Linear.uses`, `Linear.closes`: one rule for each kind of event.
* `Linear.open_or_closed`: what the log says of every handle that was opened.
-/

namespace OpCartesi.Handles

variable {η : Type}

/-- What a program does with a handle. -/
inductive Event (η : Type)
  | opens (h : η)
  | uses (h : η)
  | closes (h : η)
  deriving DecidableEq

/-- The handle of an event. -/
def Event.handle : Event η → η
  | .opens h => h
  | .uses h => h
  | .closes h => h

/-- A handle that has been closed does not occur again. -/
def Retired (log : List (Event η)) : Prop :=
  log.Pairwise fun e e' => ∀ h, e = .closes h → e'.handle ≠ h

/-- The log is tidy, and `live` lists the handles that are open. -/
structure Linear (log : List (Event η)) (live : List η) : Prop where
  nodup : live.Nodup
  mem_iff : ∀ h, h ∈ live ↔ .opens h ∈ log ∧ .closes h ∉ log
  retired : Retired log

variable {log : List (Event η)} {live : List η} {h : η}

theorem Retired.snoc (hr : Retired log) {e : Event η} (he : .closes e.handle ∉ log) :
    Retired (log ++ [e]) := by
  refine List.pairwise_append.2 ⟨hr, List.pairwise_singleton _ _, ?_⟩
  intro d hd e' he' h hclose heq
  rw [List.mem_singleton.1 he'] at heq
  subst hclose heq
  exact he hd

/-- A handle is closed at most once. -/
theorem Retired.count_le [DecidableEq η] (hr : Retired log) (h : η) :
    log.count (.closes h) ≤ 1 := by
  induction log with
  | nil => exact Nat.zero_le 1
  | cons e log ih =>
    obtain ⟨hfirst, hrest⟩ := List.pairwise_cons.1 hr
    by_cases he : e = .closes h
    · have hnone : Event.closes h ∉ log := fun hmem => hfirst _ hmem h he rfl
      rw [he, List.count_cons_self, List.count_eq_zero_of_not_mem hnone]
    · rw [List.count_cons_of_ne he]
      exact ih hrest

namespace Linear

theorem start (h : η) : Linear [.opens h] [h] := by
  refine ⟨List.nodup_singleton h, fun h' => ?_, List.pairwise_singleton _ _⟩
  simp

theorem perm {live' : List η} (hl : Linear log live) (hp : live.Perm live') : Linear log live' :=
  ⟨hp.nodup_iff.1 hl.nodup, fun h => hp.mem_iff.symm.trans (hl.mem_iff h), hl.retired⟩

theorem not_closed (hl : Linear log live) (hh : h ∈ live) : .closes h ∉ log := ((hl.mem_iff h).1 hh).2

/-- A handle that was not seen before is opened. -/
theorem opens (hl : Linear log live) (hnew : ∀ e ∈ log, e.handle ≠ h) :
    Linear (log ++ [.opens h]) (h :: live) := by
  have hunseen : h ∉ live := fun hmem => hnew _ ((hl.mem_iff h).1 hmem).1 rfl
  have hopen : Event.closes h ∉ log := fun hmem => hnew _ hmem rfl
  refine ⟨List.nodup_cons.2 ⟨hunseen, hl.nodup⟩, fun h' => ?_, hl.retired.snoc hopen⟩
  rw [List.mem_cons, hl.mem_iff]
  simp only [List.mem_append, List.mem_singleton, Event.opens.injEq, reduceCtorEq, or_false]
  constructor
  · rintro (rfl | ⟨ho, hc⟩)
    · exact ⟨Or.inr rfl, hopen⟩
    · exact ⟨Or.inl ho, hc⟩
  · rintro ⟨ho | rfl, hc⟩
    · exact Or.inr ⟨ho, hc⟩
    · exact Or.inl rfl

/-- An open handle is used. -/
theorem uses (hl : Linear log live) (hh : h ∈ live) : Linear (log ++ [.uses h]) live := by
  refine ⟨hl.nodup, fun h' => ?_, hl.retired.snoc (hl.not_closed hh)⟩
  rw [hl.mem_iff]
  simp

/-- An open handle is closed. -/
theorem closes (hl : Linear log (h :: live)) : Linear (log ++ [.closes h]) live := by
  obtain ⟨hout, hnodup⟩ := List.nodup_cons.1 hl.nodup
  refine ⟨hnodup, fun h' => ?_, hl.retired.snoc (hl.not_closed (List.mem_cons_self ..))⟩
  have hmem := hl.mem_iff h'
  simp only [List.mem_append, List.mem_singleton, Event.closes.injEq, reduceCtorEq, or_false]
  rw [List.mem_cons] at hmem
  constructor
  · intro hlive
    obtain ⟨ho, hc⟩ := hmem.1 (Or.inr hlive)
    refine ⟨ho, ?_⟩
    rintro (hclosed | rfl)
    · exact hc hclosed
    · exact hout hlive
  · rintro ⟨ho, hc⟩
    rw [not_or] at hc
    exact (hmem.2 ⟨ho, hc.1⟩).resolve_left hc.2

/-- Every handle that was opened is open, or has been closed exactly once. -/
theorem open_or_closed [DecidableEq η] (hl : Linear log live) (ho : .opens h ∈ log) :
    (h ∈ live ∧ .closes h ∉ log) ∨ (h ∉ live ∧ log.count (.closes h) = 1) := by
  by_cases hc : Event.closes h ∈ log
  · refine Or.inr ⟨fun hlive => hl.not_closed hlive hc, ?_⟩
    exact le_antisymm (hl.retired.count_le h) (List.count_pos_iff.2 hc)
  · exact Or.inl ⟨(hl.mem_iff h).2 ⟨ho, hc⟩, hc⟩

end Linear

end OpCartesi.Handles
