import OpCartesi.Chain.Linear
import OpCartesi.Chain.TreeMemory

/-!
# Imports that are turned down

`ImportPayload` (`chain.go:572-665`) has more than ten exits before its commit, and on most of them
it has forked the parent's machine, run the block on the fork, appended to the parent's output tree
and extended its withdrawal commitment. Three models look at what that leaves behind: the chain of
values, which may have a store; the chain of machine handles, where a fork must not be its parent;
and trees as slices, where an append must not write to a shared array.

* `TurnedDown`: an import answered INVALID or SYNCING, or returned an error.
* `Apart`: a call has worked on machines of its own only.
* `reexecute_apart`, `verify_apart`: up to its commit an import does.
* `TreesIn.append`: appending to one tree of the map leaves all of them as they are.
* `rejected_import`: nothing is left of an import that was turned down.
-/

namespace OpCartesi.Node

open Drive Exec Slices

/-- The call returned an error, or a status other than VALID. -/
def TurnedDown {S : Type} (r : EStateM.Result ChainError S PayloadStatus) : Prop :=
  ∀ hash, answer r ≠ .ok (.valid hash)

/-! ## The chain of values -/

theorem Chain.importPayload_turnedDown {σ τ : Type} {G : Geth τ} {M : Machine σ} {rt : Runtime σ}
    {c : Chain σ τ} {data : ExecutableData} {beaconRoot : Option Hash}
    (h : TurnedDown ((Chain.importPayload G M rt data beaconRoot).run c)) :
    endState ((Chain.importPayload G M rt data beaconRoot).run c) = c := by
  unfold TurnedDown at h
  rw [Chain.importPayload_run] at h ⊢
  cases hv : c.verify G M rt data beaconRoot with
  | ok xa =>
    rw [hv] at h
    exact absurd rfl (h _)
  | error r => cases r <;> rfl

/-! ## Trees in shared memory -/

/-- Tree values that stand for a map of trees in a memory. -/
structure TreesIn (m : Memory Hash) (values : Hash → Option TreeValue)
    (trees : Hash → Option OutputTree) : Prop where
  valid : ∀ b t, values b = some t → Valid m t.branch
  value_eq : ∀ b, (values b).map (fun t => t.value m) = trees b

/-- `Append` makes a new value and leaves those of the map. -/
theorem TreesIn.append {τ : Type} {G : Geth τ} (grow : ℕ → ℕ) {m : Memory Hash}
    {values : Hash → Option TreeValue} {trees : Hash → Option OutputTree}
    (h : TreesIn m values trees) {b : Hash} {base tree : OutputTree} {leaves : List Hash}
    (hbase : trees b = some base) (htree : base.append G leaves = some tree) :
    ∃ t m' t', values b = some t ∧ t.append G grow m leaves = some (m', t') ∧
      t'.value m' = tree ∧ TreesIn m' values trees := by
  have hvalue := h.value_eq b
  rw [hbase] at hvalue
  obtain ⟨t, ht, rfl⟩ := Option.map_eq_some_iff.1 hvalue
  obtain ⟨m', t', happend, hprefix, -, hval⟩ := TreeValue.append_spec grow (h.valid b t ht) htree
  refine ⟨t, m', t', ht, happend, hval, ?_, ?_⟩
  · intro b' u hu
    exact (h.valid b' u hu).grown hprefix
  · intro b'
    rw [← h.value_eq b']
    refine Option.map_congr fun u hu => ?_
    rw [TreeValue.value, read_grown (h.valid b' u hu) hprefix, TreeValue.value]

/-! ## The chain of handles -/

namespace Handles

open OpCartesi.Handles

variable {ε σ τ α : Type} {G : Geth τ} {E : List (Event Handle) → Machine σ} {w w₀ : World σ τ}
  {h cur : Handle} {fail : ε → World σ τ → Prop}

/-- A call that began in `w₀` has kept the maps and the states of all older handles, and has closed
    none of them. -/
structure Apart (w₀ w : World σ τ) : Prop where
  chain_eq : w.chain = w₀.chain
  held_eq : w.held = w₀.held
  length_le : w₀.log.length ≤ w.log.length
  state_eq : ∀ h < w₀.log.length, w.state h = w₀.state h
  closes : ∀ h < w₀.log.length, .closes h ∈ w.log → .closes h ∈ w₀.log

namespace Apart

theorem refl (w : World σ τ) : Apart w w := ⟨rfl, rfl, le_rfl, fun _ _ => rfl, fun _ _ h => h⟩

/-- Another event, which closes no older handle. -/
theorem snoc (ha : Apart w₀ w) {e : Event Handle} {state : Handle → σ}
    (he : ∀ h < w₀.log.length, e ≠ .closes h)
    (hstate : ∀ h < w₀.log.length, state h = w.state h) :
    Apart w₀ { w with log := w.log ++ [e], state := state } := by
  refine ⟨ha.chain_eq, ha.held_eq, ?_, ?_, ?_⟩
  · show w₀.log.length ≤ (w.log ++ [e]).length
    rw [List.length_append]
    exact ha.length_le.trans (Nat.le_add_right _ _)
  · intro h hh
    exact (hstate h hh).trans (ha.state_eq h hh)
  · intro h hh hin
    rcases List.mem_append.1 hin with hold | hnew
    · exact ha.closes h hh hold
    · exact absurd (List.mem_singleton.1 hnew).symm (he h hh)

theorem uses (ha : Apart w₀ w) (h : Handle) : Apart w₀ { w with log := w.log ++ [.uses h] } :=
  ha.snoc (fun _ _ he => by cases he) fun _ _ => rfl

end Apart

theorem close_apart (ha : Apart w₀ w) (hh : w₀.log.length ≤ h) :
    Exits (close h : HandleM ε σ τ Unit) w (fun _ => Apart w₀) fail := by
  refine Exits.modify (ha.snoc (fun h' hh' he => ?_) fun _ _ => rfl)
  cases he
  exact absurd hh' (Nat.not_lt.2 hh)

/-- A fork is newer than the call. -/
theorem fork_apart (ha : Apart w₀ w) :
    Exits (fork E h : HandleM ε σ τ (Option Handle)) w
      (fun r w' => Apart w₀ w' ∧ ∀ cand ∈ r, w₀.log.length ≤ cand) fail := by
  cases hf : (E w.log).fork (w.state h) with
  | none => exact Exits.of_ok (fork_none hf) ⟨ha.uses h, fun _ hc => by cases hc⟩
  | some s =>
    refine Exits.of_ok (fork_some hf) ⟨(ha.uses h).snoc (fun _ _ he => by cases he) ?_, ?_⟩
    · intro h' hh'
      exact Function.update_of_ne (hh'.trans_le ha.length_le).ne _ _
    · rintro cand ⟨rfl⟩
      exact ha.length_le

theorem advanceInput_apart (ha : Apart w₀ w) (hh : w₀.log.length ≤ h) (input : Bytes)
    (maxCycles : ℕ) :
    Exits (advanceInput E h input maxCycles : HandleM ε σ τ (Option AdvanceResult)) w
      (fun _ => Apart w₀) fail := by
  cases hadv : (E w.log).advanceInput (w.state h) input maxCycles with
  | none => exact Exits.of_ok (advanceInput_none hadv) (ha.uses h)
  | some r =>
    refine Exits.of_ok (advanceInput_some hadv) (ha.snoc (fun _ _ he => by cases he) ?_)
    intro h' hh'
    exact Function.update_of_ne (hh'.trans_le hh).ne _ _

theorem rootHash_apart (ha : Apart w₀ w) :
    Exits (rootHash E h : HandleM ε σ τ (Option Hash)) w (fun _ => Apart w₀) fail :=
  ha.uses h

theorem orClose_apart (ha : Apart w₀ w) (hh : w₀.log.length ≤ h) (x : Except ε α) :
    Exits (orClose h x : HandleM ε σ τ α) w (fun _ => Apart w₀) (fun _ => Apart w₀) := by
  cases x with
  | ok a => exact Exits.pure ha
  | error e => exact (close_apart ha hh).bind fun _ w₁ h₁ => Exits.throw h₁

theorem candidate_apart (ha : Apart w₀ w) (hcur : w₀.log.length ≤ cur) :
    Exits (candidate E cur : HandleM ChainError σ τ Handle) w
      (fun cand w' => Apart w₀ w' ∧ w₀.log.length ≤ cand) (fun _ => Apart w₀) := by
  refine (fork_apart ha).bind fun r w₁ h₁ => ?_
  cases r with
  | none => exact (close_apart h₁.1 hcur).bind fun _ w₂ h₂ => Exits.throw h₂
  | some cand => exact Exits.pure ⟨h₁.1, h₁.2 cand rfl⟩

/-- The machine after a recorded input is the one before or the candidate. -/
theorem newer_record {t : Trace Handle} {cand : Handle} {res : AdvanceResult} {i n : ℕ} {tx : Bytes}
    (ht : n ≤ t.machine) (hcand : n ≤ cand) : n ≤ (t.record G i tx res cand).machine := by
  unfold Trace.record
  cases res.accepted with
  | true => exact hcand
  | false => exact ht

theorem replayLoop_apart {cfg : Config} {ic : InputContext} (txs : List Bytes) :
    ∀ {i : ℕ} {out : Trace Handle} {w : World σ τ}, Apart w₀ w → w₀.log.length ≤ out.machine →
      Exits (replayLoop G E cfg ic i out txs) w
        (fun out' w' => Apart w₀ w' ∧ w₀.log.length ≤ out'.machine) (fun _ => Apart w₀) := by
  induction txs with
  | nil =>
    intro i out w ha hout
    exact Exits.pure ⟨ha, hout⟩
  | cons tx txs ih =>
    intro i out w ha hout
    refine (orClose_apart ha hout _).bind fun envelope w₁ h₁ => ?_
    refine (candidate_apart h₁ hout).bind fun cand w₂ h₂ => ?_
    refine (advanceInput_apart h₂.1 h₂.2 _ _).bind fun r w₃ h₃ => ?_
    cases r with
    | none => exact (close_apart h₃ h₂.2).bind fun _ w₄ h₄ => ih h₄ hout
    | some res =>
      have hclosed : w₀.log.length ≤ if res.accepted then out.machine else cand := by
        split_ifs
        · exact hout
        · exact h₂.2
      exact (close_apart h₃ hclosed).bind fun _ w₄ h₄ => ih h₄ (newer_record hout h₂.2)

theorem replayOn_apart (ha : Apart w₀ w) {work : Handle} (hwork : w₀.log.length ≤ work)
    {header : Header} {data : ExecutableData} {parentHash : Hash} :
    Exits (replayOn G E header data parentHash work) w (fun _ => Apart w₀) (fun _ => Apart w₀) := by
  refine Exits.get_bind ?_
  refine (orClose_apart ha hwork _).bind fun firstInput w₁ h₁ => ?_
  refine ((replayLoop_apart (w := w₁) data.transactions h₁ hwork).zoom
    (fun _ _ h => h) fun _ _ h => h).bind fun exec w₂ h₂ => ?_
  refine (rootHash_apart h₂.1).bind fun root w₃ h₃ => ?_
  refine (orClose_apart h₃ h₂.2 _).bind fun root w₄ h₄ => ?_
  refine (orClose_apart h₄ h₂.2 _).bind fun _ w₅ h₅ => ?_
  refine (orClose_apart h₅ h₂.2 _).bind fun _ w₆ h₆ => ?_
  refine (orClose_apart h₆ h₂.2 _).bind fun base w₇ h₇ => ?_
  refine Exits.check_bind (fun tree htree => ?_) fun _ _ => h₇
  refine (orClose_apart h₇ h₂.2 _).bind fun passer w₉ h₉ => ?_
  refine (orClose_apart h₉ h₂.2 _).bind fun _ w₁₀ h₁₀ => ?_
  exact Exits.pure h₁₀

theorem reexecute_apart {header : Header} {data : ExecutableData} {parentHash : Hash} :
    Exits (reexecute G E header data parentHash) w (fun _ => Apart w) (fun _ => Apart w) := by
  refine Exits.get_bind ?_
  refine Exits.check_bind (fun m hm => ?_) fun _ _ => Apart.refl w
  refine (fork_apart (Apart.refl w)).bind fun r w₁ h₁ => ?_
  cases r with
  | none => exact Exits.throw h₁.1
  | some work => exact replayOn_apart h₁.1 (h₁.2 work rfl)

theorem verify_apart (rg : Ranges) (data : ExecutableData) (beaconRoot : Option Hash) :
    Exits (verify G E rg data beaconRoot) w (fun _ => Apart w) (fun _ => Apart w) := by
  refine Exits.get_bind ?_
  refine Exits.check_bind (fun r hr => ?_) fun _ _ => Apart.refl w
  obtain ⟨header, parentHash⟩ := r
  cases hfind : (rg.pending w.chain.pending).find? fun p => p.2.data.blockHash == header.hash G with
  | some q =>
    simp only [hfind]
    exact Exits.pure (Apart.refl w)
  | none =>
    simp only [hfind]
    exact reexecute_apart.bind fun x w₁ h₁ => Exits.pure h₁

/-- Only the commit touches what was there before. -/
theorem importPayload_apart {rg : Ranges} {data : ExecutableData} {beaconRoot : Option Hash}
    (h : TurnedDown ((importPayload G E rg data beaconRoot).run w)) :
    Apart w (endState ((importPayload G E rg data beaconRoot).run w)) := by
  have hv := verify_apart (G := G) (E := E) (w := w) rg data beaconRoot
  unfold Exits at hv
  cases hrun : (verify G E rg data beaconRoot).run w with
  | ok r w₁ =>
    unfold TurnedDown at h
    rw [importPayload_commits hrun] at h
    exact absurd rfl (h _)
  | error answer w₁ =>
    rw [hrun] at hv
    cases answer with
    | ok status =>
      rw [importPayload_answers hrun]
      exact hv
    | error e =>
      rw [importPayload_fails hrun]
      exact hv

/-- An import that is turned down leaves no trace. A chain, with a store or without one, is what it
    was. In a chain of machine handles that calls have led to, the maps, the heads and the pool are
    what they were, and every machine of the maps is open and in the state it was in, however far
    the import got. Where the trees of the map are slices of a shared memory, appending what the
    block emitted to the parent's tree leaves every tree of the map as it was. -/
theorem rejected_import (M : Machine σ) :
    (∀ (rt : Runtime σ) (c : Chain σ τ) (data : ExecutableData) (beaconRoot : Option Hash),
      TurnedDown ((Chain.importPayload G M rt data beaconRoot).run c) →
        endState ((Chain.importPayload G M rt data beaconRoot).run c) = c) ∧
    ∀ (w : World σ τ) (rg : Ranges) (data : ExecutableData) (beaconRoot : Option Hash),
      Runs G E w → TurnedDown ((importPayload G E rg data beaconRoot).run w) →
        let w' := endState ((importPayload G E rg data beaconRoot).run w)
        w'.chain = w.chain ∧ w'.held = w.held ∧
        (∀ s h, Owns w.chain s h → w'.state h = w.state h ∧ .closes h ∉ w'.log) ∧
        ∀ (grow : ℕ → ℕ) (m : Memory Hash) (values : Hash → Option TreeValue)
          (base tree : OutputTree) (leaves : List Hash), TreesIn m values w.chain.trees →
          w.chain.trees data.parentHash = some base → base.append G leaves = some tree →
          ∃ t m' t', values data.parentHash = some t ∧
            t.append G grow m leaves = some (m', t') ∧ t'.value m' = tree ∧
            TreesIn m' values w'.chain.trees := by
  refine ⟨fun rt c data beaconRoot h => Chain.importPayload_turnedDown h, ?_⟩
  intro w rg data beaconRoot hrun hdown w'
  have ha : Apart w w' := importPayload_apart hdown
  have hi := hrun.inv
  refine ⟨ha.chain_eq, ha.held_eq, ?_, ?_⟩
  · intro s h hs
    have hmem := hi.mem_owned_iff.2 ⟨s, hs⟩
    have hlt := hi.tidy.lt_length hmem
    exact ⟨ha.state_eq h hlt, fun hin => hi.tidy.linear.not_closed hmem (ha.closes h hlt hin)⟩
  · intro grow m values base tree leaves htrees hbase htree
    rw [ha.chain_eq]
    exact htrees.append grow hbase htree

namespace Sample

open Node.Sample

/-- A block with one transaction that claims another state root. -/
def misrooted : ExecutableData :=
  executableData geth (child geth (genesisBlock geth).block.header 1 (hashOf 9) [[5]]) [[5]]

end Sample

open Sample Node.Sample in
/-- The block has run on a fork when its root turns out to be another. -/
theorem rejected_import_misrooted :
    answer ((importPayload geth faulty ranges misrooted none).run fresh) =
      .ok (.invalid (some fresh.chain.genesisHash) (.stateRootMismatch (hashOf 1) (hashOf 9))) ∧
    let w' := endState ((importPayload geth faulty ranges misrooted none).run fresh)
    w'.chain = fresh.chain ∧ w'.state 0 = fresh.state 0 ∧ w'.log.length = 10 := by
  have hanswer : answer ((importPayload geth faulty ranges misrooted none).run fresh) =
      .ok (.invalid (some fresh.chain.genesisHash) (.stateRootMismatch (hashOf 1) (hashOf 9))) := by
    decide +kernel
  have hdown : TurnedDown ((importPayload geth faulty ranges misrooted none).run fresh) := by
    intro hash hvalid
    rw [hanswer] at hvalid
    cases hvalid
  obtain ⟨hchain, -, hmachines, -⟩ := (rejected_import machine).2 fresh ranges misrooted none
    runs_fresh hdown
  have howns : Owns fresh.chain (.machine fresh.chain.genesisHash) 0 := by
    show fresh.chain.machines fresh.chain.genesisHash = some 0
    decide +kernel
  exact ⟨hanswer, hchain, (hmachines _ 0 howns).1, by decide +kernel⟩

end Handles

end OpCartesi.Node
