import OpCartesi.Chain.Handles

/-!
# Machine handles are linear

* `Tidy`: a linear log in which every handle is older than the next event.
* `Kept`: between two requests of a call the maps stay as they are, and what the call has open
  besides them is named.
* `Inv`, `Runs.inv`: between two calls every open handle is owned by the maps.
* `handles_linear`: every handle that was opened has one owner or was closed once, and none is used
  after it was closed.
-/

namespace OpCartesi.Node.Handles

open Drive Exec OpCartesi.Handles
open Function (update update_apply update_of_ne update_self)

variable {ε σ τ α : Type} {G : Geth τ} {E : List (Event Handle) → Machine σ} {w w₀ w' : World σ τ}
  {h cur : Handle} {live live' : List Handle} {fail : ε → World σ τ → Prop} {c : Chain Handle τ}
  {data : ExecutableData} {parentHash : Hash} {held : List Hash} {header : Header} {work : Handle}

/-! ## Logs -/

/-- The log is linear and its handles are below its length, so that the length is a new handle. -/
structure Tidy (log : List (Event Handle)) (live : List Handle) : Prop where
  linear : Linear log live
  bounded : ∀ e ∈ log, e.handle < log.length

namespace Tidy

variable {log : List (Event Handle)}

theorem perm (ht : Tidy log live) (hp : live.Perm live') : Tidy log live' :=
  ⟨ht.linear.perm hp, ht.bounded⟩

theorem lt_length (ht : Tidy log live) (hh : h ∈ live) : h < log.length :=
  ht.bounded _ ((ht.linear.mem_iff h).1 hh).1

theorem bounded_snoc (ht : Tidy log live) {e : Event Handle} (he : e.handle ≤ log.length) :
    ∀ d ∈ log ++ [e], d.handle < (log ++ [e]).length := by
  intro d hd
  rw [List.length_append, List.length_singleton]
  rcases List.mem_append.1 hd with hd | hd
  · exact (ht.bounded d hd).trans (Nat.lt_succ_self _)
  · rw [List.mem_singleton.1 hd]
    exact Nat.lt_succ_of_le he

theorem uses (ht : Tidy log live) (hh : h ∈ live) : Tidy (log ++ [.uses h]) live :=
  ⟨ht.linear.uses hh, ht.bounded_snoc (ht.lt_length hh).le⟩

theorem closes (ht : Tidy log (h :: live)) : Tidy (log ++ [.closes h]) live :=
  ⟨ht.linear.closes, ht.bounded_snoc (ht.lt_length (List.mem_cons_self ..)).le⟩

/-- A fork: the length of the log before it is a new handle. -/
theorem forks (ht : Tidy log live) (hh : h ∈ live) :
    Tidy (log ++ [.uses h] ++ [.opens log.length]) (log.length :: live) := by
  have hused := ht.uses hh
  refine ⟨hused.linear.opens fun e he => ?_, hused.bounded_snoc ?_⟩
  · rcases List.mem_append.1 he with he | he
    · exact (ht.bounded e he).ne
    · rw [List.mem_singleton.1 he]
      exact (ht.lt_length hh).ne
  · rw [List.length_append]
    exact Nat.le_add_right _ _

end Tidy

/-! ## Requests -/

/-- The maps are those of `w₀`, and `live` lists what is open. -/
structure Kept (w₀ : World σ τ) (live : List Handle) (w : World σ τ) : Prop where
  tidy : Tidy w.log live
  chain_eq : w.chain = w₀.chain
  held_eq : w.held = w₀.held

theorem Kept.perm (hk : Kept w₀ live w) (hp : live.Perm live') : Kept w₀ live' w :=
  ⟨hk.tidy.perm hp, hk.chain_eq, hk.held_eq⟩

theorem close_exits (hk : Kept w₀ (h :: live) w) :
    Exits (close h : HandleM ε σ τ Unit) w (fun _ => Kept w₀ live) fail :=
  ⟨hk.tidy.closes, hk.chain_eq, hk.held_eq⟩

theorem closeAll_exits {hs : List Handle} (hk : Kept w₀ (hs ++ live) w) :
    Exits (closeAll hs : HandleM ε σ τ Unit) w (fun _ => Kept w₀ live) fail := by
  induction hs generalizing w with
  | nil => exact Exits.pure hk
  | cons h hs ih => exact (close_exits hk).bind fun _ w₁ h₁ => ih h₁

theorem fork_exits (hk : Kept w₀ live w) (hh : h ∈ live) :
    Exits (fork E h : HandleM ε σ τ (Option Handle)) w
      (fun r => Kept w₀ (r.toList ++ live)) fail := by
  cases hf : (E w.log).fork (w.state h) with
  | none => exact Exits.of_ok (fork_none hf) ⟨hk.tidy.uses hh, hk.chain_eq, hk.held_eq⟩
  | some s => exact Exits.of_ok (fork_some hf) ⟨hk.tidy.forks hh, hk.chain_eq, hk.held_eq⟩

theorem advanceInput_exits (hk : Kept w₀ live w) (hh : h ∈ live) (input : Bytes) (maxCycles : ℕ) :
    Exits (advanceInput E h input maxCycles : HandleM ε σ τ (Option AdvanceResult)) w
      (fun _ => Kept w₀ live) fail := by
  cases ha : (E w.log).advanceInput (w.state h) input maxCycles with
  | none => exact Exits.of_ok (advanceInput_none ha) ⟨hk.tidy.uses hh, hk.chain_eq, hk.held_eq⟩
  | some r => exact Exits.of_ok (advanceInput_some ha) ⟨hk.tidy.uses hh, hk.chain_eq, hk.held_eq⟩

theorem rootHash_exits (hk : Kept w₀ live w) (hh : h ∈ live) :
    Exits (rootHash E h : HandleM ε σ τ (Option Hash)) w (fun _ => Kept w₀ live) fail :=
  ⟨hk.tidy.uses hh, hk.chain_eq, hk.held_eq⟩

/-- An early return closes the machine it is told to. -/
theorem orClose_exits (hk : Kept w₀ (h :: live) w) (x : Except ε α) :
    Exits (orClose h x : HandleM ε σ τ α) w (fun a w' => x = .ok a ∧ Kept w₀ (h :: live) w')
      (fun _ => Kept w₀ live) := by
  cases x with
  | ok a => exact Exits.pure ⟨rfl, hk⟩
  | error e => exact (close_exits hk).bind fun _ w₁ h₁ => Exits.throw h₁

theorem candidate_exits (hk : Kept w₀ (cur :: live) w) :
    Exits (candidate E cur : HandleM ChainError σ τ Handle) w
      (fun cand => Kept w₀ (cand :: cur :: live)) (fun _ => Kept w₀ live) := by
  refine (fork_exits hk (List.mem_cons_self ..)).bind fun r w₁ h₁ => ?_
  cases r with
  | none => exact (close_exits h₁).bind fun _ w₂ h₂ => Exits.throw h₂
  | some cand => exact Exits.pure h₁

/-! ## The two loops -/

section Loops

variable {cfg : Config} {ic : InputContext}

/-- Of the machine an input ran on and its candidate one is closed, and recording the input keeps
    the other. -/
theorem settle_exits {t : Trace Handle} {cand : Handle} {res : AdvanceResult} {i : ℕ} {tx : Bytes}
    (hk : Kept w₀ (cand :: t.machine :: live) w) :
    Exits (close (if res.accepted then t.machine else cand) : HandleM ε σ τ Unit) w
      (fun _ => Kept w₀ ((t.record G i tx res cand).machine :: live)) fail := by
  unfold Trace.record
  cases res.accepted with
  | true => exact close_exits (hk.perm (List.Perm.swap ..))
  | false => exact close_exits hk

theorem depositLoop_exits (txs : List Bytes) : ∀ {out : ExecResult Handle} {w : World σ τ},
    Kept w₀ (out.machine :: live) w → Exits (depositLoop G E cfg ic out txs) w
      (fun out' => Kept w₀ (out'.machine :: live)) (fun _ => Kept w₀ live) := by
  induction txs with
  | nil =>
    intro out w hk
    exact Exits.pure hk
  | cons tx txs ih =>
    intro out w hk
    refine (orClose_exits hk _).bind fun envelope w₁ h₁ => ?_
    refine (candidate_exits h₁.2).bind fun cand w₂ h₂ => ?_
    refine (advanceInput_exits h₂ (List.mem_cons_self ..) _ _).bind fun r w₃ h₃ => ?_
    cases r with
    | none =>
      refine (close_exits h₃).bind fun _ w₄ h₄ => ?_
      exact (close_exits h₄).bind fun _ w₅ h₅ => Exits.throw h₅
    | some res => exact (settle_exits h₃).bind fun _ w₄ h₄ => ih h₄

theorem poolLoop_exits {da : DALimits} {gasLimit : ℕ} (txs : List Bytes) :
    ∀ {out : ExecResult Handle} {daUsed : ℕ} {dropped : List Hash} {w : World σ τ},
    Kept w₀ (out.machine :: live) w →
      Exits (poolLoop G E cfg ic da gasLimit out daUsed dropped txs) w
        (fun r => Kept w₀ (r.1.machine :: live)) (fun _ => Kept w₀ live) := by
  induction txs with
  | nil =>
    intro out daUsed dropped w hk
    exact Exits.pure hk
  | cons tx txs ih =>
    intro out daUsed dropped w hk
    unfold poolLoop
    split_ifs with hgas hadmit
    · exact Exits.pure hk
    · exact ih hk
    refine (orClose_exits hk _).bind fun envelope w₁ h₁ => ?_
    refine (candidate_exits h₁.2).bind fun cand w₂ h₂ => ?_
    refine (advanceInput_exits h₂ (List.mem_cons_self ..) _ _).bind fun r w₃ h₃ => ?_
    cases r with
    | none => exact (close_exits h₃).bind fun _ w₄ h₄ => ih h₄
    | some res =>
      simp only
      split_ifs with hacc
      · refine (close_exits (h₃.perm (List.Perm.swap ..))).bind fun _ w₄ h₄ => ih ?_
        have hmoved : (out.record G tx res cand).machine = cand := if_pos hacc
        rwa [hmoved]
      · exact (close_exits h₃).bind fun _ w₄ h₄ => ih h₄

theorem applyBuild_exits {da : DALimits} {deposits poolTxs : List Bytes} {gasLimit : ℕ}
    (hk : Kept w₀ (work :: live) w) :
    Exits (applyBuild G E cfg ic da work deposits poolTxs gasLimit) w
      (fun r => Kept w₀ (r.1.machine :: live)) (fun _ => Kept w₀ live) :=
  (depositLoop_exits deposits hk).bind fun _ _ h₁ => poolLoop_exits poolTxs h₁

theorem replayLoop_exits (txs : List Bytes) : ∀ {i : ℕ} {out : Trace Handle} {w : World σ τ},
    Kept w₀ (out.machine :: live) w → Exits (replayLoop G E cfg ic i out txs) w
      (fun out' => Kept w₀ (out'.machine :: live)) (fun _ => Kept w₀ live) := by
  induction txs with
  | nil =>
    intro i out w hk
    exact Exits.pure hk
  | cons tx txs ih =>
    intro i out w hk
    refine (orClose_exits hk _).bind fun envelope w₁ h₁ => ?_
    refine (candidate_exits h₁.2).bind fun cand w₂ h₂ => ?_
    refine (advanceInput_exits h₂ (List.mem_cons_self ..) _ _).bind fun r w₃ h₃ => ?_
    cases r with
    | none => exact (close_exits h₃).bind fun _ w₄ h₄ => ih h₄
    | some res => exact (settle_exits h₃).bind fun _ w₄ h₄ => ih h₄

end Loops

/-! ## Owners -/

/-- The handles the two maps own. -/
def World.owned (w : World σ τ) : List Handle :=
  w.held.filterMap w.chain.machines ++ w.chain.pending.map fun p => p.2.machine

/-- The keys of the maps: `held` lists the machines', which belong to held blocks, and the pending
    payloads have different ids. -/
structure Keyed (c : Chain Handle τ) (held : List Hash) : Prop where
  nodup : held.Nodup
  mem_iff : ∀ b, b ∈ held ↔ (c.machines b).isSome = true
  blocks : ∀ b, (c.machines b).isSome = true → (c.blocks b).isSome = true
  ids : (c.pending.map Prod.fst).Nodup

/-- Between two calls: the maps own what is open. -/
structure Inv (w : World σ τ) : Prop where
  tidy : Tidy w.log w.owned
  keyed : Keyed w.chain w.held

theorem Inv.kept (hi : Inv w) : Kept w w.owned w := ⟨hi.tidy, rfl, rfl⟩

/-- A call that owns nothing more has kept the maps. -/
theorem Kept.inv (hk : Kept w₀ w₀.owned w) (hi : Keyed w₀.chain w₀.held) : Inv w := by
  obtain ⟨htidy, hchain, hheld⟩ := hk
  have howned : w.owned = w₀.owned := by rw [World.owned, World.owned, hchain, hheld]
  exact ⟨howned ▸ htidy, by rw [hchain, hheld]; exact hi⟩

theorem mem_owned_of_machine (hi : Keyed w.chain w.held) {b : Hash} (hb : w.chain.machines b = some h) :
    h ∈ w.owned := by
  have hheld : b ∈ w.held := (hi.mem_iff b).2 (by rw [hb]; rfl)
  exact List.mem_append_left _ (List.mem_filterMap.2 ⟨b, hheld, hb⟩)

/-! ## Building -/

/-- The pool is not a part of the maps. -/
theorem Inv.congr (hi : Inv w) (hblocks : c.blocks = w.chain.blocks)
    (hmachines : c.machines = w.chain.machines) (hpending : c.pending = w.chain.pending) :
    Inv { w with chain := c } := by
  refine ⟨?_, ?_⟩
  · show Tidy w.log (w.held.filterMap c.machines ++ c.pending.map fun p => p.2.machine)
    rw [hmachines, hpending]
    exact hi.tidy
  · obtain ⟨hnodup, hmem, hheld, hids⟩ := hi.keyed
    refine ⟨hnodup, ?_, ?_, ?_⟩
    · show ∀ b, b ∈ w.held ↔ (c.machines b).isSome = true
      rwa [hmachines]
    · show ∀ b, (c.machines b).isSome = true → (c.blocks b).isSome = true
      rwa [hmachines, hblocks]
    · show (c.pending.map Prod.fst).Nodup
      rwa [hpending]

/-- A call that did not panic has kept the invariant. -/
def Failed (e : ChainError) (w : World σ τ) : Prop := e ≠ .panicked → Inv w

theorem failed_of_kept {x : HandleM ChainError σ τ α} {post : α → World σ τ → Prop} (hi : Inv w₀)
    (hx : Exits x w post fun _ => Kept w₀ w₀.owned) : Exits x w post Failed :=
  hx.mono (fun _ _ h => h) fun _ _ h _ => h.inv hi.keyed

/-- A pending payload takes a machine over. -/
theorem Kept.add_pending (hi : Inv w₀) {id : PayloadID} {p : PendingPayload Handle}
    (hk : Kept w₀ (p.machine :: w₀.owned) w)
    (hid : (w₀.chain.pending.any fun p => p.1 == id) = false) :
    Inv { w with chain := { w.chain with pending := w.chain.pending ++ [(id, p)] } } := by
  obtain ⟨htidy, hchain, hheld⟩ := hk
  refine ⟨?_, ?_⟩
  · show Tidy w.log (w.held.filterMap w.chain.machines ++
      (w.chain.pending ++ [(id, p)]).map fun p => p.2.machine)
    rw [hchain, hheld, List.map_append, ← List.append_assoc]
    exact htidy.perm (List.perm_append_singleton p.machine w₀.owned).symm
  · rw [hchain, hheld]
    refine ⟨hi.keyed.nodup, hi.keyed.mem_iff, hi.keyed.blocks, ?_⟩
    show ((w₀.chain.pending ++ [(id, p)]).map Prod.fst).Nodup
    rw [List.map_append]
    refine List.nodup_append.2 ⟨hi.keyed.ids, List.nodup_singleton _, ?_⟩
    rintro a ha b hb rfl
    obtain ⟨q, hq, rfl⟩ := List.mem_map.1 ha
    rw [List.map_singleton, List.mem_singleton] at hb
    have hany := List.any_eq_false.1 hid q hq
    exact hany (beq_iff_eq.2 hb)

theorem buildOn_exits (hi : Inv w₀) (hk : Kept w₀ (work :: w₀.owned) w) {parent : Block}
    {attrs : PayloadAttributes} {id : PayloadID}
    (hid : (w₀.chain.pending.any fun p => p.1 == id) = false) :
    Exits (buildOn G E parent attrs id work) w (fun _ => Inv) Failed := by
  refine Exits.get_bind ?_
  refine (failed_of_kept hi (orClose_exits hk _)).bind fun firstInput w₁ h₁ => ?_
  refine (failed_of_kept hi (applyBuild_exits h₁.2)).bind fun r w₂ h₂ => ?_
  obtain ⟨exec, dropped⟩ := r
  -- the pool forgets what the build dropped
  set w₀' : World σ τ := { w₀ with chain := w₀.chain.forget dropped } with hw₀'
  have hi' : Inv w₀' := hi.congr rfl rfl rfl
  refine Exits.modify_bind ?_
  have h₃ : Kept w₀' (exec.machine :: w₀'.owned) { w₂ with chain := w₂.chain.forget dropped } :=
    ⟨h₂.tidy, congrArg (fun c => c.forget dropped) h₂.chain_eq, h₂.held_eq⟩
  refine (rootHash_exits h₃ (List.mem_cons_self ..)).bind fun root w₄ h₄ => ?_
  refine (failed_of_kept hi' (orClose_exits h₄ _)).bind fun root w₅ h₅ => ?_
  refine (failed_of_kept hi' (orClose_exits h₅.2 _)).bind fun extra w₆ h₆ => ?_
  refine (failed_of_kept hi' (orClose_exits h₆.2 _)).bind fun base w₇ h₇ => ?_
  refine Exits.check_bind (fun tree htree => ?_) fun e he hne =>
    absurd (expect_eq_error.1 he).2.symm hne
  refine (failed_of_kept hi' (orClose_exits h₇.2 _)).bind fun passer w₉ h₉ => ?_
  exact Exits.bind (Exits.modify (h₉.2.add_pending hi' hid)) fun _ _ h => Exits.pure h

theorem buildPayload_exits (hi : Inv w) (parent : Block) (attrs : PayloadAttributes) :
    Exits (buildPayload G E parent attrs) w (fun _ => Inv) Failed := by
  refine Exits.get_bind ?_
  refine Exits.check_bind (fun m hm => ?_) fun _ _ _ => hi
  refine Exits.check_bind (fun id hid => ?_) fun _ _ _ => hi
  split_ifs with hany
  · exact Exits.pure hi
  · have hmem := mem_owned_of_machine hi.keyed (expect_eq_ok.1 hm)
    refine (fork_exits hi.kept hmem).bind fun r w₁ h₁ => ?_
    cases r with
    | none => exact Exits.throw fun _ => h₁.inv hi.keyed
    | some work => exact buildOn_exits hi h₁ (Bool.eq_false_iff.2 hany)

/-! ## Pruning -/

/-- A list is what a test accepts and what it refuses. -/
theorem filter_partition {β : Type} (p : β → Bool) (l l' : List β) (hl : l'.Perm l) :
    (l'.filter (fun b => !p b) ++ l.filter p).Perm l := by
  have hsplit := List.filter_append_perm p l
  exact (List.perm_append_comm.trans ((List.Perm.refl _).append (hl.filter _))).trans hsplit

theorem prune_machine (c : Chain Handle τ) (b : Hash) :
    c.prune.machines b = if retained c b then c.machines b else none := by
  simp only [Chain.prune, retained, decide_eq_true_eq]

/-- The machines that are kept. -/
theorem prune_machines (c : Chain Handle τ) (held : List Hash) :
    (held.filter (retained c)).filterMap c.prune.machines =
      (held.filter (retained c)).filterMap c.machines := by
  refine List.filterMap_congr fun b hb => ?_
  rw [prune_machine, if_pos (List.mem_filter.1 hb).2]

theorem prune_pending (c : Chain Handle τ) :
    c.prune.pending = c.pending.filter fun p => !stale c p := by
  refine List.filter_congr fun p _ => ?_
  simp only [stale, ← decide_not, not_le]

theorem Keyed.prune (hk : Keyed c held) : Keyed c.prune (held.filter (retained c)) := by
  refine ⟨hk.nodup.filter _, fun b => ?_, fun b hb => ?_, ?_⟩
  · rw [List.mem_filter, hk.mem_iff, prune_machine]
    cases retained c b <;> simp
  · rw [prune_machine] at hb
    split_ifs at hb with hr
    · exact hk.blocks b hb
    · cases hb
  · exact hk.ids.sublist ((List.filter_sublist ..).map _)

theorem prune_exits (hi : Inv w) (rg : Ranges) :
    Exits (prune rg : HandleM ε σ τ Unit) w (fun _ => Inv) fail := by
  refine Exits.get_bind ?_
  set c := w.chain with hc
  set closed := ((rg.machines w.held).filter fun b => !retained c b).filterMap c.machines
  set kept := (w.held.filter (retained c)).filterMap c.machines with hkept
  set dropped := ((rg.pending c.pending).filter (stale c)).map fun p => p.2.machine
  set pending := (c.pending.filter fun p => !stale c p).map fun p => p.2.machine with hpending
  have hmachines : (closed ++ kept).Perm (w.held.filterMap c.machines) := by
    have hsplit := filter_partition (retained c) w.held _ (rg.machines_perm w.held)
    have hmap := hsplit.filterMap c.machines
    rwa [List.filterMap_append] at hmap
  have hpend : (dropped ++ pending).Perm (c.pending.map fun p => p.2.machine) := by
    have hsplit := filter_partition (fun p => !stale c p) c.pending _ (rg.pending_perm c.pending)
    have hmap := hsplit.map fun p => p.2.machine
    simp only [Bool.not_not, List.map_append] at hmap
    exact hmap
  have howned : w.owned.Perm (closed ++ (dropped ++ (kept ++ pending))) := by
    refine (hmachines.append hpend).symm.trans ?_
    rw [List.append_assoc]
    refine (List.Perm.refl closed).append ?_
    rw [← List.append_assoc, ← List.append_assoc]
    exact List.perm_append_comm.append (List.Perm.refl pending)
  refine (closeAll_exits (hi.kept.perm howned)).bind fun _ w₁ h₁ => ?_
  refine (closeAll_exits h₁).bind fun _ w₂ h₂ => ?_
  have hchain : w₂.chain = c := h₂.chain_eq
  refine Exits.modify ⟨?_, ?_⟩
  · show Tidy w₂.log ((w₂.held.filter (retained c)).filterMap w₂.chain.prune.machines ++
      w₂.chain.prune.pending.map fun p => p.2.machine)
    rw [h₂.held_eq, hchain, prune_machines, prune_pending]
    exact h₂.tidy
  · rw [h₂.held_eq, hchain]
    exact hi.keyed.prune

/-! ## Forkchoice -/

theorem onChain_modify_exits {ε : Type} {fail : ε → World σ τ → Prop}
    {f : Chain Handle τ → Chain Handle τ} (hi : Inv w)
    (hblocks : (f w.chain).blocks = w.chain.blocks)
    (hmachines : (f w.chain).machines = w.chain.machines)
    (hpending : (f w.chain).pending = w.chain.pending) :
    Exits (onChain (modify f) : HandleM ε σ τ Unit) w (fun _ => Inv) fail :=
  hi.congr hblocks hmachines hpending

theorem updateRef_exits {put : Hash → Chain Handle τ → Chain Handle τ} (hi : Inv w) (hash : Hash)
    (hblocks : ∀ c, (put hash c).blocks = c.blocks)
    (hmachines : ∀ c, (put hash c).machines = c.machines)
    (hpending : ∀ c, (put hash c).pending = c.pending) :
    Exits (onChain (Chain.updateRef G hash put) : HandleM ChainError σ τ Unit) w (fun _ => Inv)
      (fun _ => Inv) := by
  have hx : Exits (Chain.updateRef G hash put) w.chain (fun _ c => Inv { w with chain := c })
      (fun _ c => Inv { w with chain := c }) := by
    refine Exits.get_bind ?_
    split_ifs
    · exact Exits.pure hi
    · exact Exits.modify (hi.congr (hblocks _) (hmachines _) (hpending _))
    · exact Exits.throw hi
  exact hx.zoom (fun _ _ h => h) fun _ _ h => h

/-- What holds after a forkchoice call that threw. -/
def Refused (e : ChainError) (w : World σ τ) : Prop := e ≠ .buildingPayload .panicked → Inv w

theorem forkchoiceUpdated_exits (hi : Inv w) (rg : Ranges) (fc : ForkchoiceState)
    (attrs : Option PayloadAttributes) :
    Exits (forkchoiceUpdated G E rg fc attrs) w (fun _ => Inv) Refused := by
  have hrefused : ∀ {α : Type} {x : HandleM ChainError σ τ α} {post : α → World σ τ → Prop}
      {w : World σ τ}, Exits x w post (fun _ => Inv) → Exits x w post Refused :=
    fun hx => hx.mono (fun _ _ h => h) fun _ _ h _ => h
  refine Exits.get_bind ?_
  cases hhead : w.chain.blocks fc.headBlockHash with
  | none =>
    simp only [hhead]
    exact Exits.pure hi
  | some head =>
    simp only [hhead]
    refine (onChain_modify_exits (f := fun c => c.reorgTo G head) hi rfl rfl rfl).bind
      fun _ w₁ h₁ => ?_
    refine (hrefused (updateRef_exits h₁ _ (fun _ => rfl) (fun _ => rfl) fun _ => rfl)).bind
      fun _ w₂ h₂ => ?_
    refine (hrefused (updateRef_exits h₂ _ (fun _ => rfl) (fun _ => rfl) fun _ => rfl)).bind
      fun _ w₃ h₃ => ?_
    refine (onChain_modify_exits (f := fun c => { c with head := head.hash G }) h₃ rfl rfl
      rfl).bind fun _ w₄ h₄ => ?_
    refine (prune_exits h₄ rg).bind fun _ w₅ h₅ => ?_
    cases attrs with
    | none => exact Exits.pure h₅
    | some attrs =>
      simp only
      split_ifs with htime
      · exact Exits.throw fun _ => h₅
      · have hbuild : Exits (tryCatch (buildPayload G E head attrs) fun e =>
            throw (.buildingPayload e)) w₅ (fun _ => Inv) Refused := by
          refine (buildPayload_exits h₅ head attrs).rethrow fun e w' hfailed hne => hfailed ?_
          rintro rfl
          exact hne rfl
        exact hbuild.bind fun _ _ h => Exits.pure h

/-! ## Importing -/

/-- What holds after an import that returned early. -/
def Returned (answer : Except ChainError PayloadStatus) (w : World σ τ) : Prop :=
  answer ≠ .error .panicked → Inv w

theorem returned_of_kept {x : HandleM (Except ChainError PayloadStatus) σ τ α}
    {post : α → World σ τ → Prop} (hi : Inv w₀)
    (hx : Exits x w post fun _ => Kept w₀ w₀.owned) : Exits x w post Returned :=
  hx.mono (fun _ _ h => h) fun _ _ h _ => h.inv hi.keyed

/-- The machine that re-executed a payload is the one of the block it makes. -/
theorem replayOn_exits (hi : Inv w₀) (hk : Kept w₀ (work :: w₀.owned) w) :
    Exits (replayOn G E header data parentHash work) w
      (fun x w' => x.block.header = header ∧ Kept w₀ (x.machine :: w₀.owned) w') Returned := by
  refine Exits.get_bind ?_
  refine (returned_of_kept hi (orClose_exits hk _)).bind fun firstInput w₁ h₁ => ?_
  refine (returned_of_kept hi ((replayLoop_exits (w := w₁) data.transactions h₁.2).zoom
    (fun _ _ h => h) fun _ _ h => h)).bind fun exec w₂ h₂ => ?_
  refine (rootHash_exits h₂ (List.mem_cons_self ..)).bind fun root w₃ h₃ => ?_
  refine (returned_of_kept hi (orClose_exits h₃ _)).bind fun root w₄ h₄ => ?_
  refine (returned_of_kept hi (orClose_exits h₄.2 _)).bind fun _ w₅ h₅ => ?_
  refine (returned_of_kept hi (orClose_exits h₅.2 _)).bind fun _ w₆ h₆ => ?_
  refine (returned_of_kept hi (orClose_exits h₆.2 _)).bind fun base w₇ h₇ => ?_
  refine Exits.check_bind (fun tree htree => ?_) fun e he hne =>
    absurd (expect_eq_error.1 he).2.symm hne
  refine (returned_of_kept hi (orClose_exits h₇.2 _)).bind fun passer w₉ h₉ => ?_
  refine (returned_of_kept hi (orClose_exits h₉.2 _)).bind fun _ w₁₀ h₁₀ => ?_
  exact Exits.pure ⟨rfl, h₁₀.2⟩

theorem reexecute_exits (hi : Inv w) :
    Exits (reexecute G E header data parentHash) w
      (fun x w' => x.block.header = header ∧ Kept w (x.machine :: w.owned) w') Returned := by
  refine Exits.get_bind ?_
  refine Exits.check_bind (fun m hm => ?_) fun _ _ _ => hi
  have hmem := mem_owned_of_machine hi.keyed (expect_eq_ok.1 hm)
  refine (fork_exits hi.kept hmem).bind fun r w₁ h₁ => ?_
  cases r with
  | none => exact Exits.throw fun _ => h₁.inv hi.keyed
  | some work => exact replayOn_exits hi h₁

/-- The block of an admitted payload is new. -/
theorem admit_fresh {beaconRoot : Option Hash}
    (h : admitPayload G c data beaconRoot = .ok (header, parentHash)) :
    c.blocks (header.hash G) = none := by
  unfold admitPayload at h
  simp only [except_bind_eq_ok, require_eq_ok, exists_const, pure, Except.pure] at h
  obtain ⟨header', -, -, hfresh, parent, -, -, -, h⟩ := h
  cases h
  exact hfresh

/-- What an import may commit: the machine is its own or that of the payload it adopts. -/
inductive Committable (w₀ : World σ τ) : Executed Handle × Option PayloadID → World σ τ → Prop
  | adopted {x : Executed Handle} {id : PayloadID} {p : PendingPayload Handle}
      (hp : (id, p) ∈ w₀.chain.pending) (hm : x.machine = p.machine) :
      Committable w₀ (x, some id) w₀
  | reexecuted {x : Executed Handle} {w : World σ τ} (hk : Kept w₀ (x.machine :: w₀.owned) w) :
      Committable w₀ (x, none) w

theorem verify_exits (hi : Inv w) (rg : Ranges) (data : ExecutableData) (beaconRoot : Option Hash) :
    Exits (verify G E rg data beaconRoot) w
      (fun r w' => w.chain.blocks (r.1.block.hash G) = none ∧ Committable w r w') Returned := by
  refine Exits.get_bind ?_
  refine Exits.check_bind (fun r hr => ?_) fun _ _ _ => hi
  obtain ⟨header, parentHash⟩ := r
  have hfresh := admit_fresh hr
  cases hfind : (rg.pending w.chain.pending).find? fun p => p.2.data.blockHash == header.hash G with
  | some q =>
    obtain ⟨id, p⟩ := q
    have hmem := (rg.pending_perm _).mem_iff.1 (List.mem_of_find?_eq_some hfind)
    simp only [hfind]
    exact Exits.pure ⟨hfresh, .adopted hmem rfl⟩
  | none =>
    simp only [hfind]
    refine (reexecute_exits hi).bind fun x w₁ h₁ => Exits.pure ⟨?_, .reexecuted h₁.2⟩
    show w.chain.blocks (x.block.header.hash G) = none
    rwa [h₁.1]

/-- A list with different keys is one entry and the entries with other keys. -/
theorem perm_filter_key {κ β : Type} [DecidableEq κ] {l : List (κ × β)} (hl : (l.map Prod.fst).Nodup)
    {k : κ} {b : β} (hb : (k, b) ∈ l) :
    l.Perm ((k, b) :: l.filter fun p => some p.1 ≠ some k) := by
  induction l with
  | nil => cases hb
  | cons a l ih =>
    rw [List.map_cons, List.nodup_cons] at hl
    rcases List.mem_cons.1 hb with rfl | hmem
    · have hkeep : ∀ p ∈ l, decide (some p.1 ≠ some k) = true := by
        intro p hp
        rw [decide_eq_true_eq, ne_eq, Option.some_inj]
        intro hkey
        have hmem : p.1 ∈ l.map Prod.fst := List.mem_map_of_mem hp
        rw [hkey] at hmem
        exact hl.1 hmem
      rw [List.filter_cons_of_neg (by simp), List.filter_eq_self.2 hkeep]
    · have hne : a.1 ≠ k := by
        intro hkey
        exact hl.1 (hkey ▸ List.mem_map_of_mem (f := Prod.fst) hmem)
      rw [List.filter_cons_of_pos (by simpa using hne)]
      exact ((ih hl.2 hmem).cons a).trans (List.Perm.swap ..)

/-- A machine for a block that has none. -/
theorem filterMap_update {machines : Hash → Option Handle} {b : Hash} (hb : b ∉ held) (m : Handle) :
    (b :: held).filterMap (update machines b (some m)) = m :: held.filterMap machines := by
  rw [List.filterMap_cons_some (update_self b (some m) machines)]
  congr 1
  refine List.filterMap_congr fun b' hb' => update_of_ne ?_ _ _
  rintro rfl
  exact hb hb'

theorem Keyed.commit (hk : Keyed c held) (x : Executed Handle) (adopted : Option PayloadID)
    (hb : x.block.hash G ∉ held) :
    Keyed { c.commit G x with pending := c.pending.filter fun p => some p.1 ≠ adopted }
      (x.block.hash G :: held) := by
  refine ⟨List.nodup_cons.2 ⟨hb, hk.nodup⟩, fun b => ?_, fun b => ?_, ?_⟩
  · show _ ↔ (update c.machines (x.block.hash G) (some x.machine) b).isSome = true
    rw [List.mem_cons, hk.mem_iff, update_apply]
    split_ifs with heq <;> simp [heq]
  · show (update c.machines (x.block.hash G) (some x.machine) b).isSome = true →
      (update c.blocks (x.block.hash G) (some x.block) b).isSome = true
    rw [update_apply, update_apply]
    split_ifs with heq
    · exact fun _ => rfl
    · exact hk.blocks b
  · exact hk.ids.sublist ((List.filter_sublist ..).map _)

theorem commit_inv (hi : Inv w₀) {x : Executed Handle} {adopted : Option PayloadID}
    (hfresh : w₀.chain.blocks (x.block.hash G) = none) (hc : Committable w₀ (x, adopted) w) :
    Inv (commit G x adopted w) := by
  have hb : x.block.hash G ∉ w₀.held := by
    intro hheld
    have hsome := hi.keyed.blocks _ ((hi.keyed.mem_iff _).1 hheld)
    rw [hfresh] at hsome
    cases hsome
  -- the machines of the maps and of the payloads that stay are what was open
  have hmain : w.chain = w₀.chain ∧ w.held = w₀.held ∧
      Tidy w.log (x.machine :: (w₀.held.filterMap w₀.chain.machines ++
        (w₀.chain.pending.filter fun p => some p.1 ≠ adopted).map fun p => p.2.machine)) := by
    cases hc with
    | @adopted _ id p hp hm =>
      refine ⟨rfl, rfl, hi.tidy.perm ?_⟩
      have hsplit := (perm_filter_key hi.keyed.ids hp).map fun p => p.2.machine
      rw [List.map_cons, ← hm] at hsplit
      exact ((List.Perm.refl _).append hsplit).trans List.perm_middle
    | reexecuted hk =>
      refine ⟨hk.chain_eq, hk.held_eq, ?_⟩
      rw [List.filter_eq_self.2 (by simp)]
      exact hk.tidy
  obtain ⟨hchain, hheld, htidy⟩ := hmain
  have hheld' : (commit G x adopted w).held = x.block.hash G :: w₀.held := by
    show List.insert (x.block.hash G) w.held = _
    rw [hheld, List.insert_of_not_mem hb]
  have hchain' : (commit G x adopted w).chain =
      { w₀.chain.commit G x with
        pending := w₀.chain.pending.filter fun p => some p.1 ≠ adopted } := by
    show ({ w.chain.commit G x with
      pending := w.chain.pending.filter fun p => some p.1 ≠ adopted } : Chain Handle τ) = _
    rw [hchain]
  refine ⟨?_, ?_⟩
  · rw [World.owned, hheld', hchain']
    show Tidy w.log ((x.block.hash G :: w₀.held).filterMap
      (update w₀.chain.machines (x.block.hash G) (some x.machine)) ++ _)
    rw [filterMap_update hb]
    exact htidy
  · rw [hheld', hchain']
    exact hi.keyed.commit x adopted hb

theorem importPayload_exits (hi : Inv w) (rg : Ranges) (data : ExecutableData)
    (beaconRoot : Option Hash) :
    Exits (importPayload G E rg data beaconRoot) w (fun _ => Inv) Failed := by
  have hv := verify_exits (G := G) (E := E) hi rg data beaconRoot
  unfold Exits at hv
  cases hrun : (verify G E rg data beaconRoot).run w with
  | ok r w₁ =>
    rw [hrun] at hv
    exact Exits.of_ok (importPayload_commits hrun) (commit_inv hi hv.1 hv.2)
  | error answer w₁ =>
    rw [hrun] at hv
    cases answer with
    | ok status => exact Exits.of_ok (importPayload_answers hrun) (hv (by simp))
    | error e => exact Exits.of_error (importPayload_fails hrun) fun hne => hv (by simpa using hne)

/-! ## Runs -/

theorem inv_of_exits {x : HandleM ChainError σ τ α} {fail : ChainError → World σ τ → Prop}
    (hx : Exits x w (fun _ => Inv) fail)
    (hfail : ∀ e w', x.run w = .error e w' → fail e w' → Inv w') : Inv (endState (x.run w)) := by
  unfold Exits at hx
  cases hrun : x.run w with
  | ok a w' =>
    rw [hrun] at hx
    exact hx
  | error e w' =>
    rw [hrun] at hx
    exact hfail e w' hrun hx

theorem inv_fresh {M : Machine Handle} {cfg : Config} {pool : Option Pool} (state : Handle → σ)
    (hnew : new G M cfg 0 pool = .ok c) : Inv ⟨c, [c.genesisHash], [.opens 0, .uses 0], state⟩ := by
  obtain ⟨-, x, hx, rfl⟩ := new_eq_ok.1 hnew
  obtain ⟨root, extra, -, -, hx⟩ := genesis_eq_ok.1 hx
  have hmachine : x.machine = 0 := by rw [hx]
  have hmachines : ∀ b, (update (fun _ => none) (x.block.hash G) (some x.machine) b :
      Option Handle).isSome = true ↔ b = x.block.hash G := by
    intro b
    rw [update_apply]
    split_ifs with heq <;> simp [heq]
  refine ⟨⟨?_, ?_⟩, List.nodup_singleton _, fun b => ?_, fun b hb => ?_, List.nodup_nil⟩
  · refine ((Linear.start 0).uses (List.mem_singleton_self 0)).perm (List.Perm.of_eq ?_)
    simp [World.owned, singleton, hmachine]
  · intro e he
    simp only [List.mem_cons, List.not_mem_nil, or_false] at he
    rcases he with rfl | rfl <;> exact Nat.zero_lt_succ _
  · rw [List.mem_singleton]
    exact (hmachines b).symm
  · have heq := (hmachines b).1 hb
    show (update (fun _ => none) (x.block.hash G) (some x.block) b).isSome = true
    rw [heq, update_self]
    rfl

/-- Between two calls of a run the maps own what is open. -/
theorem Runs.inv (h : Runs G E w) : Inv w := by
  induction h with
  | fresh state hnew => exact inv_fresh state hnew
  | forkchoice h rg fc attrs hend ih =>
    refine inv_of_exits (forkchoiceUpdated_exits ih rg fc attrs) fun e w' hrun hrefused => ?_
    refine hrefused fun he => hend (Or.inr ?_)
    rw [hrun, he]
    rfl
  | imported h rg data beaconRoot hend ih =>
    refine inv_of_exits (importPayload_exits ih rg data beaconRoot) fun e w' hrun hfailed => ?_
    refine hfailed fun he => hend (Or.inl ?_)
    rw [hrun, he]
    rfl
  | elsewhere h pool da ih => exact ih.congr rfl rfl rfl

/-! ## Owners of a handle -/

/-- An entry of one of the two maps. -/
inductive Slot
  | machine (block : Hash)
  | pending (id : PayloadID)

/-- The entry holds the handle. -/
def Owns (c : Chain Handle τ) : Slot → Handle → Prop
  | .machine block, h => c.machines block = some h
  | .pending id, h => ∃ p, (id, p) ∈ c.pending ∧ p.machine = h

theorem Inv.mem_owned_iff (hi : Inv w) : h ∈ w.owned ↔ ∃ s, Owns w.chain s h := by
  rw [World.owned, List.mem_append, List.mem_filterMap, List.mem_map]
  constructor
  · rintro (⟨b, -, hb⟩ | ⟨⟨id, p⟩, hp, hm⟩)
    · exact ⟨.machine b, hb⟩
    · exact ⟨.pending id, p, hp, hm⟩
  · rintro ⟨s, hs⟩
    cases s with
    | machine b => exact Or.inl ⟨b, (hi.keyed.mem_iff b).2 (by rw [hs]; rfl), hs⟩
    | pending id =>
      obtain ⟨p, hp, hm⟩ := hs
      exact Or.inr ⟨(id, p), hp, hm⟩

/-- A list of values without repetition comes from one key each. -/
theorem filterMap_inj {β γ : Type} {f : β → Option γ} {l : List β} (hl : (l.filterMap f).Nodup)
    {b b' : β} {c : γ} (hb : b ∈ l) (hb' : b' ∈ l) (hc : f b = some c) (hc' : f b' = some c) :
    b = b' := by
  have hsymm : Std.Symm fun a a' => ∀ x, f a = some x → ∀ y, f a' = some y → x ≠ y :=
    ⟨fun a a' h x hx y hy => (h y hy x hx).symm⟩
  by_contra hne
  exact (List.pairwise_filterMap.1 hl).forall hb hb' hne c hc c hc' rfl

/-- No handle is held by two entries. -/
theorem Inv.owner_unique (hi : Inv w) {s s' : Slot} (hs : Owns w.chain s h)
    (hs' : Owns w.chain s' h) : s = s' := by
  obtain ⟨hmachines, hpending, hdisjoint⟩ := List.nodup_append.1 hi.tidy.linear.nodup
  have hm : ∀ {b}, w.chain.machines b = some h → h ∈ w.held.filterMap w.chain.machines :=
    fun hb => List.mem_filterMap.2 ⟨_, (hi.keyed.mem_iff _).2 (by rw [hb]; rfl), hb⟩
  have hp : ∀ {id p}, (id, p) ∈ w.chain.pending → p.machine = h →
      h ∈ w.chain.pending.map fun p => p.2.machine :=
    fun hmem heq => List.mem_map.2 ⟨_, hmem, heq⟩
  cases s with
  | machine b =>
    cases s' with
    | machine b' =>
      have hheld : ∀ {b}, w.chain.machines b = some h → b ∈ w.held :=
        fun hb => (hi.keyed.mem_iff _).2 (by rw [hb]; rfl)
      rw [filterMap_inj hmachines (hheld hs) (hheld hs') hs hs']
    | pending id' =>
      obtain ⟨p', hp', hm'⟩ := hs'
      exact absurd rfl (hdisjoint h (hm hs) h (hp hp' hm'))
  | pending id =>
    obtain ⟨p, hmem, heq⟩ := hs
    cases s' with
    | machine b' => exact absurd rfl (hdisjoint h (hm hs') h (hp hmem heq))
    | pending id' =>
      obtain ⟨p', hmem', heq'⟩ := hs'
      cases List.inj_on_of_nodup_map hpending hmem hmem' (heq.trans heq'.symm)
      rfl

/-- Machine handles are linear. At the end of every call of a run, every machine that was opened is
    held by exactly one entry of the machines and pending maps and was not closed, or is held by
    none and was closed exactly once; no entry holds a closed machine, and nothing is asked of a
    machine after it was closed. -/
theorem handles_linear (hrun : Runs G E w) :
    (∀ h, .opens h ∈ w.log →
      ((∃! s, Owns w.chain s h) ∧ .closes h ∉ w.log) ∨
        ((∀ s, ¬Owns w.chain s h) ∧ w.log.count (.closes h) = 1)) ∧
    (∀ s h, Owns w.chain s h → .opens h ∈ w.log ∧ .closes h ∉ w.log) ∧
    w.log.Pairwise fun e e' => ∀ h, e = .closes h → e'.handle ≠ h := by
  have hi := hrun.inv
  have hlinear := hi.tidy.linear
  refine ⟨fun h hopen => ?_, fun s h hs => ?_, hlinear.retired⟩
  · rcases hlinear.open_or_closed hopen with ⟨hlive, hnot⟩ | ⟨hdead, hclosed⟩
    · obtain ⟨s, hs⟩ := hi.mem_owned_iff.1 hlive
      exact Or.inl ⟨⟨s, hs, fun s' hs' => hi.owner_unique hs' hs⟩, hnot⟩
    · exact Or.inr ⟨fun s hs => hdead (hi.mem_owned_iff.2 ⟨s, hs⟩), hclosed⟩
  · exact (hlinear.mem_iff h).1 (hi.mem_owned_iff.2 ⟨s, hs⟩)

/-! ## A machine that stops answering -/

namespace Sample

open Node.Sample

/-- An emulator that tells no root hash after a while. -/
def faulty (log : List (Event Handle)) : Machine ℕ :=
  { machine with rootHash := fun s => if log.length < 12 then some (hashOf s) else none }

def ranges : Ranges where
  machines l := l
  machines_perm l := List.Perm.refl l
  pending l := l
  pending_perm l := List.Perm.refl l

/-- The genesis block is the head. -/
def atGenesis : ForkchoiceState := ⟨(genesisBlock geth).block.hash geth, zeroHash, zeroHash⟩

/-- A block with one deposit. -/
def oneDeposit (random : ℕ) : PayloadAttributes :=
  attributes (genesisBlock geth).block.header random [[5]]

def build (random : ℕ) : HandleM ChainError ℕ Bytes ForkChoiceResponse :=
  forkchoiceUpdated geth faulty ranges atGenesis (some (oneDeposit random))

def fresh : World ℕ Bytes := ⟨start geth none, [(start geth none).genesisHash],
  [.opens 0, .uses 0], fun _ => 0⟩

/-- After one build. -/
def built : World ℕ Bytes := endState ((build 1).run fresh)

/-- After a second build, whose machine does not tell its root hash. -/
def failed : World ℕ Bytes := endState ((build 2).run built)

theorem failed_log : failed.log = [.opens 0, .uses 0, .uses 0, .opens 2, .uses 2, .opens 4, .uses 4,
    .closes 2, .uses 4, .uses 0, .opens 9, .uses 9, .opens 11, .uses 11, .closes 9, .uses 11,
    .closes 11] := by
  decide +kernel

theorem runs_fresh : Runs geth faulty fresh := by
  have hnew : new geth (genesisMachine faulty fun _ => 0) config 0 none = .ok (start geth none) := rfl
  exact .fresh _ hnew

theorem runs_failed : Runs geth faulty failed := by
  have hone : ¬Panicked ((build 1).run fresh) := by
    unfold Panicked
    decide +kernel
  have htwo : ¬Panicked ((build 2).run built) := by
    unfold Panicked
    decide +kernel
  have hbuilt : Runs geth faulty built :=
    runs_fresh.forkchoice ranges atGenesis (some (oneDeposit 1)) hone
  exact hbuilt.forkchoice ranges atGenesis (some (oneDeposit 2)) htwo

end Sample

/-- The machine of the second build was closed once, and that of the first is held. -/
theorem handles_linear_sample : ∃ w : World ℕ Bytes, Runs Node.Sample.geth Sample.faulty w ∧
    w.log.count (.closes 11) = 1 ∧ ∃! s, Owns w.chain s 4 := by
  have hrun := Sample.runs_failed
  obtain ⟨hopened, -, -⟩ := handles_linear hrun
  refine ⟨_, hrun, ?_, ?_⟩
  · refine ((hopened 11 ?_).resolve_left fun h => h.2 ?_).2 <;> rw [Sample.failed_log] <;> decide
  · refine ((hopened 4 ?_).resolve_right fun h => ?_).1
    · rw [Sample.failed_log]
      decide
    · have hcount := h.2
      rw [Sample.failed_log] at hcount
      exact absurd hcount (by decide)

end OpCartesi.Node.Handles
