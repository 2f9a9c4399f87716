import OpCartesi.Chain.Forkchoice

/-!
# The canonical chain is one branch

The walk that makes a head canonical stops at the first block that is canonical already
(`chain.go:261-280`), in the store also at the first number above the head that is not taken
(`store.go:117-141`). Both stop in the right place because what they find is one whole branch.

* `OneBranch`: the canonical map is a held block with its ancestors.
* `canonical_one_branch`: it is so after every run, and after an accepted forkchoice request the
  block is the head.
* `Store.setCanonical_spans`, `setCanonical_tracks`: the same of the stored numbering, for any tree
  of blocks and any sequence of heads.
-/

namespace OpCartesi.Node

open Exec Ancestry

variable {σ τ : Type} {G : Geth τ} {M : Machine σ} {rt : Runtime σ} {c c' : Chain σ τ}

namespace Chain

/-! ## In memory -/

/-- The canonical map has the ancestors of the held block `t` under their heights, and no other
    entry. -/
structure OneBranch (G : Geth τ) (c : Chain σ τ) (t : Block) : Prop where
  held : c.blocks (t.hash G) = some t
  defined : ∀ n, (c.canonical n).isSome ↔ n ≤ t.number
  ancestor : ∀ n a, c.canonical n = some a ↔
    ∃ b, c.blocks a = some b ∧ b.number = n ∧ c.Ancestor a (t.hash G)

theorem OneBranch.spans {t : Block} (h : c.OneBranch G t) :
    Spans c.blocks (fun b => b.header.parentHash) Block.number c.canonical (t.hash G) :=
  ⟨⟨t, h.held⟩, h.ancestor⟩

theorem OneBranch.of_spans (hl : c.Linked G) {h : Hash}
    (hs : Spans c.blocks (fun b => b.header.parentHash) Block.number c.canonical h) :
    ∃ t, t.hash G = h ∧ c.OneBranch G t := by
  obtain ⟨t, ht⟩ := hs.tip
  have hhash := hl.keyed h t ht
  subst hhash
  exact ⟨t, rfl, ht, hs.isSome_iff hl.rooted ht, hs.label_iff⟩

/-- `reorgTo` leaves the branch of its head. -/
theorem reorgTo_oneBranch (hl : c.Linked G) {head : Block}
    (hhead : c.blocks (head.hash G) = some head) (hblocks : c'.blocks = c.blocks)
    (hcan : c'.canonical = (c.reorgTo G head).canonical) : c'.OneBranch G head := by
  have hs : Spans c'.blocks (fun b => b.header.parentHash) Block.number c'.canonical
      (head.hash G) := by
    rw [hblocks, hcan]
    exact ⟨⟨head, hhead⟩, reorgTo_canonical hl hhead⟩
  have hroot := hl.rooted
  rw [← hblocks] at hroot hhead
  exact ⟨hhead, hs.isSome_iff hroot hhead, hs.label_iff⟩

/-- A request for a head that is held makes it canonical, whatever else is wrong with it; the head
    moves if it is accepted. -/
theorem forkchoice_reorgs (rt : Runtime σ) (fc : ForkchoiceState)
    (attrs : Option PayloadAttributes) :
    endState ((forkchoiceUpdated G M rt fc attrs).run c) = c ∧
      answer ((forkchoiceUpdated G M rt fc attrs).run c) = .ok .syncing ∨
    ∃ head, c.blocks fc.headBlockHash = some head ∧
      (endState ((forkchoiceUpdated G M rt fc attrs).run c)).blocks = c.blocks ∧
      (endState ((forkchoiceUpdated G M rt fc attrs).run c)).canonical =
        (c.reorgTo G head).canonical ∧
      ∀ h id, answer ((forkchoiceUpdated G M rt fc attrs).run c) = .ok (.valid h id) →
        (endState ((forkchoiceUpdated G M rt fc attrs).run c)).head = head.hash G := by
  have hfc := forkchoice_cases (G := G) (M := M) (c := c) rt fc attrs
  have hblocks : ∀ head, (c.pointed G M rt head fc).blocks = c.blocks := fun head =>
    (trims_pointed head fc).blocks
  have hcan : ∀ head, (c.pointed G M rt head fc).canonical = (c.reorgTo G head).canonical :=
    fun head => pointed_canonical head fc
  generalize (forkchoiceUpdated G M rt fc attrs).run c = r at hfc
  cases hfc with
  | unknownHead => exact .inl ⟨rfl, rfl⟩
  | badSafe head hhead => exact .inr ⟨head, hhead, rfl, rfl, fun h id he => by cases he⟩
  | badFinalized head hhead =>
    exact .inr ⟨head, hhead, (trims_withSafe _).blocks, withSafe_canonical _ _,
      fun h id he => by cases he⟩
  | noBuild head hhead => exact .inr ⟨head, hhead, hblocks head, hcan head, fun _ _ _ => rfl⟩
  | badTime head hhead =>
    exact .inr ⟨head, hhead, hblocks head, hcan head, fun h id he => by cases he⟩
  | buildFailed head e c' hhead hsafe hfin hc' =>
    rcases hc' with rfl | ⟨dropped, rfl⟩ <;>
      exact .inr ⟨head, hhead, hblocks head, hcan head, fun h id he => by cases he⟩
  | found head id p hhead => exact .inr ⟨head, hhead, hblocks head, hcan head, fun _ _ _ => rfl⟩
  | built head id p dropped hhead =>
    exact .inr ⟨head, hhead, hblocks head, hcan head, fun _ _ _ => rfl⟩

end Chain

open Chain

/-- Importing keeps the blocks there are, and the canonical map. -/
theorem import_keeps (rt : Runtime σ) (data : ExecutableData) (beaconRoot : Option Hash) :
    (∀ h b, c.blocks h = some b →
      ((Call.importPayload rt data beaconRoot).exec G M c).blocks h = some b) ∧
    ((Call.importPayload rt data beaconRoot).exec G M c).canonical = c.canonical := by
  unfold Call.exec
  simp only
  rw [importPayload_run]
  cases hv : c.verify G M rt data beaconRoot with
  | error answer => cases answer <;> exact ⟨fun _ _ h => h, rfl⟩
  | ok xa =>
    obtain ⟨parent, hadm, hrest⟩ := verify_eq_ok.1 hv
    have hblock : xa.1.block = ⟨payloadHeader G data beaconRoot, data.transactions⟩ := by
      rcases hrest with ⟨id, p, -, -, heq⟩ | ⟨-, -, hre⟩
      · rw [heq]
      · exact hre.block_eq
    refine ⟨fun h b hb => ?_, rfl⟩
    have hne : h ≠ xa.1.block.hash G := by
      rintro rfl
      have hnone := (congrArg c.blocks hadm.hash_eq).trans hadm.fresh
      rw [hblock] at hb
      cases hnone.symm.trans hb
    exact (Function.update_of_ne hne _ _).trans hb

/-- One call takes a branch to a branch. -/
theorem oneBranch_exec (hl : c.Linked G) (h : ∃ t, c.OneBranch G t) (k : Call σ) :
    ∃ t, (k.exec G M c).OneBranch G t := by
  have hl' := linked_exec (M := M) hl k
  cases k with
  | forkchoiceUpdated rt fc attrs =>
    rcases forkchoice_reorgs (G := G) (M := M) (c := c) rt fc attrs with
      ⟨hsame, -⟩ | ⟨head, hhead, hblocks, hcan, -⟩
    · rw [Call.exec, hsame]
      exact h
    · have hheld : c.blocks (head.hash G) = some head := by rw [hl.keyed _ _ hhead, hhead]
      exact ⟨head, reorgTo_oneBranch hl hheld hblocks hcan⟩
  | importPayload rt data beaconRoot =>
    obtain ⟨t, ht⟩ := h
    obtain ⟨hle, hcan⟩ := import_keeps (G := G) (M := M) (c := c) rt data beaconRoot
    have hs := ht.spans.mono hl.rooted hle
    rw [← hcan] at hs
    obtain ⟨t', -, ht'⟩ := OneBranch.of_spans hl' hs
    exact ⟨t', ht'⟩
  | setMaxDASize limits =>
    obtain ⟨t, ht⟩ := h
    exact ⟨t, ht.held, ht.defined, ht.ancestor⟩
  | queue pool =>
    obtain ⟨t, ht⟩ := h
    exact ⟨t, ht.held, ht.defined, ht.ancestor⟩

theorem oneBranch_singleton (cfg : Config) (pool : Option Pool) (x : Executed σ)
    (txBlocks : Hash → List Hash) (genesisHash : Hash) (hnumber : x.block.number = 0) :
    (singleton G cfg pool (none : Option (Store σ τ)) x txBlocks genesisHash).OneBranch G
      x.block := by
  have hl := linked_singleton (G := G) (τ := τ) cfg pool x txBlocks genesisHash hnumber
  have hheld : (singleton G cfg pool (none : Option (Store σ τ)) x txBlocks genesisHash).blocks
      (x.block.hash G) = some x.block := by simp [singleton]
  have hs := Spans.of_traces hl.rooted hheld (hl.traces x.block.number _ (by simp [singleton]))
    fun n hn => by simp [singleton, hn.ne']
  exact ⟨hheld, hs.isSome_iff hl.rooted hheld, hs.label_iff⟩

/-- A fresh chain has its genesis block and nothing else. -/
theorem oneBranch_fresh (h : Fresh G M c) : ∃ t, c.OneBranch G t := by
  have hnew : ∀ {cfg : Config} {m : σ} {pool : Option Pool} {c : Chain σ τ},
      new G M cfg m pool = .ok c → ∃ t, c.OneBranch G t := by
    intro cfg m pool c h
    obtain ⟨-, x, hx, rfl⟩ := new_eq_ok.1 h
    obtain ⟨root, extra, -, -, rfl⟩ := genesis_eq_ok.1 hx
    exact ⟨_, oneBranch_singleton _ pool _ _ _ rfl⟩
  cases h with
  | inMemory h => exact hnew h
  | @adopted cfg m pool c₀ c' h h' =>
    obtain ⟨t, ht⟩ := hnew h
    unfold adopt at h'
    simp only [except_bind_eq_ok, expect_eq_ok] at h'
    obtain ⟨b, hb, s, hput, hpure⟩ := h'
    cases hpure
    exact ⟨t, ht.held, ht.defined, ht.ancestor⟩

/-- The canonical map of every run is the branch of a held block, which is the head after an accepted
    request. -/
theorem canonical_one_branch {c₀ : Chain σ τ} (h₀ : Fresh G M c₀)
    (hreach : Reach G M (fun _ => True) c₀ c) :
    (∃ t, c.OneBranch G t) ∧
    ∀ (rt : Runtime σ) (fc : ForkchoiceState) (attrs : Option PayloadAttributes) (h : Hash)
      (id : Option PayloadID) (c' : Chain σ τ),
      (forkchoiceUpdated G M rt fc attrs).run c = .ok (.valid h id) c' →
        ∃ t, c'.head = t.hash G ∧ c'.OneBranch G t := by
  refine ⟨?_, fun rt fc attrs h id c' hrun => ?_⟩
  · induction hreach with
    | start => exact oneBranch_fresh h₀
    | call hr k _ ih => exact oneBranch_exec (hr.linked h₀) ih k
  · have hl := hreach.linked h₀
    have hfc := forkchoice_reorgs (G := G) (M := M) (c := c) rt fc attrs
    rw [hrun] at hfc
    rcases hfc with ⟨-, hsync⟩ | ⟨head, hhead, hblocks, hcan, hmoved⟩
    · cases hsync
    · have hheld : c.blocks (head.hash G) = some head := by rw [hl.keyed _ _ hhead, hhead]
      exact ⟨head, hmoved h id rfl, reorgTo_oneBranch hl hheld hblocks hcan⟩

open Sample in
theorem canonical_one_branch_sample : ∃ t, onA.OneBranch geth t :=
  (canonical_one_branch (.inMemory (new_start geth none)) reach_onA).1

/-! ## In the store -/

namespace Store

variable {held walk : Hash → Option Block} {s : Store σ τ}

/-- The walk asks for ancestors of the block it starts from only. -/
theorem relabel_congr (hroot : Rooted held (fun b => b.header.parentHash) Block.number)
    (hkeyed : ∀ h b, held h = some b → b.hash G = h) {seen : ℕ → Option Hash} :
    ∀ (fuel : ℕ) (cur : Block) (label : ℕ → Option Hash), held (cur.hash G) = some cur →
      (∀ a, Ancestor held (fun b => b.header.parentHash) Block.number a (cur.hash G) →
        walk a = held a) →
      relabel G walk seen fuel cur label = relabel G held seen fuel cur label := by
  intro fuel
  induction fuel with
  | zero =>
    intro cur label _ _
    rfl
  | succ fuel ih =>
    intro cur label hcur hwalk
    rw [relabel, relabel]
    split_ifs with hstop hzero
    · rfl
    · rfl
    · obtain ⟨p, hp, -⟩ := hroot _ _ hcur hzero
      have hparent : Ancestor held (fun b => b.header.parentHash) Block.number
          cur.header.parentHash (cur.hash G) := .up hcur hzero (.refl hp)
      rw [hwalk _ hparent, hp]
      have hhash := hkeyed _ _ hp
      refine ih p _ (hhash.symm ▸ hp) fun a ha => ?_
      rw [hhash] at ha
      exact hwalk a (ha.trans hparent)

/-- `SetCanonical` deletes every number above the head, if the numbers in use have no gap. -/
theorem above_deleted (hroot : Rooted held (fun b => b.header.parentHash) Block.number) {k : Hash}
    (hs : Spans held (fun b => b.header.parentHash) Block.number s.canonical k) {number n : ℕ}
    (hn : number < n) : (if aboveHead s.canonical number n then none else s.canonical n) = none := by
  obtain ⟨y, hy⟩ := hs.tip
  split_ifs with habove
  · rfl
  · rw [← Option.not_isSome_iff_eq_none, hs.isSome_iff hroot hy]
    intro hle
    refine habove ?_
    simp only [aboveHead, Bool.and_eq_true, decide_eq_true_eq, List.all_eq_true, List.mem_range,
      Bool.or_eq_true]
    exact ⟨hn, fun i hi => .inr ((hs.isSome_iff hroot hy i).2 (by omega))⟩

/-- From one branch to another. -/
theorem setCanonical_spans (hroot : Rooted held (fun b => b.header.parentHash) Block.number)
    (hkeyed : ∀ h b, held h = some b → b.hash G = h) {k : Hash}
    (hs : Spans held (fun b => b.header.parentHash) Block.number s.canonical k) {head : Block}
    (hhead : held (head.hash G) = some head)
    (hwalk : ∀ a, Ancestor held (fun b => b.header.parentHash) Block.number a (head.hash G) →
      walk a = held a) :
    Spans held (fun b => b.header.parentHash) Block.number (s.setCanonical G head walk).canonical
      (head.hash G) := by
  obtain ⟨htraces, habove⟩ := relabel_traces hroot
    (fun h b hb => ⟨hkeyed h b hb, b, hb, rfl, rfl⟩)
    (fun h b hb hpos _ => (hroot h b hb hpos).imp fun _ hp => hp.1)
    (fun n h hn => hs.traces hroot hn) (head.number + 1) head
    (fun n => if aboveHead s.canonical head.number n then none else s.canonical n) hhead (by omega)
    (fun n hn => if_neg (by simp only [aboveHead, Bool.and_eq_true, decide_eq_true_eq]; omega))
  rw [setCanonical]
  simp only
  rw [relabel_congr hroot hkeyed _ _ _ hhead hwalk]
  exact .of_traces hroot hhead htraces fun n hn => (habove n hn).trans (above_deleted hroot hs hn)

/-- A sequence of `SetCanonical` calls, each with its own `walkParent`. -/
def setCanonicals (G : Geth τ) (s : Store σ τ) (calls : List (Block × (Hash → Option Block))) :
    Store σ τ :=
  calls.foldl (fun s k => s.setCanonical G k.1 k.2) s

end Store

/-- From a store in which only the genesis block is canonical, after any sequence of calls with heads
    of a tree the stored numbering is the branch of the last head. -/
theorem setCanonical_tracks {held : Hash → Option Block}
    (hroot : Rooted held (fun b => b.header.parentHash) Block.number)
    (hkeyed : ∀ h b, held h = some b → b.hash G = h) {genesis : Block}
    (hgenesis : held (genesis.hash G) = some genesis) (hzero : genesis.number = 0)
    {s : Store σ τ}
    (hs : ∀ n, s.canonical n = if n = 0 then some (genesis.hash G) else none)
    (calls : List (Block × (Hash → Option Block))) (last : Block × (Hash → Option Block))
    (hcalls : ∀ k ∈ calls ++ [last], held (k.1.hash G) = some k.1 ∧
      ∀ a, Ancestor held (fun b => b.header.parentHash) Block.number a (k.1.hash G) →
        k.2 a = held a) :
    let canonical := (s.setCanonicals G (calls ++ [last])).canonical
    (∀ n, (canonical n).isSome ↔ n ≤ last.1.number) ∧
    ∀ n a, canonical n = some a ↔ ∃ b, held a = some b ∧ b.number = n ∧
      Ancestor held (fun b => b.header.parentHash) Block.number a (last.1.hash G) := by
  have hstart : Spans held (fun b => b.header.parentHash) Block.number s.canonical
      (genesis.hash G) := by
    refine .of_traces hroot hgenesis (.of_parent hroot hgenesis ?_ fun h => absurd hzero h)
      fun n hn => ?_
    · rw [hs, if_pos hzero]
    · rw [hs, if_neg (by omega)]
  have hrun : ∀ (calls : List (Block × (Hash → Option Block))) (s : Store σ τ),
      (∀ k ∈ calls, held (k.1.hash G) = some k.1 ∧
        ∀ a, Ancestor held (fun b => b.header.parentHash) Block.number a (k.1.hash G) →
          k.2 a = held a) →
      (∃ k, Spans held (fun b => b.header.parentHash) Block.number s.canonical k) →
      ∃ k, Spans held (fun b => b.header.parentHash) Block.number
        (s.setCanonicals G calls).canonical k := by
    intro calls
    induction calls with
    | nil => exact fun s _ h => h
    | cons call calls ih =>
      rintro s hcalls ⟨k, hk⟩
      obtain ⟨hhead, hwalk⟩ := hcalls call (List.mem_cons_self ..)
      exact ih _ (fun j hj => hcalls j (List.mem_cons_of_mem _ hj))
        ⟨_, Store.setCanonical_spans hroot hkeyed hk hhead hwalk⟩
  obtain ⟨k, hk⟩ := hrun calls s (fun j hj => hcalls j (List.mem_append_left _ hj)) ⟨_, hstart⟩
  obtain ⟨hhead, hwalk⟩ := hcalls last (List.mem_append_right _ (List.mem_singleton_self _))
  have hlast := Store.setCanonical_spans hroot hkeyed hk hhead hwalk
  intro canonical
  have hcan : canonical = ((s.setCanonicals G calls).setCanonical G last.1 last.2).canonical := by
    simp only [canonical, Store.setCanonicals, List.foldl_append, List.foldl_cons, List.foldl_nil]
  rw [hcan]
  exact ⟨hlast.isSome_iff hroot hhead, hlast.label_iff⟩

open Sample in
/-- The head goes from one branch to the other. -/
theorem setCanonical_tracks_sample :
    let s : Store ℕ Bytes := { Store.empty with
      canonical := fun n => if n = 0 then some ((genesisBlock geth).block.hash geth) else none }
    let s' := s.setCanonicals geth ([(⟨A, []⟩, forked.blocks)] ++ [(⟨B, []⟩, forked.blocks)])
    s'.canonical 1 = some (Block.hash geth ⟨B, []⟩) := by
  have hreach : Reach geth machine (fun _ => True) (start geth none) forked :=
    .call (.call .start _ trivial) _ trivial
  have hl := hreach.linked (.inMemory (new_start geth none))
  have hA : forked.blocks (Block.hash geth ⟨A, []⟩) = some ⟨A, []⟩ := by decide +kernel
  have hB : forked.blocks (Block.hash geth ⟨B, []⟩) = some ⟨B, []⟩ := by decide +kernel
  have hgenesis : forked.blocks ((genesisBlock geth).block.hash geth) =
      some (genesisBlock geth).block := by decide +kernel
  have hone : Block.number ⟨B, []⟩ = 1 := by decide
  intro s s'
  refine ((setCanonical_tracks hl.rooted hl.keyed hgenesis rfl (s := s) (fun _ => rfl)
    [(⟨A, []⟩, forked.blocks)] (⟨B, []⟩, forked.blocks) ?_).2 1 _).2 ⟨⟨B, []⟩, hB, hone, .refl hB⟩
  intro k hk
  simp only [List.cons_append, List.nil_append, List.mem_cons, List.not_mem_nil, or_false] at hk
  rcases hk with rfl | rfl
  · dsimp only
    exact ⟨hA, fun _ _ => rfl⟩
  · dsimp only
    exact ⟨hB, fun _ _ => rfl⟩

end OpCartesi.Node
