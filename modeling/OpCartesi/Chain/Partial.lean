import OpCartesi.Chain.Restart

/-!
# Restarting among incomplete checkpoints

A crash in the middle of `forked.Store` (`persist.go:207`) leaves a checkpoint directory that does
not load. `LatestCheckpoint` chooses one directory by the height in its name, and `Restore` makes no
second choice (`persist.go:52-72`). So another directory is harmless exactly as long as it is not
the one chosen.

* `RestartsFrom`: what `Restore` needs of the directory it has chosen and of the store.
* `restore_ok_iff`: `Restore` succeeds if the chosen directory has it.
* `latestCheckpoint_spec`: the choice goes by height alone.
* `partial_checkpoints`: with a complete checkpoint and any other directories, `Restore` succeeds
  exactly if the chosen directory is complete; it does so whatever the others hold exactly if each
  of them is below the complete one or above the head.
* `partial_checkpoint_stops`: an unfinished checkpoint of the head block stops a restart.
-/

namespace OpCartesi.Node

open Exec

variable {σ τ : Type} {G : Geth τ} {M : Machine σ} {cfg : Config} {s : Store σ τ}
  {pool : Option Pool} {head : Block} {d cp : CheckpointDir σ}

/-! ## After the choice -/

/-- The canonical block of the directory's height is held, the directory loads to a machine with its
    state root, its records are read and its withdrawal trie is rebuilt, and the canonical blocks
    above it up to the head replay. -/
def RestartsFrom (G : Geth τ) (M : Machine σ) (cfg : Config) (s : Store σ τ) (pool : Option Pool)
    (head : Block) (d : CheckpointDir σ) : Prop :=
  ∃ base m records passer c, (s.canonical d.number).bind (s.block G) = some base ∧
    d.content = some m ∧ M.rootHash m = some base.header.root ∧
    s.baseRecords G base = .ok records ∧ s.rebuildPasser G base records.2.1 = .ok passer ∧
    (Chain.adoptBase G cfg.withDefaults s pool base m records.1 records.2.1 passer
      records.2.2).replayFrom G M s (head.number - base.number) (base.number + 1) = .ok c

/-- The store has a head, and `d` is a complete checkpoint of a canonical block at or below it. -/
structure CompleteCheckpoint (G : Geth τ) (M : Machine σ) (cfg : Config) (s : Store σ τ)
    (pool : Option Pool) (head : Block) (d : CheckpointDir σ) : Prop where
  valid : cfg.withDefaults.validate = .ok ()
  recorded : s.headBlock.bind (s.block G) = some head
  le : d.number ≤ head.number
  restarts : RestartsFrom G M cfg s pool head d

/-- `Restore` is the choice of a directory and a restart from it. -/
theorem restore_ok_iff {rt : DirSort σ} (hvalid : cfg.withDefaults.validate = .ok ())
    (hhead : s.headBlock.bind (s.block G) = some head) :
    (∃ c, restore G M rt cfg s pool = .ok (some c)) ↔
      ∃ cp, s.latestCheckpoint rt head.number = some cp ∧ RestartsFrom G M cfg s pool head cp := by
  simp only [restore_eq_ok]
  constructor
  · rintro ⟨c, -, head', cp, base, m, records, passer, c', hhead', hcp, hbase, hm, hroot, hrecords,
      hpasser, hloop, -⟩
    cases hhead.symm.trans hhead'
    exact ⟨cp, hcp, base, m, records, passer, c', hbase, hm, hroot, hrecords, hpasser, hloop⟩
  · rintro ⟨cp, hcp, base, m, records, passer, c', hbase, hm, hroot, hrecords, hpasser, hloop⟩
    exact ⟨_, hvalid, head, cp, base, m, records, passer, c', hhead, hcp, hbase, hm, hroot, hrecords,
      hpasser, hloop, rfl⟩

/-! ## The directories matter for the choice only -/

/-- Replaying a block keeps the store and does not read it. -/
theorem Chain.replayStored_store (c : Chain σ τ) (b : Block) (store : Option (Store σ τ)) :
    Chain.replayStored G M { c with store := store } b =
      (fun c => { c with store := store }) <$> c.replayStored G M b := by
  unfold Chain.replayStored
  simp only [map_bind, map_pure]
  rfl

theorem Chain.replayFrom_dirs (dirs : List (CheckpointDir σ)) (store : Option (Store σ τ))
    (left : ℕ) : ∀ (n : ℕ) (c : Chain σ τ),
    Chain.replayFrom G M { s with dirs := dirs } left n { c with store := store } =
      (fun c => { c with store := store }) <$> c.replayFrom G M s left n := by
  induction left with
  | zero =>
    intro n c
    rfl
  | succ left ih =>
    intro n c
    unfold Chain.replayFrom
    simp only [map_bind, Chain.replayStored_store]
    refine except_bind_congr fun hash _ => except_bind_congr fun b _ => ?_
    cases c.replayStored G M b with
    | error e => rfl
    | ok c' => exact ih (n + 1) c'

theorem Store.lineage_dirs (dirs : List (CheckpointDir σ)) (fuel : ℕ) :
    ∀ (b : Block) (blocks : List Block),
    Store.lineage G { s with dirs := dirs } fuel b blocks = s.lineage G fuel b blocks := by
  induction fuel with
  | zero =>
    intro b blocks
    rfl
  | succ fuel ih =>
    intro b blocks
    unfold Store.lineage
    split_ifs
    · rfl
    · exact except_bind_congr fun parent _ => ih parent _

theorem restartsFrom_dirs (dirs : List (CheckpointDir σ)) :
    RestartsFrom G M cfg { s with dirs := dirs } pool head d ↔
      RestartsFrom G M cfg s pool head d := by
  have hpasser : ∀ base tree, Store.rebuildPasser G { s with dirs := dirs } base tree =
      s.rebuildPasser G base tree := by
    intro base tree
    unfold Store.rebuildPasser
    rw [Store.lineage_dirs]
    rfl
  have hloop : ∀ left n base m outputs tree passer inputs,
      Chain.replayFrom G M { s with dirs := dirs } left n
          (Chain.adoptBase G cfg.withDefaults { s with dirs := dirs } pool base m outputs tree passer
            inputs) =
        (fun c => { c with store := some { s with dirs := dirs } }) <$>
          (Chain.adoptBase G cfg.withDefaults s pool base m outputs tree passer inputs).replayFrom
            G M s left n := by
    intro left n base m outputs tree passer inputs
    exact Chain.replayFrom_dirs (s := s) dirs (some { s with dirs := dirs }) left n
      (Chain.adoptBase G cfg.withDefaults s pool base m outputs tree passer inputs)
  unfold RestartsFrom
  simp only [hpasser, hloop]
  constructor
  · rintro ⟨base, m, records, passer, c, hbase, hm, hroot, hrecords, hp, hrun⟩
    obtain ⟨c', hrun, -⟩ := except_map_eq_ok.1 hrun
    exact ⟨base, m, records, passer, c', hbase, hm, hroot, hrecords, hp, hrun⟩
  · rintro ⟨base, m, records, passer, c, hbase, hm, hroot, hrecords, hp, hrun⟩
    exact ⟨base, m, records, passer, _, hbase, hm, hroot, hrecords, hp,
      except_map_eq_ok.2 ⟨c, hrun, rfl⟩⟩

/-! ## The choice -/

/-- With a directory at or below the height, one of the greatest such height is chosen. -/
theorem latestCheckpoint_spec (rt : DirSort σ) {number : ℕ} (hd : d ∈ s.dirs)
    (hle : d.number ≤ number) :
    ∃ cp ∈ s.dirs, s.latestCheckpoint rt number = some cp ∧ cp.number ≤ number ∧
      ∀ e ∈ s.dirs, e.number ≤ number → e.number ≤ cp.number := by
  have hmem : ∀ e, e ∈ (rt.sort s.dirs).reverse ↔ e ∈ s.dirs := by
    intro e
    rw [List.mem_reverse, (rt.sort_perm s.dirs).mem_iff]
  have hsome : (s.latestCheckpoint rt number).isSome = true :=
    List.find?_isSome.2 ⟨d, (hmem d).2 hd, decide_eq_true hle⟩
  obtain ⟨cp, hcp⟩ := Option.isSome_iff_exists.1 hsome
  refine ⟨cp, (hmem cp).1 (List.mem_of_find?_eq_some hcp), hcp, latestCheckpoint_le hcp, ?_⟩
  intro e he hen
  obtain ⟨-, newer, older, hsplit, hnewer⟩ := List.find?_eq_some_iff_append.1 hcp
  -- what the sort puts after the chosen directory is above the height
  have hsorted := List.pairwise_reverse.2 (rt.sort_sorted s.dirs)
  rw [hsplit] at hsorted
  have hin := (hmem e).2 he
  rw [hsplit, List.mem_append, List.mem_cons] at hin
  rcases hin with hin | rfl | hin
  · have hnot := hnewer e hin
    rw [decide_eq_true hen] at hnot
    cases hnot
  · exact le_rfl
  · exact List.rel_of_pairwise_cons (List.pairwise_append.1 hsorted).2.1 hin

/-- Of two directories of one height the stable sort chooses the later one. -/
theorem latestCheckpoint_stable {number : ℕ} {extra : List (CheckpointDir σ)}
    {e : CheckpointDir σ} (hd : d ∉ extra) (he : e ∈ extra) (hde : d.number ≤ e.number)
    (hle : e.number ≤ number) :
    Store.latestCheckpoint stableSort { s with dirs := d :: extra } number ≠ some d := by
  intro hchosen
  obtain ⟨-, newer, older, hsplit, hnewer⟩ := List.find?_eq_some_iff_append.1 hchosen
  have hperm : (newer ++ d :: older).Perm (d :: extra) := by
    rw [← hsplit]
    exact (List.reverse_perm _).trans (stableSort.sort_perm _)
  have hrest : (newer ++ older).Perm extra :=
    (List.perm_cons d).1 (List.perm_middle.symm.trans hperm)
  have holder : d ∉ older := fun hin => hd (hrest.subset (List.mem_append_right _ hin))
  -- in the sorted list `d` comes before `e`, so from its end `e` comes first
  have hsub : [d, e].Sublist (stableSort.sort (d :: extra)) :=
    List.sublist_insertionSort (List.pairwise_pair.2 hde) ((List.singleton_sublist.2 he).cons_cons d)
  have hsub' : [e, d].Sublist (newer ++ d :: older) := by
    rw [← hsplit]
    exact hsub.reverse
  obtain ⟨l₁, l₂, hl, hl₁, hl₂⟩ := List.sublist_append_iff.1 hsub'
  cases l₁ with
  | nil =>
    rw [List.nil_append] at hl
    rw [← hl] at hl₂
    cases hl₂ with
    | cons _ h => exact holder (h.subset (by simp))
    | cons_cons _ _ => exact hd he
  | cons x l₁ =>
    obtain rfl : e = x := (List.cons.inj hl).1
    have hnot := hnewer e (hl₁.subset (List.mem_cons_self ..))
    rw [decide_eq_true hle] at hnot
    cases hnot

/-- A checkpoint with which alone `Restore` succeeds is complete. -/
theorem complete_of_restore {rt : DirSort σ} (hvalid : cfg.withDefaults.validate = .ok ())
    (hhead : s.headBlock.bind (s.block G) = some head)
    (hrun : ∃ c, restore G M rt cfg { s with dirs := [d] } pool = .ok (some c)) :
    CompleteCheckpoint G M cfg s pool head d := by
  obtain ⟨cp, hcp, hrestarts⟩ :=
    (restore_ok_iff (s := { s with dirs := [d] }) hvalid hhead).1 hrun
  have hin := (rt.sort_perm [d]).mem_iff.1 (List.mem_reverse.1 (List.mem_of_find?_eq_some hcp))
  obtain rfl := List.mem_singleton.1 hin
  exact ⟨hvalid, hhead, latestCheckpoint_le hcp, (restartsFrom_dirs _).1 hrestarts⟩

/-! ## The condition -/

/-- The name of a directory. -/
def CheckpointDir.label (d : CheckpointDir σ) : ℕ × Bytes := (d.number, d.name)

/-- Let a store have a complete checkpoint of a canonical block at or below its head. Whatever other
    directories there are and however those of one height are sorted, one directory is chosen, at
    least as high as the complete one and not above the head, and `Restore` succeeds exactly if that
    one is complete too. So it succeeds for all contents of the others exactly if every one of them
    that is not above the head is below the complete one. -/
theorem partial_checkpoints (hd : CompleteCheckpoint G M cfg s pool head d) :
    (∀ (rt : DirSort σ) (dirs : List (CheckpointDir σ)), d ∈ dirs →
      ∃ cp ∈ dirs, Store.latestCheckpoint rt { s with dirs := dirs } head.number = some cp ∧
        d.number ≤ cp.number ∧ cp.number ≤ head.number ∧
        ((∃ c, restore G M rt cfg { s with dirs := dirs } pool = .ok (some c)) ↔
          CompleteCheckpoint G M cfg s pool head cp)) ∧
    ∀ names : List (ℕ × Bytes),
      (∀ (rt : DirSort σ) (extra : List (CheckpointDir σ)),
        extra.map CheckpointDir.label = names →
          ∃ c, restore G M rt cfg { s with dirs := d :: extra } pool = .ok (some c)) ↔
      ∀ n ∈ names, n.1 ≤ head.number → n.1 < d.number := by
  have hchoice : ∀ (rt : DirSort σ) (dirs : List (CheckpointDir σ)), d ∈ dirs →
      ∃ cp ∈ dirs, Store.latestCheckpoint rt { s with dirs := dirs } head.number = some cp ∧
        d.number ≤ cp.number ∧ cp.number ≤ head.number ∧
        ((∃ c, restore G M rt cfg { s with dirs := dirs } pool = .ok (some c)) ↔
          CompleteCheckpoint G M cfg s pool head cp) := by
    intro rt dirs hmem
    obtain ⟨cp, hin, hcp, hle, hmax⟩ :=
      latestCheckpoint_spec (s := { s with dirs := dirs }) rt hmem hd.le
    refine ⟨cp, hin, hcp, hmax d hmem hd.le, hle, ?_⟩
    rw [restore_ok_iff (s := { s with dirs := dirs }) hd.valid hd.recorded]
    constructor
    · rintro ⟨cp', hcp', hrestarts⟩
      obtain rfl := Option.some.inj (hcp.symm.trans hcp')
      exact ⟨hd.valid, hd.recorded, hle, (restartsFrom_dirs dirs).1 hrestarts⟩
    · intro hcomplete
      exact ⟨cp, hcp, (restartsFrom_dirs dirs).2 hcomplete.restarts⟩
  refine ⟨hchoice, fun names => ⟨fun hall n hn hle => ?_, fun hnames rt extra hextra => ?_⟩⟩
  · by_contra hlt
    -- the other directories are all empty, and the sort is stable
    set extra : List (CheckpointDir σ) := names.map fun n => ⟨n.1, n.2, none⟩ with hextra
    have hlabels : extra.map CheckpointDir.label = names := by
      rw [hextra, List.map_map]
      exact List.map_id _
    have hempty : ∀ e ∈ extra, e.content = none := by
      intro e he
      obtain ⟨n, -, rfl⟩ := List.mem_map.1 he
      rfl
    obtain ⟨-, m₀, -, -, -, -, hcontent, -⟩ := hd.restarts
    have hfull : d ∉ extra := by
      intro hin
      rw [hempty d hin] at hcontent
      cases hcontent
    obtain ⟨cp, hin, hcp, -, -, hiff⟩ := hchoice stableSort (d :: extra) (List.mem_cons_self ..)
    obtain ⟨-, m, -, -, -, -, hm, -⟩ := (hiff.1 (hall stableSort extra hlabels)).restarts
    rcases List.mem_cons.1 hin with rfl | hin
    · exact latestCheckpoint_stable hfull (List.mem_map_of_mem hn) (Nat.not_lt.1 hlt) hle hcp
    · rw [hempty cp hin] at hm
      cases hm
  · obtain ⟨cp, hin, -, hge, hle, hiff⟩ := hchoice rt (d :: extra) (List.mem_cons_self ..)
    refine hiff.2 ?_
    rcases List.mem_cons.1 hin with rfl | hin
    · exact hd
    · have hlabel : cp.label ∈ names := hextra ▸ List.mem_map_of_mem hin
      exact absurd (hnames cp.label hlabel hle) (Nat.not_lt.2 hge)

namespace Sample

/-- The store of a node that has made one block its head. -/
def kept : Store ℕ Bytes := (imports (opened refuser config)).store.getD Store.empty

/-- Its head, the checkpoint it has of the genesis block, and an unfinished one of the head. -/
def keptHead : Block := ⟨payloadHeader exact hollow none, hollow.transactions⟩

def genesisDir : CheckpointDir ℕ := ⟨0, ((genesisBlock exact).block.hash exact).take 6, some 0⟩

def unfinishedDir : CheckpointDir ℕ := ⟨1, hollow.blockHash.take 6, none⟩

/-- How a restart ends: `none` if it succeeds, and otherwise whether it is that the directory does not
    load. -/
def restartError (s : Store ℕ Bytes) : Option Bool :=
  match restore exact refuser runtime.toDirSort config s none with
  | .ok (some _) => none
  | .error .loading => some true
  | _ => some false

theorem restartError_eq_none {s : Store ℕ Bytes} (h : restartError s = none) :
    ∃ c, restore exact refuser runtime.toDirSort config s none = .ok (some c) := by
  unfold restartError at h
  split at h
  · exact ⟨_, by assumption⟩
  · cases h
  · cases h

theorem restartError_eq_true {s : Store ℕ Bytes} (h : restartError s = some true) :
    restore exact refuser runtime.toDirSort config s none = .error .loading := by
  unfold restartError at h
  split at h
  · cases h
  · assumption
  · cases h

theorem kept_dirs : kept.dirs = [genesisDir] := by
  have hmaps : kept.dirs.map (fun d => (d.number, d.name, d.content)) =
      [(genesisDir.number, genesisDir.name, genesisDir.content)] := by decide +kernel
  obtain ⟨d, hd, heq⟩ := List.map_eq_singleton_iff.1 hmaps
  cases d
  cases heq
  exact hd

theorem kept_complete : CompleteCheckpoint exact refuser config kept none keptHead genesisDir := by
  have hhead : kept.headBlock.bind (kept.block exact) = some keptHead := by decide +kernel
  have hok : restartError { kept with dirs := [genesisDir] } = none := by decide +kernel
  exact complete_of_restore rfl hhead (restartError_eq_none hok)

end Sample

open Sample in
/-- A directory above the head is not looked at. -/
theorem partial_checkpoints_above : kept.dirs = [genesisDir] ∧
    ∀ (rt : DirSort ℕ) (e : CheckpointDir ℕ), e.number = 2 →
      ∃ c, restore exact refuser rt config { kept with dirs := [genesisDir, e] } none =
        .ok (some c) := by
  refine ⟨kept_dirs, fun rt e he => ?_⟩
  have hnumber : keptHead.number = 1 := by decide +kernel
  refine ((partial_checkpoints kept_complete).2 [e.label]).2 ?_ rt [e] rfl
  intro n hn hle
  obtain rfl := List.mem_singleton.1 hn
  have htwo : e.label.1 = 2 := he
  omega

open Sample in
/-- The genesis block has a complete checkpoint, and a crash has left an unfinished one of the head:
    the restart fails. -/
theorem partial_checkpoint_stops :
    CompleteCheckpoint exact refuser config kept none keptHead genesisDir ∧
    kept.dirs = [genesisDir] ∧ unfinishedDir.label = (keptHead.number, (keptHead.hash exact).take 6) ∧
    restore exact refuser runtime.toDirSort config
      { kept with dirs := [genesisDir, unfinishedDir] } none = .error .loading := by
  refine ⟨kept_complete, kept_dirs, by decide +kernel, ?_⟩
  have herror : restartError { kept with dirs := [genesisDir, unfinishedDir] } = some true := by
    decide +kernel
  exact restartError_eq_true herror

end OpCartesi.Node
