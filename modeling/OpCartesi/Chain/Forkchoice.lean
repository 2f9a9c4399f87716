import OpCartesi.Chain.Steps
import OpCartesi.Common.Ancestry

/-!
# Forkchoice: the canonical numbering and the pointers

`ForkchoiceUpdated` first makes the requested head canonical and then takes the two other pointers
over one after the other, each only where the request names one.

* `Linked`: blocks are held with their parents, and what is canonical is so with its ancestors.
  `reorgTo_canonical`: after `reorgTo` the canonical blocks are the head and its ancestors.
* `refused_unchanged_iff`: when a refused request leaves the chain as it was.
* `pointers_on_head_iff`: when a successful request leaves the safe and the finalized block among
  the head's ancestors.
-/

namespace OpCartesi.Node

open Exec Ancestry
open Function (update update_of_ne update_self)

variable {σ τ : Type} {G : Geth τ} {M : Machine σ} {rt : Runtime σ} {c c' : Chain σ τ}

namespace Chain

/-! ## The canonical branch -/

/-- `a` is the block `h` or an ancestor of it. -/
abbrev Ancestor (c : Chain σ τ) (a h : Hash) : Prop :=
  Ancestry.Ancestor c.blocks (fun b => b.header.parentHash) Block.number a h

/-- A numbering that has the block `h` with its ancestors. -/
abbrev Traces (c : Chain σ τ) (label : ℕ → Option Hash) (h : Hash) : Prop :=
  Ancestry.Traces c.blocks (fun b => b.header.parentHash) Block.number label h

/-- Blocks are held under their hashes and with their parents, the canonical ones with their
    ancestors, and the store knows no others. -/
structure Linked (G : Geth τ) (c : Chain σ τ) : Prop where
  keyed : c.Keyed G
  rooted : Rooted c.blocks (fun b => b.header.parentHash) Block.number
  held : ∀ n h, c.canonical n = some h → ∃ b, c.blocks h = some b ∧ b.number = n
  traces : ∀ n h, c.canonical n = some h → c.Traces c.canonical h
  stored : ∀ s, c.store = some s → ∀ h b, s.headers h = some b → ∃ b, c.blocks h = some b

/-- The walk down from a block enters its ancestors, down to one below which they already are. The
    blocks `walk` knows are `held`, and it leads up to where the numbering is as `seen`. -/
theorem relabel_traces {held walk : Hash → Option Block} {seen : ℕ → Option Hash}
    (hroot : Rooted held (fun b => b.header.parentHash) Block.number)
    (hwalk : ∀ h b, walk h = some b → b.hash G = h ∧ ∃ b', held h = some b' ∧
      b'.number = b.number ∧ b'.header.parentHash = b.header.parentHash)
    (hup : ∀ h b, walk h = some b → b.number ≠ 0 → seen b.number ≠ some h →
      ∃ p, walk b.header.parentHash = some p)
    (hseen : ∀ n h, seen n = some h →
      Ancestry.Traces held (fun b => b.header.parentHash) Block.number seen h) :
    ∀ (fuel : ℕ) (cur : Block) (label : ℕ → Option Hash), walk (cur.hash G) = some cur →
      cur.number < fuel → (∀ n ≤ cur.number, label n = seen n) →
      Ancestry.Traces held (fun b => b.header.parentHash) Block.number
        (Store.relabel G walk seen fuel cur label) (cur.hash G) ∧
      ∀ n, cur.number < n → Store.relabel G walk seen fuel cur label n = label n := by
  intro fuel
  induction fuel with
  | zero =>
    intro cur label _ hlt
    omega
  | succ fuel ih =>
    intro cur label hcur hlt hagree
    obtain ⟨-, cur', hcur', hnumber, hparent⟩ := hwalk _ _ hcur
    rw [Store.relabel]
    split_ifs with hstop hzero
    · refine ⟨(hseen _ _ hstop).congr hcur' fun n hn => hagree n ?_, fun _ _ => rfl⟩
      omega
    · refine ⟨Traces.of_parent hroot hcur' ?_ fun hpos => ?_, fun n hn => ?_⟩
      · rw [hnumber, update_self]
      · omega
      · exact update_of_ne (by omega) _ _
    · obtain ⟨p, hp⟩ := hup _ _ hcur hzero hstop
      obtain ⟨hphash, p', hp', hpnumber, -⟩ := hwalk _ _ hp
      obtain ⟨q, hq, hheight⟩ := hroot _ _ hcur' (hnumber ▸ hzero)
      obtain rfl : p' = q := Option.some.inj (hp'.symm.trans (hparent ▸ hq))
      rw [hp]
      simp only
      obtain ⟨htraces, habove⟩ := ih p
        (update label cur.number (some (cur.hash G))) (hphash ▸ hp) (by omega)
        (fun n hn => by rw [update_of_ne (by omega), hagree n (by omega)])
      rw [hphash, ← hparent] at htraces
      refine ⟨Traces.of_parent hroot hcur' ?_ fun _ => htraces, fun n hn => ?_⟩
      · rw [hnumber, habove _ (by omega), update_self]
      · rw [habove n (by omega), update_of_ne (by omega)]

/-- The head is canonical and nothing above it is. -/
def IsTip (G : Geth τ) (c : Chain σ τ) (head : Block) : Prop :=
  c.canonical head.number = some (head.hash G) ∧ ∀ n, head.number < n → c.canonical n = none

section Reorg

variable {head : Block} (hl : c.Linked G) (hhead : c.blocks (head.hash G) = some head)

include hl hhead

/-- After `reorgTo` the canonical blocks are the head and its ancestors. -/
theorem reorgTo_canonical (n : ℕ) (a : Hash) : (c.reorgTo G head).canonical n = some a ↔
    ∃ b, c.blocks a = some b ∧ b.number = n ∧ c.Ancestor a (head.hash G) := by
  set kept : ℕ → Option Hash := fun n => if head.number < n then none else c.canonical n with hkept
  have hseen : ∀ n h, kept n = some h → c.Traces kept h := by
    intro n h hn
    simp only [hkept] at hn
    split_ifs at hn with hlt
    obtain ⟨b, hb, hbn⟩ := hl.held n h hn
    refine (hl.traces n h hn).congr hb fun m hm => ?_
    exact if_neg (by omega)
  obtain ⟨htraces, habove⟩ := relabel_traces hl.rooted
    (fun h b hb => ⟨hl.keyed h b hb, b, hb, rfl, rfl⟩)
    (fun h b hb hpos _ => (hl.rooted h b hb hpos).imp fun _ hp => hp.1) hseen (head.number + 1) head
    kept hhead (by omega) (fun _ _ => rfl)
  by_cases hn : n ≤ head.number
  · exact htraces head hhead n hn a
  · have hnone : (c.reorgTo G head).canonical n = none := by
      show Store.relabel G c.blocks kept (head.number + 1) head kept n = none
      rw [habove n (by omega)]
      exact if_pos (by omega)
    rw [hnone]
    constructor
    · intro h
      cases h
    · rintro ⟨b, hb, hbn, ha⟩
      have := ha.height_le hl.rooted hb hhead
      omega

theorem linked_reorgTo : (c.reorgTo G head).Linked G := by
  have hcan := reorgTo_canonical hl hhead
  refine ⟨hl.keyed, hl.rooted, fun n h hn => ?_, fun n h hn => ?_, hl.stored⟩
  · obtain ⟨b, hb, hbn, -⟩ := (hcan n h).1 hn
    exact ⟨b, hb, hbn⟩
  · obtain ⟨b, hb, rfl, hanc⟩ := (hcan n h).1 hn
    intro y hy m hm a
    obtain rfl := Option.some.inj (hb.symm.trans hy)
    rw [hcan m a]
    constructor
    · rintro ⟨x, hx, rfl, ha⟩
      exact ⟨x, hx, rfl, ha.of_height_le hl.rooted hanc hx hb hm⟩
    · rintro ⟨x, hx, hxm, ha⟩
      exact ⟨x, hx, hxm, ha.trans hanc⟩

/-- What is canonical after `reorgTo`. -/
theorem isCanonical_reorgTo (hash : Hash) :
    (c.reorgTo G head).isCanonical G hash = true ↔ c.Ancestor hash (head.hash G) := by
  have hcan := reorgTo_canonical hl hhead
  have hblocks : (c.reorgTo G head).blocks = c.blocks := rfl
  unfold isCanonical
  rw [hblocks]
  cases hb : c.blocks hash with
  | some b =>
    simp only [beq_iff_eq]
    rw [hcan]
    constructor
    · rintro ⟨-, -, -, ha⟩
      exact ha
    · intro ha
      exact ⟨b, hb, rfl, ha⟩
  | none =>
    have hno : ¬c.Ancestor hash (head.hash G) := by
      intro ha
      obtain ⟨x, hx⟩ := ha.held_left
      rw [hb] at hx
      cases hx
    simp only [hno, iff_false]
    -- the store knows only blocks that are held
    have hstore : (c.reorgTo G head).store = c.store := rfl
    rw [hstore]
    cases hs : c.store with
    | none => simp
    | some s =>
      have hsb : s.block G hash = none := by
        unfold Store.block
        cases hheader : s.headers hash with
        | none => rfl
        | some header =>
          obtain ⟨b, hb'⟩ := hl.stored s hs hash header hheader
          rw [hb] at hb'
          cases hb'
      simp [hsb]

omit hl hhead in
theorem reorgTo_eq_of_isTip (htip : c.IsTip G head) :
    (c.reorgTo G head).canonical = c.canonical := by
  have hkept : (fun n => if head.number < n then none else c.canonical n) = c.canonical := by
    funext n
    split_ifs with hn
    · rw [htip.2 n hn]
    · rfl
  show Store.relabel G c.blocks (fun n => if head.number < n then none else c.canonical n)
    (head.number + 1) head (fun n => if head.number < n then none else c.canonical n) = _
  rw [hkept, Store.relabel, if_pos htip.1]

/-- `reorgTo` changes nothing exactly if the head is the tip already. -/
theorem reorgTo_eq_iff : (c.reorgTo G head).canonical = c.canonical ↔ c.IsTip G head := by
  have hcan := reorgTo_canonical hl hhead
  constructor
  · intro heq
    refine ⟨?_, fun n hn => ?_⟩
    · rw [← heq, hcan]
      exact ⟨head, hhead, rfl, .refl hhead⟩
    · rw [← heq, Option.eq_none_iff_forall_ne_some]
      intro a ha
      obtain ⟨b, hb, rfl, hanc⟩ := (hcan n a).1 ha
      have := hanc.height_le hl.rooted hb hhead
      omega
  · exact reorgTo_eq_of_isTip

end Reorg

/-! ## Reachable states -/

/-- What the canonical branch depends on. -/
theorem Linked.congr (hl : c.Linked G) (hblocks : c'.blocks = c.blocks)
    (hcan : c'.canonical = c.canonical)
    (hstored : ∀ s', c'.store = some s' → ∃ s, c.store = some s ∧ s'.headers = s.headers) :
    c'.Linked G := by
  refine ⟨?_, ?_, ?_, ?_, ?_⟩
  · intro h b hb
    exact hl.keyed h b (hblocks ▸ hb)
  · rw [hblocks]
    exact hl.rooted
  · rw [hblocks, hcan]
    exact hl.held
  · intro n h hn
    rw [Traces, hblocks, hcan]
    exact hl.traces n h (hcan ▸ hn)
  · intro s' hs' h b hb
    obtain ⟨s, hs, heq⟩ := hstored s' hs'
    rw [hblocks]
    exact hl.stored s hs h b (heq ▸ hb)

/-- A checkpoint touches only the directories. -/
theorem checkpoint_eq (rt : Runtime σ) (s : Store σ τ) (b : Block) :
    ∃ dirs, c.checkpoint G M rt s b = { s with dirs := dirs } := by
  unfold checkpoint
  split
  · exact ⟨s.dirs, rfl⟩
  split_ifs
  · exact ⟨s.dirs, rfl⟩
  split
  · exact ⟨s.dirs, rfl⟩
  split
  · exact ⟨s.dirs, rfl⟩
  unfold Store.pruneCheckpoints
  split_ifs <;> exact ⟨_, rfl⟩

theorem checkpointIfFinalized_eq (rt : Runtime σ) (s : Store σ τ) :
    ∃ dirs, c.checkpointIfFinalized G M rt s = { s with dirs := dirs } := by
  unfold checkpointIfFinalized
  split_ifs
  · exact ⟨s.dirs, rfl⟩
  split
  · exact ⟨s.dirs, rfl⟩
  split_ifs
  · exact ⟨s.dirs, rfl⟩
  split
  · split_ifs
    · exact ⟨s.dirs, rfl⟩
    · exact checkpoint_eq rt s _
  · exact checkpoint_eq rt s _

theorem checkpointGenesis_eq (s : Store σ τ) :
    ∃ dirs, c.checkpointGenesis G M s = { s with dirs := dirs } := by
  unfold checkpointGenesis
  split
  · split_ifs
    · exact ⟨s.dirs, rfl⟩
    split <;> exact ⟨_, rfl⟩
  · exact ⟨s.dirs, rfl⟩

theorem withSafe_canonical (c : Chain σ τ) (hash : Hash) :
    (c.withSafe hash).canonical = c.canonical := by
  unfold withSafe
  split_ifs <;> rfl

theorem withFinalized_canonical (c : Chain σ τ) (hash : Hash) :
    (c.withFinalized hash).canonical = c.canonical := by
  unfold withFinalized
  split_ifs <;> rfl

/-- Past `reorgTo` a request leaves the canonical map alone. -/
theorem pointed_canonical (head : Block) (fc : ForkchoiceState) :
    (c.pointed G M rt head fc).canonical = (c.reorgTo G head).canonical := by
  show (((c.reorgTo G head).withSafe fc.safeBlockHash).withFinalized
    fc.finalizedBlockHash).canonical = _
  rw [withFinalized_canonical, withSafe_canonical]

theorem linked_pointed (hl : c.Linked G) {head : Block} (hhead : c.blocks (head.hash G) = some head)
    (fc : ForkchoiceState) : (c.pointed G M rt head fc).Linked G := by
  have hstore : (((c.reorgTo G head).withSafe fc.safeBlockHash).withFinalized
      fc.finalizedBlockHash).store = c.store := by
    unfold withFinalized withSafe
    split_ifs <;> rfl
  refine (linked_reorgTo hl hhead).congr (trims_pointed head fc).blocks
    (pointed_canonical head fc) fun s' hs' => ?_
  obtain ⟨s, hs, rfl⟩ := Option.map_eq_some_iff.1 hs'
  obtain ⟨dirs, hdirs⟩ := checkpointIfFinalized_eq (G := G) (M := M) rt _
  refine ⟨s, hstore.symm.trans hs, ?_⟩
  rw [hdirs]
  rfl

theorem linked_withSafe (hl : c.Linked G) (hash : Hash) : (c.withSafe hash).Linked G := by
  unfold withSafe
  split_ifs
  · exact hl
  · exact hl.congr rfl rfl fun s hs => ⟨s, hs, rfl⟩

/-- A block is committed under a new hash, and on a block that is held. -/
theorem linked_commit (hl : c.Linked G) {x : Executed σ} (parent : Block)
    (hfresh : c.blocks (x.block.hash G) = none)
    (hparent : c.blocks x.block.header.parentHash = some parent)
    (hnumber : x.block.number = parent.number + 1) : (c.commitAndPersist G M rt x).Linked G := by
  have hle : ∀ h b, c.blocks h = some b →
      (c.commitAndPersist G M rt x).blocks h = some b := by
    intro h b hb
    have hne : h ≠ x.block.hash G := by
      rintro rfl
      rw [hfresh] at hb
      cases hb
    exact (update_of_ne hne _ _).trans hb
  refine ⟨?_, ?_, ?_, ?_, ?_⟩
  · intro h b hb
    by_cases hx : h = x.block.hash G
    · subst hx
      cases (update_self _ _ _).symm.trans hb
      rfl
    · exact hl.keyed h b ((update_of_ne hx _ _).symm.trans hb)
  · intro h b hb hpos
    by_cases hx : h = x.block.hash G
    · subst hx
      cases (update_self _ _ _).symm.trans hb
      exact ⟨parent, hle _ _ hparent, hnumber.symm⟩
    · obtain ⟨p, hp, hheight⟩ := hl.rooted h b ((update_of_ne hx _ _).symm.trans hb) hpos
      exact ⟨p, hle _ _ hp, hheight⟩
  · intro n h hn
    obtain ⟨b, hb, hbn⟩ := hl.held n h hn
    exact ⟨b, hle h b hb, hbn⟩
  · intro n h hn y hy m hm a
    obtain ⟨b, hb, -⟩ := hl.held n h hn
    obtain rfl := Option.some.inj ((hle h b hb).symm.trans hy)
    refine (hl.traces n h hn b hb m hm a).trans ⟨?_, ?_⟩
    · rintro ⟨z, hz, hzm, ha⟩
      exact ⟨z, hle a z hz, hzm, ha.mono hle⟩
    · rintro ⟨z, hz, hzm, ha⟩
      have ha' := ha.of_mono hl.rooted hle hb
      obtain ⟨z', hz'⟩ := ha'.held_left
      obtain rfl := Option.some.inj ((hle a z' hz').symm.trans hz)
      exact ⟨z', hz', hzm, ha'⟩
  · intro s' hs' h b hb
    obtain ⟨s, hs, rfl⟩ := Option.map_eq_some_iff.1 hs'
    replace hs : c.store = some s := hs
    have hold : ∀ b', s.headers h = some b' →
        ∃ b, (c.commitAndPersist G M rt x).blocks h = some b := by
      intro b' hb'
      obtain ⟨b₁, hb₁⟩ := hl.stored s hs h b' hb'
      exact ⟨b₁, hle h b₁ hb₁⟩
    have hnew : ∀ s₁, s.putBlock G x.block x.outputs x.tree x.inputs = .ok s₁ →
        s₁.headers h = some b → ∃ b, (c.commitAndPersist G M rt x).blocks h = some b := by
      intro s₁ hput hb₁
      obtain ⟨txs, -, rfl⟩ := putBlock_eq_ok.1 hput
      by_cases hx : h = x.block.hash G
      · subst hx
        exact ⟨x.block, update_self _ _ _⟩
      · exact hold b ((update_of_ne hx _ _).symm.trans hb₁)
    split at hb
    · exact hold b hb
    · rename_i s₁ hput
      split_ifs at hb
      · exact hnew s₁ hput hb
      · obtain ⟨dirs, hdirs⟩ := checkpoint_eq (c := c.commit G x) (G := G) (M := M) rt s₁ x.block
        rw [hdirs] at hb
        exact hnew s₁ hput hb

end Chain

open Chain

theorem linked_exec (hl : c.Linked G) (k : Call σ) : (k.exec G M c).Linked G := by
  have hheld : ∀ {h : Hash} {b : Block}, c.blocks h = some b → c.blocks (b.hash G) = some b := by
    intro h b hb
    rw [hl.keyed h b hb]
    exact hb
  cases k with
  | forkchoiceUpdated rt fc attrs =>
    have hfc := forkchoice_cases (G := G) (M := M) (c := c) rt fc attrs
    unfold Call.exec
    simp only
    generalize (Chain.forkchoiceUpdated G M rt fc attrs).run c = r at hfc
    cases hfc with
    | unknownHead => exact hl
    | badSafe head hhead => exact linked_reorgTo hl (hheld hhead)
    | badFinalized head hhead => exact linked_withSafe (linked_reorgTo hl (hheld hhead)) _
    | noBuild head hhead => exact linked_pointed hl (hheld hhead) fc
    | badTime head hhead => exact linked_pointed hl (hheld hhead) fc
    | buildFailed head e c' hhead hsafe hfin hc' =>
      have hpointed : (c.pointed G M rt head fc).Linked G := linked_pointed hl (hheld hhead) fc
      rcases hc' with rfl | ⟨dropped, rfl⟩
      · exact hpointed
      · exact hpointed.congr rfl rfl fun s hs => ⟨s, hs, rfl⟩
    | found head id p hhead => exact linked_pointed hl (hheld hhead) fc
    | built head id p dropped hhead =>
      exact (linked_pointed hl (hheld hhead) fc).congr rfl rfl fun s hs => ⟨s, hs, rfl⟩
  | importPayload rt data beaconRoot =>
    unfold Call.exec
    simp only
    rw [importPayload_run]
    cases hv : c.verify G M rt data beaconRoot with
    | error answer => cases answer <;> exact hl
    | ok xa =>
      obtain ⟨parent, hadm, hrest⟩ := verify_eq_ok.1 hv
      have hblock : xa.1.block = ⟨payloadHeader G data beaconRoot, data.transactions⟩ := by
        rcases hrest with ⟨id, p, -, -, heq⟩ | ⟨-, -, hre⟩
        · rw [heq]
        · exact hre.block_eq
      have hcommit : (c.commitAndPersist G M rt xa.1).Linked G := by
        refine linked_commit hl parent ?_ ?_ ?_
        · rw [hblock]
          exact (congrArg c.blocks hadm.hash_eq).trans hadm.fresh
        · rw [hblock]
          exact hadm.held
        · rw [hblock]
          exact hadm.number_eq
      exact hcommit.congr rfl rfl fun s hs => ⟨s, hs, rfl⟩
  | setMaxDASize limits => exact hl.congr rfl rfl fun s hs => ⟨s, hs, rfl⟩
  | queue pool => exact hl.congr rfl rfl fun s hs => ⟨s, hs, rfl⟩

theorem linked_singleton (cfg : Config) (pool : Option Pool) (x : Executed σ)
    (txBlocks : Hash → List Hash) (genesisHash : Hash) (hnumber : x.block.number = 0) :
    (singleton G cfg pool (none : Option (Store σ τ)) x txBlocks genesisHash).Linked G := by
  have hself : (singleton G cfg pool (none : Option (Store σ τ)) x txBlocks genesisHash).blocks
      (x.block.hash G) = some x.block := by simp [singleton]
  have hrooted : Rooted (singleton G cfg pool (none : Option (Store σ τ)) x txBlocks
      genesisHash).blocks (fun b => b.header.parentHash) Block.number := by
    intro h b hb hpos
    obtain ⟨rfl, rfl⟩ := update_none_eq_some hb
    exact absurd hnumber hpos
  refine ⟨?_, hrooted, ?_, ?_, ?_⟩
  · intro h b hb
    obtain ⟨rfl, rfl⟩ := update_none_eq_some hb
    rfl
  · intro n h hn
    obtain ⟨rfl, rfl⟩ := update_none_eq_some hn
    exact ⟨x.block, hself, rfl⟩
  · intro n h hn
    obtain ⟨rfl, rfl⟩ := update_none_eq_some hn
    exact Traces.of_parent hrooted hself (by simp [singleton]) fun hpos => absurd hnumber hpos
  · intro s hs
    cases hs

theorem linked_new {cfg : Config} {m : σ} {pool : Option Pool}
    (h : new G M cfg m pool = .ok c) : c.Linked G := by
  obtain ⟨-, x, hx, rfl⟩ := new_eq_ok.1 h
  obtain ⟨root, extra, -, -, rfl⟩ := genesis_eq_ok.1 hx
  exact linked_singleton _ pool _ _ _ rfl

theorem linked_fresh (h : Fresh G M c) : c.Linked G := by
  cases h with
  | inMemory h => exact linked_new h
  | @adopted cfg m pool c₀ c' h h' =>
    have hl := linked_new h
    unfold adopt at h'
    simp only [except_bind_eq_ok, expect_eq_ok] at h'
    obtain ⟨b, hb, s, hput, hpure⟩ := h'
    cases hpure
    obtain ⟨txs, -, rfl⟩ := putBlock_eq_ok.1 hput
    refine ⟨hl.keyed, hl.rooted, hl.held, hl.traces, ?_⟩
    intro s hs h header hheader
    cases hs
    obtain ⟨dirs, hdirs⟩ := checkpointGenesis_eq (G := G) (M := M) _
    rw [hdirs] at hheader
    obtain ⟨rfl, -⟩ := update_none_eq_some hheader
    refine ⟨b, ?_⟩
    rw [hl.keyed _ _ hb]
    exact hb

/-- Every state of a run is linked. -/
theorem Reach.linked {ok : Call σ → Prop} {c₀ : Chain σ τ} (h₀ : Fresh G M c₀)
    (h : Reach G M ok c₀ c) : c.Linked G := by
  induction h with
  | start => exact linked_fresh h₀
  | call _ k _ ih => exact linked_exec ih k

/-! ## Refused requests -/

/-- A request is refused after its head was made canonical, and after its safe block was taken over
    if that one is good: the chain is as before exactly if neither was a change. -/
theorem refused_unchanged_iff {c₀ : Chain σ τ} (h₀ : Fresh G M c₀)
    (hreach : Reach G M (fun _ => True) c₀ c) (fc : ForkchoiceState)
    (attrs : Option PayloadAttributes)
    (hrun : (forkchoiceUpdated G M rt fc attrs).run c = .error .invalidForkChoiceState c') :
    (c'.canonical = c.canonical ∧ c'.head = c.head ∧ c'.safe = c.safe ∧
        c'.finalized = c.finalized) ↔
      ∃ head, c.blocks fc.headBlockHash = some head ∧ c.IsTip G head ∧
        (fc.safeBlockHash = zeroHash ∨ c.isCanonical G fc.safeBlockHash = false ∨
          fc.safeBlockHash = c.safe) := by
  have hl := hreach.linked h₀
  have hfc := forkchoice_cases (G := G) (M := M) (c := c) rt fc attrs
  rw [hrun] at hfc
  -- with the head at the tip already, what is canonical is so before and after
  have hsame : ∀ {head : Block}, c.IsTip G head → ∀ hash,
      (c.reorgTo G head).isCanonical G hash = c.isCanonical G hash := by
    intro head htip hash
    have hcan := reorgTo_eq_of_isTip htip
    rw [isCanonical, isCanonical, hcan]
    rfl
  cases hfc with
  | badSafe head hhead hsafe =>
    have hheld : c.blocks (head.hash G) = some head := by rw [hl.keyed _ _ hhead, hhead]
    rw [reorgTo_eq_iff hl hheld]
    constructor
    · rintro ⟨htip, -⟩
      refine ⟨head, hhead, htip, .inr (.inl ?_)⟩
      rw [← hsame htip]
      exact hsafe.2
    · rintro ⟨head', hhead', htip, -⟩
      obtain rfl := Option.some.inj (hhead.symm.trans hhead')
      exact ⟨htip, rfl, rfl, rfl⟩
  | badFinalized head hhead hsafe hfin =>
    have hheld : c.blocks (head.hash G) = some head := by rw [hl.keyed _ _ hhead, hhead]
    unfold withSafe
    split_ifs with hzero
    · rw [reorgTo_eq_iff hl hheld]
      constructor
      · rintro ⟨htip, -⟩
        exact ⟨head, hhead, htip, .inl hzero⟩
      · rintro ⟨head', hhead', htip, -⟩
        obtain rfl := Option.some.inj (hhead.symm.trans hhead')
        exact ⟨htip, rfl, rfl, rfl⟩
    · show (c.reorgTo G head).canonical = _ ∧ _ ∧ fc.safeBlockHash = _ ∧ _ ↔ _
      rw [reorgTo_eq_iff hl hheld]
      constructor
      · rintro ⟨htip, -, heq, -⟩
        exact ⟨head, hhead, htip, .inr (.inr heq)⟩
      · rintro ⟨head', hhead', htip, hpointer⟩
        obtain rfl := Option.some.inj (hhead.symm.trans hhead')
        refine ⟨htip, rfl, ?_, rfl⟩
        rcases hpointer with h | h | h
        · exact absurd h hzero
        · exact absurd ⟨hzero, (hsame htip _).trans h⟩ hsafe
        · exact h

namespace Sample

/-- A genesis block with two blocks on it, the first of which is the head. -/
def A : Header := child geth (genesisBlock geth).block.header 1 (hashOf 0) []
def B : Header := child geth (genesisBlock geth).block.header 2 (hashOf 0) []

def forked : Chain ℕ Bytes :=
  (importChild geth (genesisBlock geth).block.header 2).exec geth machine
    ((importChild geth (genesisBlock geth).block.header 1).exec geth machine (start geth none))

/-- The call that moves the head, and the safe block with it. -/
def choose (head safe : Hash) : Call ℕ :=
  .forkchoiceUpdated runtime ⟨head, safe, zeroHash⟩ none

def onA : Chain ℕ Bytes := (choose (A.hash geth) (A.hash geth)).exec geth machine forked

theorem reach_onA : Reach geth machine (fun _ => True) (start geth none) onA :=
  .call (.call (.call .start _ trivial) _ trivial) _ trivial

end Sample

open Sample in
theorem refused_unchanged_iff_sample : ∃ c',
    (forkchoiceUpdated geth machine runtime ⟨(genesisBlock geth).block.hash geth, zeroHash, [9]⟩ none).run
      (start geth none) = .error .invalidForkChoiceState c' ∧
    c'.canonical = (start geth none).canonical ∧ c'.head = (start geth none).head ∧
      c'.safe = (start geth none).safe ∧ c'.finalized = (start geth none).finalized := by
  have hrun := eq_of_answer_error (show answer ((forkchoiceUpdated geth machine runtime
    ⟨(genesisBlock geth).block.hash geth, zeroHash, [9]⟩ none).run (start geth none)) =
      .error .invalidForkChoiceState by decide +kernel)
  have htip : (start geth none).IsTip geth (genesisBlock geth).block := by
    refine ⟨by decide +kernel, fun n hn => ?_⟩
    simp only [start, singleton]
    rw [Function.update_of_ne hn.ne']
  exact ⟨_, hrun, (refused_unchanged_iff (.inMemory (new_start geth none)) .start _ _ hrun).2
    ⟨(genesisBlock geth).block, by decide +kernel, htip, .inl rfl⟩⟩

open Sample in
/-- The head is on one branch; a request for the other branch with an unknown safe block is refused,
    and the canonical chain has moved. -/
theorem refused_after_reorg : ∃ c',
    Fresh geth machine (start geth none) ∧ Reach geth machine (fun _ => True) (start geth none) onA ∧
    (forkchoiceUpdated geth machine runtime ⟨B.hash geth, [9], zeroHash⟩ none).run onA =
      .error .invalidForkChoiceState c' ∧
    onA.canonical 1 = some (A.hash geth) ∧ c'.canonical 1 = some (B.hash geth) :=
  ⟨_, .inMemory (new_start geth none), reach_onA, eq_of_answer_error (by decide +kernel),
    by decide +kernel, by decide +kernel⟩

/-! ## Accepted requests -/

theorem pointed_safe (head : Block) (fc : ForkchoiceState) : (c.pointed G M rt head fc).safe =
    if fc.safeBlockHash = zeroHash then c.safe else fc.safeBlockHash := by
  unfold pointed withFinalized withSafe
  split_ifs <;> rfl

theorem pointed_finalized (head : Block) (fc : ForkchoiceState) :
    (c.pointed G M rt head fc).finalized =
      if fc.finalizedBlockHash = zeroHash then c.finalized else fc.finalizedBlockHash := by
  unfold pointed withFinalized withSafe
  split_ifs <;> rfl

/-- A pointer of an accepted request is on the head's branch, or it is the one the chain had. -/
theorem pointer_iff (hl : c.Linked G) {head : Block} (hhead : c.blocks (head.hash G) = some head)
    {hash old : Hash} (hgood : ¬(c.reorgTo G head).Refuses G hash) :
    c.Ancestor (if hash = zeroHash then old else hash) (head.hash G) ↔
      (hash = zeroHash → c.Ancestor old (head.hash G)) := by
  split_ifs with hzero
  · simp [hzero]
  · simp only [hzero, false_implies, iff_true]
    rw [← isCanonical_reorgTo hl hhead]
    by_contra hnot
    exact hgood ⟨hzero, Bool.eq_false_iff.2 hnot⟩

/-- What an accepted request leaves: its head's state, with the pool and the pending payloads aside. -/
theorem forkchoice_valid {fc : ForkchoiceState} {attrs : Option PayloadAttributes} {h : Hash}
    {id : Option PayloadID}
    (hrun : (forkchoiceUpdated G M rt fc attrs).run c = .ok (.valid h id) c') :
    ∃ head, c.blocks fc.headBlockHash = some head ∧
      ¬(c.reorgTo G head).Refuses G fc.safeBlockHash ∧
      ¬(c.reorgTo G head).Refuses G fc.finalizedBlockHash ∧ c'.blocks = c.blocks ∧
      c'.head = head.hash G ∧ c'.safe = (c.pointed G M rt head fc).safe ∧
      c'.finalized = (c.pointed G M rt head fc).finalized := by
  have hfc := forkchoice_cases (G := G) (M := M) (c := c) rt fc attrs
  rw [hrun] at hfc
  cases hfc with
  | noBuild head hhead hsafe hfin =>
    exact ⟨head, hhead, hsafe, hfin, (trims_pointed head fc).blocks, rfl, rfl, rfl⟩
  | found head id p hhead hsafe hfin hp =>
    exact ⟨head, hhead, hsafe, hfin, (trims_pointed head fc).blocks, rfl, rfl, rfl⟩
  | built head id p dropped hhead hsafe hfin =>
    have htrims : Trims c (c.pointed G M rt head fc) := trims_pointed head fc
    exact ⟨head, hhead, hsafe, hfin, htrims.blocks, rfl, rfl, rfl⟩

/-- A request that names no safe, or no finalized, block keeps the one there was, wherever the head
    has gone. -/
theorem pointers_on_head_iff {c₀ : Chain σ τ} (h₀ : Fresh G M c₀)
    (hreach : Reach G M (fun _ => True) c₀ c) (fc : ForkchoiceState)
    (attrs : Option PayloadAttributes) {h : Hash} {id : Option PayloadID}
    (hrun : (forkchoiceUpdated G M rt fc attrs).run c = .ok (.valid h id) c') :
    (c'.Ancestor c'.safe c'.head ∧ c'.Ancestor c'.finalized c'.head) ↔
      (fc.safeBlockHash = zeroHash → c.Ancestor c.safe fc.headBlockHash) ∧
        (fc.finalizedBlockHash = zeroHash → c.Ancestor c.finalized fc.headBlockHash) := by
  have hl := hreach.linked h₀
  obtain ⟨head, hhead, hsafe, hfin, hblocks, hhead', hsafe', hfin'⟩ := forkchoice_valid hrun
  have hhash : head.hash G = fc.headBlockHash := hl.keyed _ _ hhead
  have hheld : c.blocks (head.hash G) = some head := by rw [hhash, hhead]
  rw [Chain.Ancestor, Chain.Ancestor, hblocks, hhead', hsafe', hfin', pointed_safe, pointed_finalized, ← hhash]
  exact and_congr (pointer_iff hl hheld hsafe) (pointer_iff hl hheld hfin)

open Sample in
theorem pointers_on_head_iff_sample : ∃ c',
    (forkchoiceUpdated geth machine runtime ⟨A.hash geth, zeroHash, zeroHash⟩ none).run onA =
      .ok (.valid (A.hash geth) none) c' ∧
    c'.Ancestor c'.safe c'.head ∧ c'.Ancestor c'.finalized c'.head := by
  have hrun := eq_of_answer_ok (show answer ((forkchoiceUpdated geth machine runtime
    ⟨A.hash geth, zeroHash, zeroHash⟩ none).run onA) = .ok (.valid (A.hash geth) none) by
      decide +kernel)
  have hA : onA.Ancestor (A.hash geth) (A.hash geth) := .refl (b := ⟨A, []⟩) (by decide +kernel)
  have hgenesis : onA.Ancestor ((genesisBlock geth).block.hash geth) (A.hash geth) :=
    .up (b := ⟨A, []⟩) (by decide +kernel) (by decide) (.refl (b := (genesisBlock geth).block)
      (by decide +kernel))
  refine ⟨_, hrun, (pointers_on_head_iff (.inMemory (new_start geth none)) reach_onA _ _ hrun).2
    ⟨fun _ => ?_, fun _ => ?_⟩⟩
  · rw [show onA.safe = A.hash geth by decide +kernel]
    exact hA
  · rw [show onA.finalized = (genesisBlock geth).block.hash geth by decide +kernel]
    exact hgenesis

open Sample in
/-- The safe block is the head of one branch; a request for the head of the other branch that names
    no safe block is accepted and leaves the safe block where it was. -/
theorem safe_left_behind : ∃ c',
    Fresh geth machine (start geth none) ∧ Reach geth machine (fun _ => True) (start geth none) onA ∧
    (forkchoiceUpdated geth machine runtime ⟨B.hash geth, zeroHash, zeroHash⟩ none).run onA =
      .ok (.valid (B.hash geth) none) c' ∧
    c'.head = B.hash geth ∧ c'.safe = A.hash geth ∧ ¬c'.Ancestor c'.safe c'.head := by
  set c' := (choose (B.hash geth) zeroHash).exec geth machine onA with hc'
  have hl : c'.Linked geth := linked_exec (reach_onA.linked (.inMemory (new_start geth none))) _
  have hhead : c'.head = B.hash geth := by decide +kernel
  have hsafe : c'.safe = A.hash geth := by decide +kernel
  refine ⟨c', .inMemory (new_start geth none), reach_onA, eq_of_answer_ok (by decide +kernel), hhead,
    hsafe, ?_⟩
  rw [hhead, hsafe]
  intro hanc
  -- both blocks have height one
  have heq := hanc.eq_of_height_le hl.rooted (x := ⟨A, []⟩) (y := ⟨B, []⟩) (by decide +kernel)
    (by decide +kernel) (by decide)
  exact absurd heq (by decide +kernel)

end OpCartesi.Node
