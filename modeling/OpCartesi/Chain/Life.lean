import OpCartesi.Chain.Forkchoice
import OpCartesi.Chain.Restore

/-!
# Nodes that stop and start

* `Lives`: the states of a node that starts with an empty store, answers calls, and is stopped and
  restored any number of times.
* `History`: what its store says about the blocks it ever executed. `Kept`: what the chain in memory
  says about them. `Kept.exec`, `Kept.restart`, `Lives.kept`: so it is in every state of every life.
* `History.agree`: two lives of one genesis block have the same blocks and records.
-/

namespace OpCartesi.Node

open Exec Ancestry
open Function (update update_of_ne update_self)

variable {σ τ : Type} {G : Geth τ} {M : Machine σ} {cfg : Config} {c c' d : Chain σ τ}
  {s' : Store σ τ} {x : Executed σ} {h : Hash} {pool : Option Pool}

/-! ## Lives -/

/-- A condition on the blocks that are imported. -/
def Call.Imports (G : Geth τ) (P : Block → Prop) : Call σ → Prop
  | .importPayload _ data beaconRoot => P ⟨payloadHeader G data beaconRoot, data.transactions⟩
  | _ => True

/-- The store that a process leaves: the calls write it through, `Close` once more. -/
def Chain.Leaves (c : Chain σ τ) (s : Store σ τ) : Prop := c.store = some s ∨ c.close = some s

/-- The states of a node over its life: it starts from the template machine `m` with an empty store,
    is called without empty transactions and with blocks that meet `P`, and restarts at any point. -/
inductive Lives (G : Geth τ) (M : Machine σ) (cfg : Config) (m : σ) (P : Block → Prop) :
    Chain σ τ → Prop
  | fresh {pool : Option Pool} {c c' : Chain σ τ} (hpool : ∀ p, pool = some p → p.Decodes G)
    (h : new G M cfg m pool = .ok c) (h' : c.adopt G M Store.empty = .ok c') :
    Lives G M cfg m P c'
  | call {c : Chain σ τ} (h : Lives G M cfg m P c) (k : Call σ) (hk : k.NoEmpty G)
    (hP : k.Imports G P) : Lives G M cfg m P (k.exec G M c)
  | restart {c d : Chain σ τ} {s : Store σ τ} (h : Lives G M cfg m P c) (hs : c.Leaves s)
    (rt : DirSort σ) {pool : Option Pool} (hpool : ∀ p, pool = some p → p.Decodes G)
    (hd : restore G M rt cfg s pool = .ok (some d)) : Lives G M cfg m P d

/-! ## The history behind a store -/

/-- The blocks of a ledger. -/
abbrev Ledger.blocks (L : Ledger σ) (h : Hash) : Option Block := (L h).map Executed.block

/-- `a` is the block `h` of the ledger or an ancestor of it. -/
abbrev Ledger.Ancestor (L : Ledger σ) (a h : Hash) : Prop :=
  Ancestry.Ancestor L.blocks (fun b => b.header.parentHash) Block.number a h

/-- The ledger of all blocks a node ever executed, as a store returns them, and the store written
    from it: it has the blocks that decode, and numbers the head's ancestors. -/
structure History (G : Geth τ) (M : Machine σ) (cfg : Config) (P : Block → Prop) (m : σ)
    (root : Executed σ) (L : Ledger σ) (s : Store σ τ) (head : Hash) : Prop where
  genesis : genesis G M cfg m = .ok root
  lined : Lined G M cfg (Ledger.only G root) L
  rooted : L (root.block.hash G) = some root
  keyed : ∀ h x, L h = some x → x.block.hash G = h
  settled : ∀ h x, L h = some x → x.stored = x
  filled : ∀ h x, L h = some x → [] ∉ x.block.txs
  known : ∀ h x, L h = some x → P x.block
  archives : Archives G L s
  archived : ∀ h x, L h = some x → (∃ txs, x.block.txs.mapM G.unmarshalBinary = some txs) →
    Archived G s h x
  canonical : ∀ n a, s.canonical n = some a ↔
    ∃ x, L a = some x ∧ x.block.number = n ∧ L.Ancestor a head
  held : ∃ x, L head = some x
  head_eq : s.headBlock = some head

namespace History

variable {P : Block → Prop} {m : σ} {root : Executed σ} {L : Ledger σ} {s : Store σ τ} {head : Hash}

/-- Blocks above the genesis block execute on another one. -/
theorem executes (hH : History G M cfg P m root L s head) (hx : L h = some x)
    (hpos : x.block.number ≠ 0) :
    ∃ p, L x.block.header.parentHash = some p ∧ Executes G M cfg p x := by
  rcases hH.lined h x hx with hbase | ⟨p, hp, hexec⟩
  · obtain ⟨-, rfl⟩ := Ledger.only_eq_some hbase
    obtain ⟨r, extra, -, -, rfl⟩ := genesis_eq_ok.1 hH.genesis
    exact absurd rfl hpos
  · exact ⟨p, hexec.parent_eq ▸ hp, hexec⟩

theorem blocks_rooted (hH : History G M cfg P m root L s head) :
    Rooted L.blocks (fun b => b.header.parentHash) Block.number := by
  intro h b hb hpos
  obtain ⟨x, hx, rfl⟩ := Option.map_eq_some_iff.1 hb
  obtain ⟨p, hp, hexec⟩ := hH.executes hx hpos
  refine ⟨p.block, ?_, hexec.number_eq.symm⟩
  show (L x.block.header.parentHash).map Executed.block = _
  rw [hp]
  rfl

theorem block_eq (hx : L h = some x) : L.blocks h = some x.block := by
  rw [Ledger.blocks, hx]
  rfl

section

variable (hH : History G M cfg P m root L s head)
include hH

/-- The blocks up to the head are numbered without gaps. -/
theorem contiguous {top : Executed σ} (htop : L head = some top) {n : ℕ} (hn : n ≤ top.block.number)
    :
    ∃ a, s.canonical n = some a := by
  obtain ⟨a, b, ha, hb, hanc⟩ := hH.blocks_rooted.exists_ancestor n (top.block.number - n)
    (block_eq htop) (by omega)
  obtain ⟨x, hx, rfl⟩ := Option.map_eq_some_iff.1 ha
  exact ⟨a, (hH.canonical n a).2 ⟨x, hx, hb, hanc⟩⟩

theorem durable {top : Executed σ} (htop : L head = some top) : Durable G M cfg root L s top := by
  have hhash := hH.keyed head top htop
  refine ⟨⟨m, hH.genesis⟩, hH.lined, hH.keyed, hH.archives, fun n h hn => ?_, ?_, hhash ▸ htop,
    hhash ▸ hH.head_eq, ?_⟩
  · obtain ⟨x, hx, hnumber, -⟩ := (hH.canonical n h).1 hn
    exact ⟨x, hx, hnumber⟩
  · intro n h h' x hn hn' hx
    obtain ⟨y, hy, hynumber, hyanc⟩ := (hH.canonical n h).1 hn
    obtain ⟨x', hx', hxnumber, hxanc⟩ := (hH.canonical (n + 1) h').1 hn'
    obtain rfl := Option.some.inj (hx.symm.trans hx')
    have hpos : x.block.number ≠ 0 := by omega
    obtain ⟨p, hp, hexec⟩ := hH.executes hx hpos
    have hpanc : L.Ancestor x.block.header.parentHash head :=
      Ancestry.Ancestor.trans (.up (block_eq hx) hpos (.refl (block_eq hp))) hxanc
    refine hpanc.unique hH.blocks_rooted hyanc (block_eq hp) (block_eq hy) ?_
    have := hexec.number_eq
    omega
  · rw [hhash]
    exact (hH.canonical _ _).2 ⟨top, htop, rfl, .refl (block_eq htop)⟩

theorem eq_root (hx : L h = some x) (hzero : x.block.number = 0) : x = root := by
  rcases hH.lined h x hx with hbase | ⟨p, -, hexec⟩
  · exact (Ledger.only_eq_some hbase).2
  · have := hexec.number_eq
    omega

end

/-- Histories of one genesis block do not contradict each other. -/
theorem agree (hG : G.HeadersDiffer) (hG' : G.TxsDiffer) {P' : Block → Prop} {L' : Ledger σ}
    {head' : Hash} (hH : History G M cfg P m root L s head)
    (hH' : History G M cfg P' m root L' s' head') :
    ∀ (n : ℕ) (h : Hash) (x y : Executed σ), x.block.number = n → L h = some x → L' h = some y →
      x = y := by
  intro n
  induction n with
  | zero =>
    intro h x y hn hx hy
    have hhash : x.block.hash G = y.block.hash G := (hH.keyed h x hx).trans (hH'.keyed h y hy).symm
    have hnumber : x.block.number = y.block.number := hG.field hhash Header.number fun _ => rfl
    rw [hH.eq_root hx hn, hH'.eq_root hy (hnumber ▸ hn)]
  | succ n ih =>
    intro h x y hn hx hy
    have hhash : x.block.hash G = y.block.hash G := (hH.keyed h x hx).trans (hH'.keyed h y hy).symm
    have hnumber : x.block.number = y.block.number := hG.field hhash Header.number fun _ => rfl
    have hparent := hG.field hhash Header.parentHash fun _ => rfl
    obtain ⟨p, hp, hexec⟩ := hH.executes hx (by omega)
    obtain ⟨p', hp', hexec'⟩ := hH'.executes hy (by omega)
    have hpnumber := hexec.number_eq
    obtain rfl := ih _ p p' (by omega) (hparent ▸ hp) hp'
    have hsame := hexec.unique hG hG' hexec' rfl (hH.filled h x hx) (hH'.filled h y hy) hhash
    rwa [hH.settled h x hx, hH'.settled h y hy] at hsame

/-! ### A block is stored -/

/-- The tables that hold a block with its records. -/
structure SameRecords (s s' : Store σ τ) (h : Hash) : Prop where
  headers : s'.headers h = s.headers h
  bodies : s'.bodies h = s.bodies h
  outputs : s'.outputs h = s.outputs h
  trees : s'.trees h = s.trees h
  inputs : s'.inputs h = s.inputs h

theorem SameRecords.archived (hs : SameRecords s s' h) (hx : Archived G s h x) :
    Archived G s' h x :=
  ⟨hs.headers.trans hx.header, hx.body.imp fun _ htxs => ⟨htxs.1, hs.bodies.trans htxs.2⟩,
    hs.outputs.trans hx.outputs, hs.trees.trans hx.trees, hs.inputs.trans hx.inputs⟩

theorem SameRecords.archives (hs : ∀ h, SameRecords s s' h) (ha : Archives G L s) :
    Archives G L s' := by
  intro h
  rcases ha h with ⟨hheaders, houtputs⟩ | ⟨x, hx, harch⟩
  · exact .inl ⟨(hs h).headers.trans hheaders, (hs h).outputs.trans houtputs⟩
  · exact .inr ⟨x, hx, (hs h).archived harch⟩

/-- What storing the block `y` does to the tables: nothing at all if it does not decode. -/
structure Stores (G : Geth τ) (y : Executed σ) (s s' : Store σ τ) : Prop where
  new : (∃ txs, y.block.txs.mapM G.unmarshalBinary = some txs) → Archived G s' (y.block.hash G) y
  old : (¬∃ txs, y.block.txs.mapM G.unmarshalBinary = some txs) →
    SameRecords s s' (y.block.hash G)
  others : ∀ h, h ≠ y.block.hash G → SameRecords s s' h
  canonical : s'.canonical = s.canonical
  headBlock : s'.headBlock = s.headBlock

/-- Storing a block that the ledger does not contradict. -/
theorem Stores.archives {y : Executed σ} (hs' : Stores G y s s')
    (hsame : ∀ z, L (y.block.hash G) = some z → z = y) (ha : Archives G L s) :
    Archives G (update L (y.block.hash G) (some y)) s' := by
  intro h
  by_cases hnew : h = y.block.hash G ∧ ∃ txs, y.block.txs.mapM G.unmarshalBinary = some txs
  · obtain ⟨rfl, htxs⟩ := hnew
    exact .inr ⟨y, update_self _ _ _, hs'.new htxs⟩
  · have hrecords : SameRecords s s' h := by
      by_cases heq : h = y.block.hash G
      · subst heq
        exact hs'.old fun htxs => hnew ⟨rfl, htxs⟩
      · exact hs'.others h heq
    rcases ha h with ⟨hheaders, houtputs⟩ | ⟨z, hz, harch⟩
    · exact .inl ⟨hrecords.headers.trans hheaders, hrecords.outputs.trans houtputs⟩
    · refine .inr ⟨z, ?_, hrecords.archived harch⟩
      by_cases heq : h = y.block.hash G
      · subst heq
        rw [update_self, hsame z hz]
      · rw [update_of_ne heq, hz]

/-- The history grows by a block that executes on one of it, or has it already. -/
theorem grow (hH : History G M cfg P m root L s head) {x y : Executed σ}
    (hx : L (x.block.hash G) = some x) (hexec : Executes G M cfg x y) (hsettled : y.stored = y)
    (hfilled : [] ∉ y.block.txs) (hP : P y.block) (hsame : ∀ z, L (y.block.hash G) = some z → z = y)
    (hs' : Stores G y s s') :
    History G M cfg P m root (update L (y.block.hash G) (some y)) s' head ∧
      ∀ h z, L h = some z → update L (y.block.hash G) (some y) h = some z := by
  have hle : ∀ h z, L h = some z → update L (y.block.hash G) (some y) h = some z := by
    intro h z hz
    by_cases heq : h = y.block.hash G
    · subst heq
      rw [update_self, hsame z hz]
    · rw [update_of_ne heq, hz]
  have hall : ∀ (Q : Hash → Executed σ → Prop), Q (y.block.hash G) y → (∀ h z, L h = some z → Q h z) →
      ∀ h z, update L (y.block.hash G) (some y) h = some z → Q h z := by
    intro Q hy hold h z hz
    rcases update_some_cases hz with ⟨rfl, rfl⟩ | ⟨-, hz⟩
    · exact hy
    · exact hold h z hz
  have hleBlocks : ∀ h b, L.blocks h = some b →
      Ledger.blocks (update L (y.block.hash G) (some y)) h = some b := by
    intro h b hb
    obtain ⟨z, hz, rfl⟩ := Option.map_eq_some_iff.1 hb
    exact block_eq (hle h z hz)
  obtain ⟨top, htop⟩ := hH.held
  refine ⟨⟨hH.genesis, ?_, hle _ _ hH.rooted, hall _ rfl hH.keyed, hall _ hsettled hH.settled,
    hall _ hfilled hH.filled, hall _ hP hH.known, ?_, ?_, ?_, ⟨top, hle _ _ htop⟩, ?_⟩, hle⟩
  · refine hall _ (.inr ⟨x, hle _ _ hx, hexec⟩) fun h z hz => ?_
    rcases hH.lined h z hz with hbase | ⟨p, hp, hpexec⟩
    · exact .inl hbase
    · exact .inr ⟨p, hle _ _ hp, hpexec⟩
  · exact hs'.archives hsame hH.archives
  · refine hall _ hs'.new fun h z hz htxs => ?_
    by_cases heq : h = y.block.hash G
    · subst heq
      obtain rfl := hsame z hz
      exact hs'.new htxs
    · exact (hs'.others h heq).archived (hH.archived h z hz htxs)
  · intro n a
    rw [hs'.canonical, hH.canonical]
    constructor
    · rintro ⟨z, hz, hnumber, hanc⟩
      exact ⟨z, hle _ _ hz, hnumber, hanc.mono hleBlocks⟩
    · rintro ⟨z, hz, hnumber, hanc⟩
      have hanc' := hanc.of_mono hH.blocks_rooted hleBlocks (block_eq htop)
      obtain ⟨b, hb⟩ := hanc'.held_left
      obtain ⟨z', hz', rfl⟩ := Option.map_eq_some_iff.1 hb
      obtain rfl := Option.some.inj ((hle _ _ hz').symm.trans hz)
      exact ⟨z', hz', hnumber, hanc'⟩
  · rw [hs'.headBlock]
    exact hH.head_eq

/-! ### The head is moved -/

section

variable (hH : History G M cfg P m root L s head)
include hH

/-- Another head, and the same blocks. -/
theorem repoint {head' : Hash} (hs : ∀ h, SameRecords s s' h)
    (hcan : ∀ n a, s'.canonical n = some a ↔ ∃ x, L a = some x ∧ x.block.number = n ∧ L.Ancestor a head')
    (hheld : ∃ x, L head' = some x) (hhead : s'.headBlock = some head') :
    History G M cfg P m root L s' head' := by
  exact ⟨hH.genesis, hH.lined, hH.rooted, hH.keyed, hH.settled, hH.filled, hH.known,
    SameRecords.archives hs hH.archives,
    fun h x hx htxs => (hs h).archived (hH.archived h x hx htxs), hcan, hheld, hhead⟩

/-- What is canonical is so with its ancestors. -/
theorem traces {n : ℕ} (hn : s.canonical n = some h) :
    Traces L.blocks (fun b => b.header.parentHash) Block.number s.canonical h := by
  obtain ⟨x, hx, -, hanc⟩ := (hH.canonical n h).1 hn
  intro b hb i hi a
  obtain rfl := Option.some.inj ((block_eq hx).symm.trans hb)
  rw [hH.canonical]
  constructor
  · rintro ⟨z, hz, rfl, ha⟩
    exact ⟨z.block, block_eq hz, rfl, ha.of_height_le hH.blocks_rooted hanc (block_eq hz)
      (block_eq hx) hi⟩
  · rintro ⟨b, hb, hbi, ha⟩
    obtain ⟨z, hz, rfl⟩ := Option.map_eq_some_iff.1 hb
    exact ⟨z, hz, hbi, ha.trans hanc⟩

/-- `SetCanonical` deletes the numbers above the new head. -/
theorem above_deleted {number n : ℕ} (hn : number < n) :
    (if Store.aboveHead s.canonical number n then none else s.canonical n) = none := by
  split_ifs with habove
  · rfl
  · rw [Option.eq_none_iff_forall_ne_some]
    intro a ha
    obtain ⟨x, hx, hxn, hanc⟩ := (hH.canonical n a).1 ha
    obtain ⟨top, htop⟩ := hH.held
    have hle := hanc.height_le hH.blocks_rooted (block_eq hx) (block_eq htop)
    refine habove ?_
    simp only [Store.aboveHead, Bool.and_eq_true, decide_eq_true_eq, List.all_eq_true, List.mem_range,
      Bool.or_eq_true]
    refine ⟨hn, fun i hi => .inr ?_⟩
    obtain ⟨a', ha'⟩ := hH.contiguous htop (n := i) (by omega)
    rw [ha']
    rfl

/-- After `SetCanonical` the canonical blocks are the new head and its ancestors. -/
theorem point {walk : Hash → Option Block}
    (hwalk : ∀ h b, walk h = some b → b.hash G = h ∧ ∃ x, L h = some x ∧ x.block.number = b.number ∧ x.block.header.parentHash = b.header.parentHash)
    (hup : ∀ h b, walk h = some b → b.number ≠ 0 → s.canonical b.number ≠ some h → ∃ p, walk b.header.parentHash = some p)
    {b : Block} (hb : walk (b.hash G) = some b) (safe finalized : Hash)
    (dirs : List (CheckpointDir σ)) :
    History G M cfg P m root L
      { (s.setCanonical G b walk).setHeads (b.hash G) safe finalized with dirs := dirs }
      (b.hash G) := by
  obtain ⟨htraces, habove⟩ := Chain.relabel_traces hH.blocks_rooted
    (fun h b hb => by
      obtain ⟨hhash, x, hx, hnumber, hparent⟩ := hwalk h b hb
      exact ⟨hhash, x.block, block_eq hx, hnumber, hparent⟩)
    hup (fun n h hn => hH.traces hn) (b.number + 1) b
    (fun n => if Store.aboveHead s.canonical b.number n then none else s.canonical n) hb (by omega)
    (fun n hn => if_neg (by simp only [Store.aboveHead, Bool.and_eq_true, decide_eq_true_eq]; omega))
  obtain ⟨-, x, hx, hnumber, -⟩ := hwalk _ _ hb
  refine hH.repoint (fun h => ⟨rfl, rfl, rfl, rfl, rfl⟩) (fun n a => ?_) ⟨x, hx⟩ rfl
  by_cases hn : n ≤ b.number
  · refine (htraces x.block (block_eq hx) n (hnumber.symm ▸ hn) a).trans ⟨?_, ?_⟩
    · rintro ⟨b', hb', hbn, hanc⟩
      obtain ⟨z, hz, rfl⟩ := Option.map_eq_some_iff.1 hb'
      exact ⟨z, hz, hbn, hanc⟩
    · rintro ⟨z, hz, hzn, hanc⟩
      exact ⟨z.block, block_eq hz, hzn, hanc⟩
  · have hnone := (habove n (by omega)).trans (hH.above_deleted (by omega))
    constructor
    · intro hsome
      cases hnone.symm.trans hsome
    · rintro ⟨z, hz, hzn, hanc⟩
      have := hanc.height_le hH.blocks_rooted (block_eq hz) (block_eq hx)
      omega

theorem setHeads (safe finalized : Hash) :
    History G M cfg P m root L (s.setHeads head safe finalized) head :=
  hH.repoint (fun _ => ⟨rfl, rfl, rfl, rfl, rfl⟩) hH.canonical hH.held rfl

end

end History

/-! ## The chain in memory -/

/-- The chain holds blocks of the history, down to `base`, and knows its store. -/
structure Kept (G : Geth τ) (M : Machine σ) (cfg : Config) (P : Block → Prop) (m : σ)
    (root : Executed σ) (A L : Ledger σ) (base : Executed σ) (s : Store σ τ) (c : Chain σ τ) :
    Prop where
  history : History G M cfg P m root A s c.head
  sound : Sound G M (Ledger.only G base) L c
  accepted : ∀ h x, L h = some x → P x.block
  sub : ∀ h x, L h = some x → A h = some x.stored
  cfg_eq : c.cfg = cfg
  store_eq : c.store = some s
  held : ∃ x, L c.head = some x

/-- A forkchoice call leaves the head and the store alone, or moves both to a block that is held. -/
theorem forkchoice_moves (rt : Runtime σ) (fc : ForkchoiceState) (attrs : Option PayloadAttributes) :
    (((Call.forkchoiceUpdated rt fc attrs).exec G M c).head = c.head ∧
      ((Call.forkchoiceUpdated rt fc attrs).exec G M c).store = c.store) ∨
    ∃ b, c.blocks fc.headBlockHash = some b ∧
      ((Call.forkchoiceUpdated rt fc attrs).exec G M c).head = b.hash G ∧
      ((Call.forkchoiceUpdated rt fc attrs).exec G M c).store = (c.pointed G M rt b fc).store := by
  have hfc := Chain.forkchoice_cases (G := G) (M := M) (c := c) rt fc attrs
  unfold Call.exec
  simp only
  generalize (Chain.forkchoiceUpdated G M rt fc attrs).run c = r at hfc
  cases hfc with
  | unknownHead => exact .inl ⟨rfl, rfl⟩
  | badSafe head => exact .inl ⟨rfl, rfl⟩
  | badFinalized head =>
    refine .inl ?_
    simp only [endState]
    unfold Chain.withSafe
    split_ifs <;> exact ⟨rfl, rfl⟩
  | noBuild head hhead => exact .inr ⟨head, hhead, rfl, rfl⟩
  | badTime head hhead => exact .inr ⟨head, hhead, rfl, rfl⟩
  | buildFailed head e c' hhead hsafe hfin hc' =>
    refine .inr ⟨head, hhead, ?_⟩
    rcases hc' with rfl | ⟨dropped, rfl⟩ <;> exact ⟨rfl, rfl⟩
  | found head id p hhead => exact .inr ⟨head, hhead, rfl, rfl⟩
  | built head id p dropped hhead => exact .inr ⟨head, hhead, rfl, rfl⟩

/-- What moving the head writes. -/
theorem pointed_store (rt : Runtime σ) (fc : ForkchoiceState) (b : Block) :
    (c.store = none → (c.pointed G M rt b fc).store = none) ∧
    ∀ s, c.store = some s → ∃ safe finalized dirs, (c.pointed G M rt b fc).store =
      some { (s.setCanonical G b c.blocks).setHeads (b.hash G) safe finalized with
        dirs := dirs } := by
  have hsame : (((c.reorgTo G b).withSafe fc.safeBlockHash).withFinalized
      fc.finalizedBlockHash).store = c.store ∧ (((c.reorgTo G b).withSafe
        fc.safeBlockHash).withFinalized fc.finalizedBlockHash).blocks = c.blocks := by
    unfold Chain.withFinalized Chain.withSafe
    split_ifs <;> exact ⟨rfl, rfl⟩
  obtain ⟨hstore, hblocks⟩ := hsame
  unfold Chain.pointed
  generalize ((c.reorgTo G b).withSafe fc.safeBlockHash).withFinalized fc.finalizedBlockHash = c₁
    at hstore hblocks
  constructor
  · intro hs
    show c₁.store.map _ = none
    rw [hstore, hs]
    rfl
  · intro s hs
    obtain ⟨dirs, hdirs⟩ := Chain.checkpointIfFinalized_eq (G := G) (M := M) rt
      (c := { c₁ with head := b.hash G }.prune)
      ((s.setCanonical G b c.blocks).setHeads (b.hash G) c₁.safe c₁.finalized)
    refine ⟨c₁.safe, c₁.finalized, dirs, ?_⟩
    rw [← hdirs, ← hblocks]
    show c₁.store.map _ = _
    rw [hstore, hs]
    rfl

theorem forkchoice_store (rt : Runtime σ) (fc : ForkchoiceState) (attrs : Option PayloadAttributes)
    {s : Store σ τ} (hs : c.store = some s) :
    (((Call.forkchoiceUpdated rt fc attrs).exec G M c).head = c.head ∧
      ((Call.forkchoiceUpdated rt fc attrs).exec G M c).store = some s) ∨
    ∃ b safe finalized dirs, c.blocks fc.headBlockHash = some b ∧
      ((Call.forkchoiceUpdated rt fc attrs).exec G M c).head = b.hash G ∧
      ((Call.forkchoiceUpdated rt fc attrs).exec G M c).store =
        some { (s.setCanonical G b c.blocks).setHeads (b.hash G) safe finalized with
          dirs := dirs } := by
  rcases forkchoice_moves (G := G) (M := M) (c := c) rt fc attrs with
    ⟨hhead, hstore⟩ | ⟨b, hb, hhead, hstore⟩
  · exact .inl ⟨hhead, hstore.trans hs⟩
  · obtain ⟨safe, finalized, dirs, hpointed⟩ := (pointed_store (G := G) (M := M) rt fc b).2 s hs
    exact .inr ⟨b, safe, finalized, dirs, hb, hhead, hstore.trans hpointed⟩

theorem forkchoice_noStore (rt : Runtime σ) (fc : ForkchoiceState)
    (attrs : Option PayloadAttributes) (hs : c.store = none) :
    ((Call.forkchoiceUpdated rt fc attrs).exec G M c).store = none := by
  rcases forkchoice_moves (G := G) (M := M) (c := c) rt fc attrs with ⟨-, hstore⟩ | ⟨b, -, -, hstore⟩
  · exact hstore.trans hs
  · exact hstore.trans ((pointed_store rt fc b).1 hs)

/-- A commit stores the block if it decodes. -/
theorem persist_stores (rt : Runtime σ) (y : Executed σ) {s : Store σ τ} (hs : c.store = some s) :
    ∃ s', (c.commitAndPersist G M rt y).store = some s' ∧ History.Stores G y.stored s s' := by
  have hstore : (c.commit G y).store = some s := hs
  unfold Chain.commitAndPersist Chain.persist
  simp only [hstore, Option.map_some]
  refine ⟨_, rfl, ?_⟩
  split
  · rename_i e hput
    have hnot : ¬∃ txs, y.block.txs.mapM G.unmarshalBinary = some txs := by
      rintro ⟨txs, htxs⟩
      rw [putBlock_eq_ok.2 ⟨txs, htxs, rfl⟩] at hput
      cases hput
    exact ⟨fun htxs => absurd htxs hnot, fun _ => ⟨rfl, rfl, rfl, rfl, rfl⟩,
      fun _ _ => ⟨rfl, rfl, rfl, rfl, rfl⟩, rfl, rfl⟩
  · rename_i s₁ hput
    obtain ⟨txs, htxs, hs₁⟩ := putBlock_eq_ok.1 hput
    have hstores : ∀ dirs, History.Stores G y.stored s { s₁ with dirs := dirs } := by
      intro dirs
      subst hs₁
      refine ⟨fun _ => ⟨?_, ⟨txs, htxs, ?_⟩, ?_, ?_, ?_⟩, fun hnot => absurd ⟨txs, htxs⟩ hnot,
        fun h hne => ⟨?_, ?_, ?_, ?_, ?_⟩, rfl, rfl⟩
      · exact update_self (y.block.hash G) _ s.headers
      · exact update_self (y.block.hash G) _ s.bodies
      · exact update_self (y.block.hash G) _ s.outputs
      · exact update_self (y.block.hash G) _ s.trees
      · exact update_self (y.block.hash G) _ s.inputs
      · exact update_of_ne hne _ s.headers
      · exact update_of_ne hne _ s.bodies
      · exact update_of_ne hne _ s.outputs
      · exact update_of_ne hne _ s.trees
      · exact update_of_ne hne _ s.inputs
    split_ifs
    · exact hstores s₁.dirs
    · obtain ⟨dirs, hdirs⟩ := Chain.checkpoint_eq (G := G) (M := M) (c := c.commit G y) rt s₁ y.block
      rw [hdirs]
      exact hstores dirs

namespace Kept

variable {P : Block → Prop} {m : σ} {root base : Executed σ} {A L : Ledger σ} {s : Store σ τ}

section

variable (hk : Kept G M cfg P m root A L base s c)
include hk

/-- All blocks in memory descend from the base. -/
theorem base_ancestor :
    ∀ (n : ℕ) (h : Hash) (x : Executed σ), x.block.number = n → L h = some x →
      A.Ancestor (base.block.hash G) h := by
  intro n
  induction n with
  | zero =>
    intro h x hn hx
    rcases hk.sound.lined h x hx with hbase | ⟨p, -, hexec⟩
    · obtain ⟨rfl, rfl⟩ := Ledger.only_eq_some hbase
      exact .refl (History.block_eq (hk.sub _ _ hx))
    · have := hexec.number_eq
      omega
  | succ n ih =>
    intro h x hn hx
    rcases hk.sound.lined h x hx with hbase | ⟨p, hp, hexec⟩
    · obtain ⟨rfl, rfl⟩ := Ledger.only_eq_some hbase
      exact .refl (History.block_eq (hk.sub _ _ hx))
    · have hnumber := hexec.number_eq
      refine .up (History.block_eq (hk.sub _ _ hx)) ?_ ?_
      · rw [show x.stored.block.number = x.block.number from rfl]
        omega
      · rw [show x.stored.block.header.parentHash = p.block.hash G from hexec.parent_eq]
        exact ih _ p (by omega) hp

theorem base_canonical :
    s.canonical base.block.number = some (base.block.hash G) := by
  obtain ⟨x, hx⟩ := hk.held
  have hbase := hk.sound.above _ _ (Ledger.only_self base)
  exact (hk.history.canonical _ _).2
    ⟨base.stored, hk.sub _ _ hbase, rfl, hk.base_ancestor _ _ x rfl hx⟩

theorem walk (h : Hash) (b : Block) (hb : c.blocks h = some b)
    : b.hash G = h ∧ ∃ x, A h = some x ∧ x.block.number = b.number ∧
      x.block.header.parentHash = b.header.parentHash := by
  obtain ⟨x, hx, rfl⟩ := hk.sound.recorded.of_block hb
  exact ⟨hk.sound.recorded.keyed h x hx, x.stored, hk.sub h x hx, rfl, rfl⟩

/-- A block that is not the base has its parent in memory. -/
theorem walk_up (h : Hash) (b : Block) (hb : c.blocks h = some b)
    (hcan : s.canonical b.number ≠ some h) :
    ∃ p, c.blocks b.header.parentHash = some p := by
  obtain ⟨x, hx, rfl⟩ := hk.sound.recorded.of_block hb
  rcases hk.sound.lined h x hx with hbase | ⟨p, hp, hexec⟩
  · obtain ⟨rfl, rfl⟩ := Ledger.only_eq_some hbase
    exact absurd hk.base_canonical hcan
  · refine ⟨p.block, ?_⟩
    rw [hexec.parent_eq, hk.sound.recorded.blocks, hp]
    rfl

/-- What a process leaves is the history it kept. -/
theorem leaves (hs : c.Leaves s') :
    History G M cfg P m root A s' c.head := by
  rcases hs with hstore | hclose
  · cases hk.store_eq.symm.trans hstore
    exact hk.history
  · rw [Chain.close, hk.store_eq] at hclose
    cases hclose
    exact hk.history.setHeads _ _

end

/-! ### Calls -/

/-- A block of the history under the hash of an imported one is that one. -/
theorem same_import (hG : G.HeadersDiffer) (hG' : G.TxsDiffer)
    (hk : Kept G M cfg P m root A L base s c) {x y : Executed σ} (hx : L (x.block.hash G) = some x)
    (hexec : Executes G M cfg x y) (hfilled : [] ∉ y.block.txs) {z : Executed σ}
    (hz : A (y.block.hash G) = some z) : z = y.stored := by
  have hhash : z.block.hash G = y.block.hash G := hk.history.keyed _ z hz
  have hnumber : z.block.number = y.block.number := hG.field hhash Header.number fun _ => rfl
  have hynumber := hexec.number_eq
  obtain ⟨p, hp, hpexec⟩ := hk.history.executes hz (by omega)
  rw [hG.field hhash Header.parentHash fun _ => rfl, hexec.parent_eq, hk.sub _ x hx] at hp
  cases hp
  have hsame := hpexec.unique hG hG' hexec rfl (hk.history.filled _ z hz) hfilled hhash
  rwa [hk.history.settled _ z hz] at hsame

/-- A call keeps what memory and store say about the history. -/
theorem exec (hG : G.HeadersDiffer) (hG' : G.TxsDiffer) (hempty : G.unmarshalBinary [] = none)
    (hP : ∀ b : Block, P b → P ⟨b.header.stored, b.txs⟩)
    (hk : Kept G M cfg P m root A L base s c) {k : Call σ} (hno : k.NoEmpty G)
    (himp : k.Imports G P) : ∃ A' s', Kept G M cfg P m root A' (k.grow G M c L) base s'
      (k.exec G M c) ∧ ∀ h x, A h = some x → A' h = some x := by
  have hrec := hk.sound.recorded
  obtain ⟨hsound, -⟩ := hk.sound.exec hG hG' hempty hno
  have hcfg := (cfg_exec (M := M) hrec.block_keyed k).trans hk.cfg_eq
  cases k with
  | forkchoiceUpdated rt fc attrs =>
    rcases forkchoice_store (G := G) (M := M) rt fc attrs hk.store_eq with
      ⟨hhead, hstore⟩ | ⟨b, safe, finalized, dirs, hb, hhead, hstore⟩
    · refine ⟨A, s, ⟨?_, hsound, hk.accepted, hk.sub, hcfg, hstore, ?_⟩, fun _ _ h => h⟩
      · rw [hhead]
        exact hk.history
      · rw [hhead]
        exact hk.held
    · obtain ⟨hhash, -⟩ := hk.walk _ b hb
      obtain ⟨x, hx, -⟩ := hrec.of_block hb
      refine ⟨A, _, ⟨?_, hsound, hk.accepted, hk.sub, hcfg, hstore, ?_⟩, fun _ _ h => h⟩
      · rw [hhead]
        exact hk.history.point hk.walk (fun h b hb _ hcan => hk.walk_up h b hb hcan)
          (hhash.symm ▸ hb) safe finalized dirs
      · rw [hhead, hhash]
        exact ⟨x, hx⟩
  | importPayload rt data beaconRoot =>
    rcases hrec.import_cases rt data beaconRoot with ⟨hstate, hgrow⟩ |
      ⟨x, y, adopted, -, hstate, hgrow, -, hx, hfresh, hblock, hverified⟩
    · rw [hstate, hgrow]
      exact ⟨A, s, hk, fun _ _ h => h⟩
    · rw [hgrow] at hsound ⊢
      rw [hstate] at hsound hcfg ⊢
      obtain ⟨x', hx', hexec⟩ := hverified.executes hG hG' hk.sound.spelled hno
        (hrec.keyed _ x hx ▸ hx)
      rw [hk.cfg_eq] at hexec
      obtain ⟨s', hs', hstores⟩ := persist_stores (G := G) (M := M) (c := c) rt y hk.store_eq
      have hfilled : [] ∉ y.block.txs := by
        rw [hblock]
        exact hno
      have hPy : P y.block := by
        rw [hblock]
        exact himp
      obtain ⟨hhistory, hle⟩ := hk.history.grow (hk.sub _ x' hx') hexec.stored rfl hfilled
        (hP _ hPy) (fun z hz => hk.same_import hG hG' hx' hexec hfilled hz) hstores
      refine ⟨_, s', ⟨hhistory, hsound, fun h z hz => ?_, fun h z hz => ?_, hcfg, hs', ?_⟩, hle⟩
      · rcases update_some_cases hz with ⟨rfl, rfl⟩ | ⟨-, hz⟩
        · exact hPy
        · exact hk.accepted h z hz
      · rcases update_some_cases hz with ⟨rfl, rfl⟩ | ⟨heq, hz⟩
        · exact update_self (z.block.hash G) _ A
        · exact (update_of_ne heq _ A).trans (hk.sub h z hz)
      · obtain ⟨z, hz⟩ := hk.held
        exact ⟨z, update_some_keep hfresh hz⟩
  | setMaxDASize limits =>
    exact ⟨A, s, ⟨hk.history, hsound, hk.accepted, hk.sub, hcfg, hk.store_eq, hk.held⟩,
      fun _ _ h => h⟩
  | queue pool =>
    exact ⟨A, s, ⟨hk.history, hsound, hk.accepted, hk.sub, hcfg, hk.store_eq, hk.held⟩,
      fun _ _ h => h⟩

end Kept

/-! ## Starts and restarts -/

/-- The store that `Adopt` leaves when it was empty. -/
def genesisStore (G : Geth τ) (x : Executed σ) (dirs : List (CheckpointDir σ)) : Store σ τ where
  headers := update (fun _ => none) (x.block.hash G) (some x.block.header.stored)
  bodies := update (fun _ => none) (x.block.hash G) (some [])
  canonical := update (fun _ => none) 0 (some (x.block.hash G))
  headBlock := some (x.block.hash G)
  safeHead := none
  finalizedBlock := none
  outputs := update (fun _ => none) (x.block.hash G) (some [])
  trees := update (fun _ => none) (x.block.hash G) (some newOutputTree.encode)
  inputs := update (fun _ => none) (x.block.hash G) (some 0)
  dirs := dirs

theorem setCanonical_genesis {s : Store σ τ} (hs : s.canonical = fun _ => none) {b : Block}
    (hzero : b.number = 0) (walk : Hash → Option Block) : s.setCanonical G b walk =
      { s with
        canonical := update (fun _ => none) 0 (some (b.hash G))
        headBlock := some (b.hash G) } := by
  unfold Store.setCanonical
  simp [hs, hzero, Store.relabel]

/-- A fresh chain whose store was empty. -/
theorem adopt_fresh {m : σ} (h : new G M cfg m pool = .ok c) (h' : c.adopt G M Store.empty = .ok c') :
    ∃ x dirs, cfg.withDefaults.validate = .ok () ∧ genesis G M cfg.withDefaults m = .ok x ∧
      c' = singleton G cfg.withDefaults pool (some (genesisStore G x dirs)) x (fun _ => [])
        (x.block.hash G) := by
  obtain ⟨hvalid, x, hx, rfl⟩ := new_eq_ok.1 h
  obtain ⟨r, extra, -, -, hxeq⟩ := genesis_eq_ok.1 hx
  have hzero : x.block.number = 0 := by
    rw [hxeq]
    rfl
  have htxs : x.block.txs = [] := by rw [hxeq]
  unfold Chain.adopt at h'
  simp only [except_bind_eq_ok, expect_eq_ok] at h'
  obtain ⟨b, hb, s, hput, hpure⟩ := h'
  obtain ⟨-, rfl⟩ := update_none_eq_some hb
  obtain ⟨txs, hdecoded, rfl⟩ := putBlock_eq_ok.1 hput
  rw [htxs] at hdecoded
  cases hdecoded
  rw [setCanonical_genesis rfl hzero] at hpure
  obtain ⟨dirs, hdirs⟩ := Chain.checkpointGenesis_eq (G := G) (M := M) (c := singleton G
    cfg.withDefaults pool none x (fun _ => []) (x.block.hash G)) (genesisStore G x [])
  refine ⟨x, dirs, hvalid, hx, ?_⟩
  rw [show genesisStore G x dirs = { genesisStore G x [] with dirs := dirs } from rfl, ← hdirs]
  exact (Except.ok.inj hpure).symm

theorem history_fresh {P : Block → Prop} {m : σ} (hx : genesis G M cfg m = .ok x) (hP : P x.block)
    (dirs : List (CheckpointDir σ)) :
    History G M cfg P m x (Ledger.only G x) (genesisStore G x dirs : Store σ τ)
      (x.block.hash G) := by
  have hself : Ledger.only G x (x.block.hash G) = some x := Ledger.only_self x
  obtain ⟨r, extra, -, -, hxeq⟩ := genesis_eq_ok.1 hx
  have harch : Archived G (genesisStore G x dirs : Store σ τ) (x.block.hash G) x := by
    refine ⟨by simp [genesisStore], ⟨[], ?_, by simp [genesisStore]⟩, ?_, ?_, ?_⟩
    · rw [hxeq]
      rfl
    · rw [show x.outputs = [] by rw [hxeq]]
      simp [genesisStore, encodeOutputs]
    · rw [show x.tree = newOutputTree by rw [hxeq]]
      simp [genesisStore]
    · rw [show x.inputs = 0 by rw [hxeq]; rfl]
      simp [genesisStore]
  have hall : ∀ (Q : Hash → Executed σ → Prop), Q (x.block.hash G) x → ∀ h z,
      Ledger.only G x h = some z → Q h z := by
    intro Q hQ h z hz
    obtain ⟨rfl, rfl⟩ := Ledger.only_eq_some hz
    exact hQ
  refine ⟨hx, fun h y hy => .inl hy, hself, hall _ rfl, hall _ ?_, hall _ ?_, hall _ hP, fun h => ?_,
    hall _ fun _ => harch, fun n a => ?_, ⟨x, hself⟩, rfl⟩
  · rw [hxeq]
    rfl
  · rw [hxeq]
    exact List.not_mem_nil
  · by_cases heq : h = x.block.hash G
    · subst heq
      exact .inr ⟨x, hself, harch⟩
    · exact .inl ⟨by simp [genesisStore, heq], by simp [genesisStore, heq]⟩
  · have hzero : x.block.number = 0 := by
      rw [hxeq]
      rfl
    constructor
    · intro hn
      obtain ⟨rfl, rfl⟩ := update_none_eq_some hn
      exact ⟨x, hself, hzero, .refl (History.block_eq hself)⟩
    · rintro ⟨z, hz, rfl, -⟩
      obtain ⟨rfl, rfl⟩ := Ledger.only_eq_some hz
      simp [genesisStore, hzero]

theorem kept_fresh {P : Block → Prop} {m : σ}
    (hP : ∀ x, genesis G M cfg.withDefaults m = .ok x → P x.block)
    (hpool : ∀ p, pool = some p → p.Decodes G) (h : new G M cfg m pool = .ok c)
    (h' : c.adopt G M Store.empty = .ok c') : ∃ x s,
      Kept G M cfg.withDefaults P m x (Ledger.only G x) (Ledger.only G x) x s c' := by
  obtain ⟨x, dirs, -, hx, rfl⟩ := adopt_fresh h h'
  have hH := history_fresh (τ := τ) hx (hP x hx) dirs
  have hrec : Recorded G M (Ledger.only G x) (singleton G cfg.withDefaults pool
      (some (genesisStore G x dirs)) x (fun _ => []) (x.block.hash G)) :=
    recorded_singleton pool _ x _ _
  refine ⟨x, _, hH, ⟨hrec, hH.lined, fun _ _ h => h, hH.filled, ⟨fun q hq => (nomatch hq), hpool⟩⟩,
    hH.known, fun h z hz => ?_, rfl, rfl, ⟨x, Ledger.only_self x⟩⟩
  rw [hH.settled h z hz]
  exact hz

/-- A restored chain. -/
theorem kept_restart (hR : G.Reencodes) (hM : M.RootsDiffer) {P : Block → Prop} {m : σ}
    {root base : Executed σ} {A L : Ledger σ} {s s' : Store σ τ}
    (hk : Kept G M cfg.withDefaults P m root A L base s c) (hs : c.Leaves s') {rt : DirSort σ}
    (hpool : ∀ p, pool = some p → p.Decodes G) (hd : restore G M rt cfg s' pool = .ok (some d)) :
    ∃ top w m', A c.head = some top ∧ Loads G M A rt s' top w m' ∧ Archived G s' c.head top ∧
      Restored G M cfg.withDefaults A s' top w.block.number d ∧
      Kept G M cfg.withDefaults P m root A (window A s' w.block.number top.block.number) w s' d := by
  have hH := hk.leaves hs
  obtain ⟨top, htop⟩ := hH.held
  have hhash := hH.keyed _ top htop
  have hdur := hH.durable htop
  obtain ⟨w, m', hload, harch, hres⟩ := restore_sound hR hM hdur hpool hd
  have hsettled : ∀ {h : Hash} {z : Executed σ},
      window A s' w.block.number top.block.number h = some z → A h = some z ∧
        w.block.number ≤ z.block.number ∧ z.block.number ≤ top.block.number ∧
        s'.canonical z.block.number = some h := by
    intro h z hz
    obtain ⟨x, hx, hlo, hhi, hcan, rfl⟩ := window_eq_some.1 hz
    rw [hH.settled h x hx]
    exact ⟨hx, hlo, hhi, hcan⟩
  have hwindow : ∀ {h : Hash} {z : Executed σ}, A h = some z → w.block.number ≤ z.block.number →
      z.block.number ≤ top.block.number → s'.canonical z.block.number = some h →
      window A s' w.block.number top.block.number h = some z := by
    intro h z hz hlo hhi hcan
    exact window_eq_some.2 ⟨z, hz, hlo, hhi, hcan, (hH.settled h z hz).symm⟩
  refine ⟨top, w, m', htop, hload, hhash ▸ harch, hres, ?_, ⟨hres.recorded, ?_, ?_, ?_, hres.spelled⟩, ?_, ?_,
    hres.cfg_eq, hres.store, ?_⟩
  · rw [hres.head, hhash]
    exact hH
  · rw [hres.cfg_eq]
    intro h z hz
    obtain ⟨hz', hlo, hhi, hcan⟩ := hsettled hz
    rcases Nat.eq_or_lt_of_le hlo with heq | hlt
    · -- the lowest block is the checkpoint's
      rw [← heq, hload.canonical] at hcan
      cases hcan
      obtain rfl := Option.some.inj (hload.self.symm.trans hz')
      exact .inl (Ledger.only_self w)
    · obtain ⟨p, hp, hexec⟩ := hH.executes hz' (by omega)
      have hnumber := hexec.number_eq
      have hphash := hH.keyed _ p hp
      refine .inr ⟨p, ?_, hexec⟩
      rw [hphash]
      refine hwindow hp (by omega) (by omega) ?_
      obtain ⟨a, ha⟩ := hH.contiguous htop (n := p.block.number) (by omega)
      rw [ha, hdur.linked _ a h z ha (hnumber ▸ hcan) hz']
  · intro h x hx
    obtain ⟨rfl, rfl⟩ := Ledger.only_eq_some hx
    exact hwindow hload.self (le_refl _) hload.le hload.canonical
  · intro h x hx
    exact hH.filled h x (hsettled hx).1
  · intro h x hx
    exact hH.known h x (hsettled hx).1
  · intro h x hx
    rw [hH.settled h x (hsettled hx).1]
    exact (hsettled hx).1
  · refine ⟨top, ?_⟩
    rw [hres.head, hhash]
    exact hwindow htop hload.le (le_refl _) (hhash ▸ hdur.top_canonical)

/-- What memory and store say holds in every state of every life. -/
theorem Lives.kept (hG : G.HeadersDiffer) (hG' : G.TxsDiffer) (hR : G.Reencodes)
    (hM : M.RootsDiffer) (hempty : G.unmarshalBinary [] = none) {P : Block → Prop} {m : σ}
    (hroot : ∀ x, genesis G M cfg.withDefaults m = .ok x → P x.block)
    (hP : ∀ b : Block, P b → P ⟨b.header.stored, b.txs⟩) (h : Lives G M cfg m P c) :
    ∃ root A L base s, Kept G M cfg.withDefaults P m root A L base s c := by
  induction h with
  | fresh hpool h h' =>
    obtain ⟨x, s, hk⟩ := kept_fresh hroot hpool h h'
    exact ⟨x, _, _, x, s, hk⟩
  | call _ k hno himp ih =>
    obtain ⟨root, A, L, base, s, hk⟩ := ih
    obtain ⟨A', s', hk', -⟩ := hk.exec hG hG' hempty hP hno himp
    exact ⟨root, A', _, base, s', hk'⟩
  | restart _ hs rt hpool hd ih =>
    obtain ⟨root, A, L, base, s, hk⟩ := ih
    obtain ⟨top, w, -, -, -, -, -, hk'⟩ := kept_restart hR hM hk hs hpool hd
    exact ⟨root, A, _, w, _, hk'⟩

end OpCartesi.Node
