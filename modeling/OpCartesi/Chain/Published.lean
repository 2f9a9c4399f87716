import OpCartesi.Chain.Provable
import OpCartesi.Chain.Rebuild
import OpCartesi.Chain.Receipts

/-!
# Published outputs stay provable (`outputproof.go`, `outputs.go`, `receipts.go`)

The number of an output is computed in three places. `TxEmissions` and the receipts go back from the
count of a block's accumulator by the block's own outputs; `OutputProofAt` walks down to the genesis
block, through memory and then through the store, and counts from there. Behind all three is one list
of outputs for each block, which neither the code nor the store has.

* `Fits`: what is kept of the blocks, in memory and in the store, fits such lists.
  `Fits.insert`: so it does with one more block.
* `Publishes`, `Publishes.exec`: memory and store fit, and every call keeps that, whether it writes or
  fails to.
* `Stored`: the states of a node all of whose blocks are stored, over any number of restarts.
  `Stored.backed`: memory and store fit in them.
* `leavesThrough_outputs`: the walk finds the list of the block.
* `outputs_stay_provable`: a published output has a proof, under its published number, at every block
  that includes it.
-/

namespace OpCartesi.Node

open Exec Ancestry
open Function (update update_of_ne update_self)

variable {σ τ : Type} {G : Geth τ} {M : Machine σ} {T : ReceiptTypes τ} {cfg : Config}
  {c c₀ d : Chain σ τ} {L : Ledger σ} {s : Store σ τ} {c' : Chain σ τ} {h : Hash}
  {root : Executed σ} {x y : Executed σ} {m : σ}

/-! ## Lists of outputs -/

/-- What memory and store both keep of a block: the header as a store returns it, the records and
    the accumulator. -/
structure BlockRecord where
  header : Header
  outputs : List TxOutputs
  tree : OutputTree

/-- What is kept of an executed block. -/
def Executed.record (x : Executed σ) : BlockRecord := ⟨x.block.header.stored, x.outputs, x.tree⟩

/-- The outputs up to each block fit the records: an accumulator is that of the block's list, a header
    commits to it, and the list is the parent's with the block's own outputs behind. -/
structure Fits (G : Geth τ) (outs : Hash → List Bytes) (H : Hash → BlockRecord → Prop) :
    Prop where
  keyed : ∀ h r, H h r → r.header.hash G = h
  tree : ∀ h r, H h r → r.tree.Of G ((outs h).map (outputLeaf G))
  room : ∀ h r, H h r → (outs h).length < 2 ^ OutputTreeHeight
  commits : ∀ h r, H h r → ∃ p : PasserTrie,
    r.header.withdrawalsHash = some ((p.setOutputsRoot G (r.tree.root G)).root G)
  first : ∀ h r, H h r → r.header.number = 0 →
    outs h = [] ∧ r.outputs = [] ∧ r.tree = newOutputTree
  next : ∀ h r, H h r → r.header.number ≠ 0 →
    outs h = outs r.header.parentHash ++ recordedOutputs r.outputs ∧
      ∃ p, H r.header.parentHash p ∧ r.header.number = p.header.number + 1

namespace Fits

variable {outs : Hash → List Bytes} {H H' : Hash → BlockRecord → Prop}

theorem number_eq (hG : G.HeadersDiffer) (hH : Fits G outs H) {r r' : BlockRecord} (hr : H h r)
    (hr' : H h r') : r.header.number = r'.header.number :=
  hG.field ((hH.keyed h r hr).trans (hH.keyed h r' hr').symm) Header.number fun _ => rfl

/-- Fewer records, but of the same blocks. -/
theorem mono (hG : G.HeadersDiffer) (hH : Fits G outs H) (hsub : ∀ h r, H' h r → H h r)
    (hkeep : ∀ h r, H h r → ∃ r', H' h r') : Fits G outs H' where
  keyed h r hr := hH.keyed h r (hsub h r hr)
  tree h r hr := hH.tree h r (hsub h r hr)
  room h r hr := hH.room h r (hsub h r hr)
  commits h r hr := hH.commits h r (hsub h r hr)
  first h r hr := hH.first h r (hsub h r hr)
  next h r hr hpos := by
    obtain ⟨houts, p, hp, hnumber⟩ := hH.next h r (hsub h r hr) hpos
    obtain ⟨p', hp'⟩ := hkeep _ p hp
    exact ⟨houts, p', hp', hnumber.trans (congrArg (· + 1) (hH.number_eq hG hp (hsub _ p' hp')))⟩

/-- Records of one block are of one list, if the commitments of headers do not collide. -/
theorem outs_eq (hG : G.HeadersDiffer) (hO : G.OutputsDiffer) (hH : Fits G outs H)
    {r r' : BlockRecord} (hr : H h r) (hhash : r'.header.hash G = h) {l : List Bytes}
    (hof : r'.tree.Of G (l.map (outputLeaf G))) (hroom : l.length < 2 ^ OutputTreeHeight)
    (hcommits : ∃ p : PasserTrie,
      r'.header.withdrawalsHash = some ((p.setOutputsRoot G (r'.tree.root G)).root G)) :
    outs h = l := by
  obtain ⟨p, hp⟩ := hH.commits h r hr
  obtain ⟨p', hp'⟩ := hcommits
  have hroom' := hH.room h r hr
  have hsame : r.header.withdrawalsHash = r'.header.withdrawalsHash :=
    hG.field ((hH.keyed h r hr).trans hhash.symm) Header.withdrawalsHash fun _ => rfl
  rw [hp, hp', (hH.tree h r hr).root_eq (by simpa using hroom'),
    hof.root_eq (by simpa using hroom)] at hsame
  exact hO p p' _ _ hroom' hroom (Option.some.inj hsame)

/-- One more record, of a block whose parent is there. If there already is one of this block, it is of
    the same list. -/
theorem insert (hG : G.HeadersDiffer) (hH : Fits G outs H) {r p : BlockRecord}
    (hp : H r.header.parentHash p) (hnumber : r.header.number = p.header.number + 1)
    (htree : p.tree.append G (outputLeaves G r.outputs) = some r.tree)
    (hcommits : ∃ q : PasserTrie,
      r.header.withdrawalsHash = some ((q.setOutputsRoot G (r.tree.root G)).root G))
    (hagree : G.OutputsDiffer ∨ ∀ r', ¬H (r.header.hash G) r') :
    ∃ outs', Fits G outs' fun h r' => H h r' ∨ h = r.header.hash G ∧ r' = r := by
  have hproom := hH.room _ p hp
  obtain ⟨hroom, hof⟩ := (hH.tree _ p hp).append_room (by simpa using hproom) htree
  rw [outputLeaves_eq, ← List.map_append] at hof
  rw [outputLeaves_eq, ← List.length_append, ← List.map_append, List.length_map] at hroom
  generalize hnew : outs r.header.parentHash ++ recordedOutputs r.outputs = new at hof hroom
  have hsame : ∀ r', H (r.header.hash G) r' → outs (r.header.hash G) = new := by
    intro r' hr'
    rcases hagree with hO | hnone
    · exact hH.outs_eq hG hO hr' rfl hof hroom hcommits
    · exact absurd hr' (hnone r')
  -- the lists of the blocks that were there stay as they were
  have hold : ∀ h r', H h r' → update outs (r.header.hash G) new h = outs h := by
    intro h r' hr'
    by_cases heq : h = r.header.hash G
    · subst heq
      rw [update_self, hsame r' hr']
    · rw [update_of_ne heq]
  have hself : update outs (r.header.hash G) new (r.header.hash G) = new :=
    update_self ..
  refine ⟨update outs (r.header.hash G) new, ?_, ?_, ?_, ?_, ?_, ?_⟩
  · rintro h r' (hr' | ⟨rfl, rfl⟩)
    · exact hH.keyed h r' hr'
    · rfl
  · rintro h r' (hr' | ⟨rfl, rfl⟩)
    · rw [hold h r' hr']
      exact hH.tree h r' hr'
    · rw [hself]
      exact hof
  · rintro h r' (hr' | ⟨rfl, rfl⟩)
    · rw [hold h r' hr']
      exact hH.room h r' hr'
    · rw [hself]
      exact hroom
  · rintro h r' (hr' | ⟨rfl, rfl⟩)
    · exact hH.commits h r' hr'
    · exact hcommits
  · rintro h r' (hr' | ⟨rfl, rfl⟩) hzero
    · rw [hold h r' hr']
      exact hH.first h r' hr' hzero
    · omega
  · rintro h r' (hr' | ⟨rfl, rfl⟩) hpos
    · obtain ⟨houts, q, hq, hqnumber⟩ := hH.next h r' hr' hpos
      rw [hold h r' hr', hold _ q hq]
      exact ⟨houts, q, .inl hq, hqnumber⟩
    · rw [hself, hold _ p hp]
      exact ⟨hnew.symm, p, .inl hp, hnumber⟩

/-- The genesis block alone. -/
theorem genesis (hroot : Node.genesis G M cfg m = .ok root) :
    Fits G (fun _ => []) fun h r => h = root.block.hash G ∧ r = root.record := by
  obtain ⟨r, extra, -, -, hroot⟩ := genesis_eq_ok.1 hroot
  refine ⟨?_, ?_, ?_, ?_, ?_, ?_⟩
  · rintro h r ⟨rfl, rfl⟩
    rfl
  · rintro h r ⟨rfl, rfl⟩
    rw [hroot]
    exact OutputTree.of_newOutputTree
  · rintro h r -
    show 0 < 2 ^ OutputTreeHeight
    positivity
  · rintro h r ⟨rfl, rfl⟩
    rw [hroot]
    exact ⟨newPasserTrie, rfl⟩
  · rintro h r ⟨rfl, rfl⟩ -
    rw [hroot]
    exact ⟨rfl, rfl, rfl⟩
  · rintro h r ⟨rfl, rfl⟩ hpos
    rw [hroot] at hpos
    exact absurd rfl hpos

end Fits

/-! ## Memory and store -/

/-- What the ledger and the store have under a hash. -/
def Keeps (G : Geth τ) (L : Ledger σ) (store : Option (Store σ τ)) (h : Hash) (r : BlockRecord) :
    Prop :=
  (∃ x, L h = some x ∧ x.record = r) ∨ ∃ s x, store = some s ∧ Archived G s h x ∧ x.record = r

theorem Archived.record_eq (hx : Archived G s h x) (hy : Archived G s h y) :
    x.record = y.record := by
  have hrecords := hx.records.symm.trans hy.records
  simp only [Except.ok.injEq, Prod.mk.injEq] at hrecords
  have hheader := Option.some.inj (hx.header.symm.trans hy.header)
  rw [Executed.record, Executed.record, hheader, hrecords.1, hrecords.2.1]

theorem History.SameRecords.symm {s s' : Store σ τ} (hs : History.SameRecords s s' h) :
    History.SameRecords s' s h :=
  ⟨hs.headers.symm, hs.bodies.symm, hs.outputs.symm, hs.trees.symm, hs.inputs.symm⟩

/-- Memory and store fit lists of outputs. Either the commitments of headers do not collide, or the
    store has the blocks in memory only, and so no other record of a block that is imported. -/
structure Publishes (G : Geth τ) (L : Ledger σ) (c : Chain σ τ) : Prop where
  numbered : ∃ outs, Fits G outs (Keeps G L c.store)
  passers : ∀ h x, L h = some x → ∃ p : PasserTrie, x.passer = p.setOutputsRoot G (x.tree.root G)
  agree : G.OutputsDiffer ∨
    ∀ s, c.store = some s → ∀ h x, Archived G s h x → ∃ y, L h = some y

/-- What holds of the store before and after holds of the store after and before. -/
theorem store_before {Q : Store σ τ → Store σ τ → Prop} (hnone : c.store = none → c'.store = none)
    (hsome : ∀ s, c.store = some s → ∃ s', c'.store = some s' ∧ Q s s') {s' : Store σ τ}
    (hs' : c'.store = some s') : ∃ s, c.store = some s ∧ Q s s' := by
  cases hs : c.store with
  | none =>
    rw [hnone hs] at hs'
    cases hs'
  | some s =>
    obtain ⟨s'', hs'', hQ⟩ := hsome s hs
    cases hs'.symm.trans hs''
    exact ⟨s, rfl, hQ⟩

/-- A change that leaves the records in the store alone. -/
theorem Publishes.same (hG : G.HeadersDiffer) (hp : Publishes G L c)
    (hnone : c.store = none → c'.store = none)
    (hsome : ∀ s, c.store = some s → ∃ s', c'.store = some s' ∧ ∀ h, History.SameRecords s s' h) :
    Publishes G L c' := by
  obtain ⟨outs, hnum⟩ := hp.numbered
  refine ⟨⟨outs, hnum.mono hG ?_ ?_⟩, hp.passers, hp.agree.imp_right fun hall s' hs' h x hx => ?_⟩
  · rintro h r (hmem | ⟨s', x, hs', hx, rfl⟩)
    · exact .inl hmem
    · obtain ⟨s, hs, hsame⟩ := store_before hnone hsome hs'
      exact .inr ⟨s, x, hs, (hsame h).symm.archived hx, rfl⟩
  · rintro h r (hmem | ⟨s, x, hs, hx, rfl⟩)
    · exact ⟨r, .inl hmem⟩
    · obtain ⟨s', hs', hsame⟩ := hsome s hs
      exact ⟨_, .inr ⟨s', x, hs', (hsame h).archived hx, rfl⟩⟩
  · obtain ⟨s, hs, hsame⟩ := store_before hnone hsome hs'
    exact hall s hs h x ((hsame h).symm.archived hx)

/-! ## Calls -/

theorem RanAs.tree_eq {x ran y : Executed σ} (h : RanAs G M cfg x ran y) :
    x.tree.append G (outputLeaves G y.outputs) = some y.tree := by
  have houtputs : y.outputs = ran.outputs := by rw [h.records]
  have htree : y.tree = ran.tree := by rw [h.records]
  rw [houtputs, htree]
  exact h.executes.tree_eq

/-- A block on one of the ledger, with the outputs and the commitment of an execution. -/
structure Appends (G : Geth τ) (x y : Executed σ) : Prop extends Extends G x y where
  tree_eq : x.tree.append G (outputLeaves G y.outputs) = some y.tree

theorem Appends.passer (h : Appends G x y) :
    ∃ p : PasserTrie, y.passer = p.setOutputsRoot G (y.tree.root G) :=
  ⟨_, h.passer_eq⟩

/-- Memory and store with one more block in memory, which may get into the store. -/
theorem Publishes.append (hG : G.HeadersDiffer) (hp : Publishes G L c)
    (hx : L (x.block.hash G) = some x) (hy : Appends G x y) (hfresh : L (y.block.hash G) = none) (hnone : c.store = none → c'.store = none)
    (hsome : ∀ s, c.store = some s → ∃ s', c'.store = some s' ∧
      (∀ z, Archived G s' (y.block.hash G) z →
        Archived G s (y.block.hash G) z ∨ z.record = y.record) ∧
      ∀ h, h ≠ y.block.hash G → History.SameRecords s s' h) :
    Publishes G (update L (y.block.hash G) (some y)) c' := by
  have hself : update L (y.block.hash G) (some y) (y.block.hash G) = some y :=
    update_self ..
  obtain ⟨outs, hnum⟩ := hp.numbered
  have hagree : G.OutputsDiffer ∨ ∀ r', ¬Keeps G L c.store (y.block.hash G) r' := by
    refine hp.agree.imp_right fun hall r' => ?_
    rintro (⟨z, hz, -⟩ | ⟨s, z, hs, hz, -⟩)
    · rw [hfresh] at hz
      cases hz
    · obtain ⟨z', hz'⟩ := hall s hs _ z hz
      rw [hfresh] at hz'
      cases hz'
  have hparent : Keeps G L c.store y.record.header.parentHash x.record := by
    refine .inl ⟨x, ?_, rfl⟩
    rw [show y.record.header.parentHash = x.block.hash G from hy.parent_eq]
    exact hx
  obtain ⟨outs', hnum'⟩ := hnum.insert hG hparent hy.number_eq hy.tree_eq
    ⟨_, hy.passer_eq ▸ hy.withdrawals_eq⟩ hagree
  refine ⟨⟨outs', hnum'.mono hG ?_ ?_⟩, ?_, hp.agree.imp_right fun hall s' hs' h z hz => ?_⟩
  · rintro h r (⟨z, hz, rfl⟩ | ⟨s', z, hs', hz, rfl⟩)
    · rcases update_some_cases hz with ⟨rfl, rfl⟩ | ⟨-, hold⟩
      · exact .inr ⟨rfl, rfl⟩
      · exact .inl (.inl ⟨z, hold, rfl⟩)
    · obtain ⟨s, hs, hnew, hothers⟩ := store_before hnone hsome hs'
      by_cases heq : h = y.block.hash G
      · subst heq
        rcases hnew z hz with hold | hrecord
        · exact .inl (.inr ⟨s, z, hs, hold, rfl⟩)
        · exact .inr ⟨rfl, hrecord⟩
      · exact .inl (.inr ⟨s, z, hs, (hothers h heq).symm.archived hz, rfl⟩)
  · intro h r hr
    by_cases heq : h = y.block.hash G
    · subst heq
      exact ⟨_, .inl ⟨y, hself, rfl⟩⟩
    · rcases hr with (⟨z, hz, rfl⟩ | ⟨s, z, hs, hz, rfl⟩) | ⟨hnew, -⟩
      · exact ⟨_, .inl ⟨z, update_some_keep hfresh hz, rfl⟩⟩
      · obtain ⟨s', hs', -, hothers⟩ := hsome s hs
        exact ⟨_, .inr ⟨s', z, hs', (hothers h heq).archived hz, rfl⟩⟩
      · exact absurd hnew heq
  · intro h z hz
    rcases update_some_cases hz with ⟨rfl, rfl⟩ | ⟨-, hold⟩
    · exact hy.passer
    · exact hp.passers h z hold
  · obtain ⟨s, hs, -, hothers⟩ := store_before hnone hsome hs'
    by_cases heq : h = y.block.hash G
    · subst heq
      exact ⟨y, hself⟩
    · obtain ⟨z', hz'⟩ := hall s hs h z ((hothers h heq).symm.archived hz)
      exact ⟨z', update_some_keep hfresh hz'⟩

/-- Every call keeps memory and store fitting, also one that does not get a block stored. -/
theorem Publishes.exec (hG : G.HeadersDiffer) (hrec : Recorded G M L c) (hp : Publishes G L c)
    (k : Call σ) : Publishes G (k.grow G M c L) (k.exec G M c) := by
  cases k with
  | forkchoiceUpdated rt fc attrs =>
    refine hp.same hG (forkchoice_noStore rt fc attrs) fun s hs => ?_
    rcases forkchoice_store (G := G) (M := M) rt fc attrs hs with
      ⟨-, hstore⟩ | ⟨b, safe, finalized, dirs, -, -, hstore⟩
    · exact ⟨s, hstore, fun _ => ⟨rfl, rfl, rfl, rfl, rfl⟩⟩
    · exact ⟨_, hstore, fun _ => ⟨rfl, rfl, rfl, rfl, rfl⟩⟩
  | importPayload rt data beaconRoot =>
    rcases hrec.import_cases rt data beaconRoot with
      ⟨hstate, hgrow⟩ | ⟨x, y, adopted, -, hstate, hgrow, -, hx, hfresh, -, hverified⟩
    · rw [hstate, hgrow]
      exact hp
    · obtain ⟨x', ran, hx', hran⟩ := hverified.ranAs hG (hrec.keyed _ x hx ▸ hx)
      rw [hstate, hgrow]
      refine hp.append hG hx' ⟨hran.extends, hran.tree_eq⟩ hfresh ?_ fun s hs => ?_
      · intro hs
        show c.store.map _ = none
        rw [hs]
        rfl
      · obtain ⟨s', hs', hstores⟩ := persist_stores (G := G) (M := M) (c := c) rt y hs
        refine ⟨s', hs', fun z hz => ?_, hstores.others⟩
        by_cases htxs : ∃ txs, y.block.txs.mapM G.unmarshalBinary = some txs
        · exact .inr (hz.record_eq (y := y.stored) (hstores.new htxs))
        · exact .inl ((hstores.old htxs).symm.archived hz)
  | setMaxDASize limits => exact hp.same hG id fun s hs => ⟨s, hs, fun _ => ⟨rfl, rfl, rfl, rfl, rfl⟩⟩
  | queue pool => exact hp.same hG id fun s hs => ⟨s, hs, fun _ => ⟨rfl, rfl, rfl, rfl, rfl⟩⟩

/-- A store that was written from the genesis block only. -/
theorem archives_genesis (hs : Archives G (Ledger.only G root) s) {x : Executed σ}
    (hx : Archived G s h x) :
    h = root.block.hash G ∧ Archived G s (root.block.hash G) root ∧ x.record = root.record := by
  rcases hs h with ⟨hnone, -⟩ | ⟨y, hy, harch⟩
  · rw [hx.header] at hnone
    cases hnone
  · obtain ⟨rfl, rfl⟩ := Ledger.only_eq_some hy
    exact ⟨rfl, harch, hx.record_eq harch⟩

theorem publishes_genesis (hG : G.HeadersDiffer) (hroot : genesis G M cfg m = .ok root)
    (hstore : ∀ s, c.store = some s → Archives G (Ledger.only G root) s) :
    Publishes G (Ledger.only G root) c := by
  refine ⟨⟨_, (Fits.genesis hroot).mono hG ?_ ?_⟩, ?_, .inr fun s hs h x hx => ?_⟩
  · rintro h r (⟨x, hx, rfl⟩ | ⟨s, x, hs, hx, rfl⟩)
    · obtain ⟨rfl, rfl⟩ := Ledger.only_eq_some hx
      exact ⟨rfl, rfl⟩
    · obtain ⟨hhash, -, hrecord⟩ := archives_genesis (hstore s hs) hx
      exact ⟨hhash, hrecord⟩
  · rintro h r ⟨rfl, rfl⟩
    exact ⟨_, .inl ⟨root, Ledger.only_self root, rfl⟩⟩
  · intro h x hx
    obtain ⟨-, rfl⟩ := Ledger.only_eq_some hx
    obtain ⟨r, extra, -, -, rfl⟩ := genesis_eq_ok.1 hroot
    exact ⟨newPasserTrie, rfl⟩
  · obtain ⟨rfl, -⟩ := archives_genesis (hstore s hs) hx
    exact ⟨root, Ledger.only_self root⟩

/-- A fresh chain. -/
theorem publishes_fresh (hG : G.HeadersDiffer) (h : Fresh G M c) :
    ∃ L, Recorded G M L c ∧ Publishes G L c := by
  cases h with
  | @inMemory cfg m pool c h =>
    obtain ⟨-, root, hroot, rfl⟩ := new_eq_ok.1 h
    exact ⟨_, recorded_singleton pool none root _ _, publishes_genesis hG hroot fun s hs => by cases hs⟩
  | @adopted cfg m pool c₀ c' h h' =>
    obtain ⟨root, dirs, -, hroot, rfl⟩ := adopt_fresh h h'
    refine ⟨_, recorded_singleton pool _ root _ _, publishes_genesis hG hroot fun s hs => ?_⟩
    cases hs
    exact (history_fresh (P := fun _ => True) (τ := τ) hroot trivial dirs).archives

/-! ## Nodes whose every write succeeds -/

/-- The call writes what it commits. -/
def Call.Writes (G : Geth τ) (M : Machine σ) (c : Chain σ τ) : Call σ → Prop
  | .importPayload rt data beaconRoot => ∀ y adopted s,
    c.verify G M rt data beaconRoot = .ok (y, adopted) → c.store = some s →
    ∃ s', s.putBlock G y.block y.outputs y.tree y.inputs = .ok s'
  | _ => True

/-- The states of a node all of whose blocks are stored: it starts with an empty store, is called in
    any way that writes what it commits, and restarts at any point, also under another
    configuration. -/
inductive Stored (G : Geth τ) (M : Machine σ) : Chain σ τ → Prop
  | fresh {cfg : Config} {m : σ} {pool : Option Pool} {c c' : Chain σ τ}
    (h : new G M cfg m pool = .ok c) (h' : c.adopt G M Store.empty = .ok c') : Stored G M c'
  | call {c : Chain σ τ} (h : Stored G M c) (k : Call σ) (hk : k.Writes G M c) :
    Stored G M (k.exec G M c)
  | restart {c d : Chain σ τ} {s : Store σ τ} (h : Stored G M c) (hs : c.Leaves s) (rt : DirSort σ)
    {cfg : Config} {pool : Option Pool} (hd : restore G M rt cfg s pool = .ok (some d)) :
    Stored G M d

/-- What the store has of a block is all there, a genesis block consumed no inputs, and the canonical
    blocks are entered under their numbers. -/
structure Store.Whole (G : Geth τ) (s : Store σ τ) : Prop where
  written : ∀ h, s.headers h ≠ none → ∃ x, Archived G s h x
  bottom : ∀ h x, Archived G s h x → x.block.number = 0 → x.inputs = 0
  labelled : ∀ n h, s.canonical n = some h → ∃ b : Block, b.hash G = h ∧ b.number = n

/-- The blocks in memory are in the store as well. -/
structure Backed (G : Geth τ) (M : Machine σ) (L : Ledger σ) (s : Store σ τ) (c : Chain σ τ) :
    Prop where
  recorded : Recorded G M L c
  publishes : Publishes G L c
  store_eq : c.store = some s
  complete : ∀ h x, L h = some x → ∃ x', Archived G s h x'
  whole : s.Whole G

theorem Store.Whole.same {s s' : Store σ τ} (h : s.Whole G)
    (hsame : ∀ h, History.SameRecords s s' h)
    (hlabelled : ∀ n h, s'.canonical n = some h → ∃ b : Block, b.hash G = h ∧ b.number = n) :
    s'.Whole G where
  written hash hheader := by
    obtain ⟨x, hx⟩ := h.written hash ((hsame hash).headers ▸ hheader)
    exact ⟨x, (hsame hash).archived hx⟩
  bottom hash x hx := h.bottom hash x ((hsame hash).symm.archived hx)
  labelled := hlabelled

/-- `SetCanonical` enters blocks under their numbers. -/
theorem relabel_labelled {walk : Hash → Option Block} {seen : ℕ → Option Hash} (fuel : ℕ) :
    ∀ (cur : Block) (label : ℕ → Option Hash),
      (∀ n h, label n = some h → ∃ b : Block, b.hash G = h ∧ b.number = n) →
      ∀ n h, Store.relabel G walk seen fuel cur label n = some h →
        ∃ b : Block, b.hash G = h ∧ b.number = n := by
  induction fuel with
  | zero => exact fun _ _ hlabel => hlabel
  | succ fuel ih =>
    intro cur label hlabel
    have hcur : ∀ n h, update label cur.number (some (cur.hash G)) n = some h →
        ∃ b : Block, b.hash G = h ∧ b.number = n := by
      intro n h hn
      by_cases heq : n = cur.number
      · subst heq
        rw [update_self] at hn
        exact ⟨cur, Option.some.inj hn, rfl⟩
      · rw [update_of_ne heq] at hn
        exact hlabel n h hn
    rw [Store.relabel]
    split_ifs
    · exact hlabel
    · exact hcur
    · cases walk cur.header.parentHash with
      | none => exact hcur
      | some parent => exact ih parent _ hcur

theorem Backed.exec (hG : G.HeadersDiffer) (hb : Backed G M L s c) (k : Call σ)
    (hk : k.Writes G M c) : ∃ s', Backed G M (k.grow G M c L) s' (k.exec G M c) := by
  have hrec := hb.recorded.exec k
  have hpub := hb.publishes.exec hG hb.recorded k
  cases k with
  | forkchoiceUpdated rt fc attrs =>
    rcases forkchoice_store (G := G) (M := M) rt fc attrs hb.store_eq with
      ⟨-, hstore⟩ | ⟨b, safe, finalized, dirs, -, -, hstore⟩
    · exact ⟨s, hrec, hpub, hstore, hb.complete, hb.whole⟩
    · have hsame : ∀ h, History.SameRecords s
          { (s.setCanonical G b c.blocks).setHeads (b.hash G) safe finalized with dirs := dirs } h :=
        fun h => ⟨rfl, rfl, rfl, rfl, rfl⟩
      refine ⟨_, hrec, hpub, hstore, fun h x hx => ?_, hb.whole.same hsame ?_⟩
      · obtain ⟨x', hx'⟩ := hb.complete h x hx
        exact ⟨x', (hsame h).archived hx'⟩
      · refine relabel_labelled (b.number + 1) b _ fun n h hn => ?_
        split_ifs at hn
        exact hb.whole.labelled n h hn
  | importPayload rt data beaconRoot =>
    rcases hb.recorded.import_cases rt data beaconRoot with
      ⟨hstate, hgrow⟩ | ⟨x, y, adopted, hv, hstate, hgrow, hadm, -, -, hblock, -⟩
    · rw [hstate, hgrow]
      exact ⟨s, hb⟩
    · obtain ⟨s₁, hput⟩ := hk y adopted s hv hb.store_eq
      obtain ⟨txs, htxs, -⟩ := putBlock_eq_ok.1 hput
      obtain ⟨s', hs', hstores⟩ := persist_stores (G := G) (M := M) (c := c) rt y hb.store_eq
      have hnew : Archived G s' (y.block.hash G) y.stored := hstores.new ⟨txs, htxs⟩
      rw [hstate, hgrow] at hrec hpub ⊢
      refine ⟨s', hrec, hpub, hs', fun h z hz => ?_, ⟨fun h hheader => ?_, fun h z hz hzero => ?_, ?_⟩⟩
      · rcases update_some_cases hz with ⟨rfl, rfl⟩ | ⟨heq, hz⟩
        · exact ⟨_, hnew⟩
        · obtain ⟨z', hz'⟩ := hb.complete h z hz
          exact ⟨z', (hstores.others h heq).archived hz'⟩
      · by_cases heq : h = y.block.hash G
        · exact ⟨_, heq ▸ hnew⟩
        · obtain ⟨z, hz⟩ := hb.whole.written h ((hstores.others h heq).headers ▸ hheader)
          exact ⟨z, (hstores.others h heq).archived hz⟩
      · by_cases heq : h = y.block.hash G
        · subst heq
          have hnumber : z.block.number = y.block.number :=
            congrArg (fun r => r.header.number) (hz.record_eq hnew)
          have hpos : y.block.number = x.block.number + 1 := by
            rw [hblock]
            exact hadm.number_eq
          omega
        · exact hb.whole.bottom h z ((hstores.others h heq).symm.archived hz) hzero
      · rw [hstores.canonical]
        exact hb.whole.labelled
  | setMaxDASize limits => exact ⟨s, hrec, hpub, hb.store_eq, hb.complete, hb.whole⟩
  | queue pool => exact ⟨s, hrec, hpub, hb.store_eq, hb.complete, hb.whole⟩

/-! ### Restarts -/

/-- What a replay that succeeds found. -/
theorem replayStored_appends (hrec : Recorded G M L c) {b : Block}
    (h : c.replayStored G M b = .ok c') : ∃ x y, L b.header.parentHash = some x ∧ y.block = b ∧
      x.tree.append G (outputLeaves G y.outputs) = some y.tree ∧
      y.passer = x.passer.extend G y.outputs y.tree ∧
      b.header.withdrawalsHash = some (y.passer.root G) ∧ c' = c.replayed G y := by
  unfold Chain.replayStored at h
  simp only [except_bind_eq_ok, expect_eq_ok, require_eq_ok, mapError_eq_ok,
    Chain.extendPasser_eq_ok] at h
  obtain ⟨m, hm, work, -, res, -, root, -, -, -, tree, htree, passer, ⟨base, hbase, rfl⟩, -, hwith,
    hpure⟩ := h
  obtain ⟨x, hx, -⟩ := hrec.machines _ m hm
  rw [hrec.trees _ x hx] at htree
  rw [hrec.passers _ x hx] at hbase
  cases hbase
  cases hpure
  exact ⟨x, ⟨b, res.machine, res.outputs, tree, x.passer.extend G res.outputs tree, _⟩, hx, rfl, htree,
    rfl, hwith, rfl⟩

/-- A stored block is replayed on top of what is below its number. -/
theorem Backed.replay (hG : G.HeadersDiffer) (hR : G.Reencodes) (hb : Backed G M L s c) {n : ℕ}
    (hbelow : ∀ h x, L h = some x → x.block.number < n) {hash : Hash}
    (hcan : s.canonical n = some hash) {b : Block} (hblock : s.block G hash = some b)
    (hrun : c.replayStored G M b = .ok c') :
    ∃ L', Backed G M L' s c' ∧ ∀ h x, L' h = some x → x.block.number < n + 1 := by
  obtain ⟨outs, hfits⟩ := hb.publishes.numbered
  -- the block is in the store with its number, and its parent below it
  have hheader : s.headers hash ≠ none := by
    intro hnone
    simp [Store.block, hnone] at hblock
  obtain ⟨w, hw⟩ := hb.whole.written hash hheader
  obtain rfl : w.stored.block = b := Option.some.inj ((hw.block hR).symm.trans hblock)
  have hwkeeps : Keeps G L c.store hash w.record := .inr ⟨s, w, hb.store_eq, hw, rfl⟩
  have hhash : w.block.hash G = hash := hfits.keyed _ _ hwkeeps
  obtain ⟨b', hb', hn⟩ := hb.whole.labelled n hash hcan
  have hnumber : w.block.number = n :=
    (hG.field (hhash.trans hb'.symm) Header.number fun _ => rfl).trans hn
  obtain ⟨x, y, hx, hyblock, htree, hpasser, hwith, rfl⟩ := replayStored_appends hb.recorded hrun
  have hxbelow := hbelow _ x hx
  obtain ⟨-, p, hp, hpnumber⟩ := hfits.next _ _ hwkeeps (show w.block.number ≠ 0 by omega)
  have hxnumber : p.header.number = x.block.number :=
    hfits.number_eq hG hp (.inl ⟨x, hx, rfl⟩)
  have hxhash := hb.recorded.keyed _ x hx
  have hyhash : y.block.hash G = hash := by
    rw [hyblock]
    exact hhash
  have hynumber : y.block.number = x.block.number + 1 := by
    rw [hyblock, ← hxnumber]
    exact hpnumber
  have hyn : y.block.number = n := by
    rw [hyblock]
    exact hnumber
  have happends : Appends G x y := by
    refine ⟨⟨?_, hynumber, hpasser, ?_⟩, htree⟩
    · rw [hyblock, hxhash]
    · rw [hyblock]
      exact hwith
  have hfresh : L (y.block.hash G) = none := by
    rw [Option.eq_none_iff_forall_ne_some]
    intro z hz
    have hzbelow := hbelow _ z hz
    have hzhash := hb.recorded.keyed _ z hz
    have hznumber : z.block.number = y.block.number := hG.field hzhash Header.number fun _ => rfl
    omega
  refine ⟨update L (y.block.hash G) (some y), ⟨?_, ?_, hb.store_eq, fun h z hz => ?_,
    hb.whole⟩, fun h z hz => ?_⟩
  · exact (hb.recorded.commit hfresh).trims (.of_eq rfl rfl rfl rfl rfl rfl rfl rfl rfl rfl rfl)
  · exact hb.publishes.append hG (hxhash ▸ hx) happends hfresh id fun s hs =>
      ⟨s, hs, fun z hz => .inl hz, fun h _ => ⟨rfl, rfl, rfl, rfl, rfl⟩⟩
  · rcases update_some_cases hz with ⟨rfl, rfl⟩ | ⟨-, hz⟩
    · exact ⟨w, hyhash.symm ▸ hw⟩
    · exact hb.complete h z hz
  · rcases update_some_cases hz with ⟨rfl, rfl⟩ | ⟨-, hz⟩
    · omega
    · exact Nat.lt_succ_of_lt (hbelow h z hz)

theorem Backed.replayFrom (hG : G.HeadersDiffer) (hR : G.Reencodes) (left : ℕ) :
    ∀ {n : ℕ} {L : Ledger σ} {c : Chain σ τ}, Backed G M L s c →
      (∀ h x, L h = some x → x.block.number < n) → c.replayFrom G M s left n = .ok d →
      ∃ L', Backed G M L' s d := by
  induction left with
  | zero =>
    intro n L c hb _ hrun
    cases hrun
    exact ⟨L, hb⟩
  | succ left ih =>
    intro n L c hb hbelow hrun
    obtain ⟨hash, b, c₁, hhash, hblock, hc₁, hrun⟩ := replayFrom_succ_eq_ok.1 hrun
    obtain ⟨L₁, hb₁, hbelow₁⟩ := hb.replay hG hR hbelow hhash hblock hc₁
    exact ih hb₁ hbelow₁ hrun

/-- The trie that is rebuilt has the outputs root of the tree. -/
theorem rebuildPasser_set {base : Block} {tree : OutputTree} {p : PasserTrie}
    (h : s.rebuildPasser G base tree = .ok p) :
    ∃ q : PasserTrie, p = q.setOutputsRoot G (tree.root G) := by
  unfold Store.rebuildPasser at h
  obtain ⟨blocks, -, h⟩ := except_bind_eq_ok.1 h
  obtain ⟨withdrawals, -, h⟩ := except_bind_eq_ok.1 h
  obtain ⟨⟨⟩, -, hpure⟩ := except_bind_eq_ok.1 h
  cases hpure
  exact ⟨_, rfl⟩

/-- A store that fits is restored to a chain that fits. -/
theorem restore_backed (hG : G.HeadersDiffer) (hR : G.Reencodes) (hO : G.OutputsDiffer)
    {outs : Hash → List Bytes} (hfits : Fits G outs (Keeps G (fun _ => none) (some s)))
    (hwhole : s.Whole G) {rt : DirSort σ} {pool : Option Pool}
    (hrun : restore G M rt cfg s pool = .ok (some d)) : ∃ L, Backed G M L s d := by
  obtain ⟨-, head, cp, base, m, ⟨outputs, tree, inputs⟩, passer, c, -, -, hbase, -, -, hrecords,
    hpasser, hloop, rfl⟩ := restore_eq_ok.1 hrun
  obtain ⟨a, -, hblock⟩ := Option.bind_eq_some_iff.1 hbase
  have hheader : s.headers a ≠ none := by
    intro hnone
    simp [Store.block, hnone] at hblock
  obtain ⟨w, hw⟩ := hwhole.written a hheader
  obtain rfl : w.stored.block = base := Option.some.inj ((hw.block hR).symm.trans hblock)
  have hkeeps : Keeps G (fun _ => none) (some s) a w.record := .inr ⟨s, w, rfl, hw, rfl⟩
  have hhash : w.block.hash G = a := hfits.keyed _ _ hkeeps
  -- the records of a genesis block are not read, but they are what is taken instead
  have hsame : outputs = w.outputs ∧ tree = w.tree ∧ inputs = w.inputs := by
    unfold Store.baseRecords at hrecords
    split_ifs at hrecords with hzero
    · obtain ⟨-, houtputs, htree⟩ := hfits.first _ _ hkeeps hzero
      cases hrecords
      exact ⟨houtputs.symm, htree.symm, (hwhole.bottom a w hw hzero).symm⟩
    · rw [mapError_eq_ok, show w.stored.block.hash G = a from hhash, hw.records] at hrecords
      cases hrecords
      exact ⟨rfl, rfl, rfl⟩
  obtain ⟨rfl, rfl, rfl⟩ := hsame
  let x : Executed σ := { w.stored with machine := m, passer := passer }
  have hadopted : Backed G M (Ledger.only G x) s (Chain.adoptBase G cfg.withDefaults s pool x.block
      x.machine x.outputs x.tree x.passer x.inputs) := by
    refine ⟨recorded_adoptBase x, ⟨⟨outs, hfits.mono hG ?_ ?_⟩, fun h z hz => ?_, .inl hO⟩, rfl,
      fun h z hz => ?_, hwhole⟩
    · rintro h r (⟨z, hz, rfl⟩ | ⟨s', z, hs', hz, rfl⟩)
      · obtain ⟨rfl, rfl⟩ := Ledger.only_eq_some hz
        exact .inr ⟨s, w, rfl, hhash.symm ▸ hw, rfl⟩
      · exact .inr ⟨s', z, hs', hz, rfl⟩
    · rintro h r (⟨z, hz, -⟩ | ⟨s', z, hs', hz, rfl⟩)
      · cases hz
      · exact ⟨_, .inr ⟨s', z, hs', hz, rfl⟩⟩
    · obtain ⟨-, rfl⟩ := Ledger.only_eq_some hz
      exact rebuildPasser_set hpasser
    · obtain ⟨rfl, -⟩ := Ledger.only_eq_some hz
      exact ⟨w, hhash.symm ▸ hw⟩
  obtain ⟨L, hb⟩ := hadopted.replayFrom hG hR _ (fun h z hz => by
    obtain ⟨-, rfl⟩ := Ledger.only_eq_some hz
    exact Nat.lt_succ_self _) hloop
  have hpointers : ∀ safe finalized, Chain.Trims c { c with safe := safe, finalized := finalized } :=
    fun _ _ => .of_eq rfl rfl rfl rfl rfl rfl rfl rfl rfl rfl rfl
  exact ⟨L, hb.recorded.trims ((hpointers _ _).trans Chain.trims_prune),
    hb.publishes.same hG id fun s hs => ⟨s, hs, fun _ => ⟨rfl, rfl, rfl, rfl, rfl⟩⟩, hb.store_eq,
    hb.complete, hb.whole⟩

theorem backed_fresh (hG : G.HeadersDiffer) {pool : Option Pool} (h : new G M cfg m pool = .ok c)
    (h' : c.adopt G M Store.empty = .ok c') : ∃ L s, Backed G M L s c' := by
  obtain ⟨root, dirs, -, hroot, rfl⟩ := adopt_fresh h h'
  have hH := history_fresh (P := fun _ => True) (τ := τ) hroot trivial dirs
  obtain ⟨r, extra, -, -, hrooteq⟩ := genesis_eq_ok.1 hroot
  have hzero : root.block.number = 0 ∧ root.inputs = 0 ∧ root.block.txs = [] := by
    rw [hrooteq]
    exact ⟨rfl, rfl, rfl⟩
  obtain ⟨hnumber, hinputs, htxs⟩ := hzero
  have hself : Archived G (genesisStore G root dirs : Store σ τ) (root.block.hash G) root :=
    hH.archived _ root hH.rooted ⟨[], by rw [htxs]; rfl⟩
  refine ⟨_, _, recorded_singleton pool _ root _ _, publishes_genesis hG hroot fun s hs => ?_, rfl,
    fun h x hx => ?_, ⟨fun h hheader => ?_, fun h x hx _ => ?_, fun n h hn => ?_⟩⟩
  · cases hs
    exact hH.archives
  · obtain ⟨rfl, -⟩ := Ledger.only_eq_some hx
    exact ⟨root, hself⟩
  · rcases hH.archives h with ⟨hnone, -⟩ | ⟨x, -, hx⟩
    · exact absurd hnone hheader
    · exact ⟨x, hx⟩
  · obtain ⟨rfl, hroot', -⟩ := archives_genesis hH.archives hx
    exact (Option.some.inj (hx.inputs.symm.trans hroot'.inputs)).trans hinputs
  · obtain ⟨rfl, rfl⟩ := update_none_eq_some hn
    exact ⟨root.block, rfl, hnumber⟩

/-- What a process leaves is the store it kept, but for the pointers. -/
theorem Backed.leaves {s s' : Store σ τ} (hb : Backed G M L s c) (hs : c.Leaves s') :
    (∀ h, History.SameRecords s s' h) ∧ s'.canonical = s.canonical := by
  rcases hs with hstore | hclose
  · cases hb.store_eq.symm.trans hstore
    exact ⟨fun h => ⟨rfl, rfl, rfl, rfl, rfl⟩, rfl⟩
  · rw [Chain.close, hb.store_eq] at hclose
    cases hclose
    exact ⟨fun h => ⟨rfl, rfl, rfl, rfl, rfl⟩, rfl⟩

/-- In every state of a node all of whose blocks are stored, memory and store fit. -/
theorem Stored.backed (hG : G.HeadersDiffer) (hR : G.Reencodes) (hO : G.OutputsDiffer)
    (h : Stored G M c) : ∃ L s, Backed G M L s c := by
  induction h with
  | fresh h h' => exact backed_fresh hG h h'
  | call _ k hk ih =>
    obtain ⟨L, s, hb⟩ := ih
    obtain ⟨s', hb'⟩ := hb.exec hG k hk
    exact ⟨_, s', hb'⟩
  | @restart c d s' h hs rt cfg pool hd ih =>
    obtain ⟨L, s, hb⟩ := ih
    obtain ⟨hsame, hcanonical⟩ := hb.leaves hs
    obtain ⟨outs, hfits⟩ := hb.publishes.numbered
    have hwhole : s'.Whole G := hb.whole.same hsame (hcanonical ▸ hb.whole.labelled)
    have hfits' : Fits G outs (Keeps G (fun _ => none) (some s')) := by
      refine hfits.mono hG ?_ ?_
      · rintro h r (⟨x, hx, -⟩ | ⟨s'', x, hs'', hx, rfl⟩)
        · cases hx
        · cases hs''
          exact .inr ⟨s, x, hb.store_eq, (hsame h).symm.archived hx, rfl⟩
      · rintro h r (⟨x, hx, -⟩ | ⟨s'', x, hs'', hx, -⟩)
        · obtain ⟨x', hx'⟩ := hb.complete h x hx
          exact ⟨_, .inr ⟨s', x', rfl, (hsame h).archived hx', rfl⟩⟩
        · cases hb.store_eq.symm.trans hs''
          exact ⟨_, .inr ⟨s', x, rfl, (hsame h).archived hx, rfl⟩⟩
    obtain ⟨L', hb'⟩ := restore_backed hG hR hO hfits' hwhole hd
    exact ⟨L', s', hb'⟩

/-! ## The walk -/

/-- The block that the walk reads under a hash. -/
def Chain.Reads (G : Geth τ) (c : Chain σ τ) (h : Hash) (b : Block) : Prop :=
  c.blocks h = some b ∨ c.blocks h = none ∧ ∃ s, c.store = some s ∧ s.block G h = some b

theorem Chain.Reads.below {b parent : Block} (h : c.Reads G b.header.parentHash parent) :
    c.below G b = .ok parent := by
  unfold Chain.below
  rcases h with hmem | ⟨hnone, s, hs, hblock⟩
  · rw [hmem]
  · rw [hnone, hs]
    simp only [hblock, expect_some]

/-- What is kept of a block is read, from memory if it is there. -/
theorem Keeps.reads (hR : G.Reencodes) (hrec : Recorded G M L c) {outs : Hash → List Bytes}
    (hfits : Fits G outs (Keeps G L c.store)) {r : BlockRecord} (hr : Keeps G L c.store h r) :
    ∃ b r', Keeps G L c.store h r' ∧ c.Reads G h b ∧
      b.header.stored = r'.header ∧ c.outputsOf G b = .ok r'.outputs := by
  cases hx : L h with
  | some x =>
    have hb : c.blocks h = some x.block := by rw [hrec.blocks, hx, Option.map_some]
    refine ⟨x.block, x.record, .inl ⟨x, hx, rfl⟩, .inl hb, rfl, ?_⟩
    unfold Chain.outputsOf
    rw [hrec.keyed h x hx, hb, hrec.outputs h x hx]
    rfl
  | none =>
    have hnone : c.blocks h = none := by rw [hrec.blocks, hx, Option.map_none]
    rcases hr with ⟨x, hx', -⟩ | ⟨s, x, hs, harch, rfl⟩
    · rw [hx] at hx'
      cases hx'
    · have hkeeps : Keeps G L c.store h x.record := .inr ⟨s, x, hs, harch, rfl⟩
      refine ⟨x.stored.block, x.record, hkeeps, .inr ⟨hnone, s, hs, harch.block hR⟩, rfl, ?_⟩
      have hhash : x.stored.block.hash G = h := hfits.keyed _ _ hkeeps
      unfold Chain.outputsOf
      rw [hhash, hnone, hs]
      simp only [harch.records]
      rfl

theorem emitted_outputs (b : Block) (txs : List TxOutputs) :
    (b.emitted G txs).map OutputAt.output = recordedOutputs txs := by
  rw [Block.emitted, List.map_flatMap, recordedOutputs]
  simp [Function.comp_def]

/-- The walk from a block finds the outputs up to it. -/
theorem leavesThrough_outputs (hG : G.HeadersDiffer) (hR : G.Reencodes) (hrec : Recorded G M L c)
    {outs : Hash → List Bytes} (hfits : Fits G outs (Keeps G L c.store)) :
    ∀ (n : ℕ) (h : Hash) (r : BlockRecord), Keeps G L c.store h r → r.header.number = n →
      ∃ b found, c.Reads G h b ∧ b.number = n ∧ c.leavesThrough G b = .ok found ∧
        found.map OutputAt.output = outs h := by
  intro n
  induction n with
  | zero =>
    intro h r hr hn
    obtain ⟨b, r', hr', hreads, hheader, houtputs⟩ := hr.reads hR hrec hfits
    have hr'n : r'.header.number = 0 := (hfits.number_eq hG hr' hr).trans hn
    have hb : b.number = 0 := (congrArg Header.number hheader).trans hr'n
    obtain ⟨houts, hnil, -⟩ := hfits.first h r' hr' hr'n
    rw [hnil] at houtputs
    refine ⟨b, _, hreads, hb, Chain.leavesThrough_zero hb houtputs, ?_⟩
    rw [emitted_outputs, houts]
    rfl
  | succ n ih =>
    intro h r hr hn
    obtain ⟨b, r', hr', hreads, hheader, houtputs⟩ := hr.reads hR hrec hfits
    have hr'n : r'.header.number = n + 1 := (hfits.number_eq hG hr' hr).trans hn
    have hb : b.number = n + 1 := (congrArg Header.number hheader).trans hr'n
    have hparent : b.header.stored.parentHash = r'.header.parentHash :=
      congrArg Header.parentHash hheader
    obtain ⟨houts, p, hp, hpnumber⟩ := hfits.next h r' hr' (by omega)
    obtain ⟨below, found, hbelow, hbn, hfound, hlist⟩ := ih _ p hp (by omega)
    rw [← hparent] at hbelow
    refine ⟨b, _, hreads, hb, Chain.leavesThrough_succ (by omega) hbelow.below houtputs hfound, ?_⟩
    rw [List.map_append, emitted_outputs, hlist, houts]

/-! ## The numbers of outputs -/

theorem length_recordedOutputs (txs : List TxOutputs) :
    (recordedOutputs txs).length = countOutputs txs := by
  rw [recordedOutputs, List.length_flatMap, countOutputs]

theorem Fits.isPrefix_outs (hrec : Recorded G M L c) {outs : Hash → List Bytes}
    (hfits : Fits G outs (Keeps G L c.store)) {a h : Hash} (hanc : c.Ancestor a h) :
    outs a <+: outs h := by
  induction hanc with
  | refl => exact List.prefix_refl _
  | @up k b hk hpos _ ih =>
    obtain ⟨x, hx, rfl⟩ := hrec.of_block hk
    obtain ⟨houts, -⟩ := hfits.next k x.record (.inl ⟨x, hx, rfl⟩) hpos
    rw [houts]
    exact ih.trans (List.prefix_append _ _)

/-- The number that is published for an output is its place in the list of its block. -/
theorem firstOutputIndex_outs (hrec : Recorded G M L c) {outs : Hash → List Bytes}
    (hfits : Fits G outs (Keeps G L c.store)) {t : Hash} {e : TxEmissions}
    (he : c.txEmissions t = some e) {k : ℕ} {output : Bytes}
    (hk : e.outputs.outputs[k]? = some output) :
    (outs e.blockHash)[e.firstOutputIndex + k]? = some output := by
  obtain ⟨x, before, after, -, hx, -, -, houtputs, -, -, hfirst⟩ := txEmissions_eq_some hrec he
  have hkeeps : Keeps G L c.store e.blockHash x.record := .inl ⟨x, hx, rfl⟩
  have hpos : x.record.header.number ≠ 0 := by
    intro hzero
    obtain ⟨-, hnil, -⟩ := hfits.first _ _ hkeeps hzero
    rw [show x.record.outputs = x.outputs from rfl, houtputs] at hnil
    simp at hnil
  obtain ⟨houts, -⟩ := hfits.next _ _ hkeeps hpos
  rw [show x.record.outputs = x.outputs from rfl] at houts
  -- the count of the accumulator, which is far from wrapping
  have hcount : x.tree.count = (outs e.blockHash).length :=
    (hfits.tree _ _ hkeeps).count_eq.trans (List.length_map _)
  have hroom := hfits.room _ _ hkeeps
  have hindex : firstOutputIndex x.tree x.outputs = (outs x.record.header.parentHash).length := by
    rw [houts, List.length_append, length_recordedOutputs] at hcount hroom
    rw [OutputTreeHeight] at hroom
    rw [firstOutputIndex, hcount]
    omega
  have hsplit : recordedOutputs x.outputs =
      recordedOutputs before ++ (e.outputs.outputs ++ recordedOutputs after) := by
    rw [houtputs, recordedOutputs, List.flatMap_append, List.flatMap_cons]
    rfl
  have hlt : k < e.outputs.outputs.length := (List.getElem?_eq_some_iff.1 hk).1
  rw [hfirst, hindex, houts, hsplit, ← length_recordedOutputs, Nat.add_assoc,
    List.getElem?_append_right (Nat.le_add_right _ _), Nat.add_sub_cancel_left,
    List.getElem?_append_right (Nat.le_add_right _ _), Nat.add_sub_cancel_left,
    List.getElem?_append_left hlt, hk]

/-- In every state that is reached from a fresh chain, or from one of a node all of whose blocks are
    stored: an output `output` of a transaction with emissions, at place `k` of them, has a proof under
    the number that was published for it at every held block that is its block or a descendant of it.
    The proof is of this output, and folds to the root in the block's outputs root slot. The log of
    the output in the transaction's receipt has the same number, unless it is a guest event. -/
theorem outputs_stay_provable (hG : G.HeadersDiffer) (hR : G.Reencodes) {ok : Call σ → Prop}
    (h₀ : Fresh G M c₀ ∨ G.OutputsDiffer ∧ Stored G M c₀) (hreach : Reach G M ok c₀ c) {t : Hash}
    {e : TxEmissions} (he : c.txEmissions t = some e) {k : ℕ} {output : Bytes}
    (hk : e.outputs.outputs[k]? = some output) {blockHash : Hash}
    (hanc : c.Ancestor e.blockHash blockHash) :
    (∃ o siblings p,
      c.outputProofAt G (e.firstOutputIndex + k) blockHash =
        .ok (o, ⟨e.firstOutputIndex + k, siblings⟩) ∧ o.output = output ∧
      c.passers blockHash = some p ∧
      p.slots (G.keccak256 (outputsRootSlot G)) = some (rlpString (trimLeftZeroes
        (rootAfterReplacement G siblings (e.firstOutputIndex + k) (outputLeaf G output))))) ∧
    ∃ r, c.receiptByTxHash G T t = some r ∧ (parseEvmLogOutput G T output = none →
      ∃ log, r.logs[k]? = some log ∧ log.data = output ∧
        log.topics = [outputEventTopic G, hashOf (e.firstOutputIndex + k)]) := by
  have hstart : ∃ L, Recorded G M L c₀ ∧ Publishes G L c₀ := by
    rcases h₀ with hfresh | ⟨hO, hstored⟩
    · exact publishes_fresh hG hfresh
    · obtain ⟨L, s, hb⟩ := hstored.backed hG hR hO
      exact ⟨L, hb.recorded, hb.publishes⟩
  obtain ⟨L₀, hrec₀, hpub₀⟩ := hstart
  obtain ⟨L, hrec, hpub⟩ := hreach.ledger (Publishes G) hrec₀ hpub₀
    fun _ _ k _ hrec hpub => hpub.exec hG hrec k
  obtain ⟨outs, hfits⟩ := hpub.numbered
  constructor
  · obtain ⟨b, hb⟩ := hanc.held_right
    obtain ⟨x, hx, rfl⟩ := hrec.of_block hb
    have hkeeps : Keeps G L c.store blockHash x.record := .inl ⟨x, hx, rfl⟩
    obtain ⟨b', found, hreads, -, hfound, hlist⟩ :=
      leavesThrough_outputs hG hR hrec hfits _ _ _ hkeeps rfl
    obtain rfl : b' = x.block := by
      rcases hreads with hmem | ⟨hnone, -⟩
      · exact Option.some.inj (hmem.symm.trans hb)
      · rw [hb] at hnone
        cases hnone
    -- the output is at its number in the list of its block, and so in that of a descendant
    have hplace : (found.map OutputAt.output)[e.firstOutputIndex + k]? = some output := by
      rw [hlist]
      obtain ⟨more, hmore⟩ := hfits.isPrefix_outs hrec hanc
      have hown := firstOutputIndex_outs hrec hfits he hk
      rw [← hmore, List.getElem?_append_left (List.getElem?_eq_some_iff.1 hown).1, hown]
    rw [List.getElem?_map] at hplace
    obtain ⟨o, ho, houtput⟩ := Option.map_eq_some_iff.1 hplace
    have hof : x.tree.Of G (found.map fun o => outputLeaf G o.output) := by
      have htree := hfits.tree _ _ hkeeps
      rw [← hlist, List.map_map] at htree
      exact htree
    have hroom : found.length < 2 ^ OutputTreeHeight := by
      have := hfits.room _ _ hkeeps
      rwa [← hlist, List.length_map] at this
    obtain ⟨siblings, hproof, hroot⟩ := Chain.outputProofAt_eq_ok hb hfound (hrec.trees _ x hx) hof
      hroom ho
    obtain ⟨q, hq⟩ := hpub.passers _ x hx
    rw [houtput] at hroot
    refine ⟨o, siblings, x.passer, hproof, houtput, hrec.passers _ x hx, ?_⟩
    rw [hroot, hq]
    exact Function.update_self ..
  · obtain ⟨r, b, logIndex, hr, hlogs⟩ := receiptByTxHash_of_emissions (G := G) (T := T) hrec he
    refine ⟨r, hr, fun hparse => ?_⟩
    refine ⟨outputLog G T b e.outputs (e.firstOutputIndex + k) (logIndex + k) output, ?_, ?_, ?_⟩
    · rw [hlogs, outputLogs_getElem?, hk]
      rfl
    · rw [outputLog, hparse]
    · rw [outputLog, hparse]

namespace Sample

/-- A node on hashes without collisions that stores its blocks. -/
theorem stored_committing : committing.HeadersDiffer ∧ committing.Reencodes ∧
    committing.OutputsDiffer ∧ ∃ c, Stored committing machine c := by
  refine ⟨exact_headersDiffer, exact_reencodes, committing_outputsDiffer, ?_⟩
  obtain ⟨c, hc⟩ := adopt_exists (new_start committing none)
  exact ⟨c, .fresh (new_start committing none) hc⟩

/-- The first output of the transaction of `spent`, with the block it is in. -/
def firstOutput : Option (TxEmissions × Bytes × Block) :=
  (spent.txEmissions [5]).bind fun e =>
    e.outputs.outputs[0]?.bind fun output =>
      (spent.blocks e.blockHash).map fun b => (e, output, b)

end Sample

open Sample in
/-- The transaction of `spent` has one output, which is provable at its block. -/
theorem outputs_stay_provable_sample : ∃ e output o siblings, spent.txEmissions [5] = some e ∧
    e.outputs.outputs[0]? = some output ∧ o.output = output ∧
    spent.outputProofAt aligned e.firstOutputIndex e.blockHash =
      .ok (o, ⟨e.firstOutputIndex, siblings⟩) := by
  have hreach : Reach aligned machine (fun _ => True) (start aligned none) spent :=
    .call (.call .start (.importPayload runtime spending none) trivial)
      (.forkchoiceUpdated runtime ⟨spending.blockHash, zeroHash, zeroHash⟩ none) trivial
  have hsome : firstOutput.isSome = true := by decide +kernel
  obtain ⟨found, hfound⟩ := Option.isSome_iff_exists.1 hsome
  obtain ⟨e, he, hfound⟩ := Option.bind_eq_some_iff.1 hfound
  obtain ⟨output, hout, hfound⟩ := Option.bind_eq_some_iff.1 hfound
  obtain ⟨b, hb, -⟩ := Option.map_eq_some_iff.1 hfound
  obtain ⟨⟨o, siblings, p, hproof, ho, -⟩, -⟩ := outputs_stay_provable (T := receiptTypes)
    aligned_headersDiffer exact_reencodes (.inl (.inMemory (new_start aligned none))) hreach he hout
    (.refl hb)
  exact ⟨e, output, o, siblings, he, hout, ho, hproof⟩

end OpCartesi.Node
