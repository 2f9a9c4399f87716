import OpCartesi.Chain.OutputTree
import OpCartesi.Common.Slices

/-!
# Tree values that share memory

`OutputTree` is a Go struct whose `branch` is a slice, so copies of a tree share a backing array.
Here `Append` and `insert` run on slices and memory, and refine the value model.

* `TreeValue.insert`, `TreeValue.append`: `outputtree.go:68-99` on slices.
* `TreeValue.append_spec`: `Append` returns the value the value model appends, and no array that
  existed before changes.
* `Session`: any number of `Append` calls on any of the values obtained so far.
* `appends_exact`: at the end of a session every value has the reference root of its own leaves and
  their number, and has had them ever since it was made.
-/

namespace OpCartesi.Node

open Slices

/-- `OutputTree` as Go holds it. -/
structure TreeValue where
  count : ℕ
  branch : Slice

namespace TreeValue

variable {τ : Type} (G : Geth τ) (grow : ℕ → ℕ)

/-- The tree a value is in a memory. -/
def value (t : TreeValue) (m : Memory Hash) : OutputTree := ⟨t.count, m.read t.branch⟩

/-- `NewOutputTree`. -/
def empty : TreeValue := ⟨0, Slice.nil⟩

/-- The loop of `insert` (`outputtree.go:85-99`). -/
def insertLoop (m : Memory Hash) (t : TreeValue) : ℕ → ℕ → ℕ → Hash →
    Option (Memory Hash × TreeValue)
  | 0, _, _, _ => none
  | levels + 1, h, size, node =>
    if size % 2 = 0 then
      let ms := Memory.pad grow zeroHash zeroHash (h + 1 - t.branch.len) (m, t.branch)
      some (ms.1.store ms.2 h node, ⟨t.count + 1, ms.2⟩)
    else
      insertLoop m t levels (h + 1) (size / 2)
        (hashPair G ((m.read t.branch).getD h zeroHash) node)

/-- `insert` (`outputtree.go:82-99`). -/
def insert (m : Memory Hash) (t : TreeValue) (leaf : Hash) : Option (Memory Hash × TreeValue) :=
  t.insertLoop G grow m OutputTreeHeight 0 t.count leaf

/-- `Append` (`outputtree.go:68-77`). -/
def append (m : Memory Hash) (t : TreeValue) (leaves : List Hash) :
    Option (Memory Hash × TreeValue) :=
  if leaves = [] then some (m, t)
  else
    let ms := m.clone grow zeroHash t.branch
    leaves.foldlM (fun mt leaf => mt.2.insert G grow mt.1 leaf) (ms.1, ⟨t.count, ms.2⟩)

/-- `Root` (`outputtree.go:104-117`), which only reads. -/
def root (t : TreeValue) (m : Memory Hash) : Hash := (t.value m).root G

/-! ## Refinement of the value model -/

variable {G} {base m : Memory Hash} {t : TreeValue} {v : OutputTree}

theorem insertLoop_spec (hown : Owned base m t.branch) (levels : ℕ) : ∀ h size node,
    (t.value m).insertLoop G levels h size node = some v →
    ∃ m' t', t.insertLoop G grow m levels h size node = some (m', t') ∧
      Owned base m' t'.branch ∧ t'.value m' = v := by
  induction levels with
  | zero =>
    intro h size node hv
    cases hv
  | succ levels ih =>
    intro h size node hv
    unfold OutputTree.insertLoop at hv
    unfold insertLoop
    split_ifs at hv ⊢ with hbit
    · obtain ⟨hpad, hread⟩ := Owned.pad grow zeroHash zeroHash (h + 1 - t.branch.len) hown
      have hlen : h < (Memory.pad grow zeroHash zeroHash (h + 1 - t.branch.len)
          (m, t.branch)).2.len := by
        rw [← hpad.read_length, hread, List.length_append, hown.read_length]
        simp
        omega
      obtain ⟨hstore, hread'⟩ := hpad.store hlen node
      refine ⟨_, _, rfl, hstore, ?_⟩
      cases hv
      rw [value, hread', hread]
      simp only [value, hown.read_length]
    · exact ih _ _ _ hv

theorem insert_spec (hown : Owned base m t.branch) {leaf : Hash}
    (hv : (t.value m).insert G leaf = some v) :
    ∃ m' t', t.insert G grow m leaf = some (m', t') ∧ Owned base m' t'.branch ∧
      t'.value m' = v :=
  insertLoop_spec grow hown OutputTreeHeight 0 t.count leaf hv

theorem inserts_spec (leaves : List Hash) : ∀ {m : Memory Hash} {t : TreeValue},
    Owned base m t.branch → (t.value m).append G leaves = some v →
    ∃ m' t', leaves.foldlM (fun mt leaf => mt.2.insert G grow mt.1 leaf) (m, t) = some (m', t') ∧
      Owned base m' t'.branch ∧ t'.value m' = v := by
  induction leaves with
  | nil =>
    intro m t hown hv
    cases hv
    exact ⟨m, t, rfl, hown, rfl⟩
  | cons leaf leaves ih =>
    intro m t hown hv
    unfold OutputTree.append at hv
    rw [List.foldlM_cons] at hv
    obtain ⟨v₁, h₁, hv⟩ := Option.bind_eq_some_iff.1 hv
    obtain ⟨m₁, t₁, hins, hown₁, rfl⟩ := insert_spec grow hown h₁
    obtain ⟨m', t', hrest, hown', hval⟩ := ih hown₁ hv
    refine ⟨m', t', ?_, hown', hval⟩
    rw [List.foldlM_cons, hins]
    exact hrest

/-- `Append` computes what the value model computes, in memory that only grew. -/
theorem append_spec (hvalid : Valid m t.branch) {leaves : List Hash}
    (hv : (t.value m).append G leaves = some v) :
    ∃ m' t', t.append G grow m leaves = some (m', t') ∧ m.arrays <+: m'.arrays ∧
      Valid m' t'.branch ∧ t'.value m' = v := by
  unfold append
  split_ifs with hnil
  · subst hnil
    cases hv
    exact ⟨m, t, rfl, List.prefix_rfl, hvalid, rfl⟩
  · obtain ⟨hown, hread⟩ := clone_spec grow zeroHash m t.branch
    rw [value, ← hread] at hv
    obtain ⟨m', t', happ, hown', hval⟩ := inserts_spec grow
      (t := ⟨t.count, (m.clone grow zeroHash t.branch).2⟩) leaves hown hv
    exact ⟨m', t', happ, hown'.prefixed, hown'.toValid, hval⟩

end TreeValue

/-! ## Sessions -/

/-- An `Append` call on the `source`-th value obtained so far; an index past the last one names a
    `NewOutputTree()`. -/
structure AppendCall where
  source : ℕ
  leaves : List Hash

/-- The memory and the values obtained so far. -/
structure Session where
  memory : Memory Hash
  trees : List TreeValue

namespace Session

variable {τ : Type} (G : Geth τ) (grow : ℕ → ℕ)

def start : Session := ⟨⟨[]⟩, []⟩

def call (s : Session) (c : AppendCall) : Option Session :=
  ((s.trees.getD c.source TreeValue.empty).append G grow s.memory c.leaves).map fun mt =>
    ⟨mt.1, s.trees ++ [mt.2]⟩

def run (s : Session) (calls : List AppendCall) : Option Session := calls.foldlM (call G grow) s

/-- The leaves that went into each value, for values that so far hold `lists`. -/
def histories (lists : List (List Hash)) (calls : List AppendCall) : List (List Hash) :=
  calls.foldl (fun ls c => ls ++ [ls.getD c.source [] ++ c.leaves]) lists

/-- Every value is the tree of its own list. -/
def Tracks (s : Session) (lists : List (List Hash)) : Prop :=
  List.Forall₂ (fun t l => Valid s.memory t.branch ∧ (t.value s.memory).Of G l) s.trees lists

variable {G} {s : Session} {lists : List (List Hash)}

theorem tracks_start : start.Tracks G [] := List.Forall₂.nil

theorem prefix_histories (lists : List (List Hash)) (calls : List AppendCall) :
    lists <+: histories lists calls := by
  induction calls generalizing lists with
  | nil => exact List.prefix_rfl
  | cons c calls ih => exact (List.prefix_append _ _).trans (ih _)

/-- The value a call appends to, with its list. -/
theorem Tracks.getD (h : s.Tracks G lists) (i : ℕ) :
    Valid s.memory (s.trees.getD i TreeValue.empty).branch ∧
      ((s.trees.getD i TreeValue.empty).value s.memory).Of G (lists.getD i []) := by
  rcases Nat.lt_or_ge i s.trees.length with hi | hi
  · have hi' : i < lists.length := by rwa [← h.length_eq]
    rw [List.getD_eq_getElem _ _ hi, List.getD_eq_getElem _ _ hi']
    exact h.get hi hi'
  · rw [List.getD_eq_default _ _ hi, List.getD_eq_default _ _ (by rwa [← h.length_eq])]
    exact ⟨valid_nil _, OutputTree.of_newOutputTree⟩

theorem Tracks.valid (h : s.Tracks G lists) : ∀ t ∈ s.trees, Valid s.memory t.branch := by
  intro t ht
  obtain ⟨i, hi, rfl⟩ := List.getElem_of_mem ht
  have hget := (h.getD i).1
  rwa [List.getD_eq_getElem _ _ hi] at hget

/-- One call: the values there were read as before, and the new one holds the longer list. -/
theorem Tracks.call (h : s.Tracks G lists) (c : AppendCall)
    (hroom : (lists.getD c.source [] ++ c.leaves).length < 2 ^ OutputTreeHeight) :
    ∃ s', s.call G grow c = some s' ∧ s'.Tracks G (lists ++ [lists.getD c.source [] ++ c.leaves]) ∧
      s.trees <+: s'.trees ∧ ∀ t ∈ s.trees, t.value s'.memory = t.value s.memory := by
  obtain ⟨hvalid, hof⟩ := h.getD c.source
  obtain ⟨v, hv, hofv⟩ := hof.append c.leaves (by simpa using hroom)
  obtain ⟨m', t', happ, hp, hvalid', hval⟩ := TreeValue.append_spec grow hvalid hv
  have hkeep : ∀ t : TreeValue, Valid s.memory t.branch → t.value m' = t.value s.memory := by
    intro t ht
    rw [TreeValue.value, read_grown ht hp, TreeValue.value]
  refine ⟨⟨m', s.trees ++ [t']⟩, by rw [Session.call, happ]; rfl, ?_, List.prefix_append _ _, ?_⟩
  · apply List.rel_append
    · apply h.imp
      rintro t l ⟨ht, hl⟩
      exact ⟨ht.grown hp, by rwa [hkeep t ht]⟩
    · exact List.Forall₂.cons ⟨hvalid', hval ▸ hofv⟩ List.Forall₂.nil
  · intro t ht
    exact hkeep t (h.valid t ht)

/-- Any number of calls, by induction on them. -/
theorem Tracks.run (calls : List AppendCall) : ∀ {s : Session} {lists : List (List Hash)},
    s.Tracks G lists → (∀ l ∈ histories lists calls, l.length < 2 ^ OutputTreeHeight) →
    ∃ s', s.run G grow calls = some s' ∧ s'.Tracks G (histories lists calls) ∧
      s.trees <+: s'.trees ∧ ∀ t ∈ s.trees, t.value s'.memory = t.value s.memory := by
  induction calls with
  | nil =>
    intro s lists h _
    exact ⟨s, rfl, h, List.prefix_rfl, fun _ _ => rfl⟩
  | cons c calls ih =>
    intro s lists h hroom
    have hnew : lists.getD c.source [] ++ c.leaves ∈ histories lists (c :: calls) :=
      (prefix_histories _ calls).subset (List.mem_append_right _ (List.mem_singleton_self _))
    obtain ⟨s₁, hcall, h₁, hp₁, hv₁⟩ := h.call grow c (hroom _ hnew)
    obtain ⟨s', hrun, h', hp', hv'⟩ := ih h₁ hroom
    refine ⟨s', ?_, h', hp₁.trans hp', ?_⟩
    · unfold Session.run at hrun ⊢
      rw [List.foldlM_cons, hcall]
      exact hrun
    · intro t ht
      rw [hv' t (hp₁.subset ht), hv₁ t ht]

end Session

section

variable {τ : Type} (G : Geth τ) (grow : ℕ → ℕ)

open Session

/-- The accumulator is exact and its values are independent. In every session, the values there are
    after some `calls` have the reference root of their own leaves and their number, whatever the
    batches they were appended in; and after any `more` calls they are still there, unchanged. -/
theorem appends_exact (calls more : List AppendCall)
    (hroom : ∀ l ∈ histories [] (calls ++ more), l.length < 2 ^ OutputTreeHeight) :
    ∃ s s', start.run G grow calls = some s ∧ s.run G grow more = some s' ∧
      List.Forall₂ (fun t l => t.root G s.memory = naiveRoot G l ∧ t.count = l.length)
        s.trees (histories [] calls) ∧
      s.trees <+: s'.trees ∧ ∀ t ∈ s.trees, t.root G s'.memory = t.root G s.memory := by
  have hsplit : histories [] (calls ++ more) = histories (histories [] calls) more :=
    List.foldl_append
  rw [hsplit] at hroom
  have hroom₁ : ∀ l ∈ histories [] calls, l.length < 2 ^ OutputTreeHeight := by
    intro l hl
    exact hroom l ((prefix_histories _ more).subset hl)
  obtain ⟨s, hrun, htracks, -, -⟩ := Tracks.run grow calls (tracks_start (G := G)) hroom₁
  obtain ⟨s', hrun', -, hp, hsame⟩ := Tracks.run grow more htracks hroom
  refine ⟨s, s', hrun, hrun', ?_, hp, ?_⟩
  · refine List.forall₂_iff_get.2 ⟨htracks.length_eq, fun i hi hl => ?_⟩
    obtain ⟨-, hof⟩ := htracks.get hi hl
    exact ⟨hof.root_eq (hroom₁ _ (List.get_mem _ _)), hof.count_eq⟩
  · intro t ht
    rw [TreeValue.root, hsame t ht, TreeValue.root]

/-- Two values derived from one of two leaves. -/
theorem appends_exact_sample : ∃ s s',
    start.run Sample.geth id [⟨0, [[1], [2]]⟩, ⟨0, [[3]]⟩] = some s ∧
      s.run Sample.geth id [⟨0, [[4]]⟩] = some s' ∧
      List.Forall₂ (fun t l => t.root Sample.geth s.memory = naiveRoot Sample.geth l ∧
        t.count = l.length) s.trees (histories [] [⟨0, [[1], [2]]⟩, ⟨0, [[3]]⟩]) ∧
      s.trees <+: s'.trees ∧
      ∀ t ∈ s.trees, t.root Sample.geth s'.memory = t.root Sample.geth s.memory :=
  appends_exact Sample.geth id [⟨0, [[1], [2]]⟩, ⟨0, [[3]]⟩] [⟨0, [[4]]⟩]
    (by simp [histories, OutputTreeHeight])

end

end OpCartesi.Node
