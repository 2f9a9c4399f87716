import Mathlib

/-!
# Trees of nodes that name their parents

Nodes `B` are held under keys `K`; a node names its parent's key and knows its height.

* `Ancestor`: the node itself, or an ancestor of its parent.
* `Rooted`: every node above height zero has its parent, one below. Then a node has one ancestor at
  each height (`Rooted.exists_ancestor`, `Ancestor.unique`), and the ancestors of a node are in line
  (`Ancestor.of_height_le`).
* `Traces`: a numbering that has the ancestors of a node under their heights.
* `Spans`: one that has nothing else.
-/

namespace OpCartesi.Ancestry

variable {K B : Type} {held held' : K → Option B} {up : B → K} {height : B → ℕ}

/-- `a` is `k` or an ancestor of it. -/
inductive Ancestor (held : K → Option B) (up : B → K) (height : B → ℕ) : K → K → Prop
  | refl {k : K} {b : B} (h : held k = some b) : Ancestor held up height k k
  | up {a k : K} {b : B} (h : held k = some b) (hpos : height b ≠ 0)
    (ha : Ancestor held up height a (up b)) : Ancestor held up height a k

/-- Every node above height zero has its parent, one below. -/
def Rooted (held : K → Option B) (up : B → K) (height : B → ℕ) : Prop :=
  ∀ k b, held k = some b → height b ≠ 0 → ∃ p, held (up b) = some p ∧ height p + 1 = height b

namespace Ancestor

variable {a a' k k' : K} {b x y : B}

theorem held_left (h : Ancestor held up height a k) : ∃ x, held a = some x := by
  induction h with
  | refl h => exact ⟨_, h⟩
  | up h hpos ha ih => exact ih

theorem held_right (h : Ancestor held up height a k) : ∃ x, held k = some x := by
  cases h with
  | refl h => exact ⟨_, h⟩
  | up h hpos ha => exact ⟨_, h⟩

theorem trans (h : Ancestor held up height a k) (h' : Ancestor held up height k k') :
    Ancestor held up height a k' := by
  induction h' with
  | refl => exact h
  | up hk hpos _ ih => exact .up hk hpos ih

/-- More nodes, the same ancestors. -/
theorem mono (hle : ∀ k b, held k = some b → held' k = some b) (h : Ancestor held up height a k) :
    Ancestor held' up height a k := by
  induction h with
  | refl h => exact .refl (hle _ _ h)
  | up h hpos _ ih => exact .up (hle _ _ h) hpos ih

/-- In a larger tree a node has the ancestors it had. -/
theorem of_mono (hroot : Rooted held up height) (hle : ∀ k b, held k = some b → held' k = some b)
    (h : Ancestor held' up height a k) (hk : held k = some b) : Ancestor held up height a k := by
  induction h generalizing b with
  | refl => exact .refl hk
  | up hk' hpos _ ih =>
    obtain rfl := Option.some.inj ((hle _ _ hk).symm.trans hk')
    obtain ⟨p, hp, -⟩ := hroot _ _ hk hpos
    exact .up hk hpos (ih hp)

theorem height_le (hroot : Rooted held up height) (h : Ancestor held up height a k)
    (ha : held a = some x) (hk : held k = some y) : height x ≤ height y := by
  induction h generalizing y with
  | refl =>
    obtain rfl := Option.some.inj (ha.symm.trans hk)
    exact le_refl _
  | up hk' hpos _ ih =>
    obtain rfl := Option.some.inj (hk'.symm.trans hk)
    obtain ⟨p, hp, hheight⟩ := hroot _ _ hk' hpos
    have := ih hp
    omega

/-- An ancestor that is not lower is the node itself. -/
theorem eq_of_height_le (hroot : Rooted held up height) (h : Ancestor held up height a k)
    (ha : held a = some x) (hk : held k = some y) (hle : height y ≤ height x) : a = k := by
  cases h with
  | refl => rfl
  | up hk' hpos hup =>
    obtain rfl := Option.some.inj (hk'.symm.trans hk)
    obtain ⟨p, hp, hheight⟩ := hroot _ _ hk' hpos
    have := hup.height_le hroot ha hp
    omega

/-- A lower ancestor is one of the parent. -/
theorem of_height_lt (h : Ancestor held up height a k) (ha : held a = some x)
    (hk : held k = some y) (hlt : height x < height y) : Ancestor held up height a (up y) := by
  cases h with
  | refl =>
    obtain rfl := Option.some.inj (ha.symm.trans hk)
    omega
  | up hk' hpos hup =>
    obtain rfl := Option.some.inj (hk'.symm.trans hk)
    exact hup

/-- The ancestors of a node are in line. -/
theorem of_height_le (hroot : Rooted held up height) (h : Ancestor held up height a k)
    (h' : Ancestor held up height a' k) (ha : held a = some x) (ha' : held a' = some y)
    (hle : height x ≤ height y) : Ancestor held up height a a' := by
  induction h' with
  | refl => exact h
  | @up k b hk hpos hup ih =>
    refine ih ?_
    obtain ⟨p, hp, hheight⟩ := hroot _ _ hk hpos
    have := hup.height_le hroot ha' hp
    exact h.of_height_lt ha hk (by omega)

/-- A node has at most one ancestor at each height. -/
theorem unique (hroot : Rooted held up height) (h : Ancestor held up height a k)
    (h' : Ancestor held up height a' k) (ha : held a = some x) (ha' : held a' = some y)
    (heq : height x = height y) : a = a' :=
  (h.of_height_le hroot h' ha ha' heq.le).eq_of_height_le hroot ha ha' heq.ge

end Ancestor

/-- A node has an ancestor at each height up to its own. -/
theorem Rooted.exists_ancestor (hroot : Rooted held up height) (n d : ℕ) :
    ∀ {k : K} {y : B}, held k = some y → height y = n + d →
      ∃ a x, held a = some x ∧ height x = n ∧ Ancestor held up height a k := by
  induction d with
  | zero =>
    intro k y hk hy
    exact ⟨k, y, hk, hy, .refl hk⟩
  | succ d ih =>
    intro k y hk hy
    have hpos : height y ≠ 0 := by omega
    obtain ⟨p, hp, hheight⟩ := hroot k y hk hpos
    obtain ⟨a, x, ha, hx, hanc⟩ := ih hp (by omega)
    exact ⟨a, x, ha, hx, .up hk hpos hanc⟩

/-- The numbering has the ancestors of `k` under their heights, and nothing else up to `k`'s. -/
def Traces (held : K → Option B) (up : B → K) (height : B → ℕ) (label : ℕ → Option K) (k : K) :
    Prop :=
  ∀ y, held k = some y → ∀ n ≤ height y, ∀ a, label n = some a ↔
    ∃ x, held a = some x ∧ height x = n ∧ Ancestor held up height a k

/-- A numbering that has the node and traces its parent traces the node. -/
theorem Traces.of_parent {label : ℕ → Option K} {k : K} {y : B} (hroot : Rooted held up height)
    (hk : held k = some y) (hlabel : label (height y) = some k)
    (hparent : height y ≠ 0 → Traces held up height label (up y)) :
    Traces held up height label k := by
  intro y' hy' n hn a
  obtain rfl := Option.some.inj (hk.symm.trans hy')
  rcases Nat.lt_or_eq_of_le hn with hlt | rfl
  · have hpos : height y ≠ 0 := by omega
    obtain ⟨p, hp, hheight⟩ := hroot _ _ hk hpos
    rw [hparent hpos p hp n (by omega) a]
    constructor
    · rintro ⟨x, hx, hxn, ha⟩
      exact ⟨x, hx, hxn, .up hk hpos ha⟩
    · rintro ⟨x, hx, hxn, ha⟩
      exact ⟨x, hx, hxn, ha.of_height_lt hx hk (by omega)⟩
  · rw [hlabel]
    constructor
    · intro h
      cases h
      exact ⟨y, hk, rfl, .refl hk⟩
    · rintro ⟨x, hx, hxn, ha⟩
      rw [ha.eq_of_height_le hroot hx hk hxn.ge]

/-- Numberings that agree up to a node trace it alike. -/
theorem Traces.congr {label label' : ℕ → Option K} {k : K} {y : B} (hk : held k = some y)
    (heq : ∀ n ≤ height y, label' n = label n) (h : Traces held up height label k) :
    Traces held up height label' k := by
  intro y' hy' n hn a
  obtain rfl := Option.some.inj (hk.symm.trans hy')
  rw [heq n hn]
  exact h y hk n hn a

/-- The numbering has the ancestors of the held node `k` under their heights, and nothing else. -/
structure Spans (held : K → Option B) (up : B → K) (height : B → ℕ) (label : ℕ → Option K) (k : K) :
    Prop where
  tip : ∃ y, held k = some y
  label_iff : ∀ n a, label n = some a ↔
    ∃ x, held a = some x ∧ height x = n ∧ Ancestor held up height a k

namespace Spans

variable {label : ℕ → Option K} {k : K} {y : B}

/-- Nothing above a node that is traced. -/
theorem of_traces (hroot : Rooted held up height) (hk : held k = some y)
    (ht : Traces held up height label k) (habove : ∀ n, height y < n → label n = none) :
    Spans held up height label k := by
  refine ⟨⟨y, hk⟩, fun n a => ?_⟩
  by_cases hn : n ≤ height y
  · exact ht y hk n hn a
  · rw [habove n (not_le.1 hn)]
    constructor
    · intro h
      cases h
    · rintro ⟨x, hx, hxn, ha⟩
      have := ha.height_le hroot hx hk
      omega

/-- Every node of the branch is traced. -/
theorem traces (hroot : Rooted held up height) (h : Spans held up height label k) {n : ℕ} {a : K}
    (ha : label n = some a) : Traces held up height label a := by
  obtain ⟨x, hx, rfl, hanc⟩ := (h.label_iff n a).1 ha
  intro x' hx' m hm b
  obtain rfl := Option.some.inj (hx.symm.trans hx')
  rw [h.label_iff]
  constructor
  · rintro ⟨z, hz, hzm, hb⟩
    exact ⟨z, hz, hzm, hb.of_height_le hroot hanc hz hx (by omega)⟩
  · rintro ⟨z, hz, hzm, hb⟩
    exact ⟨z, hz, hzm, hb.trans hanc⟩

/-- The numbers in use are those up to the node's height. -/
theorem isSome_iff (hroot : Rooted held up height) (h : Spans held up height label k)
    (hk : held k = some y) (n : ℕ) : (label n).isSome ↔ n ≤ height y := by
  rw [Option.isSome_iff_exists]
  constructor
  · rintro ⟨a, ha⟩
    obtain ⟨x, hx, rfl, hanc⟩ := (h.label_iff n a).1 ha
    exact hanc.height_le hroot hx hk
  · intro hn
    obtain ⟨a, x, hx, hxn, hanc⟩ := hroot.exists_ancestor n (height y - n) hk (by omega)
    exact ⟨a, (h.label_iff n a).2 ⟨x, hx, hxn, hanc⟩⟩

/-- More nodes change no branch. -/
theorem mono (hroot : Rooted held up height) (hle : ∀ k b, held k = some b → held' k = some b)
    (h : Spans held up height label k) : Spans held' up height label k := by
  obtain ⟨y, hk⟩ := h.tip
  refine ⟨⟨y, hle k y hk⟩, fun n a => (h.label_iff n a).trans ⟨?_, ?_⟩⟩
  · rintro ⟨x, hx, hxn, ha⟩
    exact ⟨x, hle a x hx, hxn, ha.mono hle⟩
  · rintro ⟨x, hx, hxn, ha⟩
    have ha' := ha.of_mono hroot hle hk
    obtain ⟨x', hx'⟩ := ha'.held_left
    obtain rfl := Option.some.inj ((hle a x' hx').symm.trans hx)
    exact ⟨x', hx', hxn, ha'⟩

end Spans

end OpCartesi.Ancestry
