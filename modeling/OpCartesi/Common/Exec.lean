import Mathlib

/-!
# Stateful computations with exceptions

Code that mutates a record and may throw is a computation in `EStateM ε σ`: an
exception keeps the state reached when it was thrown, as a throw in Go or
JavaScript does. This module has the rules the proofs about such code use:

* `bind_ok`, `bind_error`: running a sequence whose first step is known.
* `bind_eq_ok`: a sequence that returned had a first step that returned.
* `zoom`: running a computation on a part of a larger state.
* `require`, `expect`: checks of a function that returns early, in `Except`.
* `runAll`: a sequence of calls, with the rule for two ways of running it.
* `Returns`: what holds whenever a computation returns, with a rule for each way of
  putting computations together.
* `Exits`: the same with a second postcondition, for the exceptions.
-/

namespace OpCartesi.Exec

variable {ε ε' σ τ α β : Type} {e : ε} {a : α} {h : ε → EStateM ε σ α} {put : σ → τ → τ}
  {wrap : ε → ε'} {part : τ → σ} {b : β} {t : τ}

/-- The state a run ends in, thrown or not. -/
def endState : EStateM.Result ε σ α → σ
  | .ok _ s => s
  | .error _ s => s

@[simp] theorem endState_ok (a : α) (s : σ) : endState (.ok a s : EStateM.Result ε σ α) = s := rfl

@[simp] theorem endState_error (e : ε) (s : σ) :
    endState (.error e s : EStateM.Result ε σ α) = s := rfl

/-- The value or the exception a run ends with. -/
def answer : EStateM.Result ε σ α → Except ε α
  | .ok a _ => .ok a
  | .error e _ => .error e

/-- A run is its answer and its last state. -/
theorem eq_of_answer_ok {r : EStateM.Result ε σ α} (h : answer r = .ok a) :
    r = .ok a (endState r) := by
  cases r <;> cases h
  rfl

theorem eq_of_answer_error {r : EStateM.Result ε σ α} (h : answer r = .error e) :
    r = .error e (endState r) := by
  cases r <;> cases h
  rfl

/-! ## Sequencing -/

theorem bind_ok {x : EStateM ε σ α} {f : α → EStateM ε σ β} {s s' : σ} (h : x.run s = .ok a s') :
    (x >>= f).run s = (f a).run s' := by
  rw [EStateM.run_bind, h]

theorem bind_error {x : EStateM ε σ α} {f : α → EStateM ε σ β} {s s' : σ}
    (h : x.run s = .error e s') : (x >>= f).run s = .error e s' := by
  rw [EStateM.run_bind, h]

theorem bind_eq_ok {x : EStateM ε σ α} {f : α → EStateM ε σ β} {s s' : σ} :
    (x >>= f).run s = .ok b s' ↔ ∃ a s₁, x.run s = .ok a s₁ ∧ (f a).run s₁ = .ok b s' := by
  cases h : x.run s with
  | ok a s₁ =>
    rw [bind_ok h]
    constructor
    · intro hf
      exact ⟨a, s₁, rfl, hf⟩
    · rintro ⟨_, _, ⟨⟩, hf⟩
      exact hf
  | error e s₁ => simp only [bind_error h, reduceCtorEq, false_and, exists_false]

/-- Two sequences run alike from a state in which their first steps do, when their second
    steps run alike from every state the first one returns in. -/
theorem bind_run_congr {x y : EStateM ε σ α} {f g : α → EStateM ε σ β} {s : σ}
    (h : x.run s = y.run s) (hfg : ∀ a s', y.run s = .ok a s' → (f a).run s' = (g a).run s') :
    (x >>= f).run s = (y >>= g).run s := by
  cases hy : y.run s with
  | ok a s' => rw [bind_ok (h.trans hy), bind_ok hy, hfg a s' hy]
  | error e s' => rw [bind_error (h.trans hy), bind_error hy]

/-- What is done with the answer of a computation does not change where it ends. -/
theorem endState_bind_pure (x : EStateM ε σ α) (f : α → β) (s : σ) :
    endState ((do return f (← x) : EStateM ε σ β).run s) = endState (x.run s) := by
  cases h : x.run s with
  | ok a s' => rw [bind_ok h]; rfl
  | error e s' => rw [bind_error h]; rfl
theorem throw_run (e : ε) (s : σ) : (throw e : EStateM ε σ α).run s = .error e s := rfl

theorem get_run (s : σ) : (get : EStateM ε σ σ).run s = .ok s s := rfl

theorem set_run (s t : σ) : (set t : EStateM ε σ PUnit).run s = .ok ⟨⟩ t := rfl

theorem modify_run (f : σ → σ) (s : σ) :
    (modify f : EStateM ε σ PUnit).run s = .ok ⟨⟩ (f s) := rfl

theorem tryCatch_ok {x : EStateM ε σ α} {s s' : σ} (hx : x.run s = .ok a s') :
    (tryCatch x h).run s = .ok a s' := by
  have hx' : x s = .ok a s' := hx
  simp only [tryCatch, tryCatchThe, MonadExceptOf.tryCatch, EStateM.tryCatch, EStateM.run, hx']

theorem tryCatch_error {x : EStateM ε σ α} {s s' : σ} (hx : x.run s = .error e s') :
    (tryCatch x h).run s = (h e).run s' := by
  have hx' : x s = .error e s' := hx
  simp only [tryCatch, tryCatchThe, MonadExceptOf.tryCatch, EStateM.tryCatch, EStateM.run, hx']
  rfl

/-! ## Pure failures and parts of a state -/

/-- A check that does not touch the state. -/
def check (x : Except ε α) : EStateM ε σ α := fun s =>
  match x with
  | .ok a => .ok a s
  | .error e => .error e s

theorem check_ok (a : α) (s : σ) : (check (.ok a : Except ε α)).run s = .ok a s := rfl

theorem check_error (e : ε) (s : σ) : (check (.error e : Except ε α)).run s = .error e s := rfl

/-- Run `x` on the part `part s` of a state, its exceptions renamed by `wrap`. -/
def zoom (part : τ → σ) (put : σ → τ → τ) (wrap : ε → ε') (x : EStateM ε σ α) :
    EStateM ε' τ α := fun t =>
  match x.run (part t) with
  | .ok a s => .ok a (put s t)
  | .error e s => .error (wrap e) (put s t)

theorem zoom_ok {x : EStateM ε σ α} {s : σ} (h : x.run (part t) = .ok a s) :
    (zoom part put wrap x).run t = .ok a (put s t) := by
  simp only [zoom, EStateM.run] at h ⊢
  rw [h]

theorem zoom_error {x : EStateM ε σ α} {s : σ} (h : x.run (part t) = .error e s) :
    (zoom part put wrap x).run t = .error (wrap e) (put s t) := by
  simp only [zoom, EStateM.run] at h ⊢
  rw [h]

/-! ## Early returns -/

/-- A check that stops with `e` when it fails. -/
def require (p : Prop) [Decidable p] (e : ε) : Except ε Unit := if p then .ok () else .error e

/-- A value that must be there. -/
def expect (o : Option α) (e : ε) : Except ε α :=
  match o with
  | some a => .ok a
  | none => .error e

@[simp] theorem expect_some (a : α) (e : ε) : expect (some a) e = .ok a := rfl

@[simp] theorem expect_none (e : ε) : expect (none : Option α) e = .error e := rfl

@[simp] theorem require_eq_ok {p : Prop} [Decidable p] {u : Unit} : require p e = .ok u ↔ p := by
  unfold require
  split_ifs with h <;> simp [h]

@[simp] theorem expect_eq_ok {o : Option α} : expect o e = .ok a ↔ o = some a := by
  cases o <;> simp [expect]

theorem except_bind_eq_ok {x : Except ε α} {f : α → Except ε β} :
    (x >>= f) = .ok b ↔ ∃ a, x = .ok a ∧ f a = .ok b := by
  cases x with
  | ok a => exact ⟨fun h => ⟨a, rfl, h⟩, fun ⟨_, ha, hf⟩ => by cases ha; exact hf⟩
  | error e =>
    constructor
    · intro h
      cases h
    · rintro ⟨_, ha, -⟩
      cases ha

theorem except_map_eq_ok {x : Except ε α} {f : α → β} :
    x.map f = .ok b ↔ ∃ a, x = .ok a ∧ f a = b := by
  cases x <;> simp [Except.map]

theorem mapError_eq_ok {x : Except ε α} {f : ε → ε'} : x.mapError f = .ok a ↔ x = .ok a := by
  cases x <;> simp [Except.mapError]

theorem except_bind_eq_error {x : Except ε α} {f : α → Except ε β} :
    x >>= f = .error e ↔ x = .error e ∨ ∃ a, x = .ok a ∧ f a = .error e := by
  cases x <;> simp [bind, Except.bind]

theorem expect_eq_error {o : Option α} {e e' : ε} :
    expect o e = .error e' ↔ o = none ∧ e = e' := by
  cases o <;> simp [expect]

theorem require_eq_error {p : Prop} [Decidable p] {e e' : ε} :
    require p e = .error e' ↔ ¬p ∧ e = e' := by
  unfold require
  split_ifs with h <;> simp [h]

theorem mapError_eq_error {x : Except ε α} {f : ε → ε'} {e : ε'} :
    x.mapError f = .error e ↔ ∃ e₁, x = .error e₁ ∧ f e₁ = e := by
  cases x <;> simp [Except.mapError]

theorem except_bind_congr {x : Except ε α} {f g : α → Except ε β}
    (h : ∀ a, x = .ok a → f a = g a) : (x >>= f) = (x >>= g) := by
  cases x with
  | ok a => exact h a rfl
  | error e => rfl

/-! ## Sequences of calls -/

section Calls

variable {ι : Type} {f g : ι → EStateM ε σ α} {inv : σ → Prop}

/-- A sequence of calls: the answers, and the state it ends in. A call that throws keeps the
    state it reached, and the sequence goes on. -/
def runAll (f : ι → EStateM ε σ α) : σ → List ι → List (Except ε α) × σ
  | s, [] => ([], s)
  | s, i :: is =>
    let r := (f i).run s
    (answer r :: (runAll f (endState r) is).1, (runAll f (endState r) is).2)

/-- A sequence of calls keeps what every call keeps. -/
theorem runAll_keeps (hkeep : ∀ s i, inv s → inv (endState ((f i).run s))) {s : σ} (hs : inv s)
    (is : List ι) : inv (runAll f s is).2 := by
  induction is generalizing s with
  | nil => exact hs
  | cons i is ih => exact ih (hkeep s i hs)

/-- Two ways of running calls that agree as long as an invariant of one of them holds. -/
theorem runAll_congr (hkeep : ∀ s i, inv s → inv (endState ((f i).run s)))
    (hrun : ∀ s i, inv s → (f i).run s = (g i).run s) {s : σ} (hs : inv s) (is : List ι) :
    runAll f s is = runAll g s is := by
  induction is generalizing s with
  | nil => rfl
  | cons i is ih =>
    have hrest := ih (hkeep s i hs)
    rw [runAll, runAll, ← hrun s i hs, hrest]

end Calls

/-! ## Postconditions -/

/-- Every normal return of `x` from `s` satisfies `post`. -/
def Returns (x : EStateM ε σ α) (s : σ) (post : α → σ → Prop) : Prop :=
  ∀ a s', x.run s = .ok a s' → post a s'

theorem Returns.pure {s : σ} {post : α → σ → Prop} (h : post a s) :
    Returns (pure a : EStateM ε σ α) s post := by
  intro b s' hrun
  cases hrun
  exact h

theorem Returns.throw {s : σ} {post : α → σ → Prop} : Returns (throw e : EStateM ε σ α) s post := by
  intro b s' hrun
  cases hrun

theorem Returns.modify {f : σ → σ} {s : σ} {post : PUnit → σ → Prop} (h : post ⟨⟩ (f s)) :
    Returns (modify f : EStateM ε σ PUnit) s post := by
  intro b s' hrun
  cases hrun
  exact h
theorem Returns.bind {x : EStateM ε σ α} {f : α → EStateM ε σ β} {s : σ} {mid : α → σ → Prop}
    {post : β → σ → Prop} (hx : Returns x s mid)
    (hf : ∀ a s', mid a s' → Returns (f a) s' post) : Returns (x >>= f) s post := by
  intro b s' hrun
  obtain ⟨a, s₁, h₁, h₂⟩ := bind_eq_ok.1 hrun
  exact hf a s₁ (hx a s₁ h₁) b s' h₂

theorem Returns.trivial (x : EStateM ε σ α) (s : σ) : Returns x s fun _ _ => True :=
  fun _ _ _ => True.intro

theorem Returns.mono {x : EStateM ε σ α} {s : σ} {post post' : α → σ → Prop} (hx : Returns x s post)
    (h : ∀ a s', post a s' → post' a s') : Returns x s post' :=
  fun a s' hrun => h a s' (hx a s' hrun)

/-- The handler of an exception starts in the state the exception was thrown in. -/
theorem Returns.catching {x : EStateM ε σ α} {s : σ} {post : α → σ → Prop} (hx : Returns x s post)
    (hh : ∀ e s', x.run s = .error e s' → Returns (h e) s' post) :
    Returns (tryCatch x h) s post := by
  intro a s' hrun
  cases hr : x.run s with
  | ok b s₁ =>
    rw [tryCatch_ok hr] at hrun
    cases hrun
    exact hx a s' hr
  | error e s₁ =>
    rw [tryCatch_error hr] at hrun
    exact hh e s₁ hr a s' hrun

/-- Run from `s`, `x` returns in a state that satisfies `post` or throws in one that satisfies
    `fail`. -/
def Exits (x : EStateM ε σ α) (s : σ) (post : α → σ → Prop) (fail : ε → σ → Prop) : Prop :=
  match x.run s with
  | .ok a s' => post a s'
  | .error e s' => fail e s'

section Exits

variable {x : EStateM ε σ α} {s s' : σ} {post : α → σ → Prop} {fail : ε → σ → Prop}

theorem Exits.of_ok (hrun : x.run s = .ok a s') (h : post a s') : Exits x s post fail := by
  rw [Exits, hrun]
  exact h

theorem Exits.of_error (hrun : x.run s = .error e s') (h : fail e s') : Exits x s post fail := by
  rw [Exits, hrun]
  exact h

theorem Exits.pure (h : post a s) : Exits (pure a : EStateM ε σ α) s post fail := h

theorem Exits.throw (h : fail e s) : Exits (throw e : EStateM ε σ α) s post fail := h

theorem Exits.modify_bind {g : σ → σ} {f : PUnit → EStateM ε σ β} {post : β → σ → Prop}
    (h : Exits (f ⟨⟩) (g s) post fail) : Exits (modify g >>= f) s post fail := h

theorem Exits.modify {f : σ → σ} {post : PUnit → σ → Prop} (h : post ⟨⟩ (f s)) :
    Exits (modify f : EStateM ε σ PUnit) s post fail := h

theorem Exits.bind {f : α → EStateM ε σ β} {mid : α → σ → Prop} {post : β → σ → Prop}
    (hx : Exits x s mid fail) (hf : ∀ a s', mid a s' → Exits (f a) s' post fail) :
    Exits (x >>= f) s post fail := by
  cases hr : x.run s with
  | ok a s' =>
    rw [Exits, hr] at hx
    have hrest := hf a s' hx
    rwa [Exits, ← bind_ok hr] at hrest
  | error e s' =>
    rw [Exits, hr] at hx
    exact Exits.of_error (bind_error hr) hx

theorem Exits.get_bind {f : σ → EStateM ε σ β} {post : β → σ → Prop}
    (h : Exits (f s) s post fail) : Exits (get >>= f) s post fail := h

theorem Exits.check_bind {y : Except ε α} {f : α → EStateM ε σ β} {post : β → σ → Prop}
    (hok : ∀ a, y = .ok a → Exits (f a) s post fail) (herror : ∀ e, y = .error e → fail e s) :
    Exits (check y >>= f) s post fail := by
  cases y with
  | ok a => exact hok a rfl
  | error e => exact herror e rfl

theorem Exits.mono {post' : α → σ → Prop} {fail' : ε → σ → Prop} (hx : Exits x s post fail)
    (hpost : ∀ a s', post a s' → post' a s') (hfail : ∀ e s', fail e s' → fail' e s') :
    Exits x s post' fail' := by
  unfold Exits at hx ⊢
  split at hx
  · rename_i a s' hr
    exact hpost a s' hx
  · rename_i e s' hr
    exact hfail e s' hx

/-- Exceptions that are thrown again under another name. -/
theorem Exits.rethrow {wrap : ε → ε} {fail' : ε → σ → Prop} (hx : Exits x s post fail)
    (hfail : ∀ e s', fail e s' → fail' (wrap e) s') :
    Exits (tryCatch x fun e => MonadExcept.throw (wrap e)) s post fail' := by
  cases hr : x.run s with
  | ok a s' =>
    rw [Exits, hr] at hx
    exact Exits.of_ok (tryCatch_ok hr) hx
  | error e s' =>
    rw [Exits, hr] at hx
    exact Exits.of_error (tryCatch_error hr) (hfail e s' hx)

end Exits

/-- Running on a part of the state. -/
theorem Exits.zoom {x : EStateM ε σ α} {post : α → σ → Prop} {fail : ε → σ → Prop}
    {post' : α → τ → Prop} {fail' : ε' → τ → Prop} (hx : Exits x (part t) post fail)
    (hpost : ∀ a s, post a s → post' a (put s t))
    (hfail : ∀ e s, fail e s → fail' (wrap e) (put s t)) :
    Exits (zoom part put wrap x) t post' fail' := by
  cases hr : x.run (part t) with
  | ok a s =>
    rw [Exits, hr] at hx
    exact Exits.of_ok (zoom_ok hr) (hpost a s hx)
  | error e s =>
    rw [Exits, hr] at hx
    exact Exits.of_error (zoom_error hr) (hfail e s hx)

end OpCartesi.Exec
