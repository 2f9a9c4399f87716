import OpCartesi.Common.Exec

/-!
# Two runs

What a computation does not read it does not depend on: run from two states that agree on the rest,
it answers alike and ends in states that agree again.

* `Alike S x`: the statement, for an arbitrary relation `S` on states, with a rule for each way of
  putting computations together.
* `ExceptRel P x y`, `ResultRel S P r r'`: two different computations, on states of different types,
  that fail alike or return values that `P` relates.
-/

namespace OpCartesi.Exec

variable {ε σ α β : Type} {S : σ → σ → Prop} {x : EStateM ε σ α} {f : α → EStateM ε σ β}

/-- Runs of `x` from related states answer alike and end in related states. -/
def Alike (S : σ → σ → Prop) (x : EStateM ε σ α) : Prop :=
  ∀ s s', S s s' → answer (x.run s) = answer (x.run s') ∧
    S (endState (x.run s)) (endState (x.run s'))

theorem Alike.of_answer (r : Except ε α) (h : ∀ s, answer (x.run s) = r ∧ endState (x.run s) = s) :
    Alike S x := by
  intro s s' hs
  rw [(h s).1, (h s').1, (h s).2, (h s').2]
  exact ⟨rfl, hs⟩

theorem Alike.pure (a : α) : Alike S (pure a : EStateM ε σ α) :=
  .of_answer (.ok a) fun _ => ⟨rfl, rfl⟩

theorem Alike.throw (e : ε) : Alike S (throw e : EStateM ε σ α) :=
  .of_answer (.error e) fun _ => ⟨rfl, rfl⟩

theorem Alike.cases (hx : Alike S x) {s s' : σ} (hs : S s s') :
    (∃ a t t', x.run s = .ok a t ∧ x.run s' = .ok a t' ∧ S t t') ∨
      ∃ e t t', x.run s = .error e t ∧ x.run s' = .error e t' ∧ S t t' := by
  obtain ⟨hans, hend⟩ := hx s s' hs
  cases h : x.run s <;> cases h' : x.run s' <;> rw [h, h'] at hans hend <;> cases hans
  · exact Or.inl ⟨_, _, _, rfl, rfl, hend⟩
  · exact Or.inr ⟨_, _, _, rfl, rfl, hend⟩

theorem Alike.bind (hx : Alike S x) (hf : ∀ a, Alike S (f a)) : Alike S (x >>= f) := by
  intro s s' hs
  rcases hx.cases hs with ⟨a, t, t', h, h', ht⟩ | ⟨e, t, t', h, h', ht⟩
  · rw [bind_ok h, bind_ok h']
    exact hf a t t' ht
  · rw [bind_error h, bind_error h']
    exact ⟨rfl, ht⟩

theorem Alike.catching {k : ε → EStateM ε σ α} (hx : Alike S x) (hk : ∀ e, Alike S (k e)) :
    Alike S (tryCatch x k) := by
  intro s s' hs
  rcases hx.cases hs with ⟨a, t, t', h, h', ht⟩ | ⟨e, t, t', h, h', ht⟩
  · rw [tryCatch_ok h, tryCatch_ok h']
    exact ⟨rfl, ht⟩
  · rw [tryCatch_error h, tryCatch_error h']
    exact hk e t t' ht

/-- Reading the state, of which only what related states share is used. -/
theorem Alike.get_bind {k : σ → EStateM ε σ α} (heq : ∀ s s', S s s' → k s = k s')
    (hk : ∀ s, Alike S (k s)) : Alike S (get >>= k) := by
  intro s s' hs
  rw [bind_ok (get_run s), bind_ok (get_run s'), ← heq s s' hs]
  exact hk s s s' hs

/-- A change after which related states are the same. -/
theorem Alike.modify_bind {f : σ → σ} {k : PUnit → EStateM ε σ α} (hrefl : ∀ s, S s s)
    (heq : ∀ s s', S s s' → f s = f s') : Alike S (modify f >>= k) := by
  intro s s' hs
  rw [bind_ok (modify_run f s), bind_ok (modify_run f s'), heq s s' hs]
  exact ⟨rfl, hrefl _⟩

/-! ## Two computations -/

section ExceptRel

variable {ε' α' β' : Type} {P : α → α' → Prop} {Q : β → β' → Prop}

/-- Two checks that fail alike or return related values. -/
inductive ExceptRel (P : α → α' → Prop) : Except ε α → Except ε α' → Prop
  | ok {a : α} {a' : α'} (h : P a a') : ExceptRel P (.ok a) (.ok a')
  | error (e : ε) : ExceptRel P (.error e) (.error e)

theorem ExceptRel.refl (x : Except ε α) : ExceptRel Eq x x := by
  cases x with
  | ok a => exact .ok rfl
  | error e => exact .error e

theorem ExceptRel.of_ok {x : Except ε α} {x' : Except ε α'} (h : ExceptRel P x x') {a : α}
    (hx : x = .ok a) : ∃ a', x' = .ok a' ∧ P a a' := by
  cases h with
  | ok h =>
    cases hx
    exact ⟨_, rfl, h⟩
  | error e => cases hx

theorem ExceptRel.bind {x : Except ε α} {x' : Except ε α'} {f : α → Except ε β}
    {f' : α' → Except ε β'} (hx : ExceptRel P x x')
    (hf : ∀ a a', P a a' → ExceptRel Q (f a) (f' a')) : ExceptRel Q (x >>= f) (x' >>= f') := by
  cases hx with
  | ok h => exact hf _ _ h
  | error e => exact .error e

/-- A check that both make alike. -/
theorem ExceptRel.bind_same {x : Except ε α} {f : α → Except ε β} {f' : α → Except ε β'}
    (hf : ∀ a, x = .ok a → ExceptRel Q (f a) (f' a)) : ExceptRel Q (x >>= f) (x >>= f') := by
  cases x with
  | ok a => exact hf a rfl
  | error e => exact .error e

theorem ExceptRel.expect {o : Option α} {o' : Option α'} (h : Option.Rel P o o') (e : ε) :
    ExceptRel P (expect o e) (Exec.expect o' e) := by
  cases h with
  | some h => exact .ok h
  | none => exact .error e

theorem ExceptRel.mapError {x : Except ε α} {x' : Except ε α'} (h : ExceptRel P x x') (f : ε → ε') :
    ExceptRel P (x.mapError f) (x'.mapError f) := by
  cases h with
  | ok h => exact .ok h
  | error e => exact .error (f e)

end ExceptRel

section ResultRel

variable {σ' α' β' : Type} {S : σ → σ' → Prop} {P : α → α' → Prop} {Q : β → β' → Prop}
  {s : σ} {s' : σ'}

/-- Two runs that throw alike or return related values, and end in related states. -/
inductive ResultRel (S : σ → σ' → Prop) (P : α → α' → Prop) :
    EStateM.Result ε σ α → EStateM.Result ε σ' α' → Prop
  | ok {a : α} {a' : α'} {s : σ} {s' : σ'} (h : P a a') (hs : S s s') :
      ResultRel S P (.ok a s) (.ok a' s')
  | error (e : ε) {s : σ} {s' : σ'} (hs : S s s') : ResultRel S P (.error e s) (.error e s')

theorem ResultRel.endState {r : EStateM.Result ε σ α} {r' : EStateM.Result ε σ' α'}
    (h : ResultRel S P r r') : S (endState r) (Exec.endState r') := by
  cases h with
  | ok h hs => exact hs
  | error e hs => exact hs

theorem ResultRel.answer {r : EStateM.Result ε σ α} {r' : EStateM.Result ε σ' α}
    (h : ResultRel S Eq r r') : answer r = Exec.answer r' := by
  cases h with
  | ok h hs =>
    cases h
    rfl
  | error e hs => rfl

theorem ResultRel.bind {x' : EStateM ε σ' α'} {f' : α' → EStateM ε σ' β'}
    (hx : ResultRel S P (x.run s) (x'.run s'))
    (hf : ∀ a a' t t', P a a' → S t t' → ResultRel S Q ((f a).run t) ((f' a').run t')) :
    ResultRel S Q ((x >>= f).run s) ((x' >>= f').run s') := by
  generalize hr : x.run s = r at hx
  generalize hr' : x'.run s' = r' at hx
  cases hx with
  | ok h hs =>
    rw [bind_ok hr, bind_ok hr']
    exact hf _ _ _ _ h hs
  | error e hs =>
    rw [bind_error hr, bind_error hr']
    exact .error e hs

/-- A check leaves the states. -/
theorem ResultRel.check_bind {x : Except ε α} {x' : Except ε α'} {f' : α' → EStateM ε σ' β'}
    (h : ExceptRel P x x') (hs : S s s')
    (hf : ∀ a a', P a a' → ResultRel S Q ((f a).run s) ((f' a').run s')) :
    ResultRel S Q ((check x >>= f).run s) ((check x' >>= f').run s') := by
  cases h with
  | ok h =>
    rw [bind_ok (check_ok _ s), bind_ok (check_ok _ s')]
    exact hf _ _ h
  | error e =>
    rw [bind_error (check_error e s), bind_error (check_error e s')]
    exact .error e hs

theorem ResultRel.modify_bind {g : σ → σ} {g' : σ' → σ'} {f : PUnit → EStateM ε σ β}
    {f' : PUnit → EStateM ε σ' β'} (h : ResultRel S Q ((f ⟨⟩).run (g s)) ((f' ⟨⟩).run (g' s'))) :
    ResultRel S Q ((modify g >>= f).run s) ((modify g' >>= f').run s') := by
  rwa [bind_ok (modify_run g s), bind_ok (modify_run g' s')]

/-- Exceptions that are thrown again under another name. -/
theorem ResultRel.rethrow {x' : EStateM ε σ' α'} (hx : ResultRel S P (x.run s) (x'.run s'))
    (wrap : ε → ε) :
    ResultRel S P ((tryCatch x fun e => throw (wrap e)).run s)
      ((tryCatch x' fun e => throw (wrap e)).run s') := by
  generalize hr : x.run s = r at hx
  generalize hr' : x'.run s' = r' at hx
  cases hx with
  | ok h hs =>
    rw [tryCatch_ok hr, tryCatch_ok hr']
    exact .ok h hs
  | error e hs =>
    rw [tryCatch_error hr, tryCatch_error hr']
    exact .error (wrap e) hs

end ResultRel

end OpCartesi.Exec
