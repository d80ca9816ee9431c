/-! # Work that may fail

Decoders, listings, calls on files and runs all work on a state and may fail. What they changed before a failure
stays changed.
-/

namespace EventScript

section Work

variable {ε δ σ α β : Type}

/-- Go on with a result, or fail. -/
def ofExcept (wrap : ε → δ) : Except ε α → EStateM δ σ α
  | .ok a => return a
  | .error e => throw (wrap e)

/-- Do the work, and say more about its error if it fails. -/
def wrapError (wrap : ε → δ) (work : EStateM ε σ α) : EStateM δ σ α := fun s =>
  match work s with
  | .ok a s' => .ok a s'
  | .error e s' => .error (wrap e) s'

/-- The state that the work leaves, be it done or given up. -/
def stateAfter (work : EStateM ε σ α) (s : σ) : σ :=
  match work s with
  | .ok _ s' | .error _ s' => s'

variable {part : EStateM ε σ α} {rest : α → EStateM ε σ β} {s s' middle : σ} {a : α} {b : β} {e : ε}

theorem bind_of_ok (h : part s = .ok a middle) : (part >>= rest) s = rest a middle := by
  simp only [Bind.bind, EStateM.bind, h]

theorem bind_of_error (h : part s = .error e middle) : (part >>= rest) s = .error e middle := by
  simp only [Bind.bind, EStateM.bind, h]

theorem bind_eq_ok_iff : (part >>= rest) s = .ok b s' ↔
    ∃ a middle, part s = .ok a middle ∧ rest a middle = .ok b s' := by
  cases first : part s with
  | ok a middle =>
      rw [bind_of_ok first]
      constructor
      · intro second
        exact ⟨a, middle, rfl, second⟩
      · rintro ⟨_, _, same, second⟩
        cases same
        exact second
  | error e middle =>
      rw [bind_of_error first]
      exact ⟨nofun, nofun⟩

theorem bind_eq_error_iff : (part >>= rest) s = .error e s' ↔
    part s = .error e s' ∨ ∃ a middle, part s = .ok a middle ∧ rest a middle = .error e s' := by
  cases first : part s with
  | ok a middle =>
      rw [bind_of_ok first]
      constructor
      · intro second
        exact .inr ⟨a, middle, rfl, second⟩
      · rintro (failed | ⟨_, _, same, second⟩)
        · cases failed
        · cases same
          exact second
  | error e' middle =>
      rw [bind_of_error first]
      constructor
      · intro same
        cases same
        exact .inl rfl
      · rintro (failed | ⟨_, _, same, _⟩)
        · cases failed
          rfl
        · cases same

theorem stateAfter_of_ok (h : part s = .ok a s') : stateAfter part s = s' := by
  simp only [stateAfter, h]

theorem stateAfter_of_error (h : part s = .error e s') : stateAfter part s = s' := by
  simp only [stateAfter, h]

theorem stateAfter_bind_of_ok (h : part s = .ok a middle) :
    stateAfter (part >>= rest) s = stateAfter (rest a) middle := by
  simp only [stateAfter, bind_of_ok h]

theorem stateAfter_bind_of_error (h : part s = .error e middle) : stateAfter (part >>= rest) s = middle :=
  stateAfter_of_error (bind_of_error h)

variable {wrap : ε → δ}

theorem ofExcept_eq_ok_iff {result : Except ε α} :
    (ofExcept wrap result : EStateM δ σ α) s = .ok a s' ↔ result = .ok a ∧ s' = s := by
  cases result with
  | ok b =>
      constructor
      · intro same
        cases same
        exact ⟨rfl, rfl⟩
      · rintro ⟨same, rfl⟩
        cases same
        rfl
  | error e => exact ⟨nofun, nofun⟩

theorem wrapError_of_ok (h : part s = .ok a s') : wrapError wrap part s = .ok a s' := by
  simp only [wrapError, h]

theorem wrapError_of_error (h : part s = .error e s') : wrapError wrap part s = .error (wrap e) s' := by
  simp only [wrapError, h]

theorem wrapError_eq_ok_iff : wrapError wrap part s = .ok a s' ↔ part s = .ok a s' := by
  cases h : part s with
  | ok b middle =>
      rw [wrapError_of_ok h]
      exact ⟨fun same => by cases same; rfl, fun same => by cases same; rfl⟩
  | error e middle =>
      rw [wrapError_of_error h]
      exact ⟨nofun, nofun⟩

theorem ok_bind {next : α → Except ε β} : (Except.ok a >>= next) = next a :=
  rfl

theorem error_bind {next : α → Except ε β} : (Except.error e >>= next) = .error e :=
  rfl

end Work

end EventScript
