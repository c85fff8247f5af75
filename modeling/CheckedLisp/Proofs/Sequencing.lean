/-! How the result of a sequence of two computations comes about. -/
namespace CheckedLisp.Sequencing

variable {ε σ α β : Type}

theorem bind_apply (x : EStateM ε σ α) (next : α → EStateM ε σ β) (s : σ) :
    (x >>= next) s = match x s with
      | .ok a s' => next a s'
      | .error e s' => .error e s' := by
  cases run : x s <;> simp [bind, EStateM.bind, run]

/-- A sequence succeeds when both of its parts do. -/
theorem bind_eq_ok {x : EStateM ε σ α} {next : α → EStateM ε σ β} {s s'' : σ} {b : β} :
    (x >>= next) s = .ok b s'' ↔ ∃ a s', x s = .ok a s' ∧ next a s' = .ok b s'' := by
  rw [bind_apply]
  cases run : x s with
  | ok a s' =>
    constructor
    · intro done
      exact ⟨a, s', rfl, done⟩
    · rintro ⟨_, _, same, done⟩
      cases same
      exact done
  | error e s' => simp

theorem pure_eq_ok {a b : α} {s s' : σ} :
    (pure a : EStateM ε σ α) s = .ok b s' ↔ a = b ∧ s = s' := by
  simp [pure, EStateM.pure]

theorem modifyGet_apply (change : σ → α × σ) (s : σ) :
    (modifyGet change : EStateM ε σ α) s = .ok (change s).1 (change s).2 := rfl

theorem except_bind_eq_ok {x : Except ε α} {next : α → Except ε β} {b : β} :
    (x >>= next) = .ok b ↔ ∃ a, x = .ok a ∧ next a = .ok b := by
  cases x with
  | ok a =>
    constructor
    · intro done
      exact ⟨a, rfl, done⟩
    · rintro ⟨_, same, done⟩
      cases same
      exact done
  | error e => simp [bind, Except.bind]

end CheckedLisp.Sequencing
