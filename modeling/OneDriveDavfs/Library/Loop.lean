import OneDriveDavfs.Library.Effect

/-! Loops of computations.

A round goes on with a new value, returns, or stops. `Loop` says how a loop
ends and after how many rounds, without a bound on them; a loop ends when every
round that goes on makes a measure smaller.
-/

set_option autoImplicit false

namespace Library.Effect

variable {σ ε α β : Type}

inductive Loop (round : α → Effect σ ε (α ⊕ β)) : α → σ → Nat → Except ε β → σ → Prop where
  | returned {a : α} {s : σ} {b : β} : outcome (round a) s = .ok (.inr b) →
      Loop round a s 1 (.ok b) (after (round a) s)
  | stopped {a : α} {s : σ} {e : ε} : outcome (round a) s = .error e →
      Loop round a s 1 (.error e) (after (round a) s)
  | again {a next : α} {s left : σ} {rounds : Nat} {result : Except ε β} :
      outcome (round a) s = .ok (.inl next) → Loop round next (after (round a) s) rounds result left →
      Loop round a s (rounds + 1) result left

variable {round : α → Effect σ ε (α ⊕ β)}

/-- A loop with a measure ends within as many rounds. -/
theorem exists_loop {measure : α → Nat}
    (decreases : ∀ a s next, outcome (round a) s = .ok (.inl next) → measure next < measure a) (a : α) (s : σ) :
    ∃ rounds result left, rounds ≤ measure a + 1 ∧ Loop round a s rounds result left := by
  induction size : measure a using Nat.strongRecOn generalizing a s with
  | ind n ih =>
    cases ended : outcome (round a) s with
    | error e => exact ⟨1, _, _, by omega, .stopped ended⟩
    | ok went =>
      cases went with
      | inr b => exact ⟨1, _, _, by omega, .returned ended⟩
      | inl next =>
        have less := decreases a s next ended
        obtain ⟨rounds, result, left, bound, loop⟩ := ih (measure next) (size ▸ less) next (after (round a) s) rfl
        exact ⟨rounds + 1, result, left, by omega, .again ended loop⟩

/-- At most so many rounds, and a stop where they are used up. -/
def bounded (stop : ε) (round : α → Effect σ ε (α ⊕ β)) : Nat → α → Effect σ ε β
  | 0, _ => throw stop
  | rounds + 1, a => do
    match ← round a with
    | .inl next => bounded stop round rounds next
    | .inr b => return b

/-- With enough rounds the bound is not seen. -/
theorem Loop.bounded_eq {stop : ε} {a : α} {s left : σ} {rounds fuel : Nat} {result : Except ε β}
    (loop : Loop round a s rounds result left) (enough : rounds ≤ fuel) :
    outcome (bounded stop round fuel a) s = result ∧ after (bounded stop round fuel a) s = left := by
  induction loop generalizing fuel with
  | returned ended =>
    obtain ⟨more, rfl⟩ := Nat.exists_eq_add_of_le' enough
    rw [bounded, outcome_bind_ok _ ended, after_bind_ok _ ended]
    exact ⟨rfl, rfl⟩
  | stopped ended =>
    obtain ⟨more, rfl⟩ := Nat.exists_eq_add_of_le' enough
    rw [bounded, outcome_bind_error _ ended, after_bind_error _ ended]
    exact ⟨rfl, rfl⟩
  | @again a next s left rounds result ended loop ih =>
    obtain ⟨more, rfl⟩ := Nat.exists_eq_add_of_le' enough
    rw [← Nat.add_assoc, bounded, outcome_bind_ok _ ended, after_bind_ok _ ended]
    exact ih (by omega)

end Library.Effect
