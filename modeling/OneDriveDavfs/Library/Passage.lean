import Mathlib.Order.Defs.Unbundled
import OneDriveDavfs.Library.Effect

/-! Computations that move their state along a preorder.

A relation between the state before and the state after that holds for the
parts of a computation holds for the whole of it, however it ends. With a
relation that fixes what must not change this is the frame rule.
-/

set_option autoImplicit false

namespace Library.Effect

variable {σ ε α β : Type}

/-- From every state the computation leaves one that is further along. -/
def Along (R : σ → σ → Prop) (m : Effect σ ε α) : Prop := ∀ s, R s (after m s)

section Rules
variable {R : σ → σ → Prop} {m other : Effect σ ε α} {f : α → Effect σ ε β}

theorem Along.weaken (along : Along R m) {R' : σ → σ → Prop} (implies : ∀ s t, R s t → R' s t) : Along R' m :=
  fun s => implies _ _ (along s)

section Reflexive
variable [Std.Refl R]

theorem Along.pure (a : α) : Along R (Pure.pure a : Effect σ ε α) := fun s => Std.Refl.refl s

theorem Along.throw (e : ε) : Along R (throw e : Effect σ ε α) := fun s => Std.Refl.refl s

theorem Along.get : Along R (get : Effect σ ε σ) := fun s => Std.Refl.refl s

end Reflexive

theorem Along.andThen {S T : σ → σ → Prop} (first : Along R m) (next : ∀ a, Along S (f a))
    (both : ∀ {s t u}, R s t → S t u → T s u) (alone : ∀ {s t}, R s t → T s t) : Along T (m >>= f) := by
  intro s
  cases ended : outcome m s with
  | ok a =>
    rw [after_bind_ok f ended]
    exact both (first s) (next a _)
  | error e =>
    rw [after_bind_error f ended]
    exact alone (first s)

theorem Along.bind [IsTrans σ R] (first : Along R m) (next : ∀ a, Along R (f a)) : Along R (m >>= f) :=
  first.andThen next (fun early late => IsTrans.trans _ _ _ early late) fun early => early

theorem Along.ite {p : Prop} [Decidable p] (yes : Along R m) (no : Along R other) :
    Along R (if p then m else other) := by
  split
  · exact yes
  · exact no

theorem Along.ite' {p : Prop} [Decidable p] (yes : p → Along R m) (no : ¬ p → Along R other) :
    Along R (if p then m else other) := by
  split
  · exact yes ‹_›
  · exact no ‹_›

end Rules

/-! ## Counting -/

/-- However it ends, the computation adds at most so much to a count of the state. -/
def Costs (count : σ → Nat) (most : Nat) (m : Effect σ ε α) : Prop := Along (fun s t => count t ≤ count s + most) m

section Rules
variable {count : σ → Nat} {most more total : Nat} {m other : Effect σ ε α} {f : α → Effect σ ε β}

theorem Costs.mono (costs : Costs count most m) (le : most ≤ more) : Costs count more m :=
  costs.weaken fun _ _ within => Nat.le_trans within (Nat.add_le_add_left le _)

theorem Costs.of_same (same : ∀ s, count (after m s) = count s) : Costs count most m :=
  fun s => Nat.le_trans (Nat.le_of_eq (same s)) (Nat.le_add_right _ _)

theorem Costs.pure (a : α) : Costs count most (Pure.pure a : Effect σ ε α) := .of_same fun _ => rfl

theorem Costs.throw (e : ε) : Costs count most (throw e : Effect σ ε α) := .of_same fun _ => rfl

theorem Costs.get : Costs count most (get : Effect σ ε σ) := .of_same fun _ => rfl

theorem Costs.bind (first : Costs count most m) (next : ∀ a, Costs count more (f a)) (within : most + more ≤ total) :
    Costs count total (m >>= f) :=
  first.andThen next (fun early late => by omega) fun early => by omega

theorem Costs.after_free (first : Costs count 0 m) (next : ∀ a, Costs count total (f a)) : Costs count total (m >>= f) :=
  first.bind next (Nat.le_of_eq (Nat.zero_add total))

theorem Costs.before_free (first : Costs count total m) (next : ∀ a, Costs count 0 (f a)) : Costs count total (m >>= f) :=
  first.bind next (Nat.le_of_eq (Nat.add_zero total))

theorem Costs.ite {p : Prop} [Decidable p] (yes : p → Costs count most m) (no : ¬ p → Costs count most other) :
    Costs count most (if p then m else other) := Along.ite' yes no

end Rules

/-! ## Returning -/

/-- Where the computation returns, the state before, the result and the state after are related. -/
def Returning (R : σ → α → σ → Prop) (m : Effect σ ε α) : Prop := ∀ s a, outcome m s = .ok a → R s a (after m s)

section Rules
variable {R : σ → α → σ → Prop} {S : σ → β → σ → Prop} {m other : Effect σ ε α} {f : α → Effect σ ε β}

theorem Returning.pure {a : α} (holds : ∀ s, R s a s) : Returning R (Pure.pure a : Effect σ ε α) := by
  intro s _ returned
  cases returned
  exact holds s

theorem Returning.throw (e : ε) : Returning R (throw e : Effect σ ε α) := fun _ _ returned => by cases returned

theorem Returning.bind (first : Returning R m) (next : ∀ s a, Returning (fun t b u => R s a t → S s b u) (f a)) :
    Returning S (m >>= f) := by
  intro s b returned
  cases ended : outcome m s with
  | error e =>
    rw [outcome_bind_error f ended] at returned
    cases returned
  | ok a =>
    rw [outcome_bind_ok f ended] at returned
    rw [after_bind_ok f ended]
    exact next s a _ b returned (first s a ended)

theorem Returning.ite {p : Prop} [Decidable p] (yes : p → Returning R m) (no : ¬ p → Returning R other) :
    Returning R (if p then m else other) := by
  split
  · exact yes ‹_›
  · exact no ‹_›

theorem Returning.of_along {T : σ → σ → Prop} (along : Along T m) (implies : ∀ s a t, T s t → R s a t) :
    Returning R m :=
  fun s a _ => implies s a _ (along s)

end Rules

end Library.Effect
