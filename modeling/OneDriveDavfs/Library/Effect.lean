import Mathlib.Logic.Basic

/-! Computations that return or stop, and leave a state either way.

A stop keeps the state that was reached, so that what was done before it stays
done. `Ensures I m Q` is the rule of pre- and postconditions for an invariant:
from a state with the invariant, `m` leaves one with the invariant, however it
ends, and what it returns satisfies `Q`.
-/

set_option autoImplicit false

namespace Library

abbrev Effect (σ ε : Type) : Type → Type := ExceptT ε (StateM σ)

namespace Effect

variable {σ ε α β : Type}

def outcome (m : Effect σ ε α) (s : σ) : Except ε α := (m s).1

def after (m : Effect σ ε α) (s : σ) : σ := (m s).2

section Run
variable (s : σ)

@[simp] theorem outcome_pure (a : α) : outcome (pure a : Effect σ ε α) s = .ok a := rfl

@[simp] theorem after_pure (a : α) : after (pure a : Effect σ ε α) s = s := rfl

@[simp] theorem outcome_throw (e : ε) : outcome (throw e : Effect σ ε α) s = .error e := rfl

@[simp] theorem after_throw (e : ε) : after (throw e : Effect σ ε α) s = s := rfl

@[simp] theorem outcome_get : outcome (get : Effect σ ε σ) s = .ok s := rfl

@[simp] theorem after_get : after (get : Effect σ ε σ) s = s := rfl

@[simp] theorem outcome_modify (f : σ → σ) : outcome (modify f : Effect σ ε PUnit) s = .ok ⟨⟩ := rfl

@[simp] theorem after_modify (f : σ → σ) : after (modify f : Effect σ ε PUnit) s = f s := rfl

variable {s} {m : Effect σ ε α} (f : α → Effect σ ε β)

theorem bind_apply : (m >>= f) s = match m s with
    | (.ok a, t) => f a t
    | (.error e, t) => (.error e, t) := by
  change StateT.bind m (ExceptT.bindCont f) s = _
  unfold StateT.bind
  rcases m s with ⟨_ | _, _⟩ <;> rfl

theorem apply_eq {ended : Except ε α} (ends : outcome m s = ended) : m s = (ended, after m s) :=
  Prod.ext ends rfl

theorem after_congr {m' : Effect σ ε α} {t : σ} (same : m s = m' t) : after m s = after m' t :=
  congrArg Prod.snd same

theorem outcome_bind_ok {a : α} (returned : outcome m s = .ok a) :
    outcome (m >>= f) s = outcome (f a) (after m s) := by
  unfold outcome
  rw [bind_apply, apply_eq returned]

theorem after_bind_ok {a : α} (returned : outcome m s = .ok a) :
    after (m >>= f) s = after (f a) (after m s) := by
  change ((m >>= f) s).2 = _
  rw [bind_apply, apply_eq returned]
  rfl

theorem outcome_bind_error {e : ε} (stopped : outcome m s = .error e) : outcome (m >>= f) s = .error e := by
  unfold outcome
  rw [bind_apply, apply_eq stopped]

theorem after_bind_error {e : ε} (stopped : outcome m s = .error e) : after (m >>= f) s = after m s := by
  change ((m >>= f) s).2 = _
  rw [bind_apply, apply_eq stopped]

end Run

/-! ## Invariants -/

def Ensures (I : σ → Prop) (m : Effect σ ε α) (Q : α → Prop) : Prop :=
  ∀ s, I s → I (after m s) ∧ ∀ a, outcome m s = .ok a → Q a

variable {I : σ → Prop} {m : Effect σ ε α} {f : α → Effect σ ε β} {Q : α → Prop} {R : β → Prop}

theorem Ensures.after (ensures : Ensures I m Q) {s : σ} (holds : I s) : I (after m s) := (ensures s holds).1

theorem Ensures.weaken (ensures : Ensures I m Q) {Q' : α → Prop} (implies : ∀ a, Q a → Q' a) : Ensures I m Q' :=
  fun s holds => ⟨(ensures s holds).1, fun a returned => implies a ((ensures s holds).2 a returned)⟩

theorem Ensures.pure {a : α} (holds : Q a) : Ensures I (Pure.pure a : Effect σ ε α) Q :=
  fun _ invariant => ⟨invariant, fun _ returned => by cases returned; exact holds⟩

theorem Ensures.throw (e : ε) : Ensures I (throw e : Effect σ ε α) Q :=
  fun _ invariant => ⟨invariant, fun _ returned => by cases returned⟩

theorem Ensures.bind (first : Ensures I m Q) (next : ∀ a, Q a → Ensures I (f a) R) : Ensures I (m >>= f) R := by
  intro s holds
  obtain ⟨kept, post⟩ := first s holds
  cases ended : outcome m s with
  | ok a =>
    rw [after_bind_ok f ended, outcome_bind_ok f ended]
    exact next a (post a ended) _ kept
  | error e =>
    rw [after_bind_error f ended, outcome_bind_error f ended]
    exact ⟨kept, fun _ returned => by cases returned⟩

theorem Ensures.ite {p : Prop} [Decidable p] {no : Effect σ ε α} (yes : Ensures I m Q) (other : Ensures I no Q) :
    Ensures I (if p then m else no) Q := by
  split
  · exact yes
  · exact other

theorem Ensures.get : Ensures I (get : Effect σ ε σ) I :=
  fun _ invariant => ⟨invariant, fun _ returned => by cases returned; exact invariant⟩

theorem Ensures.modify {g : σ → σ} (kept : ∀ s, I s → I (g s)) :
    Ensures I (modify g : Effect σ ε PUnit) fun _ => True :=
  fun s invariant => ⟨kept s invariant, fun _ _ => trivial⟩

end Effect

end Library
