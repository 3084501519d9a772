import Mathlib.Data.List.Basic

/-! Admission of requests to the one execution slot of the host.

Every request is at some phase of `handle_request`; one event performs one
atomic operation of one request, so that requests interleave between any two
operations. The semaphore may serve its waiters in any order, which covers the
order in which they queued. A future is dropped only at an await point.
-/

set_option autoImplicit false

namespace OneDriveDavfs.Host

def QUEUE_LIMIT : Nat := 8

/-- How far a request has come in `admit` and `handle_request`. -/
inductive Phase where
  /-- the service future exists, `admit` has not tried the slot yet -/
  | arrived
  /-- `try_acquire_owned` failed -/
  | contending
  /-- after `fetch_add`, with the value of the local `queued` -/
  | counted (queued : Nat)
  /-- over the limit, before its `fetch_sub` -/
  | refusing
  /-- at `acquire_owned().await` -/
  | waiting
  /-- the permit is assigned, the future has not been resumed -/
  | granted
  /-- resumed with the permit, before its `fetch_sub` -/
  | leaving
  /-- `admit` has returned the permit -/
  | admitted
  /-- the spawned task owns the permit, the service future awaits the response -/
  | running
  /-- the service future is gone, the spawned task still owns the permit -/
  | detached
  | finished
  | refused
  | dropped
  deriving DecidableEq, Repr

/-- The request owns the permit of the execution slot. -/
def Phase.holds : Phase → Bool
  | .granted | .leaving | .admitted | .running | .detached => true
  | _ => false

/-- The request has raised `queued_waiters` and is still inside `admit`. -/
def Phase.inside : Phase → Bool
  | .counted _ | .refusing | .waiting | .granted | .leaving => true
  | _ => false

inductive Action where
  | tryAcquire
  | fetchAdd
  | compare
  | fetchSub
  /-- the semaphore assigns the permit to a waiter -/
  | grant
  /-- the executor resumes the waiter -/
  | resume
  /-- `build_store` or the mapping of the request fails -/
  | fail
  | spawn
  | respond
  /-- the spawned task ends -/
  | finish
  /-- the connection is closed and the service future dropped -/
  | drop
  deriving DecidableEq, Repr

/-- One operation of a request at `phase` on the free permits and the counter. -/
def turn (permits queued : Nat) : Phase → Action → Option (Phase × Nat × Nat)
  | .arrived, .tryAcquire =>
      if 0 < permits then some (.admitted, permits - 1, queued) else some (.contending, permits, queued)
  | .contending, .fetchAdd => some (.counted (queued + 1), permits, queued + 1)
  | .counted seen, .compare =>
      if seen > QUEUE_LIMIT then some (.refusing, permits, queued) else some (.waiting, permits, queued)
  | .refusing, .fetchSub => some (.refused, permits, queued - 1)
  | .waiting, .grant => if 0 < permits then some (.granted, permits - 1, queued) else none
  | .granted, .resume => some (.leaving, permits, queued)
  | .leaving, .fetchSub => some (.admitted, permits, queued - 1)
  | .admitted, .fail => some (.finished, permits + 1, queued)
  | .admitted, .spawn => some (.running, permits, queued)
  | .running, .respond => some (.detached, permits, queued)
  | .running, .finish => some (.finished, permits + 1, queued)
  | .detached, .finish => some (.finished, permits + 1, queued)
  -- dropping the future of `acquire_owned` gives an assigned permit back; nothing lowers the counter
  | .arrived, .drop => some (.dropped, permits, queued)
  | .waiting, .drop => some (.dropped, permits, queued)
  | .granted, .drop => some (.dropped, permits + 1, queued)
  -- the task spawned for the request runs on with the permit
  | .running, .drop => some (.detached, permits, queued)
  | _, _ => none

/-- The requests seen so far, the free permits of the slot and `queued_waiters`. -/
structure State where
  requests : List Phase
  permits : Nat
  queued : Nat
  deriving DecidableEq, Repr

def State.new : State := ⟨[], 1, 0⟩

inductive Event where
  | arrive
  | act (i : Nat) (action : Action)
  deriving DecidableEq, Repr

def step (s : State) : Event → Option State
  | .arrive => some { s with requests := s.requests ++ [.arrived] }
  | .act i action => do
      let phase ← s.requests[i]?
      let (phase', permits, queued) ← turn s.permits s.queued phase action
      some ⟨s.requests.set i phase', permits, queued⟩

def State.holders (s : State) : Nat := s.requests.countP Phase.holds

def State.inside (s : State) : Nat := s.requests.countP Phase.inside

def State.abandons (s : State) : Event → Bool
  | .arrive => false
  | .act i action => action = .drop && s.requests[i]?.any Phase.inside

/-- A run from the start of the host in which `n` requests were dropped inside `admit`. -/
inductive Run : Nat → State → Prop where
  | start : Run 0 State.new
  | next {n : Nat} {s s' : State} {e : Event} : Run n s → step s e = some s' →
      Run (n + (s.abandons e).toNat) s'

/-! ## One step -/

theorem turn_accounts {permits queued permits' queued' : Nat} {phase phase' : Phase} {action : Action}
    (turned : turn permits queued phase action = some (phase', permits', queued'))
    (raised : phase.inside = true → 0 < queued) :
    permits' + phase'.holds.toNat = permits + phase.holds.toNat ∧
      queued' + phase.inside.toNat =
        queued + phase'.inside.toNat + (action = .drop && phase.inside : Bool).toNat := by
  unfold turn at turned
  split at turned
  all_goals try split at turned
  all_goals cases turned
  all_goals simp [Phase.holds, Phase.inside] at raised ⊢
  all_goals omega

theorem step_act {s s' : State} {i : Nat} {action : Action} (stepped : step s (.act i action) = some s') :
    ∃ phase phase' permits queued, s.requests[i]? = some phase ∧
      turn s.permits s.queued phase action = some (phase', permits, queued) ∧
      s' = ⟨s.requests.set i phase', permits, queued⟩ := by
  simp only [step, Option.bind_eq_bind, Option.bind_eq_some_iff] at stepped
  obtain ⟨phase, found, ⟨phase', permits, queued⟩, turned, same⟩ := stepped
  exact ⟨phase, phase', permits, queued, found, turned, (Option.some.inj same).symm⟩

theorem countP_set_of_getElem? {requests : List Phase} {i : Nat} {phase : Phase} (p : Phase → Bool)
    (found : requests[i]? = some phase) (phase' : Phase) :
    (requests.set i phase').countP p + (p phase).toNat = requests.countP p + (p phase').toNat := by
  obtain ⟨bound, same⟩ := List.getElem?_eq_some_iff.1 found
  have positive : p phase = true → 0 < requests.countP p := fun holds =>
    List.countP_pos_iff.2 ⟨phase, List.mem_of_getElem? found, holds⟩
  rw [List.countP_set bound, same]
  cases before : p phase with
  | false => cases p phase' <;> simp
  | true =>
    have counted := positive before
    cases p phase' <;> simp only [Bool.toNat_true, Bool.toNat_false, Bool.false_eq_true, if_true, if_false] <;> omega

/-- What a step of any event adds to the accounts. -/
theorem step_accounts {s s' : State} {event : Event} (stepped : step s event = some s')
    (raised : s.inside ≤ s.queued) :
    s'.permits + s'.holders = s.permits + s.holders ∧
      s'.queued + s.inside = s.queued + s'.inside + (s.abandons event).toNat := by
  cases event with
  | arrive =>
    cases stepped
    simp [State.holders, State.inside, State.abandons, Phase.holds, Phase.inside]
  | act i action =>
    obtain ⟨phase, phase', permits, queued, found, turned, rfl⟩ := step_act stepped
    have positive : phase.inside = true → 0 < s.queued := fun inside =>
      have counted : 0 < s.inside := List.countP_pos_iff.2 ⟨phase, List.mem_of_getElem? found, inside⟩
      Nat.lt_of_lt_of_le counted raised
    obtain ⟨held, queuedSame⟩ := turn_accounts turned positive
    have holders := countP_set_of_getElem? Phase.holds found phase'
    have inside := countP_set_of_getElem? Phase.inside found phase'
    simp only [State.holders, State.inside, State.abandons, found, Option.any_some]
    constructor <;> omega

/-! ## Every run -/

/-- The slot is accounted for; the counter is ahead by the requests dropped inside `admit`. -/
theorem Run.accounts {n : Nat} {s : State} (run : Run n s) :
    s.permits + s.holders = 1 ∧ s.queued = s.inside + n := by
  induction run with
  | start => exact ⟨rfl, rfl⟩
  | next _ stepped ih =>
    obtain ⟨permits, queued⟩ := ih
    obtain ⟨permits', queued'⟩ := step_accounts stepped (by omega)
    constructor <;> omega

inductive Others (i : Nat) : State → State → Prop where
  | refl (s : State) : Others i s s
  | next {s t u : State} {event : Event} : Others i s t → (∀ action, event ≠ .act i action) →
      step t event = some u → Others i s u

theorem step_others {s s' : State} {event : Event} {i : Nat} {phase : Phase} (stepped : step s event = some s')
    (other : ∀ action, event ≠ .act i action) (at_i : s.requests[i]? = some phase) :
    s'.requests[i]? = some phase := by
  cases event with
  | arrive =>
    cases stepped
    obtain ⟨bound, _⟩ := List.getElem?_eq_some_iff.1 at_i
    exact (List.getElem?_append_left bound).trans at_i
  | act j action =>
    have apart : j ≠ i := fun same => other action (by rw [same])
    obtain ⟨_, phase', _, _, _, _, rfl⟩ := step_act stepped
    exact (List.getElem?_set_ne apart).trans at_i

theorem Others.kept {i : Nat} {s t : State} {phase : Phase} (others : Others i s t)
    (at_i : s.requests[i]? = some phase) : t.requests[i]? = some phase := by
  induction others with
  | refl => exact at_i
  | next _ other stepped ih => exact step_others stepped other ih

/-- What request `i` sees when it contends and later compares: `refuses` is decided by the counter
it found, whatever the other requests do in between. -/
theorem contend {s raised later s' : State} {i : Nat} (counted : step s (.act i .fetchAdd) = some raised)
    (others : Others i raised later) (compared : step later (.act i .compare) = some s') :
    s'.requests[i]? = some (if s.queued + 1 > QUEUE_LIMIT then .refusing else .waiting) := by
  obtain ⟨phase, phase', permits, queued, found, turned, rfl⟩ := step_act counted
  have waits : phase' = .counted (s.queued + 1) := by
    cases phase with
    | contending => cases turned; rfl
    | _ => cases turned
  obtain ⟨bound, _⟩ := List.getElem?_eq_some_iff.1 found
  have at_i := others.kept (List.getElem?_set_self bound)
  obtain ⟨phase'', after, permits', queued', found', turned', rfl⟩ := step_act compared
  obtain ⟨bound', _⟩ := List.getElem?_eq_some_iff.1 found'
  rw [found', waits] at at_i
  cases at_i
  rw [List.getElem?_set_self bound']
  by_cases full : s.queued + 1 > QUEUE_LIMIT
  · simp only [turn, if_pos full, Option.some.injEq, Prod.mk.injEq] at turned' ⊢
    exact turned'.1.symm
  · simp only [turn, if_neg full, Option.some.injEq, Prod.mk.injEq] at turned' ⊢
    exact turned'.1.symm

structure Accounted (s : State) : Prop where
  one_holder : s.holders ≤ 1
  counted : s.queued = s.inside
  idle : s.inside = 0 → s.queued = 0
  /-- a request that contends while fewer than the limit are inside is not refused -/
  admits : s.inside < QUEUE_LIMIT → ∀ (i : Nat) (raised later s' : State),
    step s (.act i .fetchAdd) = some raised → Others i raised later →
      step later (.act i .compare) = some s' → s'.requests[i]? = some .waiting

/-- The accounts are right in exactly the states reached without dropping a request inside `admit`. -/
theorem admission_accounted_iff {n : Nat} {s : State} (run : Run n s) : Accounted s ↔ n = 0 := by
  obtain ⟨permits, queued⟩ := run.accounts
  constructor
  · intro accounted
    have counted := accounted.counted
    omega
  · rintro rfl
    refine ⟨by omega, queued, fun idle => by omega, ?_⟩
    intro room i raised later s' counted others compared
    have below : ¬ s.queued + 1 > QUEUE_LIMIT := by omega
    rw [contend counted others compared, if_neg below]

theorem second_waits : Run 0 ⟨[.running, .waiting], 0, 1⟩ := by
  have taken : Run 0 ⟨[.running], 0, 0⟩ :=
    ((Run.start.next (e := .arrive) rfl).next (e := .act 0 .tryAcquire) rfl).next (e := .act 0 .spawn) rfl
  have contends : Run 0 ⟨[.running, .contending], 0, 0⟩ :=
    (taken.next (e := .arrive) rfl).next (e := .act 1 .tryAcquire) rfl
  exact (contends.next (e := .act 1 .fetchAdd) rfl).next (e := .act 1 .compare) rfl

theorem admission_accounted_waiting : Accounted ⟨[.running, .waiting], 0, 1⟩ ↔ 0 = 0 :=
  admission_accounted_iff second_waits

/-- The second request is dropped while it waits; when the first one is done, nobody is inside
`admit` and the counter stays at one. -/
theorem dropped_waiter_counted :
    Run 1 ⟨[.finished, .dropped], 1, 1⟩ ∧ ¬ Accounted ⟨[.finished, .dropped], 1, 1⟩ := by
  have dropped : Run 1 ⟨[.running, .dropped], 0, 1⟩ := second_waits.next (e := .act 1 .drop) rfl
  refine ⟨dropped.next (e := .act 0 .finish) rfl, fun accounted => ?_⟩
  have counter : 1 = 0 := accounted.idle rfl
  cases counter

/-- Once as many requests as the queue holds were dropped inside `admit`, every request that
finds the slot taken is refused, also when no request is inside. -/
theorem refused_after_leaks {n : Nat} {s raised later s' : State} {i : Nat} (run : Run n s)
    (leaked : QUEUE_LIMIT ≤ n) (counted : step s (.act i .fetchAdd) = some raised)
    (others : Others i raised later) (compared : step later (.act i .compare) = some s') :
    s'.requests[i]? = some .refusing := by
  obtain ⟨_, queued⟩ := run.accounts
  have above : s.queued + 1 > QUEUE_LIMIT := by omega
  rw [contend counted others compared, if_pos above]

end OneDriveDavfs.Host
