import OneDriveDavfs.Sync.Tick

/-! A tick sees only the replies that it asked for.

What Graph would have answered to other requests makes no difference to it, so
a tick can be told in an environment that fails all of them.
-/

set_option autoImplicit false

namespace OneDriveDavfs

open Snapshot

namespace Sync

def Env.only (env : Env) (asked : List (String × DeltaReply)) : Env :=
  { env with delta := fun n url =>
      match asked[n]? with
      | some (link, reply) => if link = url then reply else .error (.other "")
      | none => .error (.other "") }

section Only
variable {env : Env} {resyncTo : Result String} {s next out : Loop}

theorem delta_only {asked : List (String × DeltaReply)} {n : Nat} {url : String} {reply : DeltaReply}
    (found : asked[n]? = some (url, reply)) : (env.only asked).delta n url = reply := by
  simp only [Env.only, found, if_true]

theorem round_only {stop : Bool} (counted : s.pages = s.asked.length)
    (ran : round env resyncTo s = .ok (next, stop)) :
    next.pages = next.asked.length ∧ ∃ reply, next.asked = s.asked ++ [(s.url, reply)] ∧
      ∀ more, round (env.only (next.asked ++ more)) resyncTo s = .ok (next, stop) := by
  have place {reply : DeltaReply} (asked : next.asked = s.asked ++ [(s.url, reply)]) (more : List (String × DeltaReply)) :
      (env.only (next.asked ++ more)).delta s.pages s.url = reply :=
    delta_only (by simp [asked, counted])
  unfold round at ran ⊢
  cases answered : env.delta s.pages s.url with
  | ok page =>
    rw [answered] at ran
    have paged := Except.ok.inj ran
    have grown : (onPage s page).1.asked = s.asked ++ [(s.url, .ok page)] ∧ (onPage s page).1.pages = s.pages + 1 := by
      unfold onPage
      split <;> exact ⟨rfl, rfl⟩
    rw [paged] at grown
    refine ⟨by rw [grown.2, grown.1, counted]; simp, _, grown.1, fun more => ?_⟩
    rw [place grown.1 more]
    exact ran
  | error fault =>
    rw [answered] at ran
    cases fault with
    | other e => cases ran
    | resync =>
      cases chosen : resyncTo with
      | error fault =>
        rw [chosen] at ran
        cases ran
      | ok target =>
        rw [chosen] at ran
        cases ran
        refine ⟨by simp [counted], _, rfl, fun more => ?_⟩
        rw [place rfl more]
        rfl

theorem loop_only {left : Nat} (counted : s.pages = s.asked.length) (ran : loop env resyncTo left s = .ok out) :
    ∃ more, out.asked = s.asked ++ more ∧ loop (env.only out.asked) resyncTo left s = .ok out := by
  induction left generalizing s with
  | zero =>
    cases ran
    exact ⟨[], by simp, rfl⟩
  | succ left ih =>
    rw [loop] at ran ⊢
    have late (asked : List (String × DeltaReply)) : outOfTime (env.only asked) s.pages = outOfTime env s.pages := rfl
    simp only [late] at ran ⊢
    split at ran
    · rename_i stops
      cases ran
      rw [if_pos stops]
      exact ⟨[], by simp, rfl⟩
    · rename_i goesOn
      rw [if_neg goesOn]
      cases stepped : round env resyncTo s with
      | error fault =>
        rw [stepped] at ran
        cases ran
      | ok found =>
        obtain ⟨next, stop⟩ := found
        rw [stepped, Result.ok_bind] at ran
        obtain ⟨further, reply, grown, again⟩ := round_only counted stepped
        cases stop with
        | true =>
          cases ran
          have whole := again []
          rw [List.append_nil] at whole
          exact ⟨_, grown, by rw [whole]; rfl⟩
        | false =>
          obtain ⟨more, reached, rest⟩ := ih further ran
          have whole := again more
          rw [← reached] at whole
          refine ⟨(s.url, reply) :: more, by rw [reached, grown]; simp, ?_⟩
          rw [whole]
          exact rest

theorem finish_asked {P : Platform} {outcome : Outcome} (finished : finish P env s = .ok outcome) :
    outcome.asked = s.asked := by
  unfold finish at finished
  dsimp only at finished
  split at finished
  · cases saved : save P (env.order s.idx) env.nowSecs s.target s.idx with
    | error fault =>
      rw [saved] at finished
      cases finished
    | ok ops =>
      rw [saved] at finished
      cases finished
      rfl
  · cases finished
    rfl

theorem runInner_only {P : Platform} {files : Files} {out : Outcome} (ran : runInner P env files = .ok out) :
    runInner P (env.only out.asked) files = .ok out := by
  unfold runInner at ran ⊢
  cases live : load P files indexFile with
  | error fault =>
    rw [live] at ran
    cases ran
  | ok found =>
    cases rebuild : load P files rebuildFile with
    | error fault =>
      rw [live, rebuild] at ran
      cases ran
    | ok shadow =>
      rw [live, rebuild, Result.ok_bind, Result.ok_bind] at ran
      rw [Result.ok_bind, Result.ok_bind]
      change (loop env (resyncTarget P files) env.syncMaxPages (begin env (rewriteDue P files)
        (shadow.getD (found.getD Index.empty)) (if shadow.isSome then rebuildFile else indexFile)) >>= finish P env) = _
        at ran
      change (loop (env.only out.asked) (resyncTarget P files) env.syncMaxPages (begin env (rewriteDue P files)
        (shadow.getD (found.getD Index.empty)) (if shadow.isSome then rebuildFile else indexFile)) >>=
          finish P (env.only out.asked)) = _
      generalize shadow.getD (found.getD Index.empty) = idx at ran ⊢
      generalize (if shadow.isSome then rebuildFile else indexFile) = target at ran ⊢
      cases looped : loop env (resyncTarget P files) env.syncMaxPages (begin env (rewriteDue P files) idx target) with
      | error fault =>
        rw [looped] at ran
        cases ran
      | ok s =>
        rw [looped, Result.ok_bind] at ran
        obtain ⟨_, _, again⟩ := loop_only rfl looped
        rw [finish_asked ran, again, Result.ok_bind]
        exact ran

end Only

end Sync

end OneDriveDavfs
