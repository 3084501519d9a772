import OneDriveDavfs.Index.Progress
import OneDriveDavfs.Sync.Tick

/-! What the loop of a tick comes to.

The variables of the loop are functions of the index it started from and of
the replies so far; one round adds one reply. So a tick is its exchange with
Graph: every request goes to the link the index stands at, and no request
follows a final page.
-/

set_option autoImplicit false

namespace OneDriveDavfs

open Library.Wire Snapshot

def Index.take (idx : Index) : DeltaReply → Index
  | .ok page => idx.takePage page
  | .error .resync => idx.restarted
  | .error (.other _) => idx

namespace Sync

def isFinal : DeltaReply → Bool
  | .ok page => page.nextLink.isNone
  | .error _ => false

def isResync : DeltaReply → Bool
  | .error .resync => true
  | _ => false

def marks (idx : Index) : DeltaReply → Bool
  | .ok page => !page.items.isEmpty || match page.nextLink with
    | some next => idx.pendingNextLink != some next
    | none => idx.deltaToken != page.deltaToken || idx.pendingNextLink.isSome
  | .error _ => true

def changed : Index → List DeltaReply → Bool
  | _, [] => false
  | idx, reply :: rest => marks idx reply || changed (idx.take reply) rest

def allowed (env : Env) : Nat → Nat → Nat
  | 0, _ => 0
  | left + 1, pages => if outOfTime env pages then 0 else allowed env left (pages + 1) + 1

def Env.quota (env : Env) : Nat := allowed env env.syncMaxPages 0

def replies (asked : List (String × DeltaReply)) : List DeltaReply := asked.map Prod.snd

def replay (start : Index) (asked : List (String × DeltaReply)) : Index := (replies asked).foldl Index.take start

/-- Requests in the order they were made, each to the link the index stood at. -/
inductive Exchange (env : Env) (start : Index) : List (String × DeltaReply) → Prop
  | nil : Exchange env start []
  | snoc {asked : List (String × DeltaReply)} {reply : DeltaReply} : Exchange env start asked →
      (∀ r ∈ replies asked, isFinal r = false) →
      env.delta asked.length ((replay start asked).cursor env.driveBase) = reply →
      (∀ e, reply ≠ .error (.other e)) →
      Exchange env start (asked ++ [((replay start asked).cursor env.driveBase, reply)])

section Functions
variable {start : Index} {asked : List (String × DeltaReply)} {url : String} {reply : DeltaReply}

theorem replies_snoc : replies (asked ++ [(url, reply)]) = replies asked ++ [reply] := by
  simp [replies]

theorem replay_snoc : replay start (asked ++ [(url, reply)]) = (replay start asked).take reply := by
  rw [replay, replies_snoc, List.foldl_append]
  rfl

theorem changed_append (idx : Index) (front : List DeltaReply) (reply : DeltaReply) :
    changed idx (front ++ [reply]) = (changed idx front || marks (front.foldl Index.take idx) reply) := by
  induction front generalizing idx with
  | nil => simp [changed]
  | cons first rest ih =>
    rw [List.cons_append, changed, ih, changed, Bool.or_assoc]
    rfl

end Functions

/-- The loop's variables, as functions of the replies. -/
structure Replayed (env : Env) (due : Bool) (resyncTo : Result String) (start : Index) (target : String) (s : Loop) :
    Prop where
  exchange : Exchange env start s.asked
  idx : s.idx = replay start s.asked
  pages : s.pages = s.asked.length
  resync : s.resync = (replies s.asked).any isResync
  complete : s.asked ≠ [] → s.complete = (replies s.asked).getLast?.any isFinal
  dirty : s.dirty = (due || changed start (replies s.asked))
  kept : s.resync = false → s.target = target
  moved : s.resync = true → resyncTo = .ok s.target

section Round
variable {env : Env} {due : Bool} {resyncTo : Result String} {start : Index} {target : String} {s out : Loop}

structure Going (env : Env) (due : Bool) (resyncTo : Result String) (start : Index) (target : String) (s : Loop) : Prop
    extends Replayed env due resyncTo start target s where
  notFinal : ∀ r ∈ replies s.asked, isFinal r = false
  url : s.url = s.idx.cursor env.driveBase

theorem going_begin : Going env due resyncTo start target (begin env due start target) where
  exchange := .nil
  idx := rfl
  pages := rfl
  resync := rfl
  complete := fun nonempty => absurd rfl nonempty
  dirty := by simp [begin, replies, changed]
  kept := fun _ => rfl
  moved := by simp [begin]
  notFinal := by simp [begin, replies]
  url := rfl

theorem Going.exchange_snoc (going : Going env due resyncTo start target s) {reply : DeltaReply}
    (answered : env.delta s.pages s.url = reply) (usable : ∀ e, reply ≠ .error (.other e)) :
    Exchange env start (s.asked ++ [(s.url, reply)]) := by
  rw [going.url, going.idx]
  refine .snoc going.exchange going.notFinal ?_ usable
  rw [← going.idx, ← going.url, ← going.pages]
  exact answered

theorem Going.marks_page (going : Going env due resyncTo start target s) (page : DeltaPage) :
    (s.dirty || !page.items.isEmpty || match page.nextLink with
      | some next => (page.items.foldl Index.apply s.idx).pendingNextLink != some next
      | none => (page.items.foldl Index.apply s.idx).deltaToken != page.deltaToken ||
          (page.items.foldl Index.apply s.idx).pendingNextLink.isSome) =
      (due || changed start (replies s.asked ++ [.ok page])) := by
  have progress := Index.progress_applyAll page.items s.idx
  simp only [Index.progress, Prod.mk.injEq] at progress
  rw [progress.1, progress.2.1, going.dirty, changed_append]
  have idx : (replies s.asked).foldl Index.take start = s.idx := going.idx.symm
  rw [idx, marks, Bool.or_assoc, Bool.or_assoc]

theorem Going.onPage_next (going : Going env due resyncTo start target s) {page : DeltaPage} {next : String}
    (answered : env.delta s.pages s.url = .ok page) (link : page.nextLink = some next) :
    (onPage s page).2 = false ∧ Going env due resyncTo start target (onPage s page).1 := by
  have marks := going.marks_page page
  have asked := @replies_snoc s.asked s.url (.ok page)
  simp only [link] at marks
  refine ⟨by simp [onPage, link], ?_⟩
  simp only [onPage, link]
  refine ⟨⟨going.exchange_snoc answered (by simp), ?_, ?_, ?_, ?_, ?_, going.kept, going.moved⟩, ?_, ?_⟩
  · rw [replay_snoc, going.idx]
    rfl
  · simp [going.pages]
  · simp [asked, going.resync, isResync]
  · simp [asked, isFinal, link]
  · rw [asked, ← marks]
  · intro r member
    rw [asked] at member
    rcases List.mem_append.mp member with before | last
    · exact going.notFinal r before
    · rw [List.mem_singleton.mp last, isFinal, link]
      rfl
  · simp [Index.cursor, Index.takePage, link]

theorem Going.onPage_final (going : Going env due resyncTo start target s) {page : DeltaPage}
    (answered : env.delta s.pages s.url = .ok page) (link : page.nextLink = none) :
    (onPage s page).2 = true ∧ Replayed env due resyncTo start target (onPage s page).1 ∧
      (replies (onPage s page).1.asked).getLast?.any isFinal = true := by
  have marks := going.marks_page page
  have asked := @replies_snoc s.asked s.url (.ok page)
  simp only [link] at marks
  refine ⟨by simp [onPage, link], ?_⟩
  simp only [onPage, link]
  refine ⟨⟨going.exchange_snoc answered (by simp), ?_, ?_, ?_, ?_, ?_, going.kept, going.moved⟩, ?_⟩
  · rw [replay_snoc, going.idx]
    rfl
  · simp [going.pages]
  · simp [asked, going.resync, isResync]
  · simp [asked, isFinal, link]
  · rw [asked, ← marks]
  · simp [asked, isFinal, link]

theorem Going.onResync (going : Going env due resyncTo start target s)
    (answered : env.delta s.pages s.url = .error .resync) (restarted : Sync.onResync env resyncTo s = .ok out) :
    Going env due resyncTo start target out ∧ out.asked.length = s.asked.length + 1 := by
  have asked := @replies_snoc s.asked s.url (.error .resync)
  unfold Sync.onResync at restarted
  cases chosen : resyncTo with
  | error e =>
    rw [chosen] at restarted
    cases restarted
  | ok place =>
    rw [chosen] at restarted
    cases restarted
    -- after a resync nothing of the replies before it counts
    refine ⟨⟨⟨going.exchange_snoc answered (by simp), ?_, ?_, ?_, ?_, ?_, ?_, ?_⟩, ?_, ?_⟩, by simp⟩
    · rw [replay_snoc, going.idx]
      rfl
    · simp [going.pages]
    · simp [asked, isResync]
    · simp [asked, isFinal]
    · rw [asked, changed_append]
      simp [marks]
    · simp
    · exact fun _ => rfl
    · intro r member
      dsimp only at member
      rw [asked] at member
      rcases List.mem_append.mp member with before | last
      · exact going.notFinal r before
      · rw [List.mem_singleton.mp last]
        rfl
    · simp [Index.cursor, Index.restarted, Index.empty]

/-- What a round can do: go on, or leave the loop. -/
theorem Going.round (going : Going env due resyncTo start target s) {stop : Bool}
    (ran : Sync.round env resyncTo s = .ok (out, stop)) :
    Replayed env due resyncTo start target out ∧ out.asked.length = s.asked.length + 1 ∧
      (stop = false → Going env due resyncTo start target out) ∧
      (stop = true → (replies out.asked).getLast?.any isFinal = true) := by
  unfold Sync.round at ran
  cases answered : env.delta s.pages s.url with
  | ok page =>
    rw [answered] at ran
    obtain ⟨first, second⟩ := Prod.ext_iff.mp (Except.ok.inj ran)
    subst first second
    -- either branch of `onPage` notes the request it answers
    have grown : (onPage s page).1.asked.length = s.asked.length + 1 := by
      unfold onPage
      dsimp only
      split <;> simp
    cases link : page.nextLink with
    | some next =>
      obtain ⟨goes, further⟩ := going.onPage_next answered link
      exact ⟨further.toReplayed, grown, fun _ => further, fun stops => by simp [goes] at stops⟩
    | none =>
      obtain ⟨stops, done, last⟩ := going.onPage_final answered link
      exact ⟨done, grown, fun goes => by simp [stops] at goes, fun _ => last⟩
  | error e =>
    rw [answered] at ran
    cases e with
    | other message => cases ran
    -- the resync starts the index over, and the loop goes on from there
    | resync =>
      cases restarted : Sync.onResync env resyncTo s with
      | error e =>
        rw [restarted] at ran
        cases ran
      | ok next =>
        rw [restarted] at ran
        cases ran
        obtain ⟨further, grown⟩ := going.onResync answered restarted
        exact ⟨further.toReplayed, grown, fun _ => further, fun stops => by cases stops⟩

/-- The loop as a whole; it makes as many requests as there are pages to fetch
at most, and one at least when none was made before. -/
theorem loop_replayed {left : Nat} (going : Going env due resyncTo start target s)
    (ran : loop env resyncTo left s = .ok out) :
    Replayed env due resyncTo start target out ∧ out.asked.length ≤ s.asked.length + left ∧
      s.asked.length ≤ out.asked.length ∧ (0 < left → s.pages = 0 → out.asked ≠ []) ∧
      ((replies out.asked).getLast?.any isFinal = false →
        out.asked.length = s.asked.length + allowed env left s.pages) := by
  have start_pages := going.pages
  induction left generalizing s with
  | zero =>
    cases ran
    exact ⟨going.toReplayed, Nat.le_refl _, Nat.le_refl _, fun none => absurd none (Nat.lt_irrefl 0), fun _ => rfl⟩
  | succ left ih =>
    rw [loop] at ran
    split at ran
    · rename_i late
      cases ran
      refine ⟨going.toReplayed, Nat.le_add_right _ _, Nat.le_refl _, fun _ first => ?_, fun _ => ?_⟩
      · simp [outOfTime, first] at late
      · rw [allowed, if_pos late]
        rfl
    · rename_i inTime
      cases stepped : Sync.round env resyncTo s with
      | error e =>
        rw [stepped] at ran
        cases ran
      | ok next =>
        obtain ⟨next, stop⟩ := next
        rw [stepped] at ran
        obtain ⟨done, grown, further, stopped⟩ := going.round stepped
        have some : ∀ {list : List (String × DeltaReply)}, s.asked.length + 1 ≤ list.length → list ≠ [] := by
          rintro list bound rfl
          exact absurd bound (by simp)
        -- the loop goes on exactly when the round neither ended the crawl nor failed
        cases stop with
        | true =>
          cases ran
          refine ⟨done, by omega, by omega, fun _ _ => some (by omega), fun notFinal => ?_⟩
          rw [stopped rfl] at notFinal
          cases notFinal
        | false =>
          have going := further rfl
          obtain ⟨replayed, atMost, atLeast, _, exactly⟩ := ih going ran going.pages
          refine ⟨replayed, by omega, by omega, fun _ _ => some (by omega), fun notFinal => ?_⟩
          have pages : next.pages = s.pages + 1 := by
            rw [going.pages, grown]
            exact congrArg (· + 1) start_pages.symm
          rw [exactly notFinal, grown, allowed, if_neg inTime, pages]
          omega

end Round

end Sync

end OneDriveDavfs
