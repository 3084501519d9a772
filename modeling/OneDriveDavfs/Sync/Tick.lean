import OneDriveDavfs.Graph.Delta
import OneDriveDavfs.Snapshot.Store

/-! One sync tick: `run_inner` of `src/sync.rs`.

A tick fetches delta pages into the index it started from, saves it when it
differs from its file, and puts a finished rebuild in the place of the live
snapshot. The statistics file and the figures of the report that come from the
clock are left out.
-/

set_option autoImplicit false

namespace OneDriveDavfs

open Library.Wire Snapshot

/-- The index of `snapshot::load(..)` as the resync branch looks at it. -/
def Index.worthServing (idx : Index) : Bool := idx.crawlComplete || idx.root.isSome

def Index.takePage (idx : Index) (page : DeltaPage) : Index :=
  let idx := page.items.foldl Index.apply idx
  match page.nextLink with
  | some next => { idx with pendingNextLink := some next, crawlComplete := false }
  | none => Index.sweepOrphans
      { idx with
        pendingNextLink := none
        deltaToken := page.deltaToken <|> idx.deltaToken
        crawlComplete := true }

/-- `generation.saturating_add(1)`. -/
def nextGeneration (generation : UInt64) : UInt64 := UInt64.ofNat (min (generation.toNat + 1) (2 ^ 64 - 1))

def Index.restarted (idx : Index) : Index := { Index.empty with generation := nextGeneration idx.generation }

def Index.cursor (idx : Index) (driveBase : String) : String :=
  (idx.pendingNextLink <|> idx.deltaToken).getD (Graph.initialDeltaUrl driveBase)

namespace Sync

/-- The settings, the clocks, Graph's answer to the n-th request of the tick,
and the order in which a node map is walked. -/
structure Env where
  driveBase : String
  syncMaxPages : Nat
  somePage : 0 < syncMaxPages
  syncBudgetMs : Nat
  nowMs : Nat → Nat
  delta : Nat → String → DeltaReply
  nowSecs : UInt64
  order : Index → List Id
  enumerates : ∀ idx, Enumerates (order idx) idx

def Env.steady (syncMaxPages : Nat) (somePage : 0 < syncMaxPages) (nowSecs : UInt64)
    (delta : Nat → String → DeltaReply) : Env where
  driveBase := "me/drive"
  syncMaxPages := syncMaxPages
  somePage := somePage
  syncBudgetMs := 20000
  nowMs := fun _ => 0
  delta := delta
  nowSecs := nowSecs
  order := fun idx => idx.nodes.keys
  enumerates := enumerates_keys

structure Loop where
  idx : Index
  url : String
  pages : Nat
  applied : Nat
  dirty : Bool
  resync : Bool
  complete : Bool
  target : String
  asked : List (String × DeltaReply)

structure Report where
  applied : Nat
  pages : Nat
  complete : Bool
  resync : Bool
  hasToken : Bool
  target : String
  deriving DecidableEq, Repr

structure Outcome where
  report : Report
  ops : List FileOp
  asked : List (String × DeltaReply)

def onPage (s : Loop) (page : DeltaPage) : Loop × Bool :=
  let idx := page.items.foldl Index.apply s.idx
  let dirty := s.dirty || !page.items.isEmpty
  let applied := s.applied + page.items.length
  match page.nextLink with
  | some next =>
    ({ s with
      idx := s.idx.takePage page, url := next, pages := s.pages + 1, applied, complete := false
      dirty := dirty || idx.pendingNextLink != some next
      asked := s.asked ++ [(s.url, .ok page)] }, false)
  | none =>
    ({ s with
      idx := s.idx.takePage page, pages := s.pages + 1, applied, complete := true
      dirty := dirty || (idx.deltaToken != page.deltaToken || idx.pendingNextLink.isSome)
      asked := s.asked ++ [(s.url, .ok page)] }, true)

/-- Where a crawl that starts over is saved: beside a live snapshot that is
worth serving, else in its place. -/
def resyncTarget (P : Platform) (files : Files) : Result String :=
  match load P files indexFile with
  | .ok (some live) => .ok (if live.worthServing then rebuildFile else indexFile)
  | .ok none | .error (.error _) => .ok indexFile
  | .error .trap => .error .trap

/-- A demand to start over. No file changes in the loop, so whenever the live
snapshot is read again for `resyncTo` it says the same. -/
def onResync (env : Env) (resyncTo : Result String) (s : Loop) : Result Loop := do
  let target ← resyncTo
  return { s with
    idx := s.idx.restarted, url := Graph.initialDeltaUrl env.driveBase, pages := s.pages + 1
    dirty := true, resync := true, complete := false, target
    asked := s.asked ++ [(s.url, .error .resync)] }

def round (env : Env) (resyncTo : Result String) (s : Loop) : Result (Loop × Bool) :=
  match env.delta s.pages s.url with
  | .ok page => .ok (onPage s page)
  | .error .resync => do
    let s ← onResync env resyncTo s
    return (s, false)
  | .error (.other e) => .error (.error e)

/-- `now_ms().saturating_sub(started) >= sync_budget_ms && pages > 0`; the
clock was read once before the loop and is read once in every round. -/
def outOfTime (env : Env) (pages : Nat) : Bool :=
  decide (env.syncBudgetMs ≤ env.nowMs (pages + 1) - env.nowMs 0) && decide (0 < pages)

/-- Every round counts a page, so the pages that are left bound the rounds. -/
def loop (env : Env) (resyncTo : Result String) : Nat → Loop → Result Loop
  | 0, s => .ok s
  | left + 1, s =>
    if outOfTime env s.pages then .ok s
    else do
      let (s, stop) ← round env resyncTo s
      if stop then return s else loop env resyncTo left s

/-- Snapshots from before the totals are rewritten once. -/
def rewriteDue (P : Platform) (files : Files) : Bool :=
  match readMeta P files.host with
  | .ok (some m) => m.builtAt == 0 || (m.totalDirs == 0 && m.crawlComplete)
  | _ => false

def begin (env : Env) (due : Bool) (idx : Index) (target : String) : Loop where
  idx := idx
  url := idx.cursor env.driveBase
  pages := 0
  applied := 0
  dirty := due
  resync := false
  complete := idx.crawlComplete && idx.pendingNextLink.isNone
  target := target
  asked := []

def finish (P : Platform) (env : Env) (s : Loop) : Result Outcome := do
  let saved ← if s.dirty then save P (env.order s.idx) env.nowSecs s.target s.idx else pure []
  let swap := s.complete && s.target == rebuildFile
  return {
    report := ⟨s.applied, s.pages, s.complete, s.resync, s.idx.deltaToken.isSome,
      if swap then indexFile else s.target⟩
    ops := saved ++ (if swap then [.rename rebuildFile indexFile] else [])
    asked := s.asked }

def runInner (P : Platform) (env : Env) (files : Files) : Result Outcome := do
  let live ← load P files indexFile
  let rebuild ← load P files rebuildFile
  let target := if rebuild.isSome then rebuildFile else indexFile
  let idx := rebuild.getD (live.getD Index.empty)
  let s ← loop env (resyncTarget P files) env.syncMaxPages (begin env (rewriteDue P files) idx target)
  finish P env s

/-- The directory after a tick of which the first `cut` operations were done. -/
def tick (P : Platform) (env : Env) (files : Files) (cut : Nat) : Files :=
  match runInner P env files with
  | .ok out => files.after (out.ops.take cut)
  | .error _ => files

end Sync

end OneDriveDavfs
