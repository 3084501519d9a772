import OneDriveDavfs.Graph.Frame
import OneDriveDavfs.Guest.Config
import OneDriveDavfs.Guest.Surroundings
import OneDriveDavfs.Sync.Run

/-! A sync tick as the daemon runs it: `run_inner` of `src/sync.rs`, request by request.

Between two requests the token file may be renewed, and every write may fail
or be the last thing that happens. What is left of the snapshots is what the
plan of a tick leaves when it is cut short somewhere, for the replies that
Graph really gave.
-/

set_option autoImplicit false

namespace OneDriveDavfs

open Library Library.Wire Library.Effect Snapshot

namespace Guest

section Tick
variable (ext : Externals) (host : Surroundings) (config : GuestConfig)

def nowMs (reading : Nat) : UInt64 := host.monotonic reading / 1000000

def outOfTime (pages : Nat) : Bool :=
  decide (config.syncBudgetMs ≤ Auth.saturatingSub (nowMs host (pages + 1)) (nowMs host 0)) && decide (0 < pages)

def delta (url : String) : Daemon DeltaReply :=
  Graph.delta ext.token ext.graph host.toEnvironment config.toConfig url

/-- The live snapshot is read again to see where the new crawl goes. -/
def resyncTarget : Daemon String := do
  let world ← get
  ofResult (Sync.resyncTarget (wasm32 ext.index) world.files)

def onResync (s : Sync.Loop) : Daemon Sync.Loop := do
  let target ← resyncTarget ext
  return { s with
    idx := s.idx.restarted, url := Graph.initialDeltaUrl config.driveBase, pages := s.pages + 1
    dirty := true, resync := true, complete := false, target
    asked := s.asked ++ [(s.url, .error .resync)] }

/-- The body of the loop; the flag says that the loop is left. -/
def round (s : Sync.Loop) : Daemon (Sync.Loop × Bool) := do
  match ← delta ext host config s.url with
  | .ok page => return Sync.onPage s page
  | .error .resync => do
    let s ← onResync ext config s
    return (s, false)
  | .error (.other e) => throw (.failed e)

/-- Every round counts a page, so the pages that are left bound the rounds. -/
def loop : Nat → Sync.Loop → Daemon Sync.Loop
  | 0, s => return s
  | left + 1, s =>
    if outOfTime host config s.pages then return s
    else do
      let (s, stop) ← round ext host config s
      if stop then return s else loop left s

/-- `if let Ok(Some(meta)) = snapshot::read_meta(..)`. -/
def rewriteDue : Daemon Bool := do
  match ← attempt (readMeta ext) with
  | .ok (some m) => return m.builtAt == 0 || (m.totalDirs == 0 && m.crawlComplete)
  | _ => return false

def statsOf (report : Sync.Report) (durationMs : UInt64) (itemsPerSec : Json.Literal) (atSecs : UInt64) : SyncStats where
  applied := UInt64.ofNat report.applied
  pages := UInt64.ofNat report.pages
  complete := report.complete
  durationMs
  resync := report.resync
  itemsPerSec
  atSecs
  hasToken := report.hasToken
  target := report.target

def saveDirty (s : Sync.Loop) : Daemon Unit := if s.dirty then save ext host s.target s.idx else return ()

def swapRebuild (s : Sync.Loop) : Daemon Unit :=
  if s.complete && s.target == rebuildFile then rename host rebuildFile indexFile else return ()

def settle (s : Sync.Loop) : Daemon Unit := do
  saveDirty ext host s
  swapRebuild host s

def reportOf (s : Sync.Loop) : Sync.Report :=
  ⟨s.applied, s.pages, s.complete, s.resync, s.idx.deltaToken.isSome,
    if s.complete && s.target == rebuildFile then indexFile else s.target⟩

/-- The figures are saved as well, and an error of that is dropped. -/
def record (s : Sync.Loop) : Daemon SyncStats := do
  let durationMs := Auth.saturatingSub (nowMs host (s.pages + 2)) (nowMs host 0)
  let now ← nowSecs host.toEnvironment
  let stats := statsOf (reportOf s) durationMs (ext.itemsPerSec s.applied durationMs) now
  let _ ← attempt (saveStats ext host stats)
  return stats

def start (due : Bool) (idx : Index) (target : String) : Sync.Loop where
  idx := idx
  url := idx.cursor config.driveBase
  pages := 0
  applied := 0
  dirty := due
  resync := false
  complete := idx.crawlComplete && idx.pendingNextLink.isNone
  target := target
  asked := []

/-- Before the loop: a rebuild comes before the live snapshot. -/
def prepare : Daemon Sync.Loop := do
  let live ← load ext indexFile
  let rebuild ← load ext rebuildFile
  let due ← rewriteDue ext
  return start config due (rebuild.getD (live.getD Index.empty)) (if rebuild.isSome then rebuildFile else indexFile)

def runInner : Daemon SyncStats := do
  let s ← prepare ext config
  let s ← loop ext host config config.syncMaxPages s
  settle ext host s
  record ext host s

/-- What is left of a tick with this many pages to come. -/
def resume (pages : Nat) (s : Sync.Loop) : Daemon SyncStats := do
  let s ← loop ext host config pages s
  settle ext host s
  record ext host s

section First
variable {ext host config}

/-- A tick goes on from its first page. -/
theorem runInner_of_first {world between left : World} {s : Sync.Loop} {page : DeltaPage} {pages : Nat}
    (budget : config.syncMaxPages = pages + 1) (prepared : prepare ext config world = (.ok s, between))
    (inTime : outOfTime host config s.pages = false)
    (given : delta ext host config s.url between = (.ok (.ok page), left)) (more : (Sync.onPage s page).2 = false) :
    runInner ext host config world = resume ext host config pages (Sync.onPage s page).1 left := by
  have rounds : loop ext host config (pages + 1) s between =
      loop ext host config pages (Sync.onPage s page).1 left := by
    rw [loop, inTime, if_neg (by decide), round, bind_apply, bind_apply, given]
    change (if (Sync.onPage s page).2 = true then pure (Sync.onPage s page).1
      else loop ext host config pages (Sync.onPage s page).1) left = _
    rw [more, if_neg (by decide)]
  unfold runInner resume
  rw [bind_apply, prepared]
  dsimp only
  rw [budget, bind_apply, bind_apply, rounds]

end First

/-! ## The plan of a tick -/

def SameSnapshots (files other : Files) : Prop := ∀ n, Sync.SnapshotName n → other n = files n

/-- Requests to these links, one after the other, were answered like this. -/
inductive Exchanges : World → List (String × DeltaReply) → World → Prop where
  | nil (world : World) : Exchanges world [] world
  | cons {world left : World} {url : String} {reply : DeltaReply} {rest : List (String × DeltaReply)} :
      (delta ext host config url).outcome world = .ok reply →
      Exchanges ((delta ext host config url).after world) rest left → Exchanges world ((url, reply) :: rest) left

/-- The settings and clocks of the request, with these replies. -/
def planEnv (asked : List (String × DeltaReply)) (now : UInt64) : Sync.Env where
  driveBase := config.driveBase
  syncMaxPages := config.syncMaxPages
  somePage := config.somePage
  syncBudgetMs := config.syncBudgetMs.toNat
  nowMs n := (nowMs host n).toNat
  delta n _ := (asked[n]?.map Prod.snd).getD (.error .resync)
  nowSecs := now
  order := host.order
  enumerates := host.enumerates

/-- The tick did the first steps of its plan, all of them where it returned. -/
structure Follows (world : World) (out : Sync.Outcome) (cut : Nat) : Prop where
  planned : ∃ now, Sync.runInner (wasm32 ext.index) (planEnv host config out.asked now) world.files = .ok out
  asked : ∃ between, Exchanges ext host config world out.asked between
  files : SameSnapshots (world.files.after (out.ops.take cut)) ((runInner ext host config).after world).files
  returned : ∀ stats, (runInner ext host config).outcome world = .ok stats →
    out.ops.length ≤ cut ∧ ∃ durationMs itemsPerSec atSecs, stats = statsOf out.report durationMs itemsPerSec atSecs

end Tick

/-! ## The same snapshots -/

section Same
variable {files other third : Files}

theorem SameSnapshots.refl (files : Files) : SameSnapshots files files := fun _ _ => rfl

theorem SameSnapshots.trans (first : SameSnapshots files other) (second : SameSnapshots other third) :
    SameSnapshots files third :=
  fun n snapshot => (second n snapshot).trans (first n snapshot)

theorem snapshotName_ne_tokenFile {n : String} (snapshot : Sync.SnapshotName n) : n ≠ Auth.tokenFile := by
  rcases snapshot with rfl | rfl <;> decide

theorem SameSnapshots.of_asks {json : Graph.GraphJson} {env : Environment} {config : Config}
    {allowed : Graph.Call → Prop} {s t : World} (asks : Graph.Asks json env config allowed s t) :
    SameSnapshots s.files t.files :=
  fun n snapshot => asks.files n (snapshotName_ne_tokenFile snapshot)

theorem SameSnapshots.write (same : SameSnapshots files other) (name : String) (bytes : Bytes) :
    SameSnapshots (files.after (StateFile.writeAtomic name bytes)) (other.after (StateFile.writeAtomic name bytes)) := by
  intro n snapshot
  rw [StateFile.after_writeAtomic, StateFile.after_writeAtomic, same n snapshot]

theorem SameSnapshots.swap (same : SameSnapshots files other) :
    SameSnapshots (files.after [.rename rebuildFile indexFile]) (other.after [.rename rebuildFile indexFile]) := by
  intro n snapshot
  simp only [Files.after, List.foldl_cons, List.foldl_nil, FileOp.run, same rebuildFile (.inr rfl)]
  cases files rebuildFile with
  | none => exact same n snapshot
  | some bytes => simp only [same n snapshot]

theorem SameSnapshots.load_eq (same : SameSnapshots files other) {P : Platform} {name : String}
    (snapshot : Sync.SnapshotName name) : Snapshot.load P other name = Snapshot.load P files name :=
  Sync.load_congr (same name snapshot)

theorem SameSnapshots.resyncTarget_eq (same : SameSnapshots files other) {P : Platform} :
    Sync.resyncTarget P other = Sync.resyncTarget P files := by
  unfold Sync.resyncTarget
  rw [same.load_eq (.inl rfl)]

end Same

/-! ## The loop -/

section Loop
variable {ext : Externals} {host : Surroundings} {config : GuestConfig} {s out : Sync.Loop} {world : World}
  {files : Files}

/-- Between the two worlds the daemon made only these calls of Graph. -/
abbrev Asking (ext : Externals) (host : Surroundings) (config : GuestConfig) (allowed : Graph.Call → Prop) :
    World → World → Prop := Graph.Asks ext.graph host.toEnvironment config.toConfig allowed

theorem along_delta (url : String) : Along (Asking ext host config Graph.Call.syncs) (delta ext host config url) :=
  Graph.along_delta trivial

theorem after_onResync : (onResync ext config s).after world = world := by
  rw [onResync]
  cases chosen : (resyncTarget ext).outcome world with
  | error stop =>
    rw [after_bind_error _ chosen, resyncTarget, after_bind_ok _ (outcome_get world), after_get, after_ofResult]
  | ok target =>
    rw [after_bind_ok _ chosen, after_pure, resyncTarget, after_bind_ok _ (outcome_get world), after_get, after_ofResult]

theorem after_round : (round ext host config s).after world = (delta ext host config s.url).after world := by
  rw [round]
  cases asked : (delta ext host config s.url).outcome world with
  | error stop => rw [after_bind_error _ asked]
  | ok reply =>
    rw [after_bind_ok _ asked]
    match reply with
    | .ok page => rfl
    | .error (.other e) => rfl
    | .error .resync =>
      dsimp only
      cases begun : (onResync ext config s).outcome ((delta ext host config s.url).after world) with
      | error stop => rw [after_bind_error _ begun, after_onResync]
      | ok next => rw [after_bind_ok _ begun, after_onResync, after_pure]

/-- A round that returns got a reply, and is the planned round for it. -/
theorem round_spec {next : Sync.Loop} {stop : Bool} (held : SameSnapshots files world.files)
    (ran : (round ext host config s).outcome world = .ok (next, stop)) :
    ∃ reply, (delta ext host config s.url).outcome world = .ok reply ∧ next.asked = s.asked ++ [(s.url, reply)] ∧
      next.pages = s.pages + 1 ∧
      ∀ env : Sync.Env, env.driveBase = config.driveBase → env.delta s.pages s.url = reply →
        Sync.round env (Sync.resyncTarget (wasm32 ext.index) files) s = .ok (next, stop) := by
  rw [round] at ran
  cases asked : (delta ext host config s.url).outcome world with
  | error stop =>
    rw [outcome_bind_error _ asked] at ran
    cases ran
  | ok reply =>
    rw [outcome_bind_ok _ asked] at ran
    refine ⟨reply, rfl, ?_⟩
    match reply with
    | .error (.other e) => cases ran
    | .ok page =>
      have paged := Except.ok.inj ran
      have counted : (Sync.onPage s page).1.asked = s.asked ++ [(s.url, .ok page)] ∧
          (Sync.onPage s page).1.pages = s.pages + 1 := by
        unfold Sync.onPage
        split <;> exact ⟨rfl, rfl⟩
      rw [paged] at counted
      refine ⟨counted.1, counted.2, fun env _ answered => ?_⟩
      rw [Sync.round, answered]
      exact congrArg Except.ok paged
    | .error .resync =>
      dsimp only at ran
      have kept : SameSnapshots files ((delta ext host config s.url).after world).files :=
        held.trans (.of_asks (along_delta s.url world))
      cases chosen : (resyncTarget ext).outcome ((delta ext host config s.url).after world) with
      | error stop =>
        have failed : (onResync ext config s).outcome ((delta ext host config s.url).after world) = .error stop := by
          rw [onResync, outcome_bind_error _ chosen]
        rw [outcome_bind_error _ failed] at ran
        cases ran
      | ok target =>
        have begun : (onResync ext config s).outcome ((delta ext host config s.url).after world) = .ok { s with
            idx := s.idx.restarted, url := Graph.initialDeltaUrl config.driveBase, pages := s.pages + 1
            dirty := true, resync := true, complete := false, target
            asked := s.asked ++ [(s.url, .error .resync)] } := by
          rw [onResync, outcome_bind_ok _ chosen]
          rfl
        rw [outcome_bind_ok _ begun] at ran
        cases ran
        -- the target is read from the live snapshot, which is still the one of the plan
        rw [resyncTarget, outcome_bind_ok _ (outcome_get _), after_get] at chosen
        have planned := outcome_ofResult chosen
        rw [kept.resyncTarget_eq] at planned
        refine ⟨rfl, rfl, fun env base answered => ?_⟩
        rw [Sync.round, answered]
        simp only [Sync.onResync, planned, Result.ok_bind, base]
        rfl

theorem along_round : Along (Asking ext host config Graph.Call.syncs) (round ext host config s) :=
  fun world => by rw [after_round]; exact along_delta s.url world

theorem along_loop (left : Nat) : Along (Asking ext host config Graph.Call.syncs) (loop ext host config left s) := by
  induction left generalizing s with
  | zero => exact .pure _
  | succ left ih => exact .ite (.pure _) (.bind along_round fun (s, stop) => .ite (.pure _) ih)

theorem toNat_saturatingSub (a b : UInt64) : (Auth.saturatingSub a b).toNat = a.toNat - b.toNat := by
  unfold Auth.saturatingSub
  split
  · rename_i less
    have bound := UInt64.lt_iff_toNat_lt.mp less
    simp only [UInt64.toNat_zero]
    omega
  · rename_i more
    exact UInt64.toNat_sub_of_le _ _ (UInt64.not_lt.mp more)

theorem outOfTime_planEnv (asked : List (String × DeltaReply)) (now : UInt64) (pages : Nat) :
    Sync.outOfTime (planEnv host config asked now) pages = outOfTime host config pages := by
  refine congrArg (· && decide (0 < pages)) (decide_eq_decide.mpr ?_)
  rw [UInt64.le_iff_toNat_le, toNat_saturatingSub]
  exact Iff.rfl

/-- The loop is the planned loop for the replies that came. -/
theorem loop_spec {left : Nat} (held : SameSnapshots files world.files) (counted : s.pages = s.asked.length)
    (ran : (loop ext host config left s).outcome world = .ok out) :
    ∃ more, out.asked = s.asked ++ more ∧
      Exchanges ext host config world more ((loop ext host config left s).after world) ∧
      ∀ now, Sync.loop (planEnv host config out.asked now) (Sync.resyncTarget (wasm32 ext.index) files) left s =
        .ok out := by
  induction left generalizing s world with
  | zero =>
    cases ran
    exact ⟨[], by simp, .nil _, fun now => rfl⟩
  | succ left ih =>
    rw [loop] at ran ⊢
    by_cases late : outOfTime host config s.pages = true
    · rw [if_pos late] at ran ⊢
      cases ran
      refine ⟨[], by simp, .nil _, fun now => ?_⟩
      rw [Sync.loop, outOfTime_planEnv, if_pos late]
    · rw [if_neg late] at ran ⊢
      cases stepped : (round ext host config s).outcome world with
      | error stop =>
        rw [outcome_bind_error _ stepped] at ran
        cases ran
      | ok found =>
        obtain ⟨next, stop⟩ := found
        rw [outcome_bind_ok _ stepped] at ran
        rw [after_bind_ok _ stepped]
        obtain ⟨reply, answered, asked, pages, planned⟩ := round_spec held stepped
        have first : ∀ {more : List (String × DeltaReply)} (now : UInt64),
            (planEnv host config (next.asked ++ more) now).delta s.pages s.url = reply := by
          intro more now
          simp [planEnv, asked, counted]
        cases stop with
        | true =>
          cases ran
          refine ⟨[(s.url, reply)], asked, ?_, fun now => ?_⟩
          · refine .cons answered ?_
            rw [← after_round]
            exact .nil _
          · have begins := @first [] now
            rw [List.append_nil] at begins
            rw [Sync.loop, outOfTime_planEnv, if_neg late, planned _ rfl begins]
            rfl
        | false =>
          have kept : SameSnapshots files ((round ext host config s).after world).files :=
            held.trans (.of_asks (along_round world))
          obtain ⟨more, further, exchanges, goesOn⟩ := ih kept (by rw [pages, asked, counted]; simp) ran
          refine ⟨(s.url, reply) :: more, by rw [further, asked]; simp, ?_, fun now => ?_⟩
          · refine .cons answered ?_
            rw [← after_round]
            exact exchanges
          · have begins := @first more now
            rw [← further] at begins
            rw [Sync.loop, outOfTime_planEnv, if_neg late, planned _ rfl begins]
            exact goesOn now

end Loop

/-! ## After the loop -/

section Settle
variable {ext : Externals} {host : Surroundings} {config : GuestConfig} {s : Sync.Loop} {world : World} {files : Files}

/-- An atomic write that fails or is cut short leaves the snapshots alone, also when it is one of them. -/
theorem writeAtomic_snapshots {name : String} {contents : Bytes}
    (away : ∀ n, Sync.SnapshotName n → n ≠ StateFile.tmpName name) :
    ((writeAtomic host name contents).outcome world = .ok () ∧
        ((writeAtomic host name contents).after world).files =
          world.files.after (StateFile.writeAtomic name contents)) ∨
      (∃ stop, (writeAtomic host name contents).outcome world = .error stop) ∧
        SameSnapshots world.files ((writeAtomic host name contents).after world).files := by
  rw [outcome_writeAtomic, after_writeAtomic]
  rcases @FileLayer.writeAtomic_cases name contents (host.atomic world.writes) world.files with done | ⟨stopped, kept⟩
  · exact .inl done
  · refine .inr ⟨?_, fun n snapshot => kept n (away n snapshot)⟩
    cases ended : (FileLayer.writeAtomic (host.atomic world.writes) world.files name contents).1 with
    | ok _ => exact absurd ended stopped
    | error stop => exact ⟨stop, rfl⟩

theorem save_spec {name : String} (snapshot : Sync.SnapshotName name) (idx : Index) :
    (∃ bytes, encode (wasm32 ext.index) (host.order idx) (host.clock world.readings) idx = .ok bytes ∧
        (save ext host name idx).outcome world = .ok () ∧
        ((save ext host name idx).after world).files = world.files.after (StateFile.writeAtomic name bytes)) ∨
      (∃ stop, (save ext host name idx).outcome world = .error stop) ∧
        SameSnapshots world.files ((save ext host name idx).after world).files := by
  have away : ∀ n, Sync.SnapshotName n → n ≠ StateFile.tmpName name := fun _ other => other.ne_tmp snapshot
  rw [save, outcome_bind_ok _ (outcome_nowSecs _ world), after_bind_ok _ (outcome_nowSecs _ world), after_nowSecs]
  cases encoded : encode (wasm32 ext.index) (host.order idx) (host.clock world.readings) idx with
  | error fault =>
    obtain ⟨stop, failed⟩ : ∃ stop, (ofResult (.error fault : Result Bytes)).outcome
        { world with readings := world.readings + 1 } = .error stop := by
      rcases fault with _ | _ <;> exact ⟨_, rfl⟩
    rw [outcome_bind_error _ failed, after_bind_error _ failed, after_ofResult]
    exact .inr ⟨⟨stop, rfl⟩, .refl _⟩
  | ok bytes =>
    rw [outcome_bind_ok _ (outcome_ofResult_ok bytes), after_bind_ok _ (outcome_ofResult_ok bytes), after_ofResult]
    rcases @writeAtomic_snapshots host { world with readings := world.readings + 1 } name bytes away with done | failed
    · exact .inl ⟨bytes, rfl, done⟩
    · exact .inr failed

theorem rename_spec (source dest : String) :
    ((rename host source dest).outcome world = .ok () ∧
        ((rename host source dest).after world).files = world.files.after [.rename source dest]) ∨
      (∃ stop, (rename host source dest).outcome world = .error stop) ∧
        ((rename host source dest).after world).files = world.files := by
  unfold rename
  rcases host.rename with _ | _ | _
  · exact .inr ⟨⟨_, rfl⟩, rfl⟩
  · exact .inr ⟨⟨_, rfl⟩, rfl⟩
  · exact .inl ⟨rfl, rfl⟩

def plannedSave (ext : Externals) (host : Surroundings) (s : Sync.Loop) (now : UInt64) : Result (List FileOp) :=
  if s.dirty then Snapshot.save (wasm32 ext.index) (host.order s.idx) now s.target s.idx else .ok []

def plannedSwap (s : Sync.Loop) : List FileOp :=
  if s.complete && s.target == rebuildFile then [.rename rebuildFile indexFile] else []

theorem finish_planEnv {now : UInt64} {saved : List FileOp} (planned : plannedSave ext host s now = .ok saved) :
    Sync.finish (wasm32 ext.index) (planEnv host config s.asked now) s =
      .ok ⟨reportOf s, saved ++ plannedSwap s, s.asked⟩ := by
  unfold plannedSave at planned
  unfold Sync.finish
  cases dirty : s.dirty with
  | false =>
    rw [dirty] at planned
    cases planned
    rfl
  | true =>
    rw [dirty, if_pos rfl] at planned
    rw [if_pos rfl]
    change (Snapshot.save (wasm32 ext.index) (host.order s.idx) now s.target s.idx >>= _) = _
    rw [planned]
    rfl

theorem saveDirty_spec (held : SameSnapshots files world.files) (snapshot : Sync.SnapshotName s.target) :
    (∃ saved, plannedSave ext host s (host.clock world.readings) = .ok saved ∧
        (saveDirty ext host s).outcome world = .ok () ∧
        SameSnapshots (files.after saved) ((saveDirty ext host s).after world).files) ∨
      (∃ stop, (saveDirty ext host s).outcome world = .error stop) ∧
        SameSnapshots files ((saveDirty ext host s).after world).files := by
  unfold saveDirty plannedSave
  cases dirty : s.dirty with
  | false => exact .inl ⟨[], rfl, rfl, held⟩
  | true =>
    rw [if_pos rfl, if_pos rfl]
    rcases @save_spec ext host world s.target snapshot s.idx with ⟨bytes, encoded, done, left⟩ | ⟨stopped, kept⟩
    · refine .inl ⟨StateFile.writeAtomic s.target bytes, ?_, done, ?_⟩
      · rw [Snapshot.save, encoded]
        rfl
      · rw [left]
        exact held.write _ _
    · exact .inr ⟨stopped, held.trans kept⟩

theorem swapRebuild_spec {saved : List FileOp} (held : SameSnapshots (files.after saved) world.files) :
    ∃ cut, SameSnapshots (files.after ((saved ++ plannedSwap s).take cut)) ((swapRebuild host s).after world).files ∧
      ((swapRebuild host s).outcome world = .ok () → (saved ++ plannedSwap s).length ≤ cut) := by
  unfold swapRebuild plannedSwap
  by_cases swaps : (s.complete && s.target == rebuildFile) = true
  · rw [if_pos swaps, if_pos swaps]
    rcases @rename_spec host world rebuildFile indexFile with ⟨_, left⟩ | ⟨⟨stop, stopped⟩, left⟩
    · refine ⟨_, ?_, fun _ => Nat.le_refl _⟩
      rw [List.take_length, Files.after_append, left]
      exact held.swap
    -- the new snapshot stays beside the old one
    · refine ⟨saved.length, ?_, fun returned => ?_⟩
      · rw [List.take_left, left]
        exact held
      · rw [stopped] at returned
        cases returned
  · rw [if_neg swaps, if_neg swaps]
    refine ⟨_, ?_, fun _ => Nat.le_refl _⟩
    rw [List.take_length, List.append_nil]
    exact held

theorem settle_spec (held : SameSnapshots files world.files) (snapshot : Sync.SnapshotName s.target) :
    (∃ saved cut, plannedSave ext host s (host.clock world.readings) = .ok saved ∧
        SameSnapshots (files.after ((saved ++ plannedSwap s).take cut)) ((settle ext host s).after world).files ∧
        ((settle ext host s).outcome world = .ok () → (saved ++ plannedSwap s).length ≤ cut)) ∨
      (∃ stop, (settle ext host s).outcome world = .error stop) ∧
        SameSnapshots files ((settle ext host s).after world).files := by
  unfold settle
  rcases @saveDirty_spec ext host s world files held snapshot with ⟨saved, planned, done, kept⟩ | ⟨⟨stop, stopped⟩, kept⟩
  · rw [outcome_bind_ok _ done, after_bind_ok _ done]
    obtain ⟨cut, left, whole⟩ := @swapRebuild_spec host s _ files saved kept
    exact .inl ⟨saved, cut, planned, left, whole⟩
  · rw [outcome_bind_error _ stopped, after_bind_error _ stopped]
    exact .inr ⟨⟨stop, rfl⟩, kept⟩

/-- Where that fails, the live snapshot is as it was: only a rebuild is swapped. -/
theorem settle_failed {stop : Stop} (snapshot : Sync.SnapshotName s.target)
    (failed : (settle ext host s).outcome world = .error stop) :
    ((settle ext host s).after world).files indexFile = world.files indexFile := by
  unfold settle at failed ⊢
  rcases @saveDirty_spec ext host s world world.files (.refl _) snapshot with
    ⟨saved, planned, done, kept⟩ | ⟨⟨_, stopped⟩, kept⟩
  case inr =>
    rw [after_bind_error _ stopped]
    exact kept indexFile (.inl rfl)
  rw [outcome_bind_ok _ done] at failed
  rw [after_bind_ok _ done]
  unfold swapRebuild at failed ⊢
  by_cases swaps : (s.complete && s.target == rebuildFile) = true
  case neg =>
    rw [if_neg swaps] at failed
    cases failed
  rw [if_pos swaps] at failed ⊢
  have target : s.target = rebuildFile := by simpa using (Bool.and_eq_true_iff.mp swaps).2
  rcases @rename_spec host ((saveDirty ext host s).after world) rebuildFile indexFile with ⟨renamed, _⟩ | ⟨_, left⟩
  · rw [renamed] at failed
    cases failed
  · rw [left, kept indexFile (.inl rfl)]
    unfold plannedSave at planned
    split at planned
    · obtain ⟨bytes, _, rfl⟩ := saves_of_save host.enumerates planned
      rw [target, StateFile.after_writeAtomic, if_neg (by decide), if_neg (by decide)]
    · cases planned
      rfl

theorem saveStats_snapshots (stats : SyncStats) :
    SameSnapshots world.files ((saveStats ext host stats).after world).files := by
  unfold saveStats
  split
  · exact .refl _
  · rename_i bytes _
    have away : ∀ n, Sync.SnapshotName n → n ≠ statsFile ∧ n ≠ StateFile.tmpName statsFile := by
      rintro n (rfl | rfl) <;> decide
    rcases @writeAtomic_snapshots host world statsFile bytes fun n snapshot => (away n snapshot).2 with
      ⟨_, left⟩ | ⟨_, kept⟩
    · intro n snapshot
      rw [left, StateFile.after_writeAtomic, if_neg (away n snapshot).1, if_neg (away n snapshot).2]
    · exact kept

theorem record_spec :
    SameSnapshots world.files ((record ext host s).after world).files ∧
      ∀ stats, (record ext host s).outcome world = .ok stats →
        ∃ durationMs itemsPerSec atSecs, stats = statsOf (reportOf s) durationMs itemsPerSec atSecs := by
  unfold record
  dsimp only
  rw [after_bind_ok _ (outcome_nowSecs _ world), outcome_bind_ok _ (outcome_nowSecs _ world), after_nowSecs]
  generalize made : statsOf (reportOf s) _ _ (host.clock world.readings) = figures
  have kept := @saveStats_snapshots ext host { world with readings := world.readings + 1 } figures
  cases ended : (attempt (saveStats ext host figures)).outcome { world with readings := world.readings + 1 } with
  | error stop =>
    rw [after_bind_error _ ended, outcome_bind_error _ ended, after_attempt]
    exact ⟨kept, fun _ returned => by cases returned⟩
  | ok _ =>
    rw [after_bind_ok _ ended, outcome_bind_ok _ ended, after_attempt]
    refine ⟨kept, fun stats returned => ?_⟩
    cases returned
    exact ⟨_, _, _, made.symm⟩

theorem record_error {stop : Stop} (failed : (record ext host s).outcome world = .error stop) : stop = .cut := by
  unfold record at failed
  dsimp only at failed
  rw [outcome_bind_ok _ (outcome_nowSecs _ world), after_nowSecs] at failed
  generalize statsOf (reportOf s) _ _ (host.clock world.readings) = figures at failed
  generalize { world with readings := world.readings + 1 } = next at failed
  cases ended : (attempt (saveStats ext host figures)).outcome next with
  | error stopped =>
    rw [outcome_bind_error _ ended] at failed
    cases failed
    exact eq_cut_of_attempt ended
  | ok _ =>
    rw [outcome_bind_ok _ ended] at failed
    cases failed

end Settle

/-! ## The tick -/

section Follow
variable {ext : Externals} {host : Surroundings} {config : GuestConfig} {world : World}

theorem load_cases (name : String) :
    (∃ found, Snapshot.load (wasm32 ext.index) world.files name = .ok found ∧
        (load ext name).outcome world = .ok found) ∨
      ∃ stop, (load ext name).outcome world = .error stop := by
  rw [outcome_load]
  cases Snapshot.load (wasm32 ext.index) world.files name with
  | ok found => exact .inl ⟨found, rfl, rfl⟩
  | error fault => rcases fault with _ | _ <;> exact .inr ⟨_, rfl⟩

theorem rewriteDue_spec :
    (rewriteDue ext).after world = world ∧
      ((rewriteDue ext).outcome world = .ok (Sync.rewriteDue (wasm32 ext.index) world.files) ∨
        ∃ stop, (rewriteDue ext).outcome world = .error stop) := by
  have read : (readMeta ext).outcome world =
      (ofResult (Snapshot.readMeta (wasm32 ext.index) world.files.host)).outcome world := by
    rw [readMeta, outcome_bind_ok _ (outcome_get world), after_get]
  unfold rewriteDue Sync.rewriteDue
  rcases found : Snapshot.readMeta (wasm32 ext.index) world.files.host with (message | _) | m
  · rw [found] at read
    rw [after_bind_ok _ (outcome_attempt_failed read), outcome_bind_ok _ (outcome_attempt_failed read), after_attempt,
      after_readMeta]
    exact ⟨rfl, .inl rfl⟩
  · rw [found] at read
    have cut := outcome_attempt_cut read
    rw [after_bind_error _ cut, outcome_bind_error _ cut, after_attempt, after_readMeta]
    exact ⟨rfl, .inr ⟨_, rfl⟩⟩
  · rw [found] at read
    rw [after_bind_ok _ (outcome_attempt_ok read), outcome_bind_ok _ (outcome_attempt_ok read), after_attempt,
      after_readMeta]
    cases m <;> exact ⟨rfl, .inl rfl⟩

theorem snapshotName_loop {env : Sync.Env} {resyncTo : Result String} {due : Bool} {idx : Index} {target : String}
    {left : Nat} {out : Sync.Loop} {files : Files} (begins : Sync.SnapshotName target)
    (chosen : resyncTo = Sync.resyncTarget (wasm32 ext.index) files)
    (ran : Sync.loop env resyncTo left (Sync.begin env due idx target) = .ok out) : Sync.SnapshotName out.target := by
  obtain ⟨replayed, _⟩ := Sync.loop_replayed Sync.going_begin ran
  cases restarted : out.resync with
  | false => rw [replayed.kept restarted]; exact begins
  | true => exact Sync.resyncTarget_snapshot (chosen ▸ replayed.moved restarted)

theorem prepare_spec :
    (prepare ext config).after world = world ∧
      ((∃ due idx target, (prepare ext config).outcome world = .ok (start config due idx target) ∧
          Sync.SnapshotName target ∧
          ∀ env : Sync.Env, env.driveBase = config.driveBase →
            Sync.runInner (wasm32 ext.index) env world.files =
              Sync.loop env (Sync.resyncTarget (wasm32 ext.index) world.files) env.syncMaxPages
                (start config due idx target) >>= Sync.finish (wasm32 ext.index) env) ∨
        ∃ stop, (prepare ext config).outcome world = .error stop) := by
  unfold prepare
  rcases @load_cases ext world indexFile with ⟨live, liveLoads, liveRead⟩ | ⟨stop, stopped⟩
  case inr =>
    rw [outcome_bind_error _ stopped, after_bind_error _ stopped, after_load]
    exact ⟨rfl, .inr ⟨stop, rfl⟩⟩
  rw [outcome_bind_ok _ liveRead, after_bind_ok _ liveRead, after_load]
  rcases @load_cases ext world rebuildFile with ⟨rebuild, rebuildLoads, rebuildRead⟩ | ⟨stop, stopped⟩
  case inr =>
    rw [outcome_bind_error _ stopped, after_bind_error _ stopped, after_load]
    exact ⟨rfl, .inr ⟨stop, rfl⟩⟩
  rw [outcome_bind_ok _ rebuildRead, after_bind_ok _ rebuildRead, after_load]
  obtain ⟨left, due | ⟨stop, stopped⟩⟩ := @rewriteDue_spec ext world
  case inr =>
    rw [outcome_bind_error _ stopped, after_bind_error _ stopped, left]
    exact ⟨rfl, .inr ⟨stop, rfl⟩⟩
  rw [outcome_bind_ok _ due, after_bind_ok _ due, left]
  refine ⟨rfl, .inl ⟨_, _, _, rfl, ?_, fun env base => ?_⟩⟩
  · split
    · exact .inr rfl
    · exact .inl rfl
  · unfold Sync.runInner
    rw [liveLoads, rebuildLoads, Result.ok_bind, Result.ok_bind]
    unfold Sync.begin start
    rw [base]

/-- Whatever happens to a tick, it either leaves both snapshots alone and stops, or goes through its
plan for the replies that Graph gave, to the end where it returns. -/
theorem runInner_follows (ext : Externals) (host : Surroundings) (config : GuestConfig) (world : World) :
    (∃ out cut, Follows ext host config world out cut) ∨
      (∃ stop, (runInner ext host config).outcome world = .error stop) ∧
        SameSnapshots world.files ((runInner ext host config).after world).files := by
  obtain ⟨left, ⟨due, idx, target, begun, isTarget, plan⟩ | ⟨stop, stopped⟩⟩ := @prepare_spec ext config world
  case inr =>
    rw [runInner, outcome_bind_error _ stopped, after_bind_error _ stopped, left]
    exact .inr ⟨⟨stop, rfl⟩, .refl _⟩
  have ends : (runInner ext host config).outcome world = _ := outcome_bind_ok _ begun
  have leaves : (runInner ext host config).after world = _ := after_bind_ok _ begun
  rw [left] at ends leaves
  have kept := SameSnapshots.of_asks (@along_loop ext host config (start config due idx target) config.syncMaxPages world)
  cases looped : (loop ext host config config.syncMaxPages (start config due idx target)).outcome world with
  | error stop =>
    rw [ends, leaves, outcome_bind_error _ looped, after_bind_error _ looped]
    exact .inr ⟨⟨stop, rfl⟩, kept⟩
  | ok s =>
    obtain ⟨more, asked, exchanges, planned⟩ := loop_spec (.refl world.files) rfl looped
    rw [outcome_bind_ok _ looped] at ends
    rw [after_bind_ok _ looped] at leaves
    generalize (loop ext host config config.syncMaxPages (start config due idx target)).after world = between at *
    have snapshot : Sync.SnapshotName s.target := snapshotName_loop isTarget rfl (planned 0)
    rcases @settle_spec ext host s between world.files kept snapshot with
      ⟨saved, cut, saves, settled, whole⟩ | ⟨⟨stop, stopped⟩, settled⟩
    case inr =>
      rw [ends, leaves, outcome_bind_error _ stopped, after_bind_error _ stopped]
      exact .inr ⟨⟨stop, rfl⟩, settled⟩
    -- the plan is the one for the replies that came, at the time of the save
    have follows : Sync.runInner (wasm32 ext.index) (planEnv host config s.asked (host.clock between.readings))
        world.files = .ok ⟨reportOf s, saved ++ plannedSwap s, s.asked⟩ := by
      rw [plan _ rfl]
      change (Sync.loop _ _ config.syncMaxPages _ >>= _) = _
      rw [planned, Result.ok_bind]
      exact finish_planEnv saves
    have answered : Exchanges ext host config world s.asked between := by
      rw [asked]
      exact exchanges
    refine .inl ⟨⟨reportOf s, saved ++ plannedSwap s, s.asked⟩, cut, ⟨_, follows⟩, ⟨between, answered⟩, ?_,
      fun stats returned => ?_⟩
    · rw [leaves]
      cases ended : (settle ext host s).outcome between with
      | error stop => rwa [after_bind_error _ ended]
      | ok _ =>
        rw [after_bind_ok _ ended]
        exact settled.trans record_spec.1
    · rw [ends] at returned
      cases ended : (settle ext host s).outcome between with
      | error stop =>
        rw [outcome_bind_error _ ended] at returned
        cases returned
      | ok _ =>
        rw [outcome_bind_ok _ ended] at returned
        exact ⟨whole ended, record_spec.2 stats returned⟩

/-- A tick that is answered with an error leaves the live snapshot as it was. -/
theorem runInner_failed {message : String}
    (failed : (runInner ext host config).outcome world = .error (.failed message)) :
    ((runInner ext host config).after world).files indexFile = world.files indexFile := by
  obtain ⟨left, ⟨due, idx, target, begun, isTarget, _⟩ | ⟨stop, stopped⟩⟩ := @prepare_spec ext config world
  case inr => rw [runInner, after_bind_error _ stopped, left]
  rw [runInner, outcome_bind_ok _ begun, left] at failed
  rw [runInner, after_bind_ok _ begun, left]
  have kept := SameSnapshots.of_asks (@along_loop ext host config (start config due idx target) config.syncMaxPages world)
  cases looped : (loop ext host config config.syncMaxPages (start config due idx target)).outcome world with
  | error stop =>
    rw [after_bind_error _ looped]
    exact kept indexFile (.inl rfl)
  | ok s =>
    obtain ⟨_, _, _, planned⟩ := loop_spec (.refl world.files) rfl looped
    have snapshot : Sync.SnapshotName s.target := snapshotName_loop isTarget rfl (planned 0)
    rw [outcome_bind_ok _ looped] at failed
    rw [after_bind_ok _ looped]
    cases settled : (settle ext host s).outcome _ with
    | error stop =>
      rw [after_bind_error _ settled, settle_failed snapshot settled]
      exact kept indexFile (.inl rfl)
    | ok _ =>
      rw [outcome_bind_ok _ settled] at failed
      cases record_error failed

end Follow

end Guest

end OneDriveDavfs
