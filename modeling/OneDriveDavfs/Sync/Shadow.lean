import OneDriveDavfs.Sync.Cursor

/-! What a tick can do to the live snapshot.

While a rebuild is under way the ticks work on its file, and the live snapshot
is replaced when the rebuild is finished. Two things go wrong. A tick that
starts from a rebuild without any page, and gets a final page that is empty and
has no token, does not save it and yet swaps it in unfinished. And a live
snapshot that lost its root during a rebuild gets overwritten at the next
resync, while the older rebuild stays where it is and is swapped in later.
-/

set_option autoImplicit false

namespace OneDriveDavfs

open Library.Wire Snapshot Dav

namespace Sync

/-! ## Crawls -/

def Event.asked (json : MetaJson) (files : Files) : Event → List (String × DeltaReply)
  | .tick env _ =>
    match runInner (wasm32 json) env files with
    | .ok out => out.asked
    | .error _ => []
  | .write .. => []

theorem Event.asked_of_ran {json : MetaJson} {files : Files} {env : Env} {out : Outcome}
    (ran : runInner (wasm32 json) env files = .ok out) (cut : Nat) :
    (Event.tick env cut).asked json files = out.asked := by
  simp [Event.asked, ran]

/-- A crawl from the initial link by these replies: it begins with an empty
index and takes one page after the other, each as the reply to its own link,
being stored and loaded in between. -/
inductive Crawl (json : MetaJson) : List (String × DeltaReply) → Index → Prop
  | fresh (generation : UInt64) : Crawl json [] { Index.empty with generation := generation }
  | page {taken : List (String × DeltaReply)} {idx : Index} (base : String) (page : DeltaPage) :
      Crawl json taken idx → Crawl json (taken ++ [(idx.cursor base, .ok page)]) (idx.takePage page)
  | stored {taken : List (String × DeltaReply)} {idx out : Index} {bytes : Bytes} : Crawl json taken idx →
      Saves json idx bytes → Snapshot.decode (wasm32 json) bytes = .ok out → Crawl json taken out

/-- A crawl whose pages all came, in this order, among these replies. -/
def Crawled (json : MetaJson) (fetched : List (String × DeltaReply)) (idx : Index) : Prop :=
  ∃ taken, Crawl json taken idx ∧ taken.Sublist fetched

section Crawls
variable {json : MetaJson} {fetched : List (String × DeltaReply)} {idx : Index}

theorem Crawled.fresh (generation : UInt64) : Crawled json fetched { Index.empty with generation := generation } :=
  ⟨[], .fresh generation, List.nil_sublist _⟩

theorem Crawled.stored {out : Index} {bytes : Bytes} (crawled : Crawled json fetched idx)
    (saves : Saves json idx bytes) (decoded : Snapshot.decode (wasm32 json) bytes = .ok out) :
    Crawled json fetched out := by
  obtain ⟨taken, crawl, among⟩ := crawled
  exact ⟨taken, .stored crawl saves decoded, among⟩

theorem Crawled.append (crawled : Crawled json fetched idx) (more : List (String × DeltaReply)) :
    Crawled json (fetched ++ more) idx := by
  obtain ⟨taken, crawl, among⟩ := crawled
  exact ⟨taken, crawl, among.trans (List.sublist_append_left _ _)⟩

/-- An exchange goes on with a crawl, or begins one at a resync. -/
theorem Exchange.crawled {env : Env} {start : Index} {asked : List (String × DeltaReply)}
    (exchange : Exchange env start asked)
    (begun : Crawled json fetched start ∨ (replies asked).any isResync = true) :
    Crawled json (fetched ++ asked) (replay start asked) := by
  induction exchange with
  | nil =>
    rcases begun with crawled | none
    · exact crawled.append []
    · cases none
  | @snoc asked reply _ _ _ usable ih =>
    rw [replay_snoc]
    rw [replies_snoc, List.any_append] at begun
    match reply, usable with
    | .ok page, _ =>
      obtain ⟨taken, crawl, among⟩ := ih (by simpa [isResync] using begun)
      refine ⟨_, .page env.driveBase page crawl, ?_⟩
      rw [← List.append_assoc]
      exact among.append_right _
    | .error .resync, _ => exact .fresh _
    | .error (.other e), usable => exact absurd rfl (usable e)

end Crawls

/-! ## The property and the condition -/

/-- What may become of the live snapshot in a tick that is cut short anywhere:
nothing; or, in a tick without a resync, all the pages of that tick applied to
it; or a finished crawl in its place that is no older. -/
def Undamaged (json : MetaJson) (fetched : List (String × DeltaReply)) (env : Env) (files : Files) (live : Index)
    (after : Files) : Prop :=
  after indexFile = files indexFile ∨
  (∃ out bytes, runInner (wasm32 json) env files = .ok out ∧ out.report.resync = false ∧
    (replies out.asked).any isResync = false ∧ Exchange env live out.asked ∧
    after indexFile = some bytes ∧ Saves json (replay live out.asked) bytes) ∨
  ∃ idx, load (wasm32 json) after indexFile = .ok (some idx) ∧ idx.crawlComplete = true ∧
    Crawled json fetched idx ∧ live.generation ≤ idx.generation

/-- The rebuild is unfinished without a link or a token, and the first reply is
a final page that brings neither items nor a token. -/
def StaleFinal (json : MetaJson) (env : Env) (files : Files) (shadow : Index) : Prop :=
  shadow.pendingNextLink = none ∧ shadow.deltaToken = none ∧ shadow.crawlComplete = false ∧
    rewriteDue (wasm32 json) files = false ∧
    ∃ page, env.delta 0 (shadow.cursor env.driveBase) = .ok page ∧ page.items = [] ∧ page.nextLink = none ∧
      page.deltaToken = none

def MeetsResync (env : Env) (start : Index) : Prop :=
  ∃ asked, Exchange env start asked ∧ asked.length ≤ env.syncMaxPages ∧ (replies asked).any isResync = true

/-- A rebuild that is there is not stale, and no resync comes while the live
snapshot beside it is not worth serving. -/
def CarefulTick (json : MetaJson) (env : Env) (files : Files) : Prop :=
  ∀ shadow, load (wasm32 json) files rebuildFile = .ok (some shadow) →
    ¬ StaleFinal json env files shadow ∧
      (MeetsResync env shadow → ∃ live, load (wasm32 json) files indexFile = .ok (some live) ∧
        live.worthServing = true)

def Careful (json : MetaJson) (files : Files) : Event → Prop
  | .tick env _ => CarefulTick json env files
  | .write .. => True

/-- What a run has asked Graph and been answered, and the directory after it. -/
inductive CarefulRun (json : MetaJson) : List (String × DeltaReply) → Files → Prop
  | start : CarefulRun json [] noFiles
  | step {fetched : List (String × DeltaReply)} {files : Files} (event : Event) : CarefulRun json fetched files →
      Careful json files event → CarefulRun json (fetched ++ event.asked json files) (event.run json files)

/-! ## One careful tick -/

theorem le_generation_replay (start : Index) (asked : List (String × DeltaReply)) :
    start.generation ≤ (replay start asked).generation := by
  have word := start.generation.toNat_lt
  rw [replay, generation_foldl_take, UInt64.le_iff_toNat_le, UInt64.toNat_ofNat_of_lt' (by
    show _ < 2 ^ 64
    omega)]
  omega

theorem crawlComplete_of_final {start : Index} {asked : List (String × DeltaReply)}
    (final : (replies asked).getLast?.any isFinal = true) : (replay start asked).crawlComplete = true := by
  rcases List.eq_nil_or_concat' (replies asked) with none | ⟨front, reply, split⟩
  · simp [none] at final
  · rw [split] at final
    match reply with
    | .error _ => simp [isFinal] at final
    | .ok page =>
      have link : page.nextLink = none := by simpa [isFinal] using final
      rw [replay, split, List.foldl_append, List.foldl_cons, List.foldl_nil, Index.take, Index.takePage, link]
      exact congrArg (·.2.2.1) (Index.progress_sweepOrphans _)

theorem generation_of_progress {idx out : Index} (same : out.progress = idx.progress) :
    out.generation = idx.generation := congrArg (·.2.2.2) same

theorem crawlComplete_of_progress {idx out : Index} (same : out.progress = idx.progress) :
    out.crawlComplete = idx.crawlComplete := congrArg (·.2.2.1) same

/-- The rebuild belongs to a crawl and is no older than the live snapshot beside it. -/
structure Guarded (json : MetaJson) (fetched : List (String × DeltaReply)) (files : Files) : Prop where
  sound : Sound json files
  crawled : ∀ {shadow}, load (wasm32 json) files rebuildFile = .ok (some shadow) → Crawled json fetched shadow
  behind : ∀ {shadow}, load (wasm32 json) files rebuildFile = .ok (some shadow) →
    ∃ live, load (wasm32 json) files indexFile = .ok (some live) ∧ live.generation ≤ shadow.generation

section Tick
variable {json : MetaJson} {fetched : List (String × DeltaReply)} {files : Files} {env : Env} {start : Index}
  {target place : String} {saved swap : List FileOp} {out : Outcome}

structure Placed (json : MetaJson) (fetched : List (String × DeltaReply)) (files : Files) (start : Index)
    (out : Outcome) : Prop where
  crawled : Crawled json (fetched ++ out.asked) (replay start out.asked)
  behind : ∃ live, load (wasm32 json) files indexFile = .ok (some live) ∧
    live.generation ≤ (replay start out.asked).generation

theorem worth_of_rebuildTarget (chosen : resyncTarget (wasm32 json) files = .ok rebuildFile) :
    ∃ live, load (wasm32 json) files indexFile = .ok (some live) ∧ live.worthServing = true := by
  have differ : indexFile ≠ rebuildFile := by decide
  unfold resyncTarget at chosen
  cases loaded : load (wasm32 json) files indexFile with
  | error e =>
    rw [loaded] at chosen
    cases e with
    | error message => exact absurd (Except.ok.inj chosen) differ
    | trap => cases chosen
  | ok found =>
    rw [loaded] at chosen
    cases found with
    | none => exact absurd (Except.ok.inj chosen) differ
    | some live =>
      cases worth : live.worthServing with
      | true => exact ⟨live, rfl, worth⟩
      | false =>
        simp only [worth] at chosen
        exact absurd (Except.ok.inj chosen) differ

theorem rebuildTarget_of_worth {live : Index} (loaded : load (wasm32 json) files indexFile = .ok (some live))
    (worth : live.worthServing = true) : resyncTarget (wasm32 json) files = .ok rebuildFile := by
  simp [resyncTarget, loaded, worth]

theorem Ticked.place_of_rebuild (ticked : Ticked json env files start target place saved swap out)
    (careful : CarefulTick json env files) {shadow : Index}
    (present : load (wasm32 json) files rebuildFile = .ok (some shadow)) :
    start = shadow ∧ place = rebuildFile := by
  have begun : start = shadow ∧ target = rebuildFile := by
    rcases ticked.starts with ⟨loaded, isRebuild⟩ | ⟨missing, _⟩
    · cases loaded.symm.trans present
      exact ⟨rfl, isRebuild⟩
    · cases missing.symm.trans present
  obtain ⟨rfl, rfl⟩ := begun
  refine ⟨rfl, ?_⟩
  cases restarted : out.report.resync with
  | false => exact ticked.kept restarted
  | true =>
    have meets : MeetsResync env start := ⟨out.asked, ticked.exchange, ticked.bounded, ticked.resync.symm.trans restarted⟩
    obtain ⟨live, loaded, worth⟩ := (careful start present).2 meets
    have moved := ticked.moved restarted
    rw [rebuildTarget_of_worth loaded worth] at moved
    exact (Except.ok.inj moved).symm

theorem Ticked.placed (ticked : Ticked json env files start target place saved swap out)
    (guarded : Guarded json fetched files) (onRebuild : place = rebuildFile) :
    Placed json fetched files start out := by
  rcases ticked.starts with ⟨loaded, _⟩ | ⟨_, rfl, found, loaded, rfl⟩
  · obtain ⟨live, isLive, older⟩ := guarded.behind loaded
    exact ⟨ticked.exchange.crawled (.inl (guarded.crawled loaded)), live, isLive,
      UInt64.le_trans older (le_generation_replay _ _)⟩
  · -- without a rebuild only a resync leads to the rebuild file
    have restarted : out.report.resync = true := by
      by_contra quiet
      have stays := ticked.kept (by simpa using quiet)
      exact absurd (stays.symm.trans onRebuild) (by decide)
    have moved := ticked.moved restarted
    rw [onRebuild] at moved
    obtain ⟨live, isLive, _⟩ := worth_of_rebuildTarget moved
    cases loaded.symm.trans isLive
    exact ⟨ticked.exchange.crawled (.inr (ticked.resync.symm.trans restarted)), live, isLive,
      le_generation_replay _ _⟩

theorem Ticked.finished_of_unsaved (roundTrips : json.RoundTrips)
    (ticked : Ticked json env files start target place [] swap out) (sound : Sound json files)
    (careful : CarefulTick json env files) (complete : out.report.complete = true)
    (present : load (wasm32 json) files rebuildFile = .ok (some start)) : start.crawlComplete = true := by
  obtain ⟨cursor, _⟩ := ticked.starts.cursorOk roundTrips sound
  rcases ticked.saves with ⟨_, quiet, same⟩ | ⟨bytes, _, wrote⟩
  · have last := ticked.complete.symm.trans complete
    obtain ⟨front, reply, split, open_, _, answered⟩ := ticked.exchange.split ticked.asked
    rw [split] at same last
    rw [changed_append, Bool.or_eq_false_iff] at same
    obtain ⟨kept, pending⟩ := foldl_take_open cursor open_ same.1
    rw [kept] at same answered
    obtain ⟨page, own, nothing, link, token, noPending⟩ := final_of_unmarked same.2 (by simpa using last)
    by_contra unfinished
    have unfinished : start.crawlComplete = false := by simpa using unfinished
    have noToken : start.deltaToken = none := by
      by_contra carried
      simp [cursor.2 carried noPending] at unfinished
    have first : front = [] := by
      by_contra more
      exact pending more noPending
    rw [first, own] at answered
    exact (careful start present).1
      ⟨noPending, noToken, unfinished, quiet, page, answered, nothing, link, token.trans noToken⟩
  · simp [StateFile.writeAtomic] at wrote

theorem Placed.load (roundTrips : json.RoundTrips) (placed : Placed json fetched files start out) {after : Files}
    {name : String} {bytes : Bytes} (saves : Saves json (replay start out.asked) bytes)
    (held : after name = some bytes) :
    ∃ idx live, load (wasm32 json) after name = .ok (some idx) ∧
      Crawled json (fetched ++ out.asked) idx ∧
      load (wasm32 json) files indexFile = .ok (some live) ∧ live.generation ≤ idx.generation ∧
      idx.progress = (replay start out.asked).progress := by
  obtain ⟨idx, loaded, decoded, progress⟩ := load_saves roundTrips held saves
  obtain ⟨live, isLive, older⟩ := placed.behind
  exact ⟨idx, live, loaded, placed.crawled.stored saves decoded, isLive,
    generation_of_progress progress ▸ older, progress⟩

/-- A tick that saves to the live file began with what was live, and met no resync. -/
theorem Ticked.begun_live (ticked : Ticked json env files start target place saved swap out)
    (onIndex : place = indexFile) (careful : CarefulTick json env files) {live : Index}
    (served : Snapshot.load (wasm32 json) files indexFile = .ok (some live)) (rooted : live.root.isSome = true) :
    start = live ∧ out.report.resync = false := by
  have fromLive : start = live := by
    rcases ticked.starts with ⟨present, _⟩ | ⟨_, _, found, loaded, rfl⟩
    · have elsewhere := (ticked.place_of_rebuild careful present).2
      exact absurd (onIndex.symm.trans elsewhere) (by decide)
    · cases loaded.symm.trans served
      rfl
  refine ⟨fromLive, ?_⟩
  by_contra restarted
  have moved := ticked.moved (by simpa using restarted)
  have worth : live.worthServing = true := by simp [Index.worthServing, rooted]
  rw [rebuildTarget_of_worth served worth, onIndex] at moved
  exact absurd (Except.ok.inj moved) (by decide)

/-- The rebuild that a tick swaps in was saved in it, or stood there finished before. -/
theorem Ticked.swapped_finished (roundTrips : json.RoundTrips)
    (ticked : Ticked json env files start target place saved swap out) (guarded : Guarded json fetched files)
    (careful : CarefulTick json env files) (complete : out.report.complete = true) (onRebuild : place = rebuildFile)
    {live : Index} (served : Snapshot.load (wasm32 json) files indexFile = .ok (some live)) {after : Files}
    {bytes : Bytes} (held : after indexFile = some bytes)
    (source : Saves json (replay start out.asked) bytes ∨ saved = [] ∧ files rebuildFile = some bytes) :
    ∃ idx, Snapshot.load (wasm32 json) after indexFile = .ok (some idx) ∧ idx.crawlComplete = true ∧
      Crawled json (fetched ++ out.asked) idx ∧ live.generation ≤ idx.generation := by
  rcases source with saves | ⟨rfl, before⟩
  · have placed := ticked.placed guarded onRebuild
    obtain ⟨idx, other, loaded, crawled, isLive, older, progress⟩ := placed.load roundTrips saves held
    cases served.symm.trans isLive
    have finished := @crawlComplete_of_final start _ (ticked.complete.symm.trans complete)
    exact ⟨idx, loaded, (crawlComplete_of_progress progress).trans finished, crawled, older⟩
  · rcases guarded.sound.load roundTrips (.inr rfl) with ⟨absent, _⟩ | ⟨_, shadow, there, present, _, _⟩
    · cases before.symm.trans absent
    · obtain ⟨rfl, _⟩ := ticked.place_of_rebuild careful present
      have finished := ticked.finished_of_unsaved roundTrips guarded.sound careful complete present
      have loaded : Snapshot.load (wasm32 json) after indexFile = .ok (some start) := by
        rw [load_eq, held, ← before, ← load_eq]
        exact present
      obtain ⟨other, isLive, older⟩ := guarded.behind present
      cases served.symm.trans isLive
      exact ⟨start, loaded, finished, (guarded.crawled present).append _, older⟩

/-- A careful tick does the live snapshot no harm, wherever it is cut short. -/
theorem Ticked.undamaged (roundTrips : json.RoundTrips)
    (ticked : Ticked json env files start target place saved swap out)
    (ran : runInner (wasm32 json) env files = .ok out) (guarded : Guarded json fetched files)
    (careful : CarefulTick json env files) {live : Index}
    (served : Snapshot.load (wasm32 json) files indexFile = .ok (some live)) (rooted : live.root.isSome = true)
    (cut : Nat) : Undamaged json (fetched ++ out.asked) env files live (files.after (out.ops.take cut)) := by
  have snapshot := ticked.place_snapshot roundTrips guarded.sound
  rcases ticked.files_after snapshot cut with kept | ⟨bytes, saves, held, others⟩ |
    ⟨complete, onRebuild, _, bytes, held, source⟩
  · -- cut before anything was written over
    exact .inl (kept _ (.inl rfl))
  · rcases snapshot with onIndex | onRebuild
    · right; left
      obtain ⟨rfl, quiet⟩ := ticked.begun_live onIndex careful served rooted
      exact ⟨out, bytes, ran, quiet, ticked.resync.symm.trans quiet, ticked.exchange, onIndex ▸ held, saves⟩
    · exact .inl (others _ (.inl rfl) (by rw [onRebuild]; decide))
  · -- the swap was made: what is live now is the finished rebuild
    right; right
    exact ticked.swapped_finished roundTrips guarded careful complete onRebuild served held source

theorem Guarded.append (guarded : Guarded json fetched files) (more : List (String × DeltaReply)) :
    Guarded json (fetched ++ more) files :=
  ⟨guarded.sound, fun present => (guarded.crawled present).append more, guarded.behind⟩

theorem Guarded.congr {after : Files} (guarded : Guarded json fetched files) (sound : Sound json after)
    (same : ∀ n, SnapshotName n → after n = files n) : Guarded json fetched after where
  sound := sound
  crawled := by
    intro shadow present
    rw [load_congr (same _ (.inr rfl))] at present
    exact guarded.crawled present
  behind := by
    intro shadow present
    rw [load_congr (same _ (.inr rfl))] at present
    rw [load_congr (same _ (.inl rfl))]
    exact guarded.behind present

theorem Guarded.ticked (roundTrips : json.RoundTrips) (guarded : Guarded json fetched files)
    (ticked : Ticked json env files start target place saved swap out) (careful : CarefulTick json env files)
    {cut : Nat} (sound : Sound json (files.after (out.ops.take cut))) :
    Guarded json (fetched ++ out.asked) (files.after (out.ops.take cut)) := by
  have snapshot := ticked.place_snapshot roundTrips guarded.sound
  rcases ticked.files_after snapshot cut with kept | ⟨bytes, saves, held, others⟩ | ⟨_, _, gone, _⟩
  · -- nothing was written yet
    exact (guarded.append _).congr sound kept
  · -- saved: to the live file there is no rebuild to guard, to the rebuild it is the crawl so far
    rcases snapshot with onIndex | onRebuild
    · have differ : rebuildFile ≠ place := by
        rw [onIndex]
        decide
      have missing : ∀ {shadow},
          Snapshot.load (wasm32 json) (files.after (out.ops.take cut)) rebuildFile ≠ .ok (some shadow) := by
        intro shadow present
        rw [load_congr (others _ (.inr rfl) differ)] at present
        exact absurd (onIndex.symm.trans (ticked.place_of_rebuild careful present).2) (by decide)
      exact ⟨sound, fun present => absurd present missing, fun present => absurd present missing⟩
    · have placed := ticked.placed guarded onRebuild
      obtain ⟨idx, live, loaded, crawled, isLive, older, _⟩ := placed.load roundTrips saves (onRebuild ▸ held)
      have differ : indexFile ≠ place := by
        rw [onRebuild]
        decide
      refine ⟨sound, fun present => ?_, fun present => ?_⟩
      · cases loaded.symm.trans present
        exact crawled
      · cases loaded.symm.trans present
        rw [load_congr (others _ (.inl rfl) differ)]
        exact ⟨live, isLive, older⟩
  · -- after the swap there is no rebuild left
    have missing : ∀ {shadow},
        Snapshot.load (wasm32 json) (files.after (out.ops.take cut)) rebuildFile ≠ .ok (some shadow) := by
      intro shadow present
      rw [load_eq, gone] at present
      cases present
    exact ⟨sound, fun present => absurd present missing, fun present => absurd present missing⟩

theorem Guarded.write (roundTrips : json.RoundTrips) (guarded : Guarded json fetched files)
    {order : Index → List Id} (enumerates : ∀ idx, Enumerates (order idx) idx) (now : UInt64) (change : LocalWrite)
    (cut : Nat) :
    Guarded json fetched (files.after ((writeThrough (wasm32 json) order now files change).take cut)) := by
  have sound := guarded.sound.mutate roundTrips enumerates now change cut
  rcases writeThrough_files_after roundTrips guarded.sound enumerates now change cut with kept |
    ⟨live, bytes, loaded, _, saves, held, same⟩
  · exact guarded.congr sound kept
  · refine ⟨sound, fun present => ?_, fun present => ?_⟩
    · rw [load_congr same] at present
      exact guarded.crawled present
    · rw [load_congr same] at present
      obtain ⟨other, isLive, older⟩ := guarded.behind present
      cases loaded.symm.trans isLive
      obtain ⟨idx, now, _, progress⟩ := load_saves roundTrips held saves
      have generation := generation_of_progress (progress.trans (change.progress_run live))
      exact ⟨idx, now, generation ▸ older⟩

end Tick

/-! ## Careful runs -/

theorem CarefulRun.guarded {json : MetaJson} (roundTrips : json.RoundTrips) {fetched : List (String × DeltaReply)}
    {files : Files} (run : CarefulRun json fetched files) : Guarded json fetched files := by
  induction run with
  | start =>
    have missing : ∀ {shadow}, load (wasm32 json) noFiles rebuildFile ≠ .ok (some shadow) := by
      intro shadow present
      cases present
    exact ⟨sound_noFiles, fun present => absurd present missing, fun present => absurd present missing⟩
  | @step fetched files event _ careful ih =>
    cases event with
    | tick env cut =>
      have sound := ih.sound.tick roundTrips env cut
      show Guarded json _ (Sync.tick (wasm32 json) env files cut)
      unfold Sync.tick at sound ⊢
      cases ran : runInner (wasm32 json) env files with
      | error e => exact ih.append _
      | ok out =>
        rw [ran] at sound
        rw [Event.asked_of_ran ran]
        obtain ⟨start, target, place, saved, swap, ticked⟩ := runInner_ticked ran
        exact ih.ticked roundTrips ticked careful sound
    | write order enumerates now change cut => exact (ih.append []).write roundTrips enumerates now change cut

/-- In a run of careful ticks every further careful tick leaves the live
snapshot alone, brings it up to date from its own cursor, or puts a finished
crawl of no older generation in its place, whose pages are all among the
replies of the run. -/
theorem shadow_undamaged (json : MetaJson) (roundTrips : json.RoundTrips) (fetched : List (String × DeltaReply))
    (files : Files) (run : CarefulRun json fetched files) (live : Index)
    (served : load (wasm32 json) files indexFile = .ok (some live)) (rooted : live.root.isSome = true) (env : Env)
    (cut : Nat) (careful : CarefulTick json env files) :
    Undamaged json (fetched ++ (Event.tick env cut).asked json files) env files live
      (tick (wasm32 json) env files cut) := by
  unfold tick
  cases ran : runInner (wasm32 json) env files with
  | error e => exact .inl rfl
  | ok out =>
    obtain ⟨start, target, place, saved, swap, ticked⟩ := runInner_ticked ran
    rw [Event.asked_of_ran ran]
    exact ticked.undamaged roundTrips ran (run.guarded roundTrips) careful served rooted cut

/-! ## A live snapshot of the root alone -/

def rootPage : DeltaPage :=
  ⟨[⟨"r", none, "root", false, true, ⟨true, 0, 0, ""⟩⟩], none, some "https://graph.microsoft.com/d"⟩

theorem eight_pos : 0 < 8 := by decide

def emptyDrive : Env := .steady 8 eight_pos 7 fun _ _ => .ok rootPage

def expired : Env := .steady 1 Nat.one_pos 7 fun _ _ => .error .resync

def blankFinal : Env := .steady 8 eight_pos 7 fun _ _ => .ok ⟨[], none, none⟩

/-- The live snapshot of the root, and beside it a rebuild that has only begun. -/
def besideRebuild : Files := tick (wasm32 metaText) expired (tick (wasm32 metaText) emptyDrive noFiles 9) 9

theorem carefulTick_emptyDrive (files : Files) : CarefulTick metaText emptyDrive files := by
  intro shadow _
  refine ⟨?_, ?_⟩
  · rintro ⟨_, _, _, _, page, served, noItems, _⟩
    have same : page = rootPage := (Except.ok.inj served).symm
    rw [same] at noItems
    cases noItems
  · rintro ⟨asked, exchange, -, met⟩
    have pages : ∀ r ∈ replies asked, isResync r = false := by
      clear met
      induction exchange with
      | nil => simp [replies]
      | snoc _ _ answered _ ih =>
        rw [replies_snoc, ← answered]
        intro r member
        rcases List.mem_append.mp member with before | last
        · exact ih r before
        · rw [List.mem_singleton.mp last]
          rfl
    obtain ⟨r, member, isOne⟩ := List.any_eq_true.mp met
    rw [pages r member] at isOne
    cases isOne

/-- The rebuild is finished by the next tick, and takes the place of the live snapshot. -/
theorem shadow_undamaged_recrawled :
    ∃ fetched live shadow, load (wasm32 metaText) besideRebuild indexFile = .ok (some live) ∧
      load (wasm32 metaText) besideRebuild rebuildFile = .ok (some shadow) ∧
      Undamaged metaText fetched emptyDrive besideRebuild live
        (tick (wasm32 metaText) emptyDrive besideRebuild 9) := by
  have evaluated : Result.isOkAnd (load (wasm32 metaText) besideRebuild indexFile) (fun stored =>
      Result.isOkAnd (load (wasm32 metaText) besideRebuild rebuildFile) fun begun =>
        stored.any (fun live => live.root.isSome) && begun.isSome) = true := by
    rw [besideRebuild, metaText_eq_asciiText]
    decide +kernel
  have alone : tick (wasm32 metaText) emptyDrive noFiles 9 rebuildFile = none := by
    rw [metaText_eq_asciiText]
    decide +kernel
  have begins : Careful metaText (tick (wasm32 metaText) emptyDrive noFiles 9) (.tick expired 9) := by
    intro shadow present
    rw [load_eq, alone] at present
    cases present
  have run : CarefulRun metaText _ besideRebuild :=
    .step (.tick expired 9) (.step (.tick emptyDrive 9) .start (carefulTick_emptyDrive noFiles)) begins
  obtain ⟨stored, served, evaluated⟩ := Result.exists_of_isOkAnd evaluated
  obtain ⟨begun, present, evaluated⟩ := Result.exists_of_isOkAnd evaluated
  obtain ⟨holds, some⟩ := Bool.and_eq_true_iff.mp evaluated
  obtain ⟨live, rfl, rooted⟩ := (Option.any_eq_true _ _).mp holds
  obtain ⟨shadow, rfl⟩ := Option.isSome_iff_exists.mp some
  exact ⟨_, live, shadow, served, present, shadow_undamaged metaText metaText_roundTrips _ _ run live served rooted
    emptyDrive 9 (carefulTick_emptyDrive besideRebuild)⟩

/-- A rebuild that was only begun is swapped in unfinished. -/
theorem blank_page_swaps_unfinished_rebuild :
    ∃ files live, Reachable metaText files ∧ load (wasm32 metaText) files indexFile = .ok (some live) ∧
      live.root.isSome = true ∧
      ∀ fetched, ¬ Undamaged metaText fetched blankFinal files live (tick (wasm32 metaText) blankFinal files 9) := by
  have reached : Reachable metaText (tick (wasm32 metaText) expired (tick (wasm32 metaText) emptyDrive noFiles 9) 9) :=
    .step (.tick expired 9) (.step (.tick emptyDrive 9) .start)
  have evaluated : Result.isOkAnd (load (wasm32 metaText)
      (tick (wasm32 metaText) expired (tick (wasm32 metaText) emptyDrive noFiles 9) 9) indexFile)
      (fun before => Result.isOkAnd (load (wasm32 metaText) (tick (wasm32 metaText) blankFinal
        (tick (wasm32 metaText) expired (tick (wasm32 metaText) emptyDrive noFiles 9) 9) 9) indexFile) fun after =>
      before.any (fun live => live.root.isSome && live.crawlComplete) && after.any fun idx => !idx.crawlComplete) = true := by
    rw [metaText_eq_asciiText]
    decide +kernel
  generalize tick (wasm32 metaText) expired (tick (wasm32 metaText) emptyDrive noFiles 9) 9 = files at reached evaluated
  obtain ⟨before, served, evaluated⟩ := Result.exists_of_isOkAnd evaluated
  obtain ⟨after, loaded, evaluated⟩ := Result.exists_of_isOkAnd evaluated
  obtain ⟨began, ended⟩ := Bool.and_eq_true_iff.mp evaluated
  obtain ⟨live, rfl, whole⟩ := (Option.any_eq_true _ _).mp began
  obtain ⟨idx, rfl, unfinished⟩ := (Option.any_eq_true _ _).mp ended
  obtain ⟨rooted, finished⟩ := Bool.and_eq_true_iff.mp whole
  rw [Bool.not_eq_true'] at unfinished
  refine ⟨files, live, reached, served, rooted, ?_⟩
  rintro fetched (same | ⟨out, bytes, ran, _, _, exchange, held, saves⟩ | ⟨other, found, complete, _⟩)
  · rw [load_congr same, served] at loaded
    cases loaded
    simp [finished] at unfinished
  · -- every page is final here, so the live snapshot with pages applied would be finished
    obtain ⟨_, _, _, _, _, ticked⟩ := runInner_ticked ran
    obtain ⟨front, reply, split, _, _, answered⟩ := exchange.split ticked.asked
    have final : (replies out.asked).getLast?.any isFinal = true := by
      rw [split, ← answered]
      simp [blankFinal, Env.steady, isFinal]
    obtain ⟨stored, isStored, _, progress⟩ := load_saves metaText_roundTrips held saves
    cases loaded.symm.trans isStored
    rw [crawlComplete_of_progress progress, crawlComplete_of_final final] at unfinished
    cases unfinished
  · cases loaded.symm.trans found
    simp [complete] at unfinished

end Sync

end OneDriveDavfs
