import OneDriveDavfs.Dav.WriteThrough
import OneDriveDavfs.Sync.Loop

/-! Runs of ticks and local writes over the state directory.

Any step may be cut short. In every state that a run reaches, both snapshot
files hold encodings, so loading never fails, and the cursor in each file is
consistent: an unfinished page link means an unfinished crawl, a token without
one means a finished crawl.
-/

set_option autoImplicit false

namespace OneDriveDavfs

open Library.Wire Snapshot Dav

namespace Sync

/-! ## One tick -/

def Starts (P : Platform) (files : Files) (start : Index) (target : String) : Prop :=
  (load P files rebuildFile = .ok (some start) ∧ target = rebuildFile) ∨
    (load P files rebuildFile = .ok none ∧ target = indexFile ∧
      ∃ live, load P files indexFile = .ok live ∧ start = live.getD Index.empty)

/-- A tick that returned: what it asked, what it saved, and whether it put the
rebuild in place. `place` is the file it saves to. -/
structure Ticked (json : MetaJson) (env : Env) (files : Files) (start : Index) (target place : String)
    (saved swap : List FileOp) (out : Outcome) : Prop where
  starts : Starts (wasm32 json) files start target
  exchange : Exchange env start out.asked
  asked : out.asked ≠ []
  bounded : out.asked.length ≤ env.syncMaxPages
  quota : out.report.complete = false → out.asked.length = env.quota
  pages : out.report.pages = out.asked.length
  resync : out.report.resync = (replies out.asked).any isResync
  complete : out.report.complete = (replies out.asked).getLast?.any isFinal
  kept : out.report.resync = false → place = target
  moved : out.report.resync = true → resyncTarget (wasm32 json) files = .ok place
  saves : (saved = [] ∧ rewriteDue (wasm32 json) files = false ∧ changed start (replies out.asked) = false) ∨
    ∃ bytes, Saves json (replay start out.asked) bytes ∧ saved = StateFile.writeAtomic place bytes
  swaps : (out.report.complete = true ∧ place = rebuildFile ∧ swap = [.rename rebuildFile indexFile] ∧
      out.report.target = indexFile) ∨
    (¬ (out.report.complete = true ∧ place = rebuildFile) ∧ swap = [] ∧ out.report.target = place)
  ops : out.ops = saved ++ swap

theorem finish_ticked {json : MetaJson} {env : Env} {files : Files} {start : Index} {target : String} {s : Loop}
    {out : Outcome} (starts : Starts (wasm32 json) files start target)
    (replayed : Replayed env (rewriteDue (wasm32 json) files) (resyncTarget (wasm32 json) files) start target s) (asked : s.asked ≠ [])
    (bounded : s.asked.length ≤ env.syncMaxPages) (quota : s.complete = false → s.asked.length = env.quota)
    (finished : finish (wasm32 json) env s = .ok out) :
    ∃ saved swap, Ticked json env files start target s.target saved swap out := by
  unfold finish at finished
  -- the rename after a complete crawl beside the live snapshot, or none
  have swapped : ∀ {target' : String} {swap : List FileOp},
      target' = (if (s.complete && s.target == rebuildFile) = true then indexFile else s.target) →
      swap = (if (s.complete && s.target == rebuildFile) = true then [.rename rebuildFile indexFile] else []) →
      (s.complete = true ∧ s.target = rebuildFile ∧ swap = [.rename rebuildFile indexFile] ∧ target' = indexFile) ∨
        (¬ (s.complete = true ∧ s.target = rebuildFile) ∧ swap = [] ∧ target' = s.target) := by
    intro target' swap targetIs swapIs
    rw [targetIs, swapIs]
    by_cases both : s.complete = true ∧ s.target = rebuildFile
    · exact .inl ⟨both.1, both.2, by simp [both], by simp [both]⟩
    · have differs : (s.complete && s.target == rebuildFile) = false := by simpa using both
      exact .inr ⟨both, by simp [differs], by simp [differs]⟩
  cases dirty : s.dirty with
  | false =>
    rw [dirty] at finished
    cases finished
    have clean := replayed.dirty.symm.trans dirty
    rw [Bool.or_eq_false_iff] at clean
    exact ⟨[], _, starts, replayed.exchange, asked, bounded, quota, replayed.pages, replayed.resync, replayed.complete asked,
      replayed.kept, replayed.moved, .inl ⟨rfl, clean⟩, swapped rfl rfl, rfl⟩
  | true =>
    rw [dirty] at finished
    cases saved : save (wasm32 json) (env.order s.idx) env.nowSecs s.target s.idx with
    | error e =>
      simp only [saved, if_true] at finished
      cases finished
    | ok ops =>
      simp only [saved, if_true] at finished
      cases finished
      obtain ⟨bytes, saves, same⟩ := saves_of_save env.enumerates saved
      rw [replayed.idx] at saves
      exact ⟨ops, _, starts, replayed.exchange, asked, bounded, quota, replayed.pages, replayed.resync, replayed.complete asked,
        replayed.kept, replayed.moved, .inr ⟨bytes, saves, same⟩, swapped rfl rfl, rfl⟩

/-- Everything a tick can do. -/
theorem runInner_ticked {json : MetaJson} {env : Env} {files : Files} {out : Outcome}
    (ran : runInner (wasm32 json) env files = .ok out) :
    ∃ start target place saved swap, Ticked json env files start target place saved swap out := by
  unfold runInner at ran
  cases live : load (wasm32 json) files indexFile with
  | error e =>
    rw [live] at ran
    cases ran
  | ok found =>
    cases rebuild : load (wasm32 json) files rebuildFile with
    | error e =>
      rw [live, rebuild] at ran
      cases ran
    | ok shadow =>
      rw [live, rebuild, Result.ok_bind, Result.ok_bind] at ran
      -- the shadow snapshot comes first, then the live one, then an empty index
      have starts : Starts (wasm32 json) files (shadow.getD (found.getD Index.empty))
          (if shadow.isSome = true then rebuildFile else indexFile) := by
        cases shadow with
        | none => exact .inr ⟨rebuild, rfl, found, live, rfl⟩
        | some idx => exact .inl ⟨rebuild, rfl⟩
      generalize shadow.getD (found.getD Index.empty) = start at ran starts
      generalize (if shadow.isSome = true then rebuildFile else indexFile) = target at ran starts
      cases looped : loop env (resyncTarget (wasm32 json) files) env.syncMaxPages
          (begin env (rewriteDue (wasm32 json) files) start target) with
      | error e =>
        simp only [looped] at ran
        cases ran
      | ok s =>
        simp only [looped, Result.ok_bind] at ran
        obtain ⟨replayed, atMost, _, some, exactly⟩ := loop_replayed going_begin looped
        have asked := some env.somePage rfl
        have bounded : s.asked.length ≤ env.syncMaxPages := by simpa [begin] using atMost
        have quota : s.complete = false → s.asked.length = env.quota := by
          intro unfinished
          have length := exactly ((replayed.complete asked).symm.trans unfinished)
          simpa [begin, Env.quota] using length
        obtain ⟨saved, swap, ticked⟩ := finish_ticked starts replayed asked bounded quota ran
        exact ⟨start, target, s.target, saved, swap, ticked⟩

/-! ## Runs -/

/-- A tick or a local write, of which the first `cut` operations are done. -/
inductive Event where
  | tick (env : Env) (cut : Nat)
  | write (order : Index → List Id) (enumerates : ∀ idx, Enumerates (order idx) idx) (nowSecs : UInt64)
      (change : LocalWrite) (cut : Nat)

def Event.run (json : MetaJson) (files : Files) : Event → Files
  | .tick env cut => Sync.tick (wasm32 json) env files cut
  | .write order _ nowSecs change cut =>
    files.after ((writeThrough (wasm32 json) order nowSecs files change).take cut)

inductive Reachable (json : MetaJson) : Files → Prop
  | start : Reachable json noFiles
  | step {files : Files} (event : Event) : Reachable json files → Reachable json (event.run json files)

/-! ## The cursors in the files -/

/-- A pending link belongs to an unfinished crawl, a token without one to a finished crawl. -/
def CursorOk (idx : Index) : Prop :=
  (idx.pendingNextLink ≠ none → idx.crawlComplete = false) ∧
    (idx.deltaToken ≠ none → idx.pendingNextLink = none → idx.crawlComplete = true)

theorem CursorOk.congr {idx out : Index} (cursor : CursorOk idx) (same : out.progress = idx.progress) :
    CursorOk out := by
  simp only [Index.progress, Prod.mk.injEq] at same
  obtain ⟨token, pending, complete, _⟩ := same
  rw [CursorOk, token, pending, complete]
  exact cursor

theorem cursorOk_empty : CursorOk Index.empty := by
  simp [CursorOk, Index.empty]

theorem cursorOk_takePage (idx : Index) (page : DeltaPage) : CursorOk (idx.takePage page) := by
  unfold Index.takePage
  dsimp only
  split
  · simp [CursorOk]
  · exact CursorOk.congr (by simp [CursorOk]) (Index.progress_sweepOrphans _)

theorem CursorOk.take {idx : Index} (cursor : CursorOk idx) (reply : DeltaReply) : CursorOk (idx.take reply) := by
  match reply with
  | .ok page => exact cursorOk_takePage idx page
  | .error .resync => simp [Index.take, Index.restarted, CursorOk, Index.empty]
  | .error (.other _) => exact cursor

theorem CursorOk.foldl {idx : Index} (cursor : CursorOk idx) (list : List DeltaReply) :
    CursorOk (list.foldl Index.take idx) := by
  induction list generalizing idx with
  | nil => exact cursor
  | cons reply rest ih => exact ih (cursor.take reply)

/-! ## The invariant of the files -/

def SnapshotName (name : String) : Prop := name = indexFile ∨ name = rebuildFile

/-- Both snapshot files, where they exist, are encodings with consistent cursors. -/
structure Sound (json : MetaJson) (files : Files) : Prop where
  saved : ∀ {name : String} {bytes : Bytes}, SnapshotName name → files name = some bytes →
    ∃ idx, Saves json idx bytes ∧ CursorOk idx

section Sound
variable {json : MetaJson} {files : Files}

theorem SnapshotName.ne_tmp {name other : String} (left : SnapshotName name) (right : SnapshotName other) :
    name ≠ StateFile.tmpName other := by
  rcases left with rfl | rfl <;> rcases right with rfl | rfl <;> decide

theorem sound_noFiles : Sound json noFiles where
  saved := by
    intro name bytes _ found
    cases found

theorem Sound.write (sound : Sound json files) {name : String} (snapshot : SnapshotName name) {idx : Index}
    {bytes : Bytes} (saves : Saves json idx bytes) (cursor : CursorOk idx) (cut : Nat) :
    Sound json (files.after ((StateFile.writeAtomic name bytes).take cut)) := by
  refine ⟨fun {n held} other found => ?_⟩
  rcases StateFile.after_take_writeAtomic files bytes cut (SnapshotName.ne_tmp other snapshot) with same | ⟨_, same⟩
  · exact sound.saved other (same ▸ found)
  · rw [same] at found
    cases found
    exact ⟨idx, saves, cursor⟩

theorem Sound.swap (sound : Sound json files) (cut : Nat) :
    Sound json (files.after ([FileOp.rename rebuildFile indexFile].take cut)) := by
  cases cut with
  | zero => exact sound
  | succ cut =>
    refine ⟨fun {name bytes} snapshot found => ?_⟩
    simp only [List.take_succ_cons, List.take_nil, Files.after, List.foldl_cons, List.foldl_nil, FileOp.run] at found
    cases present : files rebuildFile with
    | none =>
      rw [present] at found
      exact sound.saved snapshot found
    | some shadow =>
      simp only [present] at found
      split at found
      · cases found
        exact sound.saved (.inr rfl) present
      · split at found
        · cases found
        · exact sound.saved snapshot found

theorem Sound.load (roundTrips : json.RoundTrips) (sound : Sound json files) {name : String}
    (snapshot : SnapshotName name) :
    (files name = none ∧ Snapshot.load (wasm32 json) files name = .ok none) ∨
      ∃ bytes idx, files name = some bytes ∧ Snapshot.load (wasm32 json) files name = .ok (some idx) ∧
        Snapshot.decode (wasm32 json) bytes = .ok idx ∧ CursorOk idx := by
  cases found : files name with
  | none => exact .inl ⟨rfl, by rw [load_eq, found]⟩
  | some bytes =>
    obtain ⟨idx, saves, cursor⟩ := sound.saved snapshot found
    obtain ⟨out, loaded, decoded, progress⟩ := load_saves roundTrips found saves
    exact .inr ⟨bytes, out, rfl, loaded, decoded, cursor.congr progress⟩

theorem Starts.cursorOk (roundTrips : json.RoundTrips) (sound : Sound json files) {start : Index} {target : String}
    (starts : Starts (wasm32 json) files start target) : CursorOk start ∧ SnapshotName target := by
  rcases starts with ⟨loaded, rfl⟩ | ⟨_, rfl, live, loaded, rfl⟩
  · rcases sound.load roundTrips (.inr rfl) with ⟨_, missing⟩ | ⟨_, idx, _, found, _, cursor⟩
    · cases loaded.symm.trans missing
    · cases loaded.symm.trans found
      exact ⟨cursor, .inr rfl⟩
  · rcases sound.load roundTrips (.inl rfl) with ⟨_, missing⟩ | ⟨_, idx, _, found, _, cursor⟩
    · cases loaded.symm.trans missing
      exact ⟨cursorOk_empty, .inl rfl⟩
    · cases loaded.symm.trans found
      exact ⟨cursor, .inl rfl⟩

theorem resyncTarget_snapshot {P : Platform} {place : String} (chosen : resyncTarget P files = .ok place) :
    SnapshotName place := by
  unfold resyncTarget at chosen
  split at chosen
  · cases chosen
    split
    · exact .inr rfl
    · exact .inl rfl
  · cases chosen
    exact .inl rfl
  · cases chosen
    exact .inl rfl
  · cases chosen

theorem Ticked.place_snapshot (roundTrips : json.RoundTrips) (sound : Sound json files) {env : Env} {start : Index}
    {target place : String} {saved swap : List FileOp} {out : Outcome}
    (ticked : Ticked json env files start target place saved swap out) : SnapshotName place := by
  cases restarted : out.report.resync with
  | false =>
    rw [ticked.kept restarted]
    exact (ticked.starts.cursorOk roundTrips sound).2
  | true => exact resyncTarget_snapshot (ticked.moved restarted)

/-- A tick keeps the invariant wherever it is cut short. -/
theorem Sound.tick (roundTrips : json.RoundTrips) (sound : Sound json files) (env : Env) (cut : Nat) :
    Sound json (Sync.tick (wasm32 json) env files cut) := by
  unfold Sync.tick
  split
  · rename_i out ran
    obtain ⟨start, target, place, saved, swap, ticked⟩ := runInner_ticked ran
    have cursor := (ticked.starts.cursorOk roundTrips sound).1.foldl (replies out.asked)
    have place := ticked.place_snapshot roundTrips sound
    rw [ticked.ops, List.take_append, Files.after_append]
    have first : Sound json (files.after (saved.take cut)) := by
      rcases ticked.saves with ⟨rfl, _⟩ | ⟨bytes, saves, rfl⟩
      · simpa using sound
      · exact sound.write place saves cursor cut
    rcases ticked.swaps with ⟨_, _, rfl, _⟩ | ⟨_, rfl, _⟩
    · exact first.swap _
    · simpa using first
  · exact sound

theorem Sound.mutate (roundTrips : json.RoundTrips) (sound : Sound json files) {order : Index → List Id}
    (enumerates : ∀ idx, Enumerates (order idx) idx) (now : UInt64) (change : LocalWrite) (cut : Nat) :
    Sound json (files.after ((writeThrough (wasm32 json) order now files change).take cut)) := by
  unfold writeThrough Snapshot.mutate
  rcases sound.load roundTrips (.inl rfl) with ⟨_, missing⟩ | ⟨_, idx, _, found, _, cursor⟩
  · simpa [missing] using sound
  · simp only [found]
    split
    · split
      · rename_i ops saved
        obtain ⟨bytes, saves, rfl⟩ := saves_of_save enumerates saved
        exact sound.write (.inl rfl) saves (cursor.congr (change.progress_run idx)) cut
      · simpa using sound
    · simpa using sound

theorem Reachable.sound (roundTrips : json.RoundTrips) (run : Reachable json files) : Sound json files := by
  induction run with
  | start => exact sound_noFiles
  | step event _ ih =>
    cases event with
    | tick env cut => exact ih.tick roundTrips env cut
    | write order enumerates now change cut => exact ih.mutate roundTrips enumerates now change cut

end Sound

/-! ## What a tick does to the two files -/

section Files
variable {json : MetaJson} {files : Files}

theorem load_congr {P : Platform} {other : Files} {name : String} (same : other name = files name) :
    load P other name = load P files name := by
  rw [load_eq, load_eq, same]

theorem Ticked.files_after {env : Env} {start : Index} {target place : String} {saved swap : List FileOp}
    {out : Outcome} (snapshot : SnapshotName place) (ticked : Ticked json env files start target place saved swap out) (cut : Nat) :
    (∀ n, SnapshotName n → files.after (out.ops.take cut) n = files n) ∨
    (∃ bytes, Saves json (replay start out.asked) bytes ∧ files.after (out.ops.take cut) place = some bytes ∧
      ∀ n, SnapshotName n → n ≠ place → files.after (out.ops.take cut) n = files n) ∨
    (out.report.complete = true ∧ place = rebuildFile ∧ files.after (out.ops.take cut) rebuildFile = none ∧
      ∃ bytes, files.after (out.ops.take cut) indexFile = some bytes ∧
        (Saves json (replay start out.asked) bytes ∨
          (saved = [] ∧ files rebuildFile = some bytes))) := by
  have differ : indexFile ≠ rebuildFile := by decide
  rw [ticked.ops, List.take_append, Files.after_append]
  -- first the save, then the swap on top of it
  have first : (∀ n, SnapshotName n → files.after (saved.take cut) n = files n) ∨
      (∃ bytes, Saves json (replay start out.asked) bytes ∧ files.after (saved.take cut) place = some bytes ∧
        ∀ n, SnapshotName n → n ≠ place → files.after (saved.take cut) n = files n) := by
    rcases ticked.saves with ⟨rfl, _⟩ | ⟨bytes, saves, rfl⟩
    · left
      simp
    · have each := fun n (other : SnapshotName n) =>
        StateFile.after_take_writeAtomic files bytes cut (SnapshotName.ne_tmp other snapshot)
      rcases each place snapshot with same | ⟨_, own⟩
      · left
        intro n other
        rcases each n other with kept | ⟨rfl, _⟩
        · exact kept
        · exact same
      · exact .inr ⟨bytes, saves, own, fun n other away => (each n other).resolve_right fun ⟨same, _⟩ => away same⟩
  have swapOnly : swap.take (cut - saved.length) = [] ∨ (swap.take (cut - saved.length) = [.rename rebuildFile indexFile] ∧
      out.report.complete = true ∧ place = rebuildFile ∧ saved.length < cut) := by
    rcases ticked.swaps with ⟨complete, isRebuild, rfl, _⟩ | ⟨_, rfl, _⟩
    · rcases Nat.lt_or_ge saved.length cut with more | less
      · have one : cut - saved.length = (cut - saved.length - 1) + 1 := by omega
        right
        rw [one]
        exact ⟨by simp, complete, isRebuild, more⟩
      · left
        rw [Nat.sub_eq_zero_of_le less, List.take_zero]
    · left
      simp
  rcases swapOnly with none | ⟨whole, complete, isRebuild, more⟩
  · rw [none, Files.after_nil]
    rcases first with kept | wrote
    · exact .inl kept
    · exact .inr (.inl wrote)
  · rw [whole]
    have all : saved.take cut = saved := List.take_of_length_le (by omega)
    rw [all] at first ⊢
    simp only [Files.after, List.foldl_cons, List.foldl_nil, FileOp.run]
    simp only [Files.after] at first
    rcases ticked.saves with ⟨rfl, _⟩ | ⟨bytes, saves, rfl⟩
    · simp only [List.foldl_nil]
      cases held : files rebuildFile with
      | none =>
        left
        simp
      | some bytes =>
        right; right
        exact ⟨complete, isRebuild, by simp [differ.symm], bytes, by simp, .inr ⟨trivial, rfl⟩⟩
    · have own := StateFile.after_writeAtomic files place bytes rebuildFile
      rw [isRebuild] at own ⊢
      simp only [Files.after, if_true] at own
      right; right
      rw [own]
      exact ⟨complete, rfl, by simp [differ.symm], bytes, by simp, .inl saves⟩

theorem writeThrough_files_after (roundTrips : json.RoundTrips) (sound : Sound json files)
    {order : Index → List Id} (enumerates : ∀ idx, Enumerates (order idx) idx) (now : UInt64) (change : LocalWrite)
    (cut : Nat) :
    (∀ n, SnapshotName n →
      files.after ((writeThrough (wasm32 json) order now files change).take cut) n = files n) ∨
    ∃ live bytes, load (wasm32 json) files indexFile = .ok (some live) ∧ (change.run live).2 = true ∧
      Saves json (change.run live).1 bytes ∧
      files.after ((writeThrough (wasm32 json) order now files change).take cut) indexFile = some bytes ∧
      files.after ((writeThrough (wasm32 json) order now files change).take cut) rebuildFile = files rebuildFile := by
  unfold writeThrough Snapshot.mutate
  rcases sound.load roundTrips (.inl rfl) with ⟨_, missing⟩ | ⟨_, live, _, found, _, _⟩
  · left
    simp [missing]
  · simp only [found]
    split
    · rename_i took
      split
      · rename_i ops saved
        obtain ⟨bytes, saves, rfl⟩ := saves_of_save enumerates saved
        have each := fun n (other : SnapshotName n) =>
          StateFile.after_take_writeAtomic files bytes cut (SnapshotName.ne_tmp other (.inl rfl : SnapshotName indexFile))
        -- the one rename decides; the temporary name is no snapshot
        rcases each indexFile (.inl rfl) with same | ⟨_, own⟩
        · left
          intro n other
          rcases each n other with kept | ⟨rfl, _⟩
          · exact kept
          · exact same
        · right
          refine ⟨live, bytes, rfl, took, saves, own, ?_⟩
          exact (each rebuildFile (.inr rfl)).resolve_right fun ⟨same, _⟩ => absurd same (by decide)
      · left
        simp
    · left
      simp

end Files

end Sync

end OneDriveDavfs
