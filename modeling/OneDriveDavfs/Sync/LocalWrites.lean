import OneDriveDavfs.Index.Entries
import OneDriveDavfs.Sync.Cursor

/-! Local writes while a rebuild is under way.

The writes patch the live snapshot, the ticks go on with the file beside it, and
neither looks at the other. So until the rebuild is finished every write is in
the live snapshot, and the rebuild that takes its place has what the pages of
the crawl brought and nothing else.
-/

set_option autoImplicit false

namespace OneDriveDavfs

open Library.Collections Library.Wire Snapshot Dav

namespace Sync

/-! ## The content of the two files -/

/-- The index of a crawl whose ticks fetched these pages. After each tick it is stored and loaded
again, unless the pages changed nothing. -/
inductive Rebuilt (json : MetaJson) : List (List DeltaPage) → Index → Prop
  | fresh (generation : UInt64) : Rebuilt json [] { Index.empty with generation := generation }
  | stored {ticks : List (List DeltaPage)} {pages : List DeltaPage} {idx out : Index} {bytes : Bytes} :
      Rebuilt json ticks idx → Saves json (pages.foldl Index.takePage idx) bytes →
      Snapshot.decode (wasm32 json) bytes = .ok out → Rebuilt json (ticks ++ [pages]) out
  | unchanged {ticks : List (List DeltaPage)} {pages : List DeltaPage} {idx : Index} :
      Rebuilt json ticks idx → changed idx (pages.map .ok) = false → Rebuilt json (ticks ++ [pages]) idx

/-- What local writes make of an index. Each is stored and loaded again, unless it changed nothing or
its index does not fit into a file. -/
inductive Patched (json : MetaJson) (start : Index) : List LocalWrite → Index → Prop
  | start : Patched json start [] start
  | stored {writes : List LocalWrite} {write : LocalWrite} {idx out : Index} {bytes : Bytes} :
      Patched json start writes idx → (write.run idx).2 = true → Saves json (write.run idx).1 bytes →
      Snapshot.decode (wasm32 json) bytes = .ok out → Patched json start (writes ++ [write]) out
  | unchanged {writes : List LocalWrite} {write : LocalWrite} {idx : Index} :
      Patched json start writes idx → (write.run idx).2 = false → Patched json start (writes ++ [write]) idx
  | tooLarge {writes : List LocalWrite} {write : LocalWrite} {idx : Index} {order : List Id} {now : UInt64} {e : Fault} :
      Patched json start writes idx → save (wasm32 json) order now indexFile (write.run idx).1 = .error e →
      Patched json start (writes ++ [write]) idx

/-- Ticks and local writes in any order since a resync has begun a rebuild: the pages of the ticks, the
live snapshot when the writes began, and the writes. -/
inductive Rebuilding (json : MetaJson) : List (List DeltaPage) → Index → List LocalWrite → Files → Prop
  | begins {files : Files} {live : Index} {env : Env} {out : Outcome} : Reachable json files →
      runInner (wasm32 json) env files = .ok out → out.report.resync = true →
      resyncTarget (wasm32 json) files = .ok rebuildFile → out.report.complete = false →
      load (wasm32 json) files indexFile = .ok (some live) →
      Rebuilding json [pagesSince (replies out.asked)] live [] (files.after out.ops)
  | tick {ticks : List (List DeltaPage)} {live : Index} {writes : List LocalWrite} {files : Files} {env : Env}
      {out : Outcome} : Rebuilding json ticks live writes files → runInner (wasm32 json) env files = .ok out →
      out.report.resync = false → out.report.complete = false →
      Rebuilding json (ticks ++ [pagesSince (replies out.asked)]) live writes (files.after out.ops)
  /-- A resync beside a live snapshot that is not worth serving starts over in its place. -/
  | elsewhere {ticks : List (List DeltaPage)} {live next : Index} {writes : List LocalWrite} {files : Files} {env : Env}
      {out : Outcome} : Rebuilding json ticks live writes files → runInner (wasm32 json) env files = .ok out →
      out.report.resync = true → resyncTarget (wasm32 json) files = .ok indexFile →
      load (wasm32 json) (files.after out.ops) indexFile = .ok (some next) →
      Rebuilding json ticks next [] (files.after out.ops)
  | write {ticks : List (List DeltaPage)} {live : Index} {writes : List LocalWrite} {files : Files}
      {order : Index → List Id} (enumerates : ∀ idx, Enumerates (order idx) idx) (now : UInt64) (change : LocalWrite) :
      Rebuilding json ticks live writes files →
      Rebuilding json ticks live (writes ++ [change]) (files.after (writeThrough (wasm32 json) order now files change))

def pagesAfter (ticks : List (List DeltaPage)) (out : Outcome) : List (List DeltaPage) :=
  if out.report.resync then [pagesSince (replies out.asked)] else ticks ++ [pagesSince (replies out.asked)]

/-- One of the pages has a record with this name that is no tombstone. -/
def Mentioned (ticks : List (List DeltaPage)) (name : String) : Prop :=
  ∃ pages ∈ ticks, ∃ page ∈ pages, ∃ it ∈ page.items, it.deleted = false ∧ name = it.name

/-! ## Names -/

section Names
variable {json : MetaJson} {idx : Index} {ticks : List (List DeltaPage)} {name : String} {q c : Id}

theorem mem_kidsOf_of_sweepOrphans (member : (name, c) ∈ idx.sweepOrphans.kidsOf q) : (name, c) ∈ idx.kidsOf q :=
  ((Index.sweepOrphans_pruned idx).kids.mp member).1

theorem mem_kidsOf_of_takePage {page : DeltaPage} (member : (name, c) ∈ (idx.takePage page).kidsOf q) :
    (name, c) ∈ idx.kidsOf q ∨ ∃ it ∈ page.items, it.deleted = false ∧ name = it.name := by
  unfold Index.takePage at member
  dsimp only at member
  split at member
  · exact Index.mem_kidsOf_of_applyAll page.items member
  · have before := mem_kidsOf_of_sweepOrphans member
    exact Index.mem_kidsOf_of_applyAll page.items before

theorem mem_kidsOf_of_takePages (pages : List DeltaPage)
    (member : (name, c) ∈ (pages.foldl Index.takePage idx).kidsOf q) :
    (name, c) ∈ idx.kidsOf q ∨ ∃ page ∈ pages, ∃ it ∈ page.items, it.deleted = false ∧ name = it.name := by
  induction pages generalizing idx with
  | nil => exact .inl member
  | cons page rest ih =>
    rcases ih member with first | ⟨later, listed, own⟩
    · exact (mem_kidsOf_of_takePage first).imp_right fun own => ⟨page, List.mem_cons_self, own⟩
    · exact .inr ⟨later, List.mem_cons_of_mem _ listed, own⟩

theorem mem_kidsOf_of_childInfos {child : ChildInfo} (member : child ∈ childInfos idx q) :
    (child.name, child.id) ∈ idx.kidsOf q := by
  simp only [childInfos, List.mem_filterMap, Option.map_eq_some_iff, Prod.exists, Std.ExtTreeSet.mem_toList] at member
  obtain ⟨_, _, entry, _, _, rfl⟩ := member
  exact entry

theorem mem_kidsOf_of_restored {dirs : List DirEntry} (member : (name, c) ∈ (restored idx dirs).kidsOf q) :
    ∃ p, (name, c) ∈ idx.kidsOf p := by
  have kids : (restored idx dirs).kids = (placed idx dirs).kids := (foldl_linkRow_same _ _).1
  rw [Index.kidsOf, kids, placed, foldl_addRow_kids] at member
  cases found : (insertAll (∅ : Std.ExtTreeMap Id KidSet) (dirs.map fun dir => (dir.id, childSet idx dir.id)))[q]? with
  | none => simp [found] at member
  | some set =>
    rcases lookup_insertAll found with listed | fresh
    · obtain ⟨dir, _, own⟩ := List.mem_map.mp listed
      obtain ⟨rfl, rfl⟩ := Prod.mk.inj own
      rw [found, Option.getD_some, childSet, mem_insertKids] at member
      rcases member with nothing | ⟨child, inBlock, same⟩
      · simp at nothing
      · cases same
        exact ⟨_, mem_kidsOf_of_childInfos inBlock⟩
    · simp at fresh

theorem mem_kidsOf_of_decode (roundTrips : json.RoundTrips) {bytes : Bytes} {out : Index} (saves : Saves json idx bytes)
    (decoded : Snapshot.decode (wasm32 json) bytes = .ok out) (member : (name, c) ∈ out.kidsOf q) :
    ∃ p, (name, c) ∈ idx.kidsOf p := by
  obtain ⟨_, _, _, _, _, encoded⟩ := saves.encoded roundTrips
  cases decoded.symm.trans (decode_eq_restored encoded)
  exact mem_kidsOf_of_restored member

theorem Mentioned.append {more : List (List DeltaPage)} (mentioned : Mentioned ticks name) :
    Mentioned (ticks ++ more) name := by
  obtain ⟨pages, listed, rest⟩ := mentioned
  exact ⟨pages, List.mem_append_left _ listed, rest⟩

theorem Rebuilt.mentioned (roundTrips : json.RoundTrips) (rebuilt : Rebuilt json ticks idx)
    (member : (name, c) ∈ idx.kidsOf q) : Mentioned ticks name := by
  induction rebuilt generalizing q with
  | fresh generation => simp [Index.empty, Index.kidsOf] at member
  | @stored ticks pages idx out bytes _ saves decoded ih =>
    obtain ⟨p, before⟩ := mem_kidsOf_of_decode roundTrips saves decoded member
    rcases mem_kidsOf_of_takePages pages before with earlier | ⟨page, listed, own⟩
    · exact (ih earlier).append
    · exact ⟨pages, by simp, page, listed, own⟩
  | unchanged _ _ ih => exact (ih member).append

theorem Rebuilt.resolve_eq_none (roundTrips : json.RoundTrips) (rebuilt : Rebuilt json ticks idx) {path : String}
    (inPath : name ∈ segments path) (never : ¬ Mentioned ticks name) : idx.resolve path = none := by
  by_contra resolves
  obtain ⟨x, resolves⟩ := Option.ne_none_iff_exists'.mp resolves
  obtain ⟨q, c, member⟩ := Index.exists_entry_of_resolve resolves inPath
  exact never (rebuilt.mentioned roundTrips member)

end Names

/-! ## One tick of the crawl -/

section Tick
variable {json : MetaJson} {files : Files} {env : Env} {start : Index} {target : String} {saved swap : List FileOp}
  {out : Outcome} {ticks : List (List DeltaPage)}

theorem Exchange.usable {asked : List (String × DeltaReply)} (exchange : Exchange env start asked) :
    ∀ r ∈ replies asked, ∀ e, r ≠ .error (.other e) := by
  induction exchange with
  | nil => simp [replies]
  | snoc _ _ _ usable ih =>
    intro r member
    rw [replies_snoc] at member
    rcases List.mem_append.mp member with before | own
    · exact ih r before
    · rw [List.mem_singleton.mp own]
      exact usable

theorem map_pagesSince {list : List DeltaReply} (usable : ∀ r ∈ list, ∀ e, r ≠ .error (.other e))
    (quiet : list.any isResync = false) : (pagesSince list).map .ok = list := by
  induction list using List.reverseRecOn with
  | nil => rfl
  | append_singleton list reply ih =>
    rw [List.any_append, Bool.or_eq_false_iff] at quiet
    have before := ih (fun r member => usable r (List.mem_append_left _ member)) quiet.1
    match reply with
    | .ok page => rw [pagesSince_page, List.map_append, before, List.map_cons, List.map_nil]
    | .error .resync => simp [isResync] at quiet
    | .error (.other e) => exact absurd rfl (usable (.error (.other e)) (by simp) e)

theorem replay_pages (start : Index) (asked : List (String × DeltaReply)) :
    ((replies asked).any isResync = false → replay start asked = (pagesSince (replies asked)).foldl Index.takePage start) ∧
      ((replies asked).any isResync = true → ∃ generation, replay start asked =
        (pagesSince (replies asked)).foldl Index.takePage { Index.empty with generation := generation }) := by
  have count : resyncs (replies asked) = 0 ↔ (replies asked).any isResync = false := by
    rw [resyncs, List.countP_eq_zero, List.any_eq_false]
  rw [replay, foldl_take_eq, baseOf]
  constructor
  · intro quiet
    rw [if_pos (count.mpr quiet)]
  · intro restarted
    rw [if_neg fun none => by simp [count.mp none] at restarted]
    exact ⟨_, rfl⟩

/-- What a tick on the rebuild leaves in its file, before a swap. The live snapshot stays. -/
theorem Ticked.rebuilt (roundTrips : json.RoundTrips)
    (ticked : Ticked json env files start target rebuildFile saved swap out)
    (before : out.report.resync = false → ∃ bytes, files rebuildFile = some bytes ∧
      Snapshot.decode (wasm32 json) bytes = .ok start ∧ Rebuilt json ticks start) :
    files.after saved indexFile = files indexFile ∧ ∃ bytes idx, files.after saved rebuildFile = some bytes ∧
      Snapshot.decode (wasm32 json) bytes = .ok idx ∧ Rebuilt json (pagesAfter ticks out) idx := by
  obtain ⟨onTop, fromNothing⟩ := replay_pages start out.asked
  have resync := ticked.resync
  rcases ticked.saves with ⟨rfl, _, same⟩ | ⟨bytes, saves, rfl⟩
  · -- nothing was written, so there was no resync and the rebuild on disk stands for what was asked
    have quiet := resync.trans (not_resync_of_unchanged same)
    obtain ⟨bytes, held, decoded, rebuilt⟩ := before quiet
    refine ⟨rfl, bytes, start, held, decoded, ?_⟩
    rw [pagesAfter, quiet, if_neg Bool.false_ne_true]
    rw [← map_pagesSince ticked.exchange.usable (resync.symm.trans quiet)] at same
    exact .unchanged rebuilt same
  · obtain ⟨idx, decoded, _⟩ := saves.decode roundTrips
    refine ⟨?_, bytes, idx, ?_, decoded, ?_⟩
    · rw [StateFile.after_writeAtomic, if_neg (by decide), if_neg (by decide)]
    · rw [StateFile.after_writeAtomic, if_pos rfl]
    · cases restarted : out.report.resync with
      | false =>
        obtain ⟨_, _, _, rebuilt⟩ := before restarted
        rw [pagesAfter, restarted, if_neg Bool.false_ne_true]
        rw [onTop (resync.symm.trans restarted)] at saves
        exact .stored rebuilt saves decoded
      -- after a resync the rebuild is replayed from nothing, at a fresh generation
      | true =>
        obtain ⟨generation, pages⟩ := fromNothing (resync.symm.trans restarted)
        rw [pagesAfter, restarted, if_pos rfl]
        rw [pages] at saves
        exact .stored (.fresh generation) saves decoded

theorem load_of_decode {name : String} {bytes : Bytes} {idx : Index} (held : files name = some bytes)
    (decoded : Snapshot.decode (wasm32 json) bytes = .ok idx) : load (wasm32 json) files name = .ok (some idx) := by
  rw [load_eq, held]
  simp only [decoded]
  rfl

end Tick

/-! ## The crawl as a whole -/

structure Apart (json : MetaJson) (ticks : List (List DeltaPage)) (live : Index) (writes : List LocalWrite)
    (files : Files) : Prop where
  reached : Reachable json files
  rebuild : ∃ bytes idx, files rebuildFile = some bytes ∧ Snapshot.decode (wasm32 json) bytes = .ok idx ∧
    Rebuilt json ticks idx
  index : ∃ idx, load (wasm32 json) files indexFile = .ok (some idx) ∧ Patched json live writes idx

section Run
variable {json : MetaJson} {files : Files} {env : Env} {out : Outcome} {ticks : List (List DeltaPage)} {live : Index}
  {writes : List LocalWrite}

theorem Reachable.tick (run : Reachable json files) (ran : runInner (wasm32 json) env files = .ok out) :
    Reachable json (files.after out.ops) := by
  have next := run.step (.tick env out.ops.length)
  simpa [Event.run, Sync.tick, ran] using next

theorem Reachable.write (run : Reachable json files) {order : Index → List Id}
    (enumerates : ∀ idx, Enumerates (order idx) idx) (now : UInt64) (change : LocalWrite) :
    Reachable json (files.after (writeThrough (wasm32 json) order now files change)) := by
  have next := run.step (.write order enumerates now change (writeThrough (wasm32 json) order now files change).length)
  simpa [Event.run] using next

theorem Apart.ticked (apart : Apart json ticks live writes files) (ran : runInner (wasm32 json) env files = .ok out)
    (place : out.report.resync = true → resyncTarget (wasm32 json) files = .ok rebuildFile) :
    ∃ bytes start target saved swap, files rebuildFile = some bytes ∧
      Snapshot.decode (wasm32 json) bytes = .ok start ∧ Rebuilt json ticks start ∧
      Ticked json env files start target rebuildFile saved swap out := by
  obtain ⟨bytes, shadow, held, decoded, rebuilt⟩ := apart.rebuild
  obtain ⟨start, target, file, saved, swap, ticked⟩ := runInner_ticked ran
  have loaded := load_of_decode held decoded
  obtain ⟨rfl, rfl⟩ : start = shadow ∧ target = rebuildFile := by
    rcases ticked.starts with ⟨present, isRebuild⟩ | ⟨missing, _⟩
    · cases loaded.symm.trans present
      exact ⟨rfl, isRebuild⟩
    · cases loaded.symm.trans missing
  have same : file = rebuildFile := by
    cases restarted : out.report.resync with
    | false => exact ticked.kept restarted
    | true => exact Except.ok.inj ((ticked.moved restarted).symm.trans (place restarted))
  subst same
  exact ⟨bytes, start, _, saved, swap, held, decoded, rebuilt, ticked⟩

theorem Apart.tick (roundTrips : json.RoundTrips) (apart : Apart json ticks live writes files)
    (ran : runInner (wasm32 json) env files = .ok out) (quiet : out.report.resync = false)
    (unfinished : out.report.complete = false) :
    Apart json (ticks ++ [pagesSince (replies out.asked)]) live writes (files.after out.ops) := by
  obtain ⟨bytes, start, _, saved, swap, held, decoded, rebuilt, ticked⟩ :=
    apart.ticked ran fun restarted => by simp [quiet] at restarted
  obtain ⟨same, next⟩ := ticked.rebuilt roundTrips fun _ => ⟨bytes, held, decoded, rebuilt⟩
  rw [pagesAfter, quiet, if_neg Bool.false_ne_true] at next
  have ops : out.ops = saved := by
    rcases ticked.swaps with ⟨complete, _⟩ | ⟨_, rfl, _⟩
    · simp [unfinished] at complete
    · simpa using ticked.ops
  obtain ⟨idx, loaded, patched⟩ := apart.index
  refine ⟨apart.reached.tick ran, ops ▸ next, idx, ?_, patched⟩
  rw [load_congr (ops ▸ same)]
  exact loaded

/-- The rebuild begins with a resync beside a live snapshot that is worth serving. -/
theorem apart_begins (roundTrips : json.RoundTrips) (reached : Reachable json files)
    (ran : runInner (wasm32 json) env files = .ok out) (restarted : out.report.resync = true)
    (place : resyncTarget (wasm32 json) files = .ok rebuildFile) (unfinished : out.report.complete = false)
    (loaded : load (wasm32 json) files indexFile = .ok (some live)) :
    Apart json [pagesSince (replies out.asked)] live [] (files.after out.ops) := by
  obtain ⟨start, target, file, saved, swap, ticked⟩ := runInner_ticked ran
  cases Except.ok.inj ((ticked.moved restarted).symm.trans place)
  obtain ⟨same, next⟩ : _ ∧ ∃ bytes idx, _ ∧ _ ∧ Rebuilt json (pagesAfter [] out) idx :=
    ticked.rebuilt roundTrips fun quiet => by simp [restarted] at quiet
  rw [pagesAfter, restarted, if_pos rfl] at next
  have ops : out.ops = saved := by
    rcases ticked.swaps with ⟨complete, _⟩ | ⟨_, rfl, _⟩
    · simp [unfinished] at complete
    · simpa using ticked.ops
  refine ⟨reached.tick ran, ops ▸ next, live, ?_, .start⟩
  rw [load_congr (ops ▸ same)]
  exact loaded

theorem Apart.elsewhere (apart : Apart json ticks live writes files) {next : Index}
    (ran : runInner (wasm32 json) env files = .ok out) (restarted : out.report.resync = true)
    (place : resyncTarget (wasm32 json) files = .ok indexFile)
    (loaded : load (wasm32 json) (files.after out.ops) indexFile = .ok (some next)) :
    Apart json ticks next [] (files.after out.ops) := by
  obtain ⟨start, target, file, saved, swap, ticked⟩ := runInner_ticked ran
  cases Except.ok.inj ((ticked.moved restarted).symm.trans place)
  have ops : out.ops = saved := by
    rcases ticked.swaps with ⟨_, isRebuild, _⟩ | ⟨_, rfl, _⟩
    · exact absurd isRebuild (by decide)
    · simpa using ticked.ops
  have same : files.after out.ops rebuildFile = files rebuildFile := by
    rw [ops]
    rcases ticked.saves with ⟨rfl, _⟩ | ⟨bytes, _, rfl⟩
    · rfl
    · rw [StateFile.after_writeAtomic, if_neg (by decide), if_neg (by decide)]
  refine ⟨apart.reached.tick ran, ?_, next, loaded, .start⟩
  rw [same]
  exact apart.rebuild

theorem Apart.write (roundTrips : json.RoundTrips) (apart : Apart json ticks live writes files)
    {order : Index → List Id} (enumerates : ∀ idx, Enumerates (order idx) idx) (now : UInt64) (change : LocalWrite) :
    Apart json ticks live (writes ++ [change]) (files.after (writeThrough (wasm32 json) order now files change)) := by
  have reached := apart.reached.write enumerates now change
  obtain ⟨idx, loaded, patched⟩ := apart.index
  have nothing : Patched json live (writes ++ [change]) idx →
      writeThrough (wasm32 json) order now files change = [] →
      Apart json ticks live (writes ++ [change]) (files.after (writeThrough (wasm32 json) order now files change)) := by
    intro kept none
    rw [none] at reached ⊢
    exact ⟨reached, apart.rebuild, idx, loaded, kept⟩
  cases took : (change.run idx).2 with
  | false => exact nothing (.unchanged patched took) (by simp [writeThrough, mutate, loaded, took])
  | true =>
    cases saved : save (wasm32 json) (order (change.run idx).1) now indexFile (change.run idx).1 with
    | error e => exact nothing (.tooLarge patched saved) (by simp [writeThrough, mutate, loaded, took, saved])
    | ok ops =>
      obtain ⟨bytes, saves, rfl⟩ := saves_of_save enumerates saved
      have wrote : writeThrough (wasm32 json) order now files change = StateFile.writeAtomic indexFile bytes := by
        simp [writeThrough, mutate, loaded, took, saved]
      obtain ⟨next, decoded, _⟩ := saves.decode roundTrips
      rw [wrote] at reached ⊢
      refine ⟨reached, ?_, next, ?_, .stored patched took saves decoded⟩
      · rw [StateFile.after_writeAtomic, if_neg (by decide), if_neg (by decide)]
        exact apart.rebuild
      · exact load_of_decode (by rw [StateFile.after_writeAtomic, if_pos rfl]) decoded

theorem Rebuilding.apart (roundTrips : json.RoundTrips) (run : Rebuilding json ticks live writes files) :
    Apart json ticks live writes files := by
  induction run with
  | begins reached ran restarted place unfinished loaded =>
    exact apart_begins roundTrips reached ran restarted place unfinished loaded
  | tick _ ran quiet unfinished ih => exact ih.tick roundTrips ran quiet unfinished
  | elsewhere _ ran restarted place loaded ih => exact ih.elsewhere ran restarted place loaded
  | write enumerates now change _ ih => exact ih.write roundTrips enumerates now change

theorem Apart.swapped (roundTrips : json.RoundTrips) (apart : Apart json ticks live writes files)
    (ran : runInner (wasm32 json) env files = .ok out) (complete : out.report.complete = true)
    (place : out.report.resync = true → resyncTarget (wasm32 json) files = .ok rebuildFile) :
    ∃ idx, load (wasm32 json) (files.after out.ops) indexFile = .ok (some idx) ∧
      Rebuilt json (pagesAfter ticks out) idx := by
  obtain ⟨before, start, _, saved, swap, held, decoded, rebuilt, ticked⟩ := apart.ticked ran place
  obtain ⟨_, bytes, idx, stored, read, next⟩ := ticked.rebuilt roundTrips fun _ => ⟨before, held, decoded, rebuilt⟩
  have moved : files.after out.ops indexFile = some bytes := by
    rcases ticked.swaps with ⟨_, _, rfl, _⟩ | ⟨kept, _⟩
    · rw [ticked.ops, Files.after_append]
      simp only [Files.after, List.foldl_cons, List.foldl_nil, FileOp.run] at stored ⊢
      rw [stored]
      rfl
    · exact absurd ⟨complete, rfl⟩ kept
  exact ⟨idx, load_of_decode moved read, next⟩

end Run

/-- In any order of ticks and local writes the live snapshot has the writes until the rebuild is finished.
What takes its place is what the pages of the crawl made, whatever was written, and has no path with a
name that none of them mentions. -/
theorem rebuild_has_pages_alone (json : MetaJson) (roundTrips : json.RoundTrips) (ticks : List (List DeltaPage))
    (live : Index) (writes : List LocalWrite) (files : Files) (run : Rebuilding json ticks live writes files) :
    (∃ idx, load (wasm32 json) files indexFile = .ok (some idx) ∧ Patched json live writes idx) ∧
      ∀ env out, runInner (wasm32 json) env files = .ok out → out.report.complete = true →
        (out.report.resync = true → resyncTarget (wasm32 json) files = .ok rebuildFile) →
        ∃ idx, load (wasm32 json) (files.after out.ops) indexFile = .ok (some idx) ∧
          Rebuilt json (pagesAfter ticks out) idx ∧
          ∀ path name, name ∈ segments path → ¬ Mentioned (pagesAfter ticks out) name → idx.resolve path = none := by
  have apart := run.apart roundTrips
  refine ⟨apart.index, fun env out ran complete place => ?_⟩
  obtain ⟨idx, loaded, rebuilt⟩ := apart.swapped roundTrips ran complete place
  exact ⟨idx, loaded, rebuilt, fun path name inPath never => rebuilt.resolve_eq_none roundTrips inPath never⟩

/-! ## A crawl of two ticks -/

def folderD : List DeltaItem := [
  ⟨"r", none, "root", false, true, ⟨true, 0, 0, ""⟩⟩,
  ⟨"d", some "r", "D", false, false, ⟨true, 0, 0, ""⟩⟩]

def firstPage : DeltaPage := ⟨folderD, some "https://graph.microsoft.com/2", none⟩

def listing : Env := .steady 8 (by decide) 7 fun _ _ => .ok ⟨folderD, none, some "https://graph.microsoft.com/d"⟩

/-- The token has expired, and the budget allows the first page of the crawl that follows. -/
def recrawl : Env := .steady 2 (by decide) 7 fun n _ => if n = 0 then .error .resync else .ok firstPage

def blankPage : DeltaPage := ⟨[], none, some "https://graph.microsoft.com/e"⟩

def lastPage : Env := .steady 8 (by decide) 7 fun _ _ => .ok blankPage

def wholeTick (json : MetaJson) (env : Env) (files : Files) : Files :=
  match runInner (wasm32 json) env files with
  | .ok out => files.after out.ops
  | .error _ => files

theorem wholeTick_eq {json : MetaJson} {env : Env} {files : Files} {out : Outcome}
    (ran : runInner (wasm32 json) env files = .ok out) : wholeTick json env files = files.after out.ops := by
  rw [wholeTick, ran]

def wholeWrite (json : MetaJson) (change : LocalWrite) (files : Files) : Files :=
  files.after (writeThrough (wasm32 json) (·.nodes.keys) 7 files change)

/-- A folder made and one deleted between the two ticks of the crawl. -/
def writtenBetween (json : MetaJson) : Files :=
  wholeWrite json (.delete "/D") (wholeWrite json (.mkcol "/A" none)
    (wholeTick json recrawl (wholeTick json listing noFiles)))

theorem writtenBetween_rebuilding {json : MetaJson} {first begun : Outcome} {live : Index}
    (ranFirst : runInner (wasm32 json) listing noFiles = .ok first)
    (ran : runInner (wasm32 json) recrawl (wholeTick json listing noFiles) = .ok begun)
    (restarted : begun.report.resync = true) (unfinished : begun.report.complete = false)
    (loaded : load (wasm32 json) (wholeTick json listing noFiles) indexFile = .ok (some live))
    (worth : live.worthServing = true) :
    Rebuilding json [pagesSince (replies begun.asked)] live [.mkcol "/A" none, .delete "/D"] (writtenBetween json) := by
  have reached : Reachable json (wholeTick json listing noFiles) :=
    wholeTick_eq ranFirst ▸ Reachable.start.tick ranFirst
  have place : resyncTarget (wasm32 json) (wholeTick json listing noFiles) = .ok rebuildFile := by
    simp [resyncTarget, loaded, worth]
  have run := Rebuilding.begins reached ran restarted place unfinished loaded
  rw [← wholeTick_eq ran] at run
  have enumerates : ∀ idx : Index, Enumerates ((fun idx : Index => idx.nodes.keys) idx) idx := enumerates_keys
  exact (run.write enumerates 7 (.mkcol "/A" none)).write enumerates 7 (.delete "/D")

theorem ticks_writtenBetween :
    (match runInner (wasm32 metaText) listing noFiles, runInner (wasm32 metaText) recrawl (wholeTick metaText listing noFiles),
        load (wasm32 metaText) (wholeTick metaText listing noFiles) indexFile, runInner (wasm32 metaText) lastPage (writtenBetween metaText),
        load (wasm32 metaText) (wholeTick metaText lastPage (writtenBetween metaText)) indexFile with
      | .ok _, .ok begun, .ok (some live), .ok out, .ok (some after) =>
        begun.report.resync && !begun.report.complete && live.worthServing &&
          decide (pagesSince (replies begun.asked) = [firstPage]) && out.report.complete && !out.report.resync &&
          decide (pagesSince (replies out.asked) = [blankPage]) && (after.resolve "/D").isSome
      | _, _, _, _, _ => false) = true := by
  rw [metaText_eq_asciiText]
  decide +kernel

theorem rebuilding_writtenBetween :
    ∃ live out after, Rebuilding metaText [[firstPage]] live [.mkcol "/A" none, .delete "/D"] (writtenBetween metaText) ∧
      runInner (wasm32 metaText) lastPage (writtenBetween metaText) = .ok out ∧ out.report.complete = true ∧
      out.report.resync = false ∧ pagesSince (replies out.asked) = [blankPage] ∧
      load (wasm32 metaText) ((writtenBetween metaText).after out.ops) indexFile = .ok (some after) ∧
      (after.resolve "/D").isSome = true := by
  have ticks := ticks_writtenBetween
  split at ticks
  · rename_i first begun live out after ranFirst ran loaded ranLast served
    simp only [Bool.and_eq_true, Bool.not_eq_true', decide_eq_true_eq] at ticks
    obtain ⟨⟨⟨⟨⟨⟨⟨restarted, unfinished⟩, worth⟩, pages⟩, complete⟩, quiet⟩, blank⟩, back⟩ := ticks
    have written := writtenBetween_rebuilding ranFirst ran restarted unfinished loaded worth
    rw [pages] at written
    rw [wholeTick_eq ranLast] at served
    exact ⟨live, out, after, written, ranLast, complete, quiet, blank, served, back⟩
  · cases ticks

theorem not_mentioned_A : ¬ Mentioned [[firstPage], [blankPage]] "A" := by
  rintro ⟨pages, listed, page, member, it, given, _, name⟩
  revert it
  revert page
  revert pages
  decide

/-- The folder that was made is gone with the last page. -/
theorem rebuild_has_pages_alone_writtenBetween :
    ∃ out idx, runInner (wasm32 metaText) lastPage (writtenBetween metaText) = .ok out ∧
      load (wasm32 metaText) ((writtenBetween metaText).after out.ops) indexFile = .ok (some idx) ∧ idx.resolve "/A" = none := by
  obtain ⟨live, out, _, run, ran, complete, quiet, blank, _⟩ := rebuilding_writtenBetween
  obtain ⟨_, swapped⟩ := rebuild_has_pages_alone metaText metaText_roundTrips _ _ _ _ run
  obtain ⟨idx, loaded, _, absent⟩ := swapped lastPage out ran complete fun restarted => by simp [quiet] at restarted
  refine ⟨out, idx, ran, loaded, absent "/A" "A" (by decide) ?_⟩
  rw [pagesAfter, quiet, if_neg Bool.false_ne_true, blank]
  exact not_mentioned_A

/-- The rebuild takes away the folder that was made and brings back the one that was deleted, though no
page came in between that has either. -/
theorem rebuild_undoes_writes :
    ∃ live out after, Rebuilding metaText [[firstPage]] live [.mkcol "/A" none, .delete "/D"] (writtenBetween metaText) ∧
      runInner (wasm32 metaText) lastPage (writtenBetween metaText) = .ok out ∧ out.report.complete = true ∧
      (∀ page ∈ pagesSince (replies out.asked), page.items = []) ∧
      load (wasm32 metaText) ((writtenBetween metaText).after out.ops) indexFile = .ok (some after) ∧
      after.resolve "/A" = none ∧ (after.resolve "/D").isSome = true := by
  obtain ⟨live, out, after, run, ran, complete, quiet, blank, loaded, back⟩ := rebuilding_writtenBetween
  obtain ⟨idx, swapped, rebuilt⟩ := (run.apart metaText_roundTrips).swapped metaText_roundTrips ran complete
    fun restarted => by simp [quiet] at restarted
  cases loaded.symm.trans swapped
  rw [pagesAfter, quiet, if_neg Bool.false_ne_true, blank] at rebuilt
  refine ⟨live, out, after, run, ran, complete, ?_, loaded, ?_, back⟩
  · rw [blank]
    decide
  · exact rebuilt.resolve_eq_none metaText_roundTrips (by decide) not_mentioned_A

end Sync

end OneDriveDavfs
