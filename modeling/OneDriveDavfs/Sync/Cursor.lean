import OneDriveDavfs.Sync.Run

/-! Content and cursor of a stored index.

A tick either changes nothing or stores one index: the one it started from, or
an empty one after a resync, with the pages since then, and with the cursor of
the last of them. A tick that does not save met only pages that change neither.
-/

set_option autoImplicit false

namespace OneDriveDavfs

open Library.Wire Snapshot

namespace Sync

/-! ## The pages that count -/

def pagesSince (list : List DeltaReply) : List DeltaPage :=
  list.foldl (fun pages reply => match reply with
    | .ok page => pages ++ [page]
    | .error .resync => []
    | .error (.other _) => pages) []

def resyncs (list : List DeltaReply) : Nat := list.countP isResync

def baseOf (start : Index) (list : List DeltaReply) : Index :=
  if resyncs list = 0 then start
  else { Index.empty with
    generation := UInt64.ofNat (min (start.generation.toNat + resyncs list) (2 ^ 64 - 1)) }

/-- The index with these pages applied in order, and the cursor of the last:
its next link, or its delta link after the orphans are swept. -/
def advanced (base : Index) (pages : List DeltaPage) : Index :=
  let idx := (pages.flatMap DeltaPage.items).foldl Index.apply base
  match pages.getLast? with
  | none => base
  | some last => match last.nextLink with
    | some next => idx.withProgress base.deltaToken (some next) false base.generation
    | none => (idx.withProgress last.deltaToken none true base.generation).sweepOrphans

/-- The final page of a crawl carries the link to the changes after it. -/
def LinksOnwards (page : DeltaPage) : Prop := page.nextLink = none → page.deltaToken ≠ none

section Pages
variable {start base : Index} {list front : List DeltaReply} {pages : List DeltaPage} {page : DeltaPage}

theorem pagesSince_page : pagesSince (list ++ [.ok page]) = pagesSince list ++ [page] := by
  simp [pagesSince]

theorem pagesSince_resync : pagesSince (list ++ [.error .resync]) = [] := by
  simp [pagesSince]

theorem baseOf_page : baseOf start (list ++ [.ok page]) = baseOf start list := by
  simp [baseOf, resyncs, isResync]

theorem generation_sweepOrphans (idx : Index) : idx.sweepOrphans.generation = idx.generation :=
  congrArg (·.2.2.2) (Index.progress_sweepOrphans idx)

theorem generation_takePage (idx : Index) (page : DeltaPage) :
    (idx.takePage page).generation = idx.generation := by
  have applied := Index.progress_applyAll page.items idx
  simp only [Index.progress, Prod.mk.injEq] at applied
  unfold Index.takePage
  dsimp only
  split
  · exact applied.2.2.2
  · rw [generation_sweepOrphans]
    exact applied.2.2.2

theorem generation_foldl_take (list : List DeltaReply) (start : Index) :
    (list.foldl Index.take start).generation =
      UInt64.ofNat (min (start.generation.toNat + resyncs list) (2 ^ 64 - 1)) := by
  induction list using List.reverseRecOn with
  | nil =>
    have word := start.generation.toNat_lt
    have same : min (start.generation.toNat + resyncs []) (2 ^ 64 - 1) = start.generation.toNat := by
      simp only [resyncs, List.countP_nil]
      omega
    rw [List.foldl_nil, same, UInt64.ofNat_toNat]
  | append_singleton list reply ih =>
    rw [List.foldl_append, List.foldl_cons, List.foldl_nil]
    have count : resyncs (list ++ [reply]) = resyncs list + if isResync reply = true then 1 else 0 := by
      rw [resyncs, List.countP_append, List.countP_singleton]
      rfl
    rw [count]
    match reply with
    | .ok page =>
      have kept := generation_takePage (list.foldl Index.take start) page
      simpa [isResync, Index.take, kept] using ih
    | .error .resync =>
      have small : min (start.generation.toNat + resyncs list) (2 ^ 64 - 1) < 2 ^ 64 := by omega
      simp only [Index.take, Index.restarted, nextGeneration, ih, UInt64.toNat_ofNat_of_lt' small, isResync, if_true]
      congr 1
      omega
    | .error (.other _) => simpa [isResync, Index.take] using ih

/-- Only the last resync and what came after it are left in the index. -/
theorem foldl_take_eq (list : List DeltaReply) (start : Index) :
    list.foldl Index.take start = (pagesSince list).foldl Index.takePage (baseOf start list) := by
  induction list using List.reverseRecOn with
  | nil => simp [pagesSince, baseOf, resyncs]
  | append_singleton list reply ih =>
    match reply with
    | .ok page =>
      rw [pagesSince_page, baseOf_page, List.foldl_append, List.foldl_append, ih]
      rfl
    | .error .resync =>
      have generation := generation_foldl_take (list ++ [.error .resync]) start
      have some : resyncs (list ++ [.error .resync]) ≠ 0 := by simp [resyncs, isResync]
      rw [List.foldl_append, List.foldl_cons, List.foldl_nil] at generation ⊢
      rw [pagesSince_resync, List.foldl_nil, baseOf, if_neg some, ← generation]
      rfl
    | .error (.other e) =>
      have same : pagesSince (list ++ [.error (.other e)]) = pagesSince list := by simp [pagesSince]
      have base : baseOf start (list ++ [.error (.other e)]) = baseOf start list := by
        simp [baseOf, resyncs, isResync]
      rw [same, base, List.foldl_append, ih]
      rfl

theorem mem_pagesSince (member : page ∈ pagesSince list) : (.ok page : DeltaReply) ∈ list := by
  induction list using List.reverseRecOn with
  | nil => cases member
  | append_singleton list reply ih =>
    match reply with
    | .ok last =>
      rw [pagesSince_page] at member
      rcases List.mem_append.mp member with before | own
      · exact List.mem_append_left _ (ih before)
      · rw [List.mem_singleton.mp own]
        simp
    | .error .resync =>
      rw [pagesSince_resync] at member
      cases member
    | .error (.other e) =>
      have same : pagesSince (list ++ [.error (.other e)]) = pagesSince list := by simp [pagesSince]
      exact List.mem_append_left _ (ih (same ▸ member))

theorem advanced_of_next {next : String} (link : page.nextLink = some next) :
    advanced base (pages ++ [page]) = ((pages ++ [page]).flatMap DeltaPage.items |>.foldl Index.apply base).withProgress
      base.deltaToken (some next) false base.generation := by
  simp [advanced, link]

theorem advanced_open (open_ : ∀ page ∈ pages, page.nextLink ≠ none) :
    ∃ pending complete, advanced base pages = ((pages.flatMap DeltaPage.items).foldl Index.apply base).withProgress
      base.deltaToken pending complete base.generation := by
  rcases List.eq_nil_or_concat' pages with rfl | ⟨before, last, rfl⟩
  · exact ⟨base.pendingNextLink, base.crawlComplete, rfl⟩
  · obtain ⟨next, link⟩ := Option.ne_none_iff_exists'.mp (open_ last (by simp))
    exact ⟨_, _, advanced_of_next link⟩

theorem takePage_advanced (open_ : ∀ page ∈ pages, page.nextLink ≠ none) (onwards : LinksOnwards page) :
    (advanced base pages).takePage page = advanced base (pages ++ [page]) := by
  obtain ⟨pending, complete, same⟩ := @advanced_open base _ open_
  rw [same, Index.takePage]
  cases link : page.nextLink with
  | some next =>
    rw [advanced_of_next link, Index.applyAll_withProgress, List.flatMap_append, List.foldl_append]
    simp only [List.flatMap_cons, List.flatMap_nil, List.append_nil]
    rfl
  | none =>
    obtain ⟨token, carried⟩ := Option.ne_none_iff_exists'.mp (onwards link)
    rw [Index.applyAll_withProgress, advanced]
    simp only [List.getLast?_append, List.getLast?_singleton, Option.some_or, link, carried, List.flatMap_append,
      List.foldl_append, List.flatMap_cons, List.flatMap_nil, List.append_nil]
    rfl

theorem foldl_takePage_open (open_ : ∀ page ∈ pages, page.nextLink ≠ none) :
    pages.foldl Index.takePage base = advanced base pages := by
  induction pages using List.reverseRecOn with
  | nil => rfl
  | append_singleton pages page ih =>
    have before : ∀ p ∈ pages, p.nextLink ≠ none := fun p member => open_ p (List.mem_append_left _ member)
    have onwards : LinksOnwards page := fun final => absurd final (open_ page (by simp))
    rw [List.foldl_append, ih before, List.foldl_cons, List.foldl_nil, takePage_advanced before onwards]

/-- Only the last reply of an exchange can be final. -/
theorem Exchange.split {env : Env} {asked : List (String × DeltaReply)} (exchange : Exchange env start asked)
    (nonempty : asked ≠ []) : ∃ front reply, replies asked = front ++ [reply] ∧
      (∀ r ∈ front, isFinal r = false) ∧ (∀ e, reply ≠ .error (.other e)) ∧
      env.delta front.length ((front.foldl Index.take start).cursor env.driveBase) = reply := by
  cases exchange with
  | nil => exact absurd rfl nonempty
  | snoc before open_ answered usable =>
    refine ⟨_, _, replies_snoc, open_, usable, ?_⟩
    rw [replies, List.length_map]
    exact answered

theorem open_of_notFinal (open_ : ∀ r ∈ list, isFinal r = false) : ∀ page ∈ pagesSince list, page.nextLink ≠ none := by
  intro page member final
  have closed := open_ _ (mem_pagesSince member)
  simp [isFinal, final] at closed

theorem Exchange.advanced {env : Env} {asked : List (String × DeltaReply)} (exchange : Exchange env start asked)
    (nonempty : asked ≠ [])
    (onwards : ∀ n url page, env.delta n url = .ok page → LinksOnwards page) :
    replay start asked = Sync.advanced (baseOf start (replies asked)) (pagesSince (replies asked)) := by
  obtain ⟨front, reply, split, open_, usable, answered⟩ := exchange.split nonempty
  have openPages := open_of_notFinal open_
  rw [replay, foldl_take_eq, split]
  cases reply with
  | ok page =>
    have before := @foldl_takePage_open (baseOf start front) _ openPages
    rw [pagesSince_page, baseOf_page, List.foldl_append, before, List.foldl_cons, List.foldl_nil,
      takePage_advanced openPages (onwards _ _ page answered)]
  | error fault =>
    cases fault with
    | resync =>
      rw [pagesSince_resync]
      rfl
    | other e => exact absurd rfl (usable e)

/-! ## A tick that does not save -/

theorem take_of_unmarked {idx : Index} {reply : DeltaReply} (cursor : CursorOk idx) (unmarked : marks idx reply = false)
    (open_ : isFinal reply = false) : idx.take reply = idx ∧ idx.pendingNextLink ≠ none := by
  match reply with
  | .error _ => simp [marks] at unmarked
  | .ok page =>
    rw [marks, Bool.or_eq_false_iff] at unmarked
    obtain ⟨noItems, sameLink⟩ := unmarked
    have nothing : page.items = [] := by simpa using noItems
    cases link : page.nextLink with
    | none => simp [isFinal, link] at open_
    | some next =>
      simp only [link, bne_eq_false_iff_eq] at sameLink
      have unfinished := cursor.1 (by simp [sameLink])
      refine ⟨?_, by simp [sameLink]⟩
      rw [Index.take, Index.takePage, nothing, link]
      dsimp only [List.foldl_nil]
      rw [← sameLink, ← unfinished]

/-- A final page that marks nothing repeats the token. -/
theorem final_of_unmarked {idx : Index} {reply : DeltaReply} (unmarked : marks idx reply = false)
    (final : isFinal reply = true) : ∃ page, reply = .ok page ∧ page.items = [] ∧ page.nextLink = none ∧
      page.deltaToken = idx.deltaToken ∧ idx.pendingNextLink = none := by
  match reply with
  | .error _ => simp [marks] at unmarked
  | .ok page =>
    have link : page.nextLink = none := by simpa [isFinal] using final
    rw [marks, Bool.or_eq_false_iff] at unmarked
    obtain ⟨noItems, sameCursor⟩ := unmarked
    simp only [link, Bool.or_eq_false_iff, bne_eq_false_iff_eq, Option.isSome_eq_false_iff,
      Option.isNone_iff_eq_none] at sameCursor
    exact ⟨page, rfl, by simpa using noItems, link, sameCursor.1.symm, sameCursor.2⟩

theorem take_final_of_unmarked {idx : Index} {reply : DeltaReply} (cursor : CursorOk idx)
    (unmarked : marks idx reply = false) (final : isFinal reply = true) (token : idx.deltaToken ≠ none) :
    idx.take reply = idx.sweepOrphans := by
  obtain ⟨page, rfl, nothing, link, sameToken, noPending⟩ := final_of_unmarked unmarked final
  obtain ⟨value, present⟩ := Option.ne_none_iff_exists'.mp token
  have finished := cursor.2 token noPending
  have carried : (page.deltaToken <|> idx.deltaToken) = idx.deltaToken := by
    rw [sameToken, present]
    rfl
  rw [Index.take, Index.takePage, nothing, link]
  dsimp only [List.foldl_nil]
  rw [carried, ← noPending, ← finished]

theorem foldl_take_open {idx : Index} (cursor : CursorOk idx) (open_ : ∀ r ∈ front, isFinal r = false)
    (same : changed idx front = false) :
    front.foldl Index.take idx = idx ∧ (front ≠ [] → idx.pendingNextLink ≠ none) := by
  induction front with
  | nil => exact ⟨rfl, fun nonempty => absurd rfl nonempty⟩
  | cons first rest ih =>
    rw [changed, Bool.or_eq_false_iff] at same
    obtain ⟨unmarked, later⟩ := same
    obtain ⟨kept, pending⟩ := take_of_unmarked cursor unmarked (open_ first List.mem_cons_self)
    rw [kept] at later
    obtain ⟨tail, _⟩ := ih (fun r member => open_ r (List.mem_cons_of_mem _ member)) later
    rw [List.foldl_cons, kept]
    exact ⟨tail, fun _ => pending⟩

theorem foldl_take_of_unchanged {idx : Index} {reply : DeltaReply} (cursor : CursorOk idx)
    (onwards : ∀ page, reply = .ok page → LinksOnwards page) (open_ : ∀ r ∈ front, isFinal r = false)
    (same : changed idx (front ++ [reply]) = false) :
    (front ++ [reply]).foldl Index.take idx = idx ∨ (front ++ [reply]).foldl Index.take idx = idx.sweepOrphans := by
  rw [changed_append, Bool.or_eq_false_iff] at same
  obtain ⟨before, unmarked⟩ := same
  obtain ⟨kept, _⟩ := foldl_take_open cursor open_ before
  rw [kept] at unmarked
  rw [List.foldl_append, kept, List.foldl_cons, List.foldl_nil]
  cases final : isFinal reply with
  | false => exact .inl (take_of_unmarked cursor unmarked final).1
  | true =>
    obtain ⟨page, own, _, link, sameToken, _⟩ := final_of_unmarked unmarked final
    have carried : idx.deltaToken ≠ none := sameToken ▸ onwards page own link
    exact .inr (take_final_of_unmarked cursor unmarked final carried)

theorem not_resync_of_unchanged {idx : Index} (same : changed idx list = false) : list.any isResync = false := by
  induction list generalizing idx with
  | nil => rfl
  | cons reply rest ih =>
    rw [changed, Bool.or_eq_false_iff] at same
    rw [List.any_cons, ih same.2, Bool.or_false]
    cases reply with
    | ok page => rfl
    | error e => simp [marks] at same

theorem changed_empty (onwards : ∀ page, (.ok page : DeltaReply) ∈ list → LinksOnwards page) (nonempty : list ≠ []) :
    changed Index.empty list = true := by
  obtain ⟨reply, rest, rfl⟩ := List.exists_cons_of_ne_nil nonempty
  rw [changed, Bool.or_eq_true]
  left
  cases reply with
  | error _ => rfl
  | ok page =>
    have onwards := onwards page List.mem_cons_self
    unfold LinksOnwards at onwards
    cases link : page.nextLink with
    | some next => simp [marks, Index.empty, link]
    | none => simp [marks, Index.empty, link, Ne.symm (onwards link)]

end Pages

/-! ## The stored index -/

/-- The file holds the index, up to the nodes that have no path or that a sweep drops. -/
def Holding (json : MetaJson) (files : Files) (name : String) (idx : Index) : Prop :=
  ∃ bytes, files name = some bytes ∧ (Saves json idx bytes ∨
    ∃ before, Snapshot.decode (wasm32 json) bytes = .ok before ∧ (idx = before ∨ idx = before.sweepOrphans))

section Stored
variable {json : MetaJson} {files : Files} {env : Env} {start : Index} {target place : String}
  {saved swap : List FileOp} {out : Outcome}

theorem Ticked.held (ticked : Ticked json env files start target place saved swap out) {bytes : Bytes}
    (held : files.after saved place = some bytes) : files.after out.ops out.report.target = some bytes := by
  rw [ticked.ops, Files.after_append]
  rcases ticked.swaps with ⟨_, rfl, rfl, reported⟩ | ⟨_, rfl, reported⟩
  · rw [reported]
    simp only [Files.after, List.foldl_cons, List.foldl_nil, FileOp.run] at held ⊢
    rw [held]
    rfl
  · rw [reported]
    exact held

theorem Starts.file (roundTrips : json.RoundTrips) (sound : Sound json files)
    (starts : Starts (wasm32 json) files start target) :
    (start = Index.empty ∧ files indexFile = none ∧ files rebuildFile = none) ∨
      ∃ bytes, files target = some bytes ∧ Snapshot.decode (wasm32 json) bytes = .ok start := by
  rcases starts with ⟨loaded, rfl⟩ | ⟨noRebuild, rfl, live, loaded, rfl⟩
  · rcases sound.load roundTrips (.inr rfl) with ⟨_, missing⟩ | ⟨bytes, idx, held, found, decoded, _⟩
    · cases loaded.symm.trans missing
    · cases loaded.symm.trans found
      exact .inr ⟨bytes, held, decoded⟩
  · rcases sound.load roundTrips (.inl rfl) with ⟨absent, missing⟩ | ⟨bytes, idx, held, found, decoded, _⟩
    · cases loaded.symm.trans missing
      refine .inl ⟨rfl, absent, ?_⟩
      rcases sound.load roundTrips (.inr rfl) with ⟨gone, _⟩ | ⟨_, idx, _, found, _⟩
      · exact gone
      · cases noRebuild.symm.trans found
    · cases loaded.symm.trans found
      exact .inr ⟨bytes, held, decoded⟩

/-- After a tick the reported file holds the index the exchange comes to. -/
theorem Ticked.holding (roundTrips : json.RoundTrips) (sound : Sound json files)
    (onwards : ∀ n url page, env.delta n url = .ok page → LinksOnwards page)
    (ticked : Ticked json env files start target place saved swap out) :
    Holding json (files.after out.ops) out.report.target (replay start out.asked) := by
  rcases ticked.saves with ⟨rfl, _, same⟩ | ⟨bytes, saves, rfl⟩
  · obtain ⟨front, reply, split, open_, usable, answered⟩ := ticked.exchange.split ticked.asked
    obtain ⟨cursor, _⟩ := ticked.starts.cursorOk roundTrips sound
    have quiet := ticked.resync.trans (not_resync_of_unchanged same)
    have stays := ticked.kept quiet
    have answers : ∀ page, (.ok page : DeltaReply) ∈ front ++ [reply] → LinksOnwards page := by
      intro page member
      rcases List.mem_append.mp member with before | own
      · intro final
        have notFinal := open_ _ before
        simp [isFinal, final] at notFinal
      · rw [List.mem_singleton] at own
        exact onwards _ _ page (answered.trans own.symm)
    rw [split] at same
    have unchanged := foldl_take_of_unchanged cursor (fun page own => answers page (by simp [own])) open_ same
    rcases ticked.starts.file roundTrips sound with ⟨rfl, _⟩ | ⟨bytes, held, decoded⟩
    · rw [changed_empty answers (by simp)] at same
      cases same
    · refine ⟨bytes, ticked.held (by rw [stays]; exact held), .inr ⟨start, decoded, ?_⟩⟩
      rw [replay, split]
      exact unchanged
  · refine ⟨bytes, ticked.held ?_, .inl saves⟩
    rw [StateFile.after_writeAtomic, if_pos rfl]

theorem Holding.load (roundTrips : json.RoundTrips) {name : String} {idx : Index} (holding : Holding json files name idx) :
    ∃ loaded, Snapshot.load (wasm32 json) files name = .ok (some loaded) ∧ loaded.progress = idx.progress := by
  obtain ⟨bytes, held, saves | ⟨before, decoded, same⟩⟩ := holding
  · obtain ⟨out, loaded, _, progress⟩ := load_saves roundTrips held saves
    exact ⟨out, loaded, progress⟩
  · refine ⟨before, ?_, ?_⟩
    · rw [load_eq, held]
      simp only [decoded]
      rfl
    · rcases same with rfl | rfl
      · rfl
      · exact (Index.progress_sweepOrphans before).symm

end Stored

/-- A tick that fails leaves every file as it was. A tick that returns has
stored, in the file it reports, the index it started from, or an empty one of a
later generation after a resync, with exactly the pages since then and the
cursor of the last of them. -/
theorem tick_all_or_nothing (json : MetaJson) (roundTrips : json.RoundTrips) (files : Files) (run : Reachable json files)
    (env : Env) (onwards : ∀ n url page, env.delta n url = .ok page → LinksOnwards page) :
    (∀ e cut, runInner (wasm32 json) env files = .error e → tick (wasm32 json) env files cut = files) ∧
      ∀ out, runInner (wasm32 json) env files = .ok out → ∃ start target idx,
        Starts (wasm32 json) files start target ∧ Exchange env start out.asked ∧ out.asked ≠ [] ∧
        (out.report.resync = true ↔ resyncs (replies out.asked) ≠ 0) ∧
        idx = advanced (baseOf start (replies out.asked)) (pagesSince (replies out.asked)) ∧
        Holding json (files.after out.ops) out.report.target idx ∧
        ∃ loaded, load (wasm32 json) (files.after out.ops) out.report.target = .ok (some loaded) ∧
          loaded.progress = idx.progress := by
  have sound := run.sound roundTrips
  constructor
  · intro e cut failed
    rw [tick, failed]
  · intro out ran
    obtain ⟨start, target, place, saved, swap, ticked⟩ := runInner_ticked ran
    have holding := ticked.holding roundTrips sound onwards
    have comes := ticked.exchange.advanced ticked.asked onwards
    refine ⟨start, target, _, ticked.starts, ticked.exchange, ticked.asked, ?_, comes, holding, holding.load roundTrips⟩
    rw [ticked.resync, resyncs, Nat.ne_zero_iff_zero_lt, List.countP_pos_iff, List.any_eq_true]

/-- Graph answers a fresh crawl with a page that has another one after it, and
that one with a demand to start over, then with the root alone. -/
def restartedCrawl (n : Nat) (_ : String) : DeltaReply :=
  match n with
  | 0 => .ok ⟨[⟨"a", some "r", "A", false, false, ⟨true, 0, 0, ""⟩⟩], some "https://graph.microsoft.com/2", none⟩
  | 1 => .error .resync
  | _ => .ok ⟨[⟨"r", none, "root", false, true, ⟨true, 0, 0, ""⟩⟩], none, some "https://graph.microsoft.com/d"⟩

theorem tick_all_or_nothing_restartedCrawl :
    ∃ out, runInner (wasm32 metaText) (.steady 8 (by decide) 7 restartedCrawl) noFiles = .ok out ∧
      ∃ loaded, load (wasm32 metaText) (noFiles.after out.ops) out.report.target = .ok (some loaded) ∧
        loaded.generation = 1 := by
  have succeeds : (runInner (wasm32 metaText) (.steady 8 (by decide) 7 restartedCrawl) noFiles).isOk = true := by
    decide +kernel
  obtain ⟨out, ran⟩ := Result.exists_of_isOk succeeds
  have onwards : ∀ n url page, restartedCrawl n url = .ok page → LinksOnwards page := by
    intro n url page answered
    rcases n with _ | _ | n
    · cases answered
      simp [LinksOnwards]
    · cases answered
    · cases answered
      simp [LinksOnwards]
  obtain ⟨_, stored⟩ := tick_all_or_nothing metaText metaText_roundTrips noFiles .start
    (.steady 8 (by decide) 7 restartedCrawl) onwards
  obtain ⟨_, _, _, _, _, _, _, _, _, loaded, found, _⟩ := stored out ran
  have evaluated : Result.isOkAnd (runInner (wasm32 metaText) (.steady 8 (by decide) 7 restartedCrawl) noFiles)
      (fun out => Result.isOkAnd (load (wasm32 metaText) (noFiles.after out.ops) out.report.target)
        fun stored => stored.any fun loaded => loaded.generation == 1) = true := by
    rw [metaText_eq_asciiText]
    decide +kernel
  refine ⟨out, ran, loaded, found, ?_⟩
  rw [ran] at evaluated
  simpa [Result.isOkAnd, found] using evaluated

end Sync

end OneDriveDavfs
