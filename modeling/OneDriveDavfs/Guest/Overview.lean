import OneDriveDavfs.Guest.Crawl

/-! What the plugin is told: `/_status` and `/_search`.

The figures are read from the header and the metadata of the live snapshot,
and in every session they are those of the index that loads. After a crawl
they count the drive, and a search finds what the drive has.
-/

set_option autoImplicit false

namespace OneDriveDavfs

open Library Library.Forest Library.Ranking Library.Wire Library.Effect Snapshot

/-! ## `/_status` -/

namespace Guest

section Status
variable {ext : Externals} {config : GuestConfig} {world : World}

theorem outcome_loadStats (world : World) :
    (∃ lastTick, (attempt (loadStats ext)).outcome world = .ok (.ok lastTick)) ∨
      ∃ message, (attempt (loadStats ext)).outcome world = .ok (.error message) := by
  have held := outcome_readFile world statsFile
  cases found : world.files statsFile with
  | none =>
    rw [found] at held
    have read : (loadStats ext).outcome world = .ok none := outcome_bind_ok _ held
    exact .inl ⟨none, outcome_attempt_ok read⟩
  | some bytes =>
    rw [found] at held
    have read : (loadStats ext).outcome world = _ := outcome_bind_ok _ held
    dsimp only at read
    cases parsed : ext.stats.fromSlice bytes with
    | ok stats =>
      rw [parsed] at read
      exact .inl ⟨some stats, outcome_attempt_ok read⟩
    | error e =>
      rw [parsed] at read
      exact .inr ⟨_, outcome_attempt_failed read⟩

theorem status_apply (indexed : config.indexEnabled = true) {found : Option SnapshotMeta}
    (read : Snapshot.readMeta (wasm32 ext.index) world.files.host = .ok found) :
    ∃ lastTick, Api.status ext config world = (.ok (jsonOk (Api.statusJson found lastTick)), world) := by
  have metaRead : (Guest.readMeta ext).outcome world = .ok found := by
    rw [Guest.readMeta, outcome_bind_ok _ (outcome_get world), after_get, read]
    rfl
  unfold Api.status
  rw [if_pos indexed, bind_apply, apply_eq (outcome_attempt_ok metaRead), after_attempt, after_readMeta]
  dsimp only
  rw [bind_apply]
  rcases @outcome_loadStats ext world with ⟨lastTick, stats⟩ | ⟨message, stats⟩
  · rw [apply_eq stats, after_attempt, after_loadStats]
    exact ⟨lastTick, rfl⟩
  · rw [apply_eq stats, after_attempt, after_loadStats]
    exact ⟨none, rfl⟩

def TellsProgress (response : DavResponse) (idx : Index) : Prop :=
  response.Says "crawlComplete" (.bool idx.crawlComplete) ∧ response.Says "hasToken" (.bool idx.deltaToken.isSome) ∧
    response.Says "generation" (Json.nat idx.generation.toNat) ∧
    response.Says "pendingNextLink" (.bool idx.pendingNextLink.isSome)

theorem field_statusJson (found : Option SnapshotMeta) (lastTick : Option SyncStats) {name : String}
    (other : name ≠ "lastTick") :
    (Api.statusJson found lastTick).field name =
      ((found.bind fun m => (Api.metaEntries m).reverse.lookup name).or
        ([("present", .bool found.isSome), ("indexEnabled", .bool true), ("ok", .bool true)].lookup name)) := by
  have figures : ((found.map Api.metaEntries).getD []).reverse.lookup name =
      found.bind fun m => (Api.metaEntries m).reverse.lookup name := by
    cases found <;> rfl
  have tick : (lastTick.map fun tick => ("lastTick", Api.tickJson tick)).toList.reverse.lookup name = none := by
    cases lastTick with
    | none => rfl
    | some tick => exact (Json.lookup_cons_ite _ _ _ []).trans (if_neg (Ne.symm other))
  rw [Api.statusJson, Json.field_ofEntries, List.reverse_append, List.reverse_append, List.lookup_append,
    List.lookup_append, tick, figures, Option.none_or]
  rfl

theorem tellsProgress_statusJson {m : SnapshotMeta} {idx : Index} (token : m.deltaToken = idx.deltaToken)
    (pending : m.pendingNextLink = idx.pendingNextLink) (complete : m.crawlComplete = idx.crawlComplete)
    (generation : m.generation = idx.generation) (lastTick : Option SyncStats) :
    TellsProgress (jsonOk (Api.statusJson (some m) lastTick)) idx := by
  have field {name : String} (other : name ≠ "lastTick") := @field_statusJson (some m) lastTick name other
  simp only [TellsProgress, says_jsonOk_iff]
  rw [field (by decide), field (by decide), field (by decide), field (by decide), ← token, ← pending, ← complete,
    ← generation]
  exact ⟨rfl, rfl, rfl, rfl⟩

theorem present_statusJson (found : Option SnapshotMeta) (lastTick : Option SyncStats) :
    (jsonOk (Api.statusJson found lastTick)).Says "present" (.bool found.isSome) := by
  rw [says_jsonOk_iff, field_statusJson found lastTick (by decide)]
  cases found <;> rfl

theorem no_error_statusJson (found : Option SnapshotMeta) (lastTick : Option SyncStats) (e : Json.Value) :
    ¬ (jsonOk (Api.statusJson found lastTick)).Says "error" e := by
  rw [says_jsonOk_iff, field_statusJson found lastTick (by decide)]
  cases found <;> exact nofun

/-- In every session the figures can be read, there are some exactly when there is a live snapshot, and they are
those of the index that it loads as. -/
theorem status_tells_live (ext : Externals) (roundTrips : ext.index.RoundTrips) {world : World}
    (session : Session ext world) {config : GuestConfig} (indexed : config.indexEnabled = true) :
    ∃ response, Api.status ext config world = (.ok response, world) ∧ (∀ e, ¬ response.Says "error" e) ∧
      response.Says "present" (.bool (world.files indexFile).isSome) ∧
      ∀ idx, Snapshot.load (wasm32 ext.index) world.files indexFile = .ok (some idx) → TellsProgress response idx := by
  obtain ⟨files, sound, _, same⟩ := session_linksHome roundTrips session
  cases held : world.files indexFile with
  | none =>
    have nothing : Snapshot.readMeta (wasm32 ext.index) world.files.host = .ok none := by
      simp [Snapshot.readMeta, StateFile.readAt, Files.host, held]
    obtain ⟨lastTick, answered⟩ := status_apply indexed nothing
    refine ⟨_, answered, no_error_statusJson _ _, present_statusJson _ _, fun idx loads => ?_⟩
    rw [Snapshot.load_eq, held] at loads
    cases loads
  | some bytes =>
    obtain ⟨idx, saves, _⟩ := sound.saved (.inl rfl) ((same indexFile (.inl rfl)).symm.trans held)
    obtain ⟨_, _, _, _, read⟩ := saves.readMeta roundTrips held
    obtain ⟨lastTick, answered⟩ := status_apply indexed read
    refine ⟨_, answered, no_error_statusJson _ _, present_statusJson _ _, fun out loads => ?_⟩
    obtain ⟨out', decoded, progress⟩ := saves.decode roundTrips
    rw [Snapshot.load_eq, held] at loads
    dsimp only at loads
    rw [decoded] at loads
    cases loads
    simp only [Index.progress, Prod.mk.injEq] at progress
    obtain ⟨token, pending, complete, generation⟩ := progress
    exact tellsProgress_statusJson token.symm pending.symm complete.symm generation.symm lastTick

end Status

/-! ## After a crawl -/

def directoriesOf (T : DriveTree) : Set Id := {id | ∃ node, T.nodes[id]? = some node ∧ node.itemMeta.isDir = true}

def filesOf (T : DriveTree) : Set Id := {id | ∃ node, T.nodes[id]? = some node ∧ node.itemMeta.isDir = false}

section Counts
variable {T : DriveTree} {idx : Index}

theorem kind_represents (represents : Represents idx T) (isDir : Bool) :
    {id | Rooted idx id ∧ ∃ node, idx.nodes[id]? = some node ∧ node.itemMeta.isDir = isDir} =
      {id | ∃ node, T.nodes[id]? = some node ∧ node.itemMeta.isDir = isDir} := by
  ext id
  constructor
  · rintro ⟨_, node, found, kind⟩
    exact ⟨_, (represents.stored found).2, by rw [eraseTop_itemMeta, kind]⟩
  · rintro ⟨node, found, kind⟩
    obtain ⟨segs, trail⟩ := T.rooted found
    have same := @represents.inside id trivial
    rw [found, Option.map_eq_some_iff] at same
    obtain ⟨saved, present, erased⟩ := same
    have erased : saved.eraseTop = node := erased
    exact ⟨⟨segs, represents.trail_iff.mpr trail⟩, saved, present, by rw [← eraseTop_itemMeta, erased, kind]⟩

theorem totals_represents {json : MetaJson} (roundTrips : json.RoundTrips) (represents : Represents idx T)
    (folders : T.FoldersOnly) (depthLe : T.DepthLe 63) {order : List Id} (enumerates : Enumerates order idx) {now : UInt64}
    {bytes : Bytes} (written : encode (wasm32 json) order now idx = .ok bytes) :
    (snapshotMeta idx (sortedDirs idx order) now).totalDirs.toNat = (directoriesOf T).ncard ∧
      (snapshotMeta idx (sortedDirs idx order) now).totalFiles.toNat = (filesOf T).ncard := by
  have fits := fits_of_encode rfl written
  have list := dirList_sortedDirs enumerates
  have storable := storable_of_holds represents folders
  have shallow : ∀ {id segs}, Trail idx.links id segs → segs.length ≤ 63 :=
    fun trail => depthLe (represents.trail_up trail)
  have dirs := ncard_dirs list storable shallow
  have files := ncard_files list storable shallow
  rw [kind_represents represents] at dirs files
  constructor
  · exact (UInt64.toNat_ofNat_of_lt' (Nat.lt_trans fits.count (by decide))).trans dirs.symm
  · obtain ⟨text, readText, _⟩ := roundTrips (snapshotMeta idx (sortedDirs idx order) now)
    have total := (fits.text text readText).2
    have within := totalFiles_le idx (sortedDirs idx order)
    have word := (wasm32 json).le_word
    simp only [encodedSize] at total
    exact (UInt64.toNat_ofNat_of_lt' (Nat.lt_of_lt_of_le (by omega) word)).trans files.symm

end Counts

/-! ### Search -/

/-- A node of the drive below its root with the text in its name, and its path. -/
def Finds (lower : String → String) (T : DriveTree) (q : String) (id : Id) (path : String) (node : Node) : Prop :=
  T.nodes[id]? = some node ∧ node.parent.isSome = true ∧ (lower q).toList <:+: (lower node.name).toList ∧
    ∃ segs, Trail T.links id segs ∧ path = joinPath segs

section Search
variable {lower : String → String} {idx : Index} {order : List Id} {q : String} {T : DriveTree}

theorem searchIndex_hits (inv : idx.RepInv) (clean : idx.CleanNames) (enumerates : Enumerates order idx)
    (long : Api.searchMinQueryLen ≤ q.length) :
    ∃ hits : List (Id × String × Node), (∀ id path node, (id, path, node) ∈ hits ↔ Api.Matches lower idx q id path node) ∧
      hits.Nodup ∧ hits.Pairwise (fun a b => Api.Before a.2 b.2) ∧
      Api.searchIndex lower idx order q =
        ⟨true, true, q, decide (100 < hits.length), (hits.take 100).map fun hit => Api.toResult hit.2⟩ := by
  have perm := ranked_perm (fun a b : Id × String × Node => Api.searchCmp a.2 b.2) (Api.hitsOf lower idx order q)
  have once := @Api.nodup_hitsOf lower idx order q enumerates
  refine ⟨_, fun id path node => perm.mem_iff.trans (Api.mem_hitsOf enumerates), perm.nodup_iff.mpr once,
    (ranked_strict (Api.tellsApart_hitsOf inv clean enumerates) once).imp Api.searchCmp_lt, ?_⟩
  have sorted : ranked Api.searchCmp ((Api.hitsOf lower idx order q).map Prod.snd) =
      (ranked (fun a b : Id × String × Node => Api.searchCmp a.2 b.2) (Api.hitsOf lower idx order q)).map Prod.snd :=
    (map_ranked Api.searchCmp Prod.snd _).symm
  rw [Api.searchIndex_eq long, sorted, List.length_map, ← List.map_take, List.map_map]
  rfl

theorem matches_represents (represents : Represents idx T) (depthLe : T.DepthLe 63) {id : Id} {path : String}
    {node : Node} : Api.Matches lower idx q id path node ↔ Finds lower T q id path node := by
  constructor
  · rintro ⟨found, inner, named, segs, trail, _, same⟩
    obtain ⟨p, parent⟩ := Option.isSome_iff_exists.mp inner
    have stored := (represents.stored found).2
    rw [View.nameless.below parent] at stored
    exact ⟨stored, inner, named, segs, represents.trail_iff.mp trail, same⟩
  · rintro ⟨found, inner, named, segs, trail, same⟩
    obtain ⟨p, parent⟩ := Option.isSome_iff_exists.mp inner
    exact ⟨represents.nodes_of_parent found parent trivial, inner, named, segs, represents.trail_iff.mpr trail,
      Nat.lt_succ_of_le (depthLe trail), same⟩

end Search

section Crawled
variable {ext : Externals} {world : World} {T : DriveTree} {paging : Sync.Paging T} {reports : Nat} {done : Bool}
  {config : GuestConfig}

/-- After a crawl the figures count the drive. -/
theorem status_counts_drive (roundTrips : ext.index.RoundTrips) (folders : T.FoldersOnly) (depthLe : T.DepthLe 63)
    (parentsFirst : paging.ParentsFirst) (crawl : Crawl ext paging reports done world)
    (through : Over paging reports done)
    (indexed : config.indexEnabled = true) :
    ∃ response, Api.status ext config world = (.ok response, world) ∧
      response.Says "totalDirs" (Json.nat (directoriesOf T).ncard) ∧
      response.Says "totalFiles" (Json.nat (filesOf T).ncard) := by
  obtain ⟨idx, bytes, held, saves, represents, _⟩ := crawl.represents roundTrips folders depthLe parentsFirst through
  obtain ⟨order, now, enumerates, written, read⟩ := saves.readMeta roundTrips held
  obtain ⟨lastTick, answered⟩ := status_apply indexed read
  obtain ⟨dirs, files⟩ := totals_represents roundTrips represents folders depthLe enumerates written
  refine ⟨_, answered, ?_, ?_⟩
  · rw [says_jsonOk_iff, field_statusJson _ _ (by decide), ← dirs]
    rfl
  · rw [says_jsonOk_iff, field_statusJson _ _ (by decide), ← files]
    rfl

/-- After a crawl a search answers with the first hundred of the entries of the drive that have the text in their
name, directories first. -/
theorem search_finds_drive (roundTrips : ext.index.RoundTrips) (folders : T.FoldersOnly) (depthLe : T.DepthLe 63)
    (parentsFirst : paging.ParentsFirst) (crawl : Crawl ext paging reports done world)
    (through : Over paging reports done)
    (host : Surroundings) (indexed : config.indexEnabled = true) {query : Option String} {q : String}
    (asked : (Api.queryParam query "q").getD "" = q) (long : 2 ≤ q.length) :
    ∃ hits : List (Id × String × Node), (∀ id path node, (id, path, node) ∈ hits ↔ Finds ext.lower T q id path node) ∧
      hits.Nodup ∧ hits.Pairwise (fun a b => Api.Before a.2 b.2) ∧
      Api.search ext host config query world =
        (.ok (jsonOk (Api.searchJson ⟨true, true, q, decide (100 < hits.length),
          (hits.take 100).map fun hit => Api.toResult hit.2⟩)), world) := by
  obtain ⟨idx, bytes, held, saves, represents, _⟩ := crawl.represents roundTrips folders depthLe parentsFirst through
  obtain ⟨out, decoded, restored⟩ := saves.decode_storable roundTrips (storable_of_holds represents folders)
  have whole : Represents out T := (represents.restored restored).all fun found => by
    obtain ⟨segs, trail⟩ := T.rooted found
    exact ⟨segs, represents.trail_iff.mpr trail, Nat.le_succ_of_le (depthLe trail)⟩
  have loads : (load ext indexFile).outcome world = .ok (some out) := by
    rw [outcome_load, Snapshot.load_eq, held]
    dsimp only
    rw [decoded]
    rfl
  obtain ⟨hits, found, once, sorted, answer⟩ := @searchIndex_hits ext.lower out (host.order out) q whole.rep
    (storable_of_holds whole folders).clean (host.enumerates out) long
  refine ⟨hits, fun id path node => (found id path node).trans (matches_represents whole depthLe), once, sorted, ?_⟩
  unfold Api.search
  rw [if_pos indexed, bind_apply, apply_eq (outcome_attempt_ok loads), after_attempt, after_load, asked]
  dsimp only
  rw [answer]
  rfl

end Crawled

/-! ## After the crawl of two pages -/

/-- A session of one sync. -/
theorem status_tells_live_synced :
    ∃ response, Api.status crawlExternals openConfig
        ((handleRequest crawlExternals crawlSurroundings openProcess syncRequest).after tokenWorld) =
      (.ok response, (handleRequest crawlExternals crawlSurroundings openProcess syncRequest).after tokenWorld) := by
  have session : Session crawlExternals
      ((handleRequest crawlExternals crawlSurroundings openProcess syncRequest).after tokenWorld) :=
    .request crawlSurroundings openProcess syncRequest (.start fresh_tokenWorld)
  obtain ⟨response, answered, _⟩ := @status_tells_live crawlExternals metaText_roundTrips _ session openConfig rfl
  exact ⟨response, answered⟩

theorem ncard_directoriesOf_foldersAB : (directoriesOf foldersAB).ncard = 3 := by
  refine @ncard_of_nodup _ _ ["r", "a", "b"] (by decide) fun id => ⟨?_, fun member => ?_⟩
  · rintro ⟨node, found, isDir⟩
    have all : ∀ entry ∈ foldersAB.nodes.toList, entry.2.itemMeta.isDir = true → entry.1 ∈ ["r", "a", "b"] := by decide
    exact all (id, node) (Std.ExtTreeMap.mem_toList_iff_getElem?_eq_some.mpr found) isDir
  · have all : ∀ id ∈ ["r", "a", "b"], (foldersAB.nodes[id]?).any (·.itemMeta.isDir) = true := by decide
    exact (Option.any_eq_true _ _).mp (all id member)

/-- The root, two folders and a file. -/
theorem status_counts_drive_folder :
    ∃ response, Api.status crawlExternals openConfig
        ((handleRequest crawlExternals crawlSurroundings openProcess syncRequest).after tokenWorld) =
      (.ok response, (handleRequest crawlExternals crawlSurroundings openProcess syncRequest).after tokenWorld) ∧
      response.Says "totalDirs" (Json.nat 3) := by
  obtain ⟨response, answered, dirs, _⟩ := @status_counts_drive crawlExternals _ foldersAB Sync.folderFirst _ _ openConfig
    metaText_roundTrips (NodeTree.foldersOnly_of_list (by decide)) (NodeTree.depthLe_of_climb (by decide))
    Sync.folderFirst_parentsFirst crawled_tokenWorld (.inl rfl) rfl
  rw [ncard_directoriesOf_foldersAB] at dirs
  exact ⟨response, answered, dirs⟩

/-- The file is found by the middle of its name. -/
theorem search_finds_drive_file :
    ∃ hits : List (Id × String × Node), ("f", "/B/f.txt", ⟨some "b", "f.txt", ⟨false, 1, 0, ""⟩⟩) ∈ hits ∧
      Api.search crawlExternals crawlSurroundings openConfig (some "q=.t")
          ((handleRequest crawlExternals crawlSurroundings openProcess syncRequest).after tokenWorld) =
        (.ok (jsonOk (Api.searchJson ⟨true, true, ".t", decide (100 < hits.length),
            (hits.take 100).map fun hit => Api.toResult hit.2⟩)),
          (handleRequest crawlExternals crawlSurroundings openProcess syncRequest).after tokenWorld) := by
  obtain ⟨hits, found, _, _, answered⟩ := @search_finds_drive crawlExternals _ foldersAB Sync.folderFirst _ _ openConfig
    metaText_roundTrips (NodeTree.foldersOnly_of_list (by decide)) (NodeTree.depthLe_of_climb (by decide))
    Sync.folderFirst_parentsFirst crawled_tokenWorld (.inl rfl) crawlSurroundings rfl (some "q=.t") ".t" (by decide)
    (by decide)
  refine ⟨hits, (found _ _ _).mpr ?_, answered⟩
  have trail : Trail foldersAB.links "f" (segments "/B/f.txt") :=
    ((represents_ofTree foldersAB).resolve_iff "/B/f.txt" "f").mp (by decide)
  exact ⟨by decide, rfl, ⟨['f'], ['x', 't'], by decide⟩, segments "/B/f.txt", trail, by decide⟩

end Guest

end OneDriveDavfs
