import OneDriveDavfs.Graph.Requests
import OneDriveDavfs.Sync.Run

/-! The links that a run stands at.

A page is let through only with links of Graph in it. Where every page of a run
was let through so, both snapshot files stand at links of Graph, and the next
request of a tick passes the check of its address.
-/

set_option autoImplicit false

namespace OneDriveDavfs

open Library.Wire Snapshot

/-- `next.starts_with(GRAPH_ORIGIN)`. -/
def Home (link : String) : Prop := startsWith link Graph.graphOrigin = true

structure DeltaPage.Genuine (page : DeltaPage) : Prop where
  next : ∀ link ∈ page.nextLink, Home link
  token : ∀ link ∈ page.deltaToken, Home link

theorem Graph.genuine_of_parseDeltaPage {json : GraphJson} {body : Bytes} {page : DeltaPage}
    (parsed : parseDeltaPage json body = .ok page) : page.Genuine := by
  have home {raw url : String} (passed : validateNextLink raw 0 = .ok url) : Home raw :=
    (validateNextLink_ok_iff.mp passed).1 ▸ (validateNextLink_ok_iff.mp passed).2.1
  unfold parseDeltaPage at parsed
  cases read : json.deltaPage body with
  | error e =>
    rw [read] at parsed
    cases parsed
  | ok raw =>
    obtain ⟨value, nextLink, deltaLink, code⟩ := raw
    rw [read] at parsed
    -- each of the two links is missing, or it is checked
    cases nextLink with
    | none =>
      cases deltaLink with
      | none =>
        cases parsed
        exact ⟨fun _ given => (nomatch given), fun _ given => (nomatch given)⟩
      | some token =>
        cases second : validateNextLink token 0 with
        | error e =>
          simp only [second] at parsed
          cases parsed
        | ok url =>
          simp only [second] at parsed
          cases parsed
          exact ⟨fun _ given => (nomatch given), fun _ given => by cases given; exact home second⟩
    | some next =>
      cases first : validateNextLink next 0 with
      | error e =>
        simp only [first] at parsed
        cases parsed
      | ok _ =>
        cases deltaLink with
        | none =>
          simp only [first] at parsed
          cases parsed
          exact ⟨fun _ given => by cases given; exact home first, fun _ given => (nomatch given)⟩
        | some token =>
          cases second : validateNextLink token 0 with
          | error e =>
            simp only [first, second] at parsed
            cases parsed
          | ok url =>
            simp only [first, second] at parsed
            cases parsed
            exact ⟨fun _ given => by cases given; exact home first, fun _ given => by cases given; exact home second⟩

theorem Graph.home_initialDeltaUrl (driveBase : String) : Home (initialDeltaUrl driveBase) := by
  have front : "https://graph.microsoft.com/v1.0" = graphOrigin ++ "v1.0" := rfl
  unfold Home initialDeltaUrl
  rw [startsWith_iff, front]
  refine ⟨("v1.0" ++ (driveRootSegment driveBase ++ ("/root/delta?" ++ deltaQuery))).toList, ?_⟩
  rw [String.ofList_toList, String.append_assoc, String.append_assoc, String.append_assoc]

structure Index.LinksHome (idx : Index) : Prop where
  pending : ∀ link ∈ idx.pendingNextLink, Home link
  token : ∀ link ∈ idx.deltaToken, Home link

section Links
variable {idx out : Index}

theorem Index.LinksHome.congr (links : idx.LinksHome) (same : out.progress = idx.progress) : out.LinksHome := by
  simp only [Index.progress, Prod.mk.injEq] at same
  obtain ⟨token, pending, _⟩ := same
  exact ⟨pending ▸ links.pending, token ▸ links.token⟩

theorem Index.linksHome_empty : Index.empty.LinksHome :=
  ⟨fun _ given => (nomatch given), fun _ given => (nomatch given)⟩

theorem Index.LinksHome.cursor (links : idx.LinksHome) (driveBase : String) : Home (idx.cursor driveBase) := by
  unfold Index.cursor
  cases pending : idx.pendingNextLink with
  | some link => exact links.pending link pending
  | none =>
    cases token : idx.deltaToken with
    | some link => exact links.token link token
    | none => exact Graph.home_initialDeltaUrl driveBase

theorem Index.LinksHome.takePage (links : idx.LinksHome) {page : DeltaPage} (genuine : page.Genuine) :
    (idx.takePage page).LinksHome := by
  have progress := Index.progress_applyAll page.items idx
  simp only [Index.progress, Prod.mk.injEq] at progress
  obtain ⟨token, _, _⟩ := progress
  unfold Index.takePage
  dsimp only
  split
  · rename_i next link
    exact ⟨fun _ given => by cases given; exact genuine.next next link, token ▸ links.token⟩
  · have kept : ∀ link ∈ (page.deltaToken <|> idx.deltaToken), Home link := by
      intro link given
      cases fresh : page.deltaToken with
      | some last =>
        rw [fresh] at given
        cases given
        exact genuine.token _ fresh
      -- a final page without a link keeps the one of before
      | none =>
        rw [fresh] at given
        exact links.token link given
    rw [← token] at kept
    exact Index.LinksHome.congr ⟨fun _ given => (by cases given), kept⟩ (Index.progress_sweepOrphans _)

end Links

namespace Sync

def Event.Genuine : Event → Prop
  | .tick env _ => ∀ n url page, env.delta n url = .ok page → page.Genuine
  | .write .. => True

/-- Both snapshot files, where they exist, stand at links of Graph. -/
def LinksHome (json : MetaJson) (files : Files) : Prop :=
  ∀ name bytes, SnapshotName name → files name = some bytes → ∃ idx, Saves json idx bytes ∧ idx.LinksHome

section Runs
variable {json : MetaJson} {files : Files}

theorem LinksHome.load (roundTrips : json.RoundTrips) (links : LinksHome json files) {name : String}
    (snapshot : SnapshotName name) {idx : Index} (loaded : Snapshot.load (wasm32 json) files name = .ok (some idx)) :
    idx.LinksHome := by
  rw [load_eq] at loaded
  cases found : files name with
  | none =>
    rw [found] at loaded
    cases loaded
  | some bytes =>
    obtain ⟨saved, saves, home⟩ := links name bytes snapshot found
    obtain ⟨out, decoded, progress⟩ := saves.decode roundTrips
    rw [found] at loaded
    simp only [decoded] at loaded
    cases loaded
    exact home.congr progress

theorem Sound.event (roundTrips : json.RoundTrips) (sound : Sound json files) (event : Event) :
    Sound json (event.run json files) := by
  cases event with
  | tick env cut => exact sound.tick roundTrips env cut
  | write order enumerates now change cut => exact sound.mutate roundTrips enumerates now change cut

theorem Exchange.linksHome {env : Env} {start : Index} {asked : List (String × DeltaReply)}
    (genuine : ∀ n url page, env.delta n url = .ok page → page.Genuine) (home : start.LinksHome)
    (exchange : Exchange env start asked) : (replay start asked).LinksHome := by
  induction exchange with
  | nil => exact home
  | @snoc asked reply _ _ answered _ ih =>
    rw [replay_snoc]
    match reply with
    | .ok page => exact ih.takePage (genuine _ _ page answered)
    | .error .resync => exact ⟨fun _ given => (nomatch given), fun _ given => (nomatch given)⟩
    | .error (.other _) => exact ih

/-- An event whose pages were let through keeps the links, wherever it is cut short. -/
theorem LinksHome.event (roundTrips : json.RoundTrips) (sound : Sound json files) (links : LinksHome json files)
    {event : Event} (genuine : event.Genuine) : LinksHome json (event.run json files) := by
  intro name bytes snapshot found
  cases event with
  | tick env cut =>
    change Sync.tick (wasm32 json) env files cut name = some bytes at found
    unfold Sync.tick at found
    cases ran : runInner (wasm32 json) env files with
    | error fault =>
      rw [ran] at found
      exact links name bytes snapshot found
    | ok out =>
    rw [ran] at found
    dsimp only at found
    obtain ⟨start, target, place, saved, swap, ticked⟩ := runInner_ticked ran
    have home : start.LinksHome := by
      rcases ticked.starts with ⟨loaded, _⟩ | ⟨_, _, live, loaded, rfl⟩
      · exact links.load roundTrips (.inr rfl) loaded
      · cases live with
        | none => exact Index.linksHome_empty
        | some idx => exact links.load roundTrips (.inl rfl) loaded
    have replayed := ticked.exchange.linksHome genuine home
    have placed := ticked.place_snapshot roundTrips sound
    rcases ticked.files_after placed cut with kept | ⟨new, saves, own, others⟩ | ⟨_, rfl, gone, new, live, from_⟩
    · exact links name bytes snapshot (kept name snapshot ▸ found)
    · by_cases same : name = place
      · rw [same, own] at found
        cases found
        exact ⟨_, saves, replayed⟩
      · exact links name bytes snapshot (others name snapshot same ▸ found)
    · rcases snapshot with rfl | rfl
      · rw [live] at found
        cases found
        rcases from_ with saves | ⟨_, before⟩
        · exact ⟨_, saves, replayed⟩
        · exact links rebuildFile bytes (.inr rfl) before
      · rw [gone] at found
        cases found
  | write order enumerates now change cut =>
    change files.after ((Dav.writeThrough (wasm32 json) order now files change).take cut) name = some bytes at found
    rcases writeThrough_files_after roundTrips sound enumerates now change cut with
      kept | ⟨live, new, loaded, _, saves, own, rebuild⟩
    · exact links name bytes snapshot (kept name snapshot ▸ found)
    · rcases snapshot with rfl | rfl
      · rw [own] at found
        cases found
        exact ⟨_, saves, (links.load roundTrips (.inl rfl) loaded).congr (change.progress_run live)⟩
      · exact links rebuildFile bytes (.inr rfl) (rebuild ▸ found)

end Runs

end Sync

end OneDriveDavfs
