import OneDriveDavfs.Snapshot.Part
import OneDriveDavfs.Sync.Cursor

/-! A crawl of an unchanging drive.

The records of the drive come in pages, in any order and each once. Within a
tick the order does not matter, but between two ticks the index goes through
its file, and only what has a path at that moment comes back. What is in the
file after any number of ticks is known exactly: a record is there as long as
neither it nor a record above it was ever saved before its parent had come.
-/

set_option autoImplicit false

namespace OneDriveDavfs

open Library.Forest Library.Wire Snapshot

namespace Sync

/-! ## The pages of a drive -/

/-- The records of a drive, each once, split into pages in any order, and the
links from page to page. At the links in `onward` there is nothing new. -/
structure Paging (T : DriveTree) where
  pages : List (List DeltaItem)
  nonempty : pages ≠ []
  tells : ∀ it ∈ pages.flatten, T.Tells it ∧ ∃ node, T.nodes[it.id]? = some node
  once : (pages.flatten.map DeltaItem.id).Nodup
  all : ∀ {id : Id} {node : Node}, T.nodes[id]? = some node → id ∈ pages.flatten.map DeltaItem.id
  link : Nat → String
  deltaLink : String
  onward : String → Prop
  onward_deltaLink : onward deltaLink

namespace Paging

variable {T : DriveTree} (paging : Paging T)

def count : Nat := paging.pages.length

def itemsAt (i : Nat) : List DeltaItem := paging.pages[i]?.getD []

def page (i : Nat) : DeltaPage where
  items := paging.itemsAt i
  nextLink := if i + 1 < paging.count then some (paging.link (i + 1)) else none
  deltaToken := if i + 1 < paging.count then none else some paging.deltaLink

def delivered (i : Nat) : List Id := (paging.pages.take i).flatten.map DeltaItem.id

/-- A page without records that leads on to such pages only. -/
def Idle (page : DeltaPage) : Prop :=
  page.items = [] ∧ (∀ next ∈ page.nextLink, paging.onward next) ∧
    (page.nextLink = none → ∃ token, page.deltaToken = some token ∧ paging.onward token)

/-- Graph answers every request with the page at its link, or the request fails. -/
structure Answers (env : Env) : Prop where
  first : paging.link 0 = Graph.initialDeltaUrl env.driveBase
  crawl : ∀ n i, i < paging.count → env.delta n (paging.link i) = .ok (paging.page i) ∨
    ∃ e, env.delta n (paging.link i) = .error (.other e)
  later : ∀ n url, paging.onward url → (∃ page, env.delta n url = .ok page ∧ paging.Idle page) ∨
    ∃ e, env.delta n url = .error (.other e)

section Pages
variable {paging : Paging T} {i j : Nat} {x : Id}

theorem count_pos : 0 < paging.count := List.length_pos_iff.mpr paging.nonempty

theorem delivered_zero : paging.delivered 0 = [] := by
  simp [delivered]

theorem delivered_succ (more : i < paging.count) :
    paging.delivered (i + 1) = paging.delivered i ++ (paging.itemsAt i).map DeltaItem.id := by
  have present : paging.pages[i]? = some paging.pages[i] := List.getElem?_eq_getElem more
  rw [delivered, delivered, itemsAt, List.take_add_one, present]
  simp

theorem delivered_mono (le : i ≤ j) (member : x ∈ paging.delivered i) : x ∈ paging.delivered j := by
  have sub : (paging.pages.take i).Sublist (paging.pages.take j) := List.take_sublist_take_left le
  exact ((sub.flatten).map DeltaItem.id).subset member

theorem mem_delivered_count : x ∈ paging.delivered paging.count ↔ ∃ node, T.nodes[x]? = some node := by
  rw [delivered, count, List.take_length]
  constructor
  · intro member
    obtain ⟨it, listed, rfl⟩ := List.mem_map.mp member
    exact (paging.tells it listed).2
  · rintro ⟨node, found⟩
    exact paging.all found

theorem exists_of_delivered (member : x ∈ paging.delivered i) : ∃ node, T.nodes[x]? = some node := by
  rcases Nat.le_total i paging.count with le | ge
  · exact mem_delivered_count.mp (delivered_mono le member)
  · have whole : paging.pages.take i = paging.pages.take paging.count := by
      rw [List.take_of_length_le ge, count, List.take_length]
    rw [delivered, whole] at member
    exact mem_delivered_count.mp member

theorem tells_itemsAt (i : Nat) : ∀ it ∈ paging.itemsAt i, T.Tells it ∧ ∃ node, T.nodes[it.id]? = some node := by
  intro it member
  rw [itemsAt] at member
  cases present : paging.pages[i]? with
  | none => simp [present] at member
  | some items =>
    rw [present] at member
    exact paging.tells it (List.mem_flatten_of_mem (List.mem_of_getElem? present) member)

theorem not_delivered_of_itemsAt (le : i ≤ j) (more : j < paging.count)
    (member : x ∈ (paging.itemsAt j).map DeltaItem.id) : x ∉ paging.delivered i := by
  intro before
  have prefixed : (paging.delivered (j + 1)).Sublist (paging.pages.flatten.map DeltaItem.id) :=
    ((List.take_sublist _ _).flatten).map DeltaItem.id
  have once := paging.once.sublist prefixed
  rw [delivered_succ more] at once
  exact List.disjoint_of_nodup_append once (delivered_mono le before) member

end Pages

end Paging

/-! ## The requests of one tick -/

section Exchange
variable {T : DriveTree} {paging : Paging T} {env : Env} {idx start : Index} {held : Id → Prop} {i j : Nat}

/-- The index in the middle of a crawl: it held some records after `i` pages,
and holds also those of the pages up to `j` now. -/
structure Midway (paging : Paging T) (held : Id → Prop) (i j : Nat) (idx : Index) : Prop where
  holds : Holds idx T fun x => held x ∨ (x ∈ paging.delivered j ∧ x ∉ paging.delivered i)
  token : idx.deltaToken = none
  next : (j = 0 ∧ idx.pendingNextLink = none) ∨ idx.pendingNextLink = some (paging.link j)
  more : j < paging.count

theorem Midway.cursor (midway : Midway paging held i j idx) (answers : paging.Answers env) :
    idx.cursor env.driveBase = paging.link j := by
  rcases midway.next with ⟨rfl, none⟩ | some
  · rw [Index.cursor, none, midway.token, answers.first]
    rfl
  · rw [Index.cursor, some]
    rfl

theorem Midway.items (midway : Midway paging held i j idx) (le : i ≤ j) :
    Holds ((paging.itemsAt j).foldl Index.apply idx) T
      fun x => held x ∨ (x ∈ paging.delivered (j + 1) ∧ x ∉ paging.delivered i) := by
  refine (midway.holds.applyAll _ (Paging.tells_itemsAt j)).congr fun x => ?_
  rw [or_assoc, Paging.delivered_succ midway.more, List.mem_append]
  refine or_congr_right ⟨?_, ?_⟩
  · rintro (⟨before, fresh⟩ | own)
    · exact ⟨.inl before, fresh⟩
    · exact ⟨.inr own, Paging.not_delivered_of_itemsAt le midway.more own⟩
  · rintro ⟨before | own, fresh⟩
    · exact .inl ⟨before, fresh⟩
    · exact .inr own

theorem Midway.page_next (midway : Midway paging held i j idx) (le : i ≤ j) (more : j + 1 < paging.count) :
    Midway paging held i (j + 1) (idx.takePage (paging.page j)) := by
  have applied := Index.progress_applyAll (paging.itemsAt j) idx
  simp only [Index.progress, Prod.mk.injEq] at applied
  have link : (paging.page j).nextLink = some (paging.link (j + 1)) := if_pos more
  rw [Index.takePage, link]
  exact ⟨(midway.items le).moved rfl rfl rfl, applied.1.trans midway.token, .inr rfl, more⟩

theorem Midway.page_last (midway : Midway paging held i j idx) (le : i ≤ j) (last : j + 1 = paging.count) :
    ∃ whole, idx.takePage (paging.page j) = whole.sweepOrphans ∧ whole.pendingNextLink = none ∧
      whole.deltaToken = some paging.deltaLink ∧
      Holds whole T fun x => held x ∨ (x ∈ paging.delivered paging.count ∧ x ∉ paging.delivered i) := by
  have ends : ¬ j + 1 < paging.count := by omega
  have link : (paging.page j).nextLink = none := if_neg ends
  have token : (paging.page j).deltaToken = some paging.deltaLink := if_neg ends
  rw [Index.takePage, link, token]
  refine ⟨_, rfl, rfl, rfl, ?_⟩
  rw [← last]
  exact (midway.items le).moved rfl rfl rfl

theorem Paging.Answers.reply (answers : paging.Answers env) {n : Nat} {reply : DeltaReply} (inside : j < paging.count)
    (answered : env.delta n (paging.link j) = reply) (usable : ∀ e, reply ≠ .error (.other e)) :
    reply = .ok (paging.page j) := by
  rcases answers.crawl n j inside with page | ⟨e, failed⟩
  · exact answered.symm.trans page
  · exact absurd (answered.symm.trans failed) (usable e)

/-- Requests without a final reply go through the pages one by one. -/
theorem Exchange.midway (answers : paging.Answers env) {asked : List (String × DeltaReply)}
    (exchange : Exchange env start asked) (begins : Midway paging held i i start)
    (open_ : ∀ r ∈ replies asked, isFinal r = false) :
    Midway paging held i (i + asked.length) (replay start asked) := by
  induction exchange with
  | nil => exact begins
  | @snoc asked reply _ before answered usable ih =>
    have here := ih before
    rw [here.cursor answers] at answered
    have page := answers.reply here.more answered usable
    have notFinal : isFinal reply = false := open_ reply (by simp [replies_snoc])
    have more : i + asked.length + 1 < paging.count := by
      by_contra ends
      have link : (paging.page (i + asked.length)).nextLink = none := if_neg ends
      rw [page] at notFinal
      simp [isFinal, link] at notFinal
    rw [replay_snoc, page, List.length_append, List.length_singleton, ← Nat.add_assoc]
    exact here.page_next (Nat.le_add_right _ _) more

theorem Exchange.last (answers : paging.Answers env) {asked : List (String × DeltaReply)}
    (exchange : Exchange env start asked) (begins : Midway paging held i i start)
    (final : (replies asked).getLast?.any isFinal = true) :
    changed start (replies asked) = true ∧
      ∃ whole, replay start asked = whole.sweepOrphans ∧ whole.pendingNextLink = none ∧
        whole.deltaToken = some paging.deltaLink ∧
        Holds whole T fun x => held x ∨ (x ∈ paging.delivered paging.count ∧ x ∉ paging.delivered i) := by
  cases exchange with
  | nil => cases final
  | @snoc asked reply exchange before answered usable =>
    have here := exchange.midway answers begins before
    rw [here.cursor answers] at answered
    have page := answers.reply here.more answered usable
    rw [replies_snoc, List.getLast?_append, page] at final
    -- a page before the last carries a next link, so it would not be final
    have ends : i + asked.length + 1 = paging.count := by
      have inside := here.more
      by_contra differs
      have link : (paging.page (i + asked.length)).nextLink = some (paging.link (i + asked.length + 1)) :=
        if_pos (by omega)
      simp [isFinal, link] at final
    constructor
    · -- the delta link is new to an index that has no token yet
      have link : (paging.page (i + asked.length)).nextLink = none := if_neg (by omega)
      have token : (paging.page (i + asked.length)).deltaToken = some paging.deltaLink := if_neg (by omega)
      have current : ((replies asked).foldl Index.take start).deltaToken = none := here.token
      rw [replies_snoc, changed_append, page]
      simp [marks, link, token, current]
    · rw [replay_snoc, page]
      exact here.page_last (Nat.le_add_right _ _) ends

theorem Exchange.pages (answers : paging.Answers env) {asked : List (String × DeltaReply)}
    (exchange : Exchange env start asked) (begins : Midway paging held i i start) :
    ∀ r ∈ replies asked, ∃ k, r = .ok (paging.page k) := by
  induction exchange with
  | nil =>
    intro r member
    cases member
  | @snoc asked reply exchange before answered usable ih =>
    have here := exchange.midway answers begins before
    rw [here.cursor answers] at answered
    intro r member
    rw [replies_snoc] at member
    rcases List.mem_append.mp member with earlier | own
    · exact ih r earlier
    · rw [List.mem_singleton.mp own]
      exact ⟨_, answers.reply here.more answered usable⟩

theorem Exchange.open_of_last {asked : List (String × DeltaReply)} (exchange : Exchange env start asked)
    (last : (replies asked).getLast?.any isFinal = false) : ∀ r ∈ replies asked, isFinal r = false := by
  cases exchange with
  | nil =>
    intro r member
    cases member
  | snoc _ before _ _ =>
    intro r member
    rw [replies_snoc] at member last
    rcases List.mem_append.mp member with earlier | own
    · exact before r earlier
    · rw [List.mem_singleton.mp own]
      simpa using last

theorem Paging.linksOnwards_page (paging : Paging T) (k : Nat) : LinksOnwards (paging.page k) := by
  unfold LinksOnwards Paging.page
  dsimp only
  split <;> simp

end Exchange

/-! ## What survives the files in between -/

/-- How many requests the ticks of an unfinished crawl have made, the latest first. -/
def requests (ticks : List Env) : Nat := (ticks.map Env.quota).sum

namespace Paging

variable {T : DriveTree} (paging : Paging T)

/-- When a tick ended, neither the node nor one above it was there before its parent. -/
def Unbroken (ticks : List Env) (x : Id) : Prop :=
  ∀ y, Below T.links y x → ∀ before, before <:+ ticks → y ∈ paging.delivered (requests before) →
    ∀ p, Child T.links p y → p ∈ paging.delivered (requests before)

/-- What the file holds between the ticks of a crawl. -/
def Survives (ticks : List Env) (x : Id) : Prop :=
  (∀ y, Below T.links y x → y ∈ paging.delivered (requests ticks)) ∧ paging.Unbroken ticks x ∧
    ∃ segs, Trail T.links x segs ∧ segs.length ≤ 64

def Final (ticks : List Env) (x : Id) : Prop :=
  paging.Unbroken ticks x ∧ ∃ segs, Trail T.links x segs ∧ segs.length < 64

section Survival
variable {paging : Paging T} {ticks : List Env} {x y : Id} {j : Nat}

theorem requests_mono {before : List Env} (earlier : before <:+ ticks) : requests before ≤ requests ticks := by
  obtain ⟨later, rfl⟩ := earlier
  simp [requests]

theorem Unbroken.above (unbroken : paging.Unbroken ticks x) (below : Below T.links y x) :
    paging.Unbroken ticks y :=
  fun z upper => unbroken z (upper.trans below)

theorem exists_trail_above {segs : List String} (below : Below T.links y x) (trail : Trail T.links x segs) :
    ∃ front, Trail T.links y front ∧ front.length ≤ segs.length := by
  obtain ⟨front, rest, rfl, upper⟩ := Trail.of_below below trail
  exact ⟨front, upper, by simp⟩

theorem Survives.above (survives : paging.Survives ticks x) (below : Below T.links y x) :
    paging.Survives ticks y := by
  obtain ⟨delivered, unbroken, segs, trail, bound⟩ := survives
  obtain ⟨front, upper, le⟩ := exists_trail_above below trail
  exact ⟨fun z upper => delivered z (upper.trans below), unbroken.above below, front, upper, by omega⟩

theorem Final.above (final : paging.Final ticks x) (below : Below T.links y x) : paging.Final ticks y := by
  obtain ⟨unbroken, segs, trail, bound⟩ := final
  obtain ⟨front, upper, le⟩ := exists_trail_above below trail
  exact ⟨unbroken.above below, front, upper, by omega⟩

theorem Final.near (final : paging.Final ticks x) : ∃ segs, Trail T.links x segs ∧ segs.length ≤ 64 := by
  obtain ⟨_, segs, trail, bound⟩ := final
  exact ⟨segs, trail, Nat.le_of_lt bound⟩

theorem Unbroken.delivered_above (unbroken : paging.Unbroken ticks x) {before : List Env} (earlier : before <:+ ticks)
    (own : x ∈ paging.delivered (requests before)) (below : Below T.links y x) :
    y ∈ paging.delivered (requests before) := by
  induction below using Relation.ReflTransGen.head_induction_on with
  | refl => exact own
  | head child below ih => exact unbroken _ below before earlier ih _ child

/-- A node has everything above it when the records from before survived and the others have come since. -/
theorem chain_iff (le : requests ticks ≤ j) {segs : List String} (trail : Trail T.links x segs)
    (bound : segs.length ≤ 64) :
    (∀ y, Below T.links y x → paging.Survives ticks y ∨
        (y ∈ paging.delivered j ∧ y ∉ paging.delivered (requests ticks))) ↔
      (∀ y, Below T.links y x → y ∈ paging.delivered j) ∧ paging.Unbroken ticks x := by
  constructor
  · intro chain
    have come : ∀ y, Below T.links y x → y ∈ paging.delivered j := by
      intro y below
      rcases chain y below with survives | ⟨own, _⟩
      · exact delivered_mono le (survives.1 y .refl)
      · exact own
    refine ⟨come, fun y below before earlier own p child => ?_⟩
    rcases chain y below with survives | ⟨_, fresh⟩
    · exact survives.2.1 y .refl before earlier own p child
    · exact absurd (delivered_mono (requests_mono earlier) own) fresh
  · rintro ⟨come, unbroken⟩ y below
    by_cases own : y ∈ paging.delivered (requests ticks)
    · left
      obtain ⟨front, upper, shorter⟩ := exists_trail_above below trail
      have above := unbroken.above below
      exact ⟨fun z higher => above.delivered_above (List.suffix_refl ticks) own higher, above, front, upper, by omega⟩
    · exact .inr ⟨come y below, own⟩

theorem survives_cons {env : Env} :
    paging.Survives (env :: ticks) x ↔
      (∀ y, Below T.links y x → y ∈ paging.delivered (requests (env :: ticks))) ∧ paging.Unbroken ticks x ∧
        ∃ segs, Trail T.links x segs ∧ segs.length ≤ 64 := by
  refine and_congr_right fun come => and_congr_left fun _ => ⟨fun unbroken => ?_, fun unbroken => ?_⟩
  · exact fun y below before earlier => unbroken y below before (earlier.trans (List.suffix_cons env ticks))
  · intro y below before earlier own p child
    rcases List.suffix_cons_iff.mp earlier with rfl | earlier
    · exact come p (.head child below)
    · exact unbroken y below before earlier own p child

end Survival

end Paging

section Content
variable {T : DriveTree} {paging : Paging T} {ticks : List Env} {env : Env} {idx : Index}

theorem requests_le_cons : requests ticks ≤ requests (env :: ticks) :=
  Paging.requests_mono (List.suffix_cons env ticks)

/-- What a tick in the middle of the crawl leaves in the file. -/
theorem kept_iff_survives (holds : Holds idx T fun x => paging.Survives ticks x ∨
      (x ∈ paging.delivered (requests (env :: ticks)) ∧ x ∉ paging.delivered (requests ticks))) (x : Id) :
    Kept idx x ↔ paging.Survives (env :: ticks) x := by
  rw [Paging.survives_cons, Kept]
  constructor
  · rintro ⟨segs, trail, bound⟩
    obtain ⟨inTree, chain⟩ := holds.trail_iff.mp trail
    obtain ⟨come, unbroken⟩ := (Paging.chain_iff requests_le_cons inTree bound).mp chain
    exact ⟨come, unbroken, segs, inTree, bound⟩
  · rintro ⟨come, unbroken, segs, inTree, bound⟩
    have chain := (Paging.chain_iff requests_le_cons inTree bound).mpr ⟨come, unbroken⟩
    exact ⟨segs, holds.trail_iff.mpr ⟨inTree, chain⟩, bound⟩

theorem swept_iff_final (le : requests ticks ≤ paging.count)
    (holds : Holds idx T fun x => paging.Survives ticks x ∨
      (x ∈ paging.delivered paging.count ∧ x ∉ paging.delivered (requests ticks))) (x : Id) :
    (∃ segs, Trail idx.links x segs ∧ segs.length < 64) ↔ paging.Final ticks x := by
  constructor
  · rintro ⟨segs, trail, bound⟩
    obtain ⟨inTree, chain⟩ := holds.trail_iff.mp trail
    obtain ⟨_, unbroken⟩ := (Paging.chain_iff le inTree (Nat.le_of_lt bound)).mp chain
    exact ⟨unbroken, segs, inTree, bound⟩
  · rintro ⟨unbroken, segs, inTree, bound⟩
    have come : ∀ y, Below T.links y x → y ∈ paging.delivered paging.count := by
      intro y below
      obtain ⟨front, upper, _⟩ := Paging.exists_trail_above below inTree
      obtain ⟨_, link⟩ := upper.exists_link
      obtain ⟨node, found, _⟩ := Option.map_eq_some_iff.mp link
      exact Paging.mem_delivered_count.mpr ⟨node, found⟩
    have chain := (Paging.chain_iff le inTree (Nat.le_of_lt bound)).mpr ⟨come, unbroken⟩
    exact ⟨segs, holds.trail_iff.mpr ⟨inTree, chain⟩, bound⟩

end Content

/-! ## The file between the ticks -/

structure FilePart (json : MetaJson) (T : DriveTree) (files : Files) (idx : Index) (kept : Id → Prop) : Prop where
  stored : ∃ bytes, files indexFile = some bytes ∧ Saves json idx bytes
  holds : ∃ part, Holds idx T part
  kept : ∀ x, Kept idx x ↔ kept x

def Paging.Waits {T : DriveTree} (paging : Paging T) (idx : Index) : Prop :=
  (∃ next, idx.pendingNextLink = some next ∧ paging.onward next) ∨
    (idx.pendingNextLink = none ∧ ∃ token, idx.deltaToken = some token ∧ paging.onward token)

structure Partial (json : MetaJson) {T : DriveTree} (paging : Paging T) (ticks : List Env) (files : Files) : Prop where
  alone : files rebuildFile = none
  more : requests ticks < paging.count
  live : (ticks = [] ∧ files indexFile = none) ∨
    ∃ idx, FilePart json T files idx (paging.Survives ticks) ∧ idx.deltaToken = none ∧
      idx.pendingNextLink = some (paging.link (requests ticks))

structure Finished (json : MetaJson) {T : DriveTree} (paging : Paging T) (ticks : List Env) (files : Files) : Prop where
  alone : files rebuildFile = none
  live : ∃ idx, FilePart json T files idx (paging.Final ticks) ∧ paging.Waits idx

section File
variable {json : MetaJson} {T : DriveTree} {paging : Paging T} {ticks : List Env} {files : Files} {env : Env}
  {idx start : Index} {target place : String} {saved swap : List FileOp} {out : Outcome} {kept : Id → Prop}

theorem FilePart.load (roundTrips : json.RoundTrips) (folders : T.FoldersOnly) (part : FilePart json T files idx kept) :
    ∃ out, Snapshot.load (wasm32 json) files indexFile = .ok (some out) ∧ out.progress = idx.progress ∧
      Holds out T kept := by
  obtain ⟨bytes, held, saves⟩ := part.stored
  obtain ⟨_, holds⟩ := part.holds
  obtain ⟨out, decoded, restored⟩ := saves.decode_storable roundTrips (storable_of_holds holds folders)
  refine ⟨out, ?_, restored.progress, (holds.restored restored).congr part.kept⟩
  rw [load_eq, held]
  simp only [decoded]
  rfl

theorem kept_of_closed (holds : Holds idx T kept)
    (near : ∀ x, kept x → ∃ segs, Trail T.links x segs ∧ segs.length ≤ 64)
    (above : ∀ x y, kept x → Below T.links y x → kept y) (x : Id) : Kept idx x ↔ kept x := by
  constructor
  · rintro ⟨segs, trail, _⟩
    exact (holds.trail_iff.mp trail).2 x .refl
  · intro own
    obtain ⟨segs, trail, bound⟩ := near x own
    exact ⟨segs, holds.trail_iff.mpr ⟨trail, fun y below => above x y own below⟩, bound⟩

theorem FilePart.congr {after : Files} (part : FilePart json T files idx kept)
    (same : after indexFile = files indexFile) : FilePart json T after idx kept :=
  ⟨by rw [same]; exact part.stored, part.holds, part.kept⟩

theorem Ticked.alone (ticked : Ticked json env files start target place saved swap out)
    (alone : files rebuildFile = none) (quiet : ∀ r ∈ replies out.asked, isResync r = false) :
    place = indexFile ∧ out.ops = saved ∧
      ∃ live, Snapshot.load (wasm32 json) files indexFile = .ok live ∧ start = live.getD Index.empty := by
  have noResync : out.report.resync = false := by
    rw [ticked.resync, List.any_eq_false]
    intro r member
    rw [quiet r member]
    exact Bool.false_ne_true
  have missing : Snapshot.load (wasm32 json) files rebuildFile = .ok none := by rw [load_eq, alone]
  rcases ticked.starts with ⟨found, _⟩ | ⟨_, onIndex, live, found, same⟩
  · cases missing.symm.trans found
  · have stays := (ticked.kept noResync).trans onIndex
    refine ⟨stays, ?_, live, found, same⟩
    rw [ticked.ops]
    rcases ticked.swaps with ⟨_, onRebuild, _⟩ | ⟨_, rfl, _⟩
    · exact absurd (stays.symm.trans onRebuild) (by decide)
    · exact List.append_nil _

theorem after_save (files : Files) (bytes : Bytes) :
    files.after (StateFile.writeAtomic indexFile bytes) indexFile = some bytes ∧
      files.after (StateFile.writeAtomic indexFile bytes) rebuildFile = files rebuildFile := by
  constructor
  · rw [StateFile.after_writeAtomic, if_pos rfl]
  · rw [StateFile.after_writeAtomic, if_neg (by decide), if_neg (by decide)]

end File

/-! ## Ticks of a crawl -/

/-- Ticks that returned, the latest first, from an empty directory on; the flag
says whether one of them has completed the crawl. A tick that fails leaves
everything as it was. -/
inductive Crawling (json : MetaJson) {T : DriveTree} (paging : Paging T) : List Env → Bool → Files → Prop
  | start : Crawling json paging [] false noFiles
  | tick {ticks : List Env} {done : Bool} {files : Files} {env : Env} {out : Outcome} :
      Crawling json paging ticks done files → paging.Answers env → runInner (wasm32 json) env files = .ok out →
      Crawling json paging (env :: ticks) (done || out.report.complete) (files.after out.ops)

section Steps
variable {json : MetaJson} {T : DriveTree} {paging : Paging T} {ticks : List Env} {files : Files} {env : Env}
  {idx start : Index} {target place : String} {saved swap : List FileOp} {out : Outcome}

theorem root_above {y : Id} (below : Below T.links y T.root) : y = T.root := by
  rcases below.cases_tail with same | ⟨p, _, _, link⟩
  · exact same.symm
  · rw [T.root_link] at link
    cases link

theorem unbroken_root : paging.Unbroken ticks T.root := by
  rintro y below _ _ _ p ⟨_, link⟩
  rw [root_above below, T.root_link] at link
  cases link

theorem final_root : paging.Final ticks T.root :=
  ⟨unbroken_root, [], .top T.root_link, by simp⟩

theorem survives_root_or_new : paging.Survives ticks T.root ∨
    (T.root ∈ paging.delivered paging.count ∧ T.root ∉ paging.delivered (requests ticks)) := by
  by_cases own : T.root ∈ paging.delivered (requests ticks)
  · exact .inl ⟨fun y below => root_above below ▸ own, unbroken_root, [], .top T.root_link, by simp⟩
  · obtain ⟨itemMeta, found⟩ := T.rootRecord
    exact .inr ⟨Paging.mem_delivered_count.mpr ⟨_, found⟩, own⟩

theorem Partial.begins (roundTrips : json.RoundTrips) (folders : T.FoldersOnly)
    (part : Partial json paging ticks files) {live : Option Index}
    (loaded : load (wasm32 json) files indexFile = .ok live) :
    Midway paging (paging.Survives ticks) (requests ticks) (requests ticks) (live.getD Index.empty) := by
  rcases part.live with ⟨rfl, absent⟩ | ⟨idx, file, token, next⟩
  · rw [load_eq, absent] at loaded
    cases loaded
    have nothing : ∀ x, ¬ paging.Survives [] x := by
      intro x survives
      have own := survives.1 x .refl
      rw [requests, List.map_nil, List.sum_nil, Paging.delivered_zero] at own
      cases own
    exact ⟨(HoldsAs.empty .nameless T.toNodeTree).congr fun x => by simp [nothing], rfl, .inl ⟨rfl, rfl⟩, part.more⟩
  · obtain ⟨out, found, progress, holds⟩ := file.load roundTrips folders
    cases loaded.symm.trans found
    simp only [Index.progress, Prod.mk.injEq] at progress
    exact ⟨holds.congr fun x => by simp, progress.1.trans token, .inr (progress.2.1.trans next), part.more⟩

/-- What the exchange of a tick does to the file in the middle of the crawl. -/
theorem Partial.ticked (roundTrips : json.RoundTrips) (folders : T.FoldersOnly) (sound : Sound json files)
    (part : Partial json paging ticks files) (answers : paging.Answers env)
    (ticked : Ticked json env files start target place saved swap out) :
    (out.report.complete = false → Partial json paging (env :: ticks) (files.after out.ops)) ∧
      (out.report.complete = true → Finished json paging ticks (files.after out.ops)) := by
  obtain ⟨cursor, _⟩ := ticked.starts.cursorOk roundTrips sound
  -- every reply is a page of the crawl, so there is no resync
  have begins : Midway paging (paging.Survives ticks) (requests ticks) (requests ticks) start := by
    rcases ticked.starts with ⟨found, _⟩ | ⟨_, _, live, found, rfl⟩
    · rw [load_eq, part.alone] at found
      cases found
    · exact part.begins roundTrips folders found
  have pages := ticked.exchange.pages answers begins
  have quiet : ∀ r ∈ replies out.asked, isResync r = false := by
    intro r member
    obtain ⟨k, rfl⟩ := pages r member
    rfl
  have onwards : ∀ page, (.ok page : DeltaReply) ∈ replies out.asked → LinksOnwards page := by
    intro page member
    obtain ⟨k, same⟩ := pages _ member
    cases same
    exact paging.linksOnwards_page k
  obtain ⟨onIndex, ops, live, found, isStart⟩ := ticked.alone part.alone quiet
  rw [ops]
  constructor
  · intro unfinished
    have last := ticked.complete.symm.trans unfinished
    have open_ := ticked.exchange.open_of_last last
    have midway := ticked.exchange.midway answers begins open_
    have made : requests ticks + out.asked.length = requests (env :: ticks) := by
      rw [ticked.quota unfinished, requests, requests, List.map_cons, List.sum_cons, Nat.add_comm]
    rw [made] at midway
    have asked := List.length_pos_iff.mpr ticked.asked
    have next := midway.next.resolve_left fun ⟨nothing, _⟩ => by omega
    rcases ticked.saves with ⟨rfl, _, same⟩ | ⟨bytes, saves, rfl⟩
    · -- nothing was saved, so nothing came
      rcases part.live with ⟨_, absent⟩ | ⟨idx, file, token, _⟩
      · rw [load_eq, absent] at found
        cases found
        rw [isStart, Option.getD_none, changed_empty onwards (by simpa [replies] using ticked.asked)] at same
        cases same
      · obtain ⟨loaded, present, progress, _⟩ := file.load roundTrips folders
        cases found.symm.trans present
        obtain rfl : start = loaded := isStart
        have stays : replay start out.asked = start := (foldl_take_open cursor open_ same).1
        rw [stays] at midway next
        simp only [Index.progress, Prod.mk.injEq] at progress
        have before : Holds start T (paging.Survives ticks) := begins.holds.congr fun x => by simp
        refine ⟨part.alone, midway.more, .inr ⟨idx, ⟨file.stored, file.holds, fun x => ?_⟩, token,
          progress.2.1.symm.trans next⟩⟩
        rw [file.kept, ← kept_iff_survives midway.holds]
        exact (kept_of_closed before (fun _ survives => survives.2.2) (fun _ _ => Paging.Survives.above) x).symm
    · rw [onIndex]
      obtain ⟨own, other⟩ := after_save files bytes
      refine ⟨other.trans part.alone, midway.more, .inr ⟨_, ⟨⟨bytes, own, saves⟩, ⟨_, midway.holds⟩, ?_⟩,
        midway.token, next⟩⟩
      exact kept_iff_survives midway.holds
  · intro finished
    have last := ticked.complete.symm.trans finished
    obtain ⟨changes, whole, sweeps, pending, token, holds⟩ := ticked.exchange.last answers begins last
    have swept := (holds.swept survives_root_or_new).congr (swept_iff_final (Nat.le_of_lt part.more) holds)
    have progress := Index.progress_sweepOrphans whole
    simp only [Index.progress, Prod.mk.injEq] at progress
    rcases ticked.saves with ⟨rfl, _, same⟩ | ⟨bytes, saves, rfl⟩
    · rw [changes] at same
      cases same
    · rw [onIndex]
      obtain ⟨own, other⟩ := after_save files bytes
      rw [sweeps] at saves
      refine ⟨other.trans part.alone, _, ⟨⟨bytes, own, saves⟩, ⟨_, swept⟩, ?_⟩, .inr ⟨progress.2.1.trans pending,
        _, progress.1.trans token, paging.onward_deltaLink⟩⟩
      exact kept_of_closed swept (fun _ final => final.near) fun _ _ => Paging.Final.above

/-! Requests after the crawl -/

theorem Paging.Waits.cursor (waits : paging.Waits idx) : paging.onward (idx.cursor env.driveBase) := by
  rcases waits with ⟨next, pending, onward⟩ | ⟨pending, token, carried, onward⟩
  · rw [Index.cursor, pending]
    exact onward
  · rw [Index.cursor, pending, carried]
    exact onward

theorem take_idle {page : DeltaPage} (idle : paging.Idle page) (holds : Holds idx T (paging.Final ticks)) :
    Holds (idx.takePage page) T (paging.Final ticks) ∧ paging.Waits (idx.takePage page) := by
  obtain ⟨nothing, next, final⟩ := idle
  rw [Index.takePage, nothing]
  cases link : page.nextLink with
  | some url => exact ⟨holds.moved rfl rfl rfl, .inl ⟨url, rfl, next url link⟩⟩
  | none =>
    obtain ⟨token, carried, onward⟩ := final link
    rw [carried]
    dsimp only [List.foldl_nil]
    generalize last : ({ idx with
      pendingNextLink := none, deltaToken := some token <|> idx.deltaToken, crawlComplete := true } : Index) = whole
    have same : Holds whole T (paging.Final ticks) := holds.moved (by rw [← last]) (by rw [← last]) (by rw [← last])
    have progress := Index.progress_sweepOrphans whole
    simp only [Index.progress, Prod.mk.injEq] at progress
    refine ⟨(same.swept final_root).congr fun x => ?_, .inr ⟨?_, token, ?_, onward⟩⟩
    · constructor
      · rintro ⟨segs, trail, _⟩
        exact (same.trail_iff.mp trail).2 x .refl
      · intro final
        have chain : ∀ y, Below T.links y x → paging.Final ticks y := fun y below => final.above below
        obtain ⟨_, segs, trail, bound⟩ := final
        exact ⟨segs, same.trail_iff.mpr ⟨trail, chain⟩, bound⟩
    · rw [progress.2.1, ← last]
    · rw [progress.1, ← last]
      rfl

theorem Exchange.waits (answers : paging.Answers env) {asked : List (String × DeltaReply)}
    (exchange : Exchange env start asked) (holds : Holds start T (paging.Final ticks)) (waits : paging.Waits start) :
    Holds (replay start asked) T (paging.Final ticks) ∧ paging.Waits (replay start asked) ∧
      ∀ r ∈ replies asked, isResync r = false := by
  induction exchange with
  | nil => exact ⟨holds, waits, by simp [replies]⟩
  | @snoc asked reply _ _ answered usable ih =>
    obtain ⟨here, waiting, quiet⟩ := ih
    have onward : paging.onward ((replay start asked).cursor env.driveBase) := waiting.cursor
    rcases answers.later asked.length _ onward with ⟨page, served, idle⟩ | ⟨e, failed⟩
    · obtain rfl : reply = .ok page := answered.symm.trans served
      obtain ⟨next, still⟩ := take_idle idle here
      rw [replay_snoc, replies_snoc]
      refine ⟨next, still, fun r member => ?_⟩
      rcases List.mem_append.mp member with earlier | own
      · exact quiet r earlier
      · rw [List.mem_singleton.mp own]
        rfl
    · exact absurd (answered.symm.trans failed) (usable e)

theorem Finished.ticked (roundTrips : json.RoundTrips) (folders : T.FoldersOnly)
    (finished : Finished json paging ticks files) (answers : paging.Answers env)
    (ticked : Ticked json env files start target place saved swap out) :
    Finished json paging ticks (files.after out.ops) := by
  obtain ⟨idx, file, waits⟩ := finished.live
  obtain ⟨loaded, present, progress, holds⟩ := file.load roundTrips folders
  simp only [Index.progress, Prod.mk.injEq] at progress
  have waiting : paging.Waits loaded := by
    rw [Paging.Waits, progress.1, progress.2.1]
    exact waits
  obtain rfl : start = loaded := by
    rcases ticked.starts with ⟨found, _⟩ | ⟨_, _, live, found, isStart⟩
    · rw [load_eq, finished.alone] at found
      cases found
    · cases found.symm.trans present
      exact isStart
  obtain ⟨after, still, quiet⟩ := ticked.exchange.waits answers holds waiting
  obtain ⟨onIndex, ops, _⟩ := ticked.alone finished.alone quiet
  rw [ops]
  rcases ticked.saves with ⟨rfl, _⟩ | ⟨bytes, saves, rfl⟩
  · exact finished
  · rw [onIndex]
    obtain ⟨own, other⟩ := after_save files bytes
    refine ⟨other.trans finished.alone, _, ⟨⟨bytes, own, saves⟩, ⟨_, after⟩, ?_⟩, still⟩
    exact kept_of_closed after (fun _ final => final.near) fun _ _ => Paging.Final.above

end Steps

section Run
variable {json : MetaJson} {T : DriveTree} {paging : Paging T} {ticks : List Env} {done : Bool} {files : Files}

theorem Crawling.sound (roundTrips : json.RoundTrips) (run : Crawling json paging ticks done files) :
    Sound json files := by
  induction run with
  | start => exact sound_noFiles
  | @tick _ _ files env out _ _ ran ih =>
    have next := ih.tick roundTrips env out.ops.length
    simp only [Sync.tick, ran, List.take_length] at next
    exact next

/-- What the live snapshot holds after any number of ticks. -/
theorem Crawling.file (roundTrips : json.RoundTrips) (folders : T.FoldersOnly)
    (run : Crawling json paging ticks done files) :
    (done = false → Partial json paging ticks files) ∧
      (done = true → ∃ crawl, Finished json paging crawl files) := by
  induction run with
  | start =>
    refine ⟨fun _ => ⟨rfl, paging.count_pos, .inl ⟨rfl, rfl⟩⟩, fun finished => ?_⟩
    cases finished
  | @tick ticks done files env out run answers ran ih =>
    obtain ⟨_, _, _, _, _, ticked⟩ := runInner_ticked ran
    cases done with
    | false =>
      obtain ⟨goesOn, ends⟩ := (ih.1 rfl).ticked roundTrips folders (run.sound roundTrips) answers ticked
      rw [Bool.false_or]
      exact ⟨goesOn, fun complete => ⟨ticks, ends complete⟩⟩
    | true =>
      obtain ⟨crawl, finished⟩ := ih.2 rfl
      rw [Bool.true_or]
      refine ⟨fun unfinished => ?_, fun _ => ⟨crawl, finished.ticked roundTrips folders answers ticked⟩⟩
      cases unfinished

/-- At every tick that ended before the crawl did, no record was there without its parent. -/
def Paging.InStep (paging : Paging T) (ticks : List Env) : Prop :=
  ∀ before, before <:+ ticks → ∀ p x, Child T.links p x → x ∈ paging.delivered (requests before) →
    p ∈ paging.delivered (requests before)

theorem inStep_iff : paging.InStep ticks ↔ ∀ x node, T.nodes[x]? = some node → paging.Unbroken ticks x := by
  constructor
  · exact fun inStep x _ _ y _ before earlier own p child => inStep before earlier p y child own
  · intro unbroken before earlier p x child own
    obtain ⟨node, found⟩ := Paging.exists_of_delivered own
    exact unbroken x node found x .refl before earlier own p child

/-- The live snapshot of a finished crawl is the whole drive exactly when at
the end of every earlier tick each record that had come had its parent there. -/
theorem split_crawl_converges_iff (json : MetaJson) (roundTrips : json.RoundTrips) (T : DriveTree)
    (folders : T.FoldersOnly) (depth : T.DepthLe 63) (paging : Paging T) (ticks : List Env) (files : Files)
    (run : Crawling json paging ticks false files) (env : Env) (answers : paging.Answers env) (out : Outcome)
    (ran : runInner (wasm32 json) env files = .ok out) (complete : out.report.complete = true) :
    (∃ idx, load (wasm32 json) (files.after out.ops) indexFile = .ok (some idx) ∧ Represents idx T ∧
      ∀ path id, idx.resolve path = some id ↔ Trail T.links id (segments path)) ↔ paging.InStep ticks := by
  obtain ⟨_, _, _, _, _, ticked⟩ := runInner_ticked ran
  have part := (run.file roundTrips folders).1 rfl
  have finished := (part.ticked roundTrips folders (run.sound roundTrips) answers ticked).2 complete
  obtain ⟨saved, file, _⟩ := finished.live
  obtain ⟨idx, loaded, _, holds⟩ := file.load roundTrips folders
  rw [inStep_iff]
  constructor
  · rintro ⟨other, found, represents, _⟩ x node inTree
    cases loaded.symm.trans found
    exact (represents.unique holds inTree trivial).1
  · intro unbroken
    have represents : Represents idx T := by
      refine holds.all fun {id node} found => ?_
      obtain ⟨segs, trail⟩ := T.rooted found
      exact ⟨unbroken id node found, segs, trail, Nat.lt_succ_of_le (depth trail)⟩
    exact ⟨idx, loaded, represents, represents.resolve_iff⟩

theorem inStep_of_lists (checked : ∀ before ∈ ticks.tails, ∀ x ∈ paging.delivered (requests before),
      ∀ p ∈ (T.nodes[x]?).bind Node.parent, p ∈ paging.delivered (requests before)) : paging.InStep ticks := by
  rintro before earlier p x ⟨name, link⟩ own
  obtain ⟨node, found, parent, _⟩ := NodeTree.links_eq_some_iff.mp link
  refine checked before ((List.mem_tails _ _).mpr earlier) x own p ?_
  rw [found]
  exact parent

end Run

/-! ## Two pages -/

theorem second_ne_first : "https://graph.microsoft.com/2" ≠ Graph.initialDeltaUrl "me/drive" := by
  decide

theorem later_ne_first : "https://graph.microsoft.com/d" ≠ Graph.initialDeltaUrl "me/drive" := by
  decide

theorem later_ne_second : "https://graph.microsoft.com/d" ≠ "https://graph.microsoft.com/2" := by
  decide

def twoPages (first second : List DeltaItem) (once : ((first ++ second).map DeltaItem.id).Nodup)
    (tells : ∀ it ∈ first ++ second, foldersAB.Tells it ∧ (foldersAB.nodes[it.id]?).isSome = true)
    (all : ∀ entry ∈ foldersAB.nodes.toList, entry.1 ∈ (first ++ second).map DeltaItem.id) : Paging foldersAB where
  pages := [first, second]
  nonempty := by simp
  tells := by
    intro it member
    obtain ⟨told, present⟩ := tells it (by simpa using member)
    exact ⟨told, Option.isSome_iff_exists.mp present⟩
  once := by simpa using once
  all := by
    intro id node found
    simpa using all (id, node) (Std.ExtTreeMap.mem_toList_iff_getElem?_eq_some.mpr found)
  link := fun i => if i = 0 then Graph.initialDeltaUrl "me/drive" else "https://graph.microsoft.com/2"
  deltaLink := "https://graph.microsoft.com/d"
  onward := (· = "https://graph.microsoft.com/d")
  onward_deltaLink := rfl

def pageByPage (paging : Paging foldersAB) : Env := .steady 1 (by decide) 7 fun _ url =>
  if url = paging.link 0 then .ok (paging.page 0)
  else if url = paging.link 1 then .ok (paging.page 1)
  else .ok ⟨[], none, some paging.deltaLink⟩

theorem delta_pageByPage (paging : Paging foldersAB) (n : Nat) (url : String) :
    (pageByPage paging).delta n url =
      if url = paging.link 0 then .ok (paging.page 0)
      else if url = paging.link 1 then .ok (paging.page 1)
      else .ok ⟨[], none, some paging.deltaLink⟩ := rfl

theorem answers_pageByPage (first second : List DeltaItem) (once) (tells) (all) :
    (twoPages first second once tells all).Answers (pageByPage (twoPages first second once tells all)) where
  first := rfl
  crawl := by
    intro n i inside
    left
    match i, inside with
    | 0, _ => rw [delta_pageByPage, if_pos rfl]
    | 1, _ => exact (delta_pageByPage _ _ _).trans ((if_neg second_ne_first).trans (if_pos rfl))
  later := by
    rintro n url rfl
    left
    refine ⟨⟨[], none, some "https://graph.microsoft.com/d"⟩, ?_, rfl, by simp, fun _ => ⟨_, rfl, rfl⟩⟩
    exact (delta_pageByPage _ _ _).trans ((if_neg later_ne_first).trans (if_neg later_ne_second))

def rootRecord : DeltaItem := ⟨"r", none, "root", false, true, ⟨true, 0, 0, ""⟩⟩

def fileRecord : DeltaItem := ⟨"f", some "b", "f.txt", false, false, ⟨false, 1, 0, ""⟩⟩

def folderFirst : Paging foldersAB :=
  twoPages [rootRecord, folderRecord "b" "B"] [fileRecord, folderRecord "a" "A"] (by decide) (by decide) (by decide)

def fileFirst : Paging foldersAB :=
  twoPages [rootRecord, fileRecord] [folderRecord "b" "B", folderRecord "a" "A"] (by decide) (by decide) (by decide)

theorem split_crawl_converges_iff_folderFirst :
    ∃ files idx, load (wasm32 metaText) files indexFile = .ok (some idx) ∧ Represents idx foldersAB := by
  have evaluated : Result.isOkAnd (runInner (wasm32 metaText) (pageByPage folderFirst) noFiles) (fun out =>
      !out.report.complete && Result.isOkAnd (runInner (wasm32 metaText) (pageByPage folderFirst) (noFiles.after out.ops))
        fun next => next.report.complete) = true := by
    rw [metaText_eq_asciiText]
    decide +kernel
  obtain ⟨out, ran, evaluated⟩ := Result.exists_of_isOkAnd evaluated
  simp only [Bool.and_eq_true, Bool.not_eq_true'] at evaluated
  obtain ⟨goesOn, evaluated⟩ := evaluated
  obtain ⟨next, ranOn, complete⟩ := Result.exists_of_isOkAnd evaluated
  have answers := answers_pageByPage [rootRecord, folderRecord "b" "B"] [fileRecord, folderRecord "a" "A"]
    (by decide) (by decide) (by decide)
  have run := Crawling.tick (@Crawling.start metaText _ folderFirst) answers ran
  rw [goesOn] at run
  have inStep : folderFirst.InStep [pageByPage folderFirst] := inStep_of_lists (by decide)
  obtain ⟨idx, loaded, represents, _⟩ := (split_crawl_converges_iff metaText metaText_roundTrips foldersAB
    (NodeTree.foldersOnly_of_list (by decide)) (NodeTree.depthLe_of_climb (by decide)) folderFirst _ _ run _
    answers next ranOn complete).mpr inStep
  exact ⟨_, idx, loaded, represents⟩

/-- The file is on the first page and its folder on the second. A tick for
each page loses it, though one tick for both would not. -/
theorem late_folder_loses_file :
    foldersAB.FoldersOnly ∧ foldersAB.DepthLe 63 ∧
      ∃ files out, Crawling metaText fileFirst [pageByPage fileFirst] false files ∧
        fileFirst.Answers (pageByPage fileFirst) ∧
        runInner (wasm32 metaText) (pageByPage fileFirst) files = .ok out ∧ out.report.complete = true ∧
        ¬ ∃ idx, load (wasm32 metaText) (files.after out.ops) indexFile = .ok (some idx) ∧
          Represents idx foldersAB ∧
          ∀ path id, idx.resolve path = some id ↔ Trail foldersAB.links id (segments path) := by
  -- both ticks and the load are evaluated once; the cases below only name their results
  have evaluated : Result.isOkAnd (runInner (wasm32 metaText) (pageByPage fileFirst) noFiles) (fun out =>
      !out.report.complete && Result.isOkAnd (runInner (wasm32 metaText) (pageByPage fileFirst) (noFiles.after out.ops))
        fun next => next.report.complete &&
          Result.isOkAnd (load (wasm32 metaText) ((noFiles.after out.ops).after next.ops) indexFile) fun stored =>
            stored.any fun idx => (idx.nodes["f"]?).isNone) = true := by
    rw [metaText_eq_asciiText]
    decide +kernel
  refine ⟨NodeTree.foldersOnly_of_list (by decide), NodeTree.depthLe_of_climb (by decide), ?_⟩
  obtain ⟨out, ran, evaluated⟩ := Result.exists_of_isOkAnd evaluated
  simp only [Bool.and_eq_true, Bool.not_eq_true'] at evaluated
  obtain ⟨goesOn, evaluated⟩ := evaluated
  obtain ⟨next, ranOn, evaluated⟩ := Result.exists_of_isOkAnd evaluated
  obtain ⟨complete, evaluated⟩ := Bool.and_eq_true_iff.mp evaluated
  have answers := answers_pageByPage [rootRecord, fileRecord] [folderRecord "b" "B", folderRecord "a" "A"]
    (by decide) (by decide) (by decide)
  have run := Crawling.tick (@Crawling.start metaText _ fileFirst) answers ran
  rw [goesOn] at run
  refine ⟨_, next, run, answers, ranOn, complete, ?_⟩
  rintro ⟨idx, loaded, represents, _⟩
  rw [loaded] at evaluated
  have lost : idx.nodes["f"]? = none := by simpa [Result.isOkAnd] using evaluated
  have kept := @represents.inside "f" trivial
  rw [lost] at kept
  revert kept
  decide

end Sync

end OneDriveDavfs
