import OneDriveDavfs.Index.Invariant

/-! Paths as strings, as lists of names, and as trails of the stored links.

The path functions of the source work on strings; each has a reading on the
names between the slashes. Under the invariant the two directions of the
index, from a path to an id and from an id to its path, are the same trails.
-/

set_option autoImplicit false

namespace OneDriveDavfs

open Std Library.Collections Library.Forest Library.Separated

/-- A name that can be one piece of a path. -/
def CleanName (name : String) : Prop := Clean '/' name.toList

instance (name : String) : Decidable (CleanName name) := inferInstanceAs (Decidable (Clean _ _))

theorem CleanName.ne_empty {name : String} (clean : CleanName name) : name ≠ "" := by
  rintro rfl
  exact clean.1 rfl

theorem cleanName_of_mem_segments {path name : String} (member : name ∈ segments path) :
    CleanName name := by
  obtain ⟨piece, found, rfl⟩ := List.mem_map.mp member
  simpa [CleanName] using clean_of_mem_pieces found

theorem map_toList_clean {segs : List String} (clean : ∀ name ∈ segs, CleanName name) :
    ∀ piece ∈ segs.map String.toList, Clean '/' piece := by
  intro piece member
  obtain ⟨name, found, rfl⟩ := List.mem_map.mp member
  exact clean name found

theorem map_ofList_toList (segs : List String) : (segs.map String.toList).map String.ofList = segs := by
  simp [List.map_map, Function.comp_def]

theorem joinPath_nil : joinPath [] = "/" := rfl

theorem toList_joinPath {segs : List String} (nonempty : segs ≠ []) :
    (joinPath segs).toList = joined '/' (segs.map String.toList) := by
  have filled : segs.isEmpty = false := by simpa using nonempty
  rw [joinPath, filled, joined_eq_intercalate _ _ (by simpa using nonempty)]
  simp [String.toList_intercalate]

theorem segments_joinPath {segs : List String} (clean : ∀ name ∈ segs, CleanName name) :
    segments (joinPath segs) = segs := by
  by_cases nonempty : segs = []
  · subst nonempty
    decide
  · rw [segments, toList_joinPath nonempty, pieces_joined (map_toList_clean clean),
      map_ofList_toList]

theorem joinPath_injective {front rest : List String} (frontClean : ∀ name ∈ front, CleanName name)
    (restClean : ∀ name ∈ rest, CleanName name) (same : joinPath front = joinPath rest) :
    front = rest := by
  rw [← segments_joinPath frontClean, same, segments_joinPath restClean]

theorem joinPath_ne_root {segs : List String} (clean : ∀ name ∈ segs, CleanName name) (nonempty : segs ≠ []) :
    joinPath segs ≠ "/" :=
  fun top => nonempty (joinPath_injective clean (by simp) (top.trans joinPath_nil.symm))

theorem segments_normalizePath (path : String) : segments (normalizePath path) = segments path :=
  segments_joinPath fun _ member => cleanName_of_mem_segments member

theorem normalizePath_joinPath {segs : List String} (clean : ∀ name ∈ segs, CleanName name) :
    normalizePath (joinPath segs) = joinPath segs := by
  rw [normalizePath, segments_joinPath clean]

/-! ## The last name and the rest -/

theorem segments_trimmed (path : String) : segments (String.ofList (trimEndSlashes path)) = segments path := by
  simp [segments, trimEndSlashes, pieces_rdropWhile]

theorem segments_parentPath (path : String) : segments (parentPath path) = (segments path).dropLast := by
  have atRoot : pieces '/' ['/'] = [] := by decide
  rw [← segments_trimmed path, parentPath]
  simp only [segments, String.toList_ofList]
  rcases rdropWhile_cases '/' path.toList with ⟨absent, position⟩ | ⟨front, last, split, clean, position⟩
  · rw [trimEndSlashes, position]
    by_cases nothing : path.toList.rdropWhile (· == '/') = []
    · simpa [nothing] using atRoot
    · rw [pieces_of_clean ⟨nothing, absent⟩]
      simpa using atRoot
  · rw [trimEndSlashes, position, split, pieces_append_sep, pieces_of_clean clean]
    rcases front with _ | ⟨c, front⟩
    · simpa using atRoot
    · simp

theorem lastSegment_eq (path : String) : lastSegment path = (segments path).getLastD "" := by
  rw [← segments_trimmed path, lastSegment]
  simp only [segments, String.toList_ofList]
  rcases rdropWhile_cases '/' path.toList with ⟨absent, position⟩ | ⟨front, last, split, clean, position⟩
  · rw [trimEndSlashes, position]
    by_cases nothing : path.toList.rdropWhile (· == '/') = []
    · simp [nothing]
    · simp [pieces_of_clean ⟨nothing, absent⟩]
  · rw [trimEndSlashes, position, split, pieces_append_sep, pieces_of_clean clean]
    simp [List.getLastD_eq_getLast?]

theorem trimEndSlashes_joinPath {segs : List String} (clean : ∀ name ∈ segs, CleanName name)
    (nonempty : segs ≠ []) : trimEndSlashes (joinPath segs) = joined '/' (segs.map String.toList) := by
  obtain ⟨front, name, rfl⟩ := List.eq_nil_or_concat' segs |>.resolve_left nonempty
  have last : Clean '/' name.toList := clean name (by simp)
  have kept := rdropWhile_append_clean (joined '/' (front.map String.toList) ++ ['/']) last
  rw [trimEndSlashes, toList_joinPath nonempty]
  simpa using kept

theorem parentPath_joinPath {front : List String} {name : String}
    (clean : ∀ n ∈ front ++ [name], CleanName n) : parentPath (joinPath (front ++ [name])) = joinPath front := by
  have last : Clean '/' name.toList := clean name (by simp)
  have trimmed : trimEndSlashes (joinPath (front ++ [name])) =
      joined '/' (front.map String.toList) ++ '/' :: name.toList := by
    rw [trimEndSlashes_joinPath clean (by simp)]
    simp
  rw [parentPath, trimmed, rfind_append_clean _ last.2]
  by_cases nonempty : front = []
  · subst nonempty
    rfl
  · have length : ∃ n, (joined '/' (front.map String.toList)).length = n + 1 := by
      obtain ⟨first, rest, rfl⟩ := List.exists_cons_of_ne_nil nonempty
      exact ⟨_, rfl⟩
    obtain ⟨n, length⟩ := length
    simp only [length]
    apply String.toList_injective
    rw [toList_joinPath nonempty, ← length]
    simp

theorem lastSegment_joinPath {front : List String} {name : String}
    (clean : ∀ n ∈ front ++ [name], CleanName n) : lastSegment (joinPath (front ++ [name])) = name := by
  rw [lastSegment_eq, segments_joinPath clean]
  simp [List.getLastD_eq_getLast?]

namespace Index

variable {idx : Index}

/-! ## From an id to its path -/

theorem namesOf_eq_climb (idx : Index) (fuel : Nat) (id : Id) :
    idx.namesOf fuel id = climb idx.links fuel id := by
  induction fuel generalizing id with
  | zero => rfl
  | succ fuel ih =>
    cases found : idx.nodes[id]? with
    | none => simp [namesOf, climb, links, found]
    | some node =>
      cases parent : node.parent with
      | none => simp [namesOf, climb, links, found, parent]
      | some p => simp [namesOf, climb, links, found, parent, ih]

/-- `path_of` joins the trail of a node that is not too deep. -/
theorem pathOf_eq_some_iff {id : Id} {path : String} :
    idx.pathOf id = some path ↔ ∃ segs, Trail idx.links id segs ∧ segs.length < 64 ∧ path = joinPath segs := by
  rw [pathOf, namesOf_eq_climb, Option.map_eq_some_iff]
  simp only [climb_eq_some_iff, and_assoc, eq_comm (b := path)]

/-! ## From a path to an id -/

theorem resolveFrom_cons (cur : Id) (seg : String) (rest : List String) :
    idx.resolveFrom cur (seg :: rest) =
      ((idx.kidsOf cur).toList.find? (·.1 == seg)).bind fun kid => idx.resolveFrom kid.2 rest := by
  cases found : idx.kids[cur]? with
  | none =>
    have noKids : (∅ : KidSet).toList = [] := ExtTreeSet.toList_eq_nil_iff.mpr rfl
    simp [resolveFrom, kidsOf, found, noKids]
  | some set => simp [resolveFrom, kidsOf, found]

theorem find_kid_iff (inv : RepInv idx) {cur : Id} {seg : String} {kid : String × Id} :
    (idx.kidsOf cur).toList.find? (·.1 == seg) = some kid ↔
      kid.1 = seg ∧ idx.links kid.2 = some (some cur, seg) := by
  obtain ⟨name, id⟩ := kid
  constructor
  · intro found
    have member := ExtTreeSet.mem_toList.mp (List.mem_of_find?_eq_some found)
    have same : name = seg := by simpa using List.find?_some found
    exact ⟨same, same ▸ inv.sound member⟩
  · rintro ⟨rfl, link⟩
    have member := ExtTreeSet.mem_toList.mpr (inv.filed link)
    cases found : (idx.kidsOf cur).toList.find? (·.1 == name) with
    | none => exact absurd (List.find?_eq_none.mp found _ member) (by simp)
    | some other =>
      have same : other.1 = name := by simpa using List.find?_some found
      have entry := ExtTreeSet.mem_toList.mp (List.mem_of_find?_eq_some found)
      have sameId : other.2 = id := inv.siblings (same ▸ entry) (inv.filed link)
      exact congrArg some (Prod.ext same sameId)

theorem resolveFrom_eq_some_iff (inv : RepInv idx) {cur id : Id} {front rest : List String}
    (trail : Trail idx.links cur front) :
    idx.resolveFrom cur rest = some id ↔ Trail idx.links id (front ++ rest) := by
  induction rest generalizing cur front with
  | nil =>
    simp only [resolveFrom, Option.some.injEq, List.append_nil]
    constructor
    · rintro rfl
      exact trail
    · exact fun other => trail.injective inv.siblingsDiffer inv.singleTop other
  | cons seg rest ih =>
    rw [resolveFrom_cons, Option.bind_eq_some_iff]
    constructor
    · rintro ⟨kid, found, resolved⟩
      obtain ⟨_, link⟩ := (find_kid_iff inv).mp found
      have longer := (ih (Trail.step link trail)).mp resolved
      simpa using longer
    · intro whole
      -- the trail passes through a child of `cur`, since trails name at most one node
      obtain ⟨child, up, _⟩ := whole.split (front ++ [seg]) rest (by simp)
      obtain ⟨parent, link, upper⟩ := Trail.concat_iff.mp up
      cases trail.injective inv.siblingsDiffer inv.singleTop upper
      refine ⟨(seg, child), (find_kid_iff inv).mpr ⟨rfl, link⟩, (ih up).mpr ?_⟩
      simpa using whole

/-- Under the invariant a path resolves to the one node whose trail it spells. -/
theorem resolve_eq_some_iff (inv : RepInv idx) {path : String} {id : Id} :
    idx.resolve path = some id ↔ Trail idx.links id (segments path) := by
  rw [resolve, Option.bind_eq_bind, Option.bind_eq_some_iff]
  constructor
  · rintro ⟨root, recorded, resolved⟩
    obtain ⟨_, link⟩ := inv.rooted recorded
    exact (resolveFrom_eq_some_iff inv (.top link)).mp resolved
  · intro trail
    obtain ⟨root, up, _⟩ := trail.split [] (segments path) rfl
    obtain ⟨_, link⟩ := Trail.nil_iff.mp up
    exact ⟨root, inv.top link, (resolveFrom_eq_some_iff inv (.top link)).mpr trail⟩

/-! ## What the sweep keeps -/

theorem reachesRoot_iff (inv : RepInv idx) {root : Id} (recorded : idx.root = some root) (fuel : Nat)
    (id : Id) : idx.reachesRoot root fuel id = true ↔ ∃ segs, Trail idx.links id segs ∧ segs.length < fuel := by
  obtain ⟨top, rootLink⟩ := inv.rooted recorded
  induction fuel generalizing id with
  | zero => simp [reachesRoot]
  | succ fuel ih =>
    by_cases same : id = root
    · subst same
      simp only [reachesRoot, if_true, true_iff]
      exact ⟨[], .top rootLink, by simp⟩
    simp only [reachesRoot, if_neg same]
    cases parent : idx.parentOf id with
    -- a node without a parent that is not the root has no trail
    | none =>
      simp only [Bool.false_eq_true, false_iff]
      rintro ⟨segs, trail, _⟩
      cases trail with
      | top link => exact same (Option.some.inj ((inv.top link).symm.trans recorded))
      | step link _ =>
        obtain ⟨node, found, up, _⟩ := links_eq_some_iff.mp link
        simp [parentOf, found, up] at parent
    | some p =>
      obtain ⟨node, found, up⟩ := Option.bind_eq_some_iff.mp parent
      have link : idx.links id = some (some p, node.name) := links_eq_some_iff.mpr ⟨node, found, up, rfl⟩
      simp only [ih]
      constructor
      · rintro ⟨front, trail, bound⟩
        exact ⟨front ++ [node.name], .step link trail, by simpa using bound⟩
      · rintro ⟨segs, trail, bound⟩
        obtain ⟨front, rfl, upper⟩ := Trail.of_child link trail
        exact ⟨front, upper, by simpa using bound⟩

/-- A node stays in a sweep when its trail has fewer than 64 names. -/
theorem reachable_iff (inv : RepInv idx) {root : Id} (recorded : idx.root = some root) (id : Id) :
    idx.reachable root id = true ↔ ∃ segs, Trail idx.links id segs ∧ segs.length < 64 := by
  rw [reachable, Bool.and_eq_true, reachesRoot_iff inv recorded, and_iff_right_iff_imp]
  rintro ⟨segs, trail, _⟩
  obtain ⟨link, present⟩ := trail.exists_link
  obtain ⟨node, found, _⟩ := Option.map_eq_some_iff.mp present
  simp [found]

end Index

end OneDriveDavfs
