import OneDriveDavfs.Index.Climb
import OneDriveDavfs.Library.Ranking
import OneDriveDavfs.Snapshot.RoundTrip

/-! Search by name: `search_index` of `src/api.rs`.

The matches come in the order of a hash map, are sorted, and are cut off after
the first hundred. Lower-casing is a function of the text that is not looked
into.
-/

set_option autoImplicit false

namespace OneDriveDavfs.Api

open Std Library.Forest Library.Ranking Index Snapshot

def searchMaxResults : Nat := 100

def searchMinQueryLen : Nat := 2

structure SearchResult where
  path : String
  name : String
  isDir : Bool
  size : UInt64
  mtime : UInt64
  deriving DecidableEq, Repr

structure SearchAnswer where
  ok : Bool
  ready : Bool
  query : String
  truncated : Bool
  results : List SearchResult
  deriving DecidableEq, Repr

def toResult (hit : String × Node) : SearchResult where
  path := hit.1
  name := hit.2.name
  isDir := hit.2.itemMeta.isDir
  size := hit.2.itemMeta.size
  mtime := hit.2.itemMeta.mtime

/-- `nb.meta.is_dir.cmp(&na.meta.is_dir)`. -/
def kindCmp (a b : String × Node) : Ordering := compareOn (fun hit : String × Node => hit.2.itemMeta.isDir) b a

/-- The comparison of `sort_by`; paths compare by their characters as they do by their bytes. -/
def searchCmp : String × Node → String × Node → Ordering := compareLex kindCmp (compareOn Prod.fst)

/-- `s.contains(needle)`. -/
def contains (s needle : String) : Bool := decide (needle.toList <:+: s.toList)

def entries (idx : Index) (order : List Id) : List (Id × Node) :=
  order.filterMap fun id => (idx.nodes[id]?).map fun node => (id, node)

section Search
variable (lower : String → String) (idx : Index) (order : List Id) (q : String)

def searchIndex : SearchAnswer :=
  if q.length < searchMinQueryLen then ⟨true, true, q, false, []⟩
  else
    let needle := lower q
    let hits := ((entries idx order).filter fun entry =>
      entry.2.parent.isSome && contains (lower entry.2.name) needle).filterMap fun entry =>
        (idx.pathOf entry.1).map fun path => (path, entry.2)
    let sorted := ranked searchCmp hits
    ⟨true, true, q, decide (searchMaxResults < sorted.length), (sorted.take searchMaxResults).map toResult⟩

/-! ## What is looked for -/

/-- The node is not the root, is not too deep for a path, and has the text in its name. -/
def Matches (id : Id) (path : String) (node : Node) : Prop :=
  idx.nodes[id]? = some node ∧ node.parent.isSome = true ∧ (lower q).toList <:+: (lower node.name).toList ∧
    ∃ segs, Trail idx.links id segs ∧ segs.length < 64 ∧ path = joinPath segs

def Before (a b : String × Node) : Prop :=
  (a.2.itemMeta.isDir = true ∧ b.2.itemMeta.isDir = false) ∨ (a.2.itemMeta.isDir = b.2.itemMeta.isDir ∧ a.1 < b.1)

def hitsOf : List (Id × String × Node) :=
  ((entries idx order).filter fun entry =>
    entry.2.parent.isSome && contains (lower entry.2.name) (lower q)).filterMap fun entry =>
      (idx.pathOf entry.1).map fun path => (entry.1, path, entry.2)

end Search

instance : TransCmp kindCmp :=
  @TransCmp.opposite _ (compareOn fun hit : String × Node => hit.2.itemMeta.isDir) inferInstance

instance : TransCmp searchCmp := inferInstanceAs (TransCmp (compareLex kindCmp (compareOn Prod.fst)))

theorem compare_bool_lt {a b : Bool} (less : compare a b = .lt) : a = false ∧ b = true := by
  revert a b
  decide

theorem searchCmp_lt {a b : String × Node} (less : searchCmp a b = .lt) : Before a b := by
  rcases Ordering.then_eq_lt.mp less with kind | ⟨kind, path⟩
  · exact .inl (compare_bool_lt kind).symm
  · have same : b.2.itemMeta.isDir = a.2.itemMeta.isDir := LawfulEqCmp.eq_of_compare kind
    exact .inr ⟨same.symm, compareOfLessAndEq_eq_lt.mp path⟩

theorem path_eq_of_searchCmp {a b : String × Node} (same : searchCmp a b = .eq) : a.1 = b.1 :=
  LawfulEqCmp.eq_of_compare (compareLex_eq_eq.mp same).2

/-! ## The matches -/

section Hits
variable {lower : String → String} {idx : Index} {order : List Id} {q : String}

theorem mem_entries {id : Id} {node : Node} :
    (id, node) ∈ entries idx order ↔ id ∈ order ∧ idx.nodes[id]? = some node := by
  simp only [entries, List.mem_filterMap, Option.map_eq_some_iff, Prod.mk.injEq]
  constructor
  · rintro ⟨_, member, _, found, rfl, rfl⟩
    exact ⟨member, found⟩
  · rintro ⟨member, found⟩
    exact ⟨id, member, node, found, rfl, rfl⟩

theorem mem_hitsOf (enumerates : Enumerates order idx) {id : Id} {path : String} {node : Node} :
    (id, path, node) ∈ hitsOf lower idx order q ↔ Matches lower idx q id path node := by
  have walk := @pathOf_eq_some_iff idx id path
  simp only [hitsOf, Matches, ← walk, List.mem_filterMap, List.mem_filter, Bool.and_eq_true, contains, decide_eq_true_eq,
    Option.map_eq_some_iff, Prod.mk.injEq, Prod.exists]
  constructor
  · rintro ⟨_, _, ⟨member, inner, named⟩, _, found, rfl, rfl, rfl⟩
    exact ⟨(mem_entries.mp member).2, inner, named, found⟩
  · rintro ⟨stored, inner, named, found⟩
    have listed := enumerates.all.mpr (by rw [stored]; rfl)
    exact ⟨id, node, ⟨mem_entries.mpr ⟨listed, stored⟩, inner, named⟩, path, found, rfl, rfl, rfl⟩

theorem nodup_hitsOf (enumerates : Enumerates order idx) : (hitsOf lower idx order q).Nodup := by
  have listed : (entries idx order).Nodup := by
    refine enumerates.once.filterMap fun id other entry left right => ?_
    obtain ⟨_, _, rfl⟩ := Option.map_eq_some_iff.mp left
    obtain ⟨_, _, same⟩ := Option.map_eq_some_iff.mp right
    exact (congrArg Prod.fst same).symm
  refine (listed.filter _).filterMap fun entry other hit left right => ?_
  obtain ⟨_, _, rfl⟩ := Option.map_eq_some_iff.mp left
  obtain ⟨_, _, same⟩ := Option.map_eq_some_iff.mp right
  obtain ⟨ids, rest⟩ := Prod.mk.inj same
  exact Prod.ext ids.symm (Prod.mk.inj rest).2.symm

theorem perm_hitsOf {other : List Id} (enumerates : Enumerates order idx) (again : Enumerates other idx) :
    (hitsOf lower idx order q).Perm (hitsOf lower idx other q) := by
  refine (List.perm_ext_iff_of_nodup (nodup_hitsOf enumerates) (nodup_hitsOf again)).mpr ?_
  rintro ⟨id, path, node⟩
  rw [mem_hitsOf enumerates, mem_hitsOf again]

theorem searchIndex_eq (long : searchMinQueryLen ≤ q.length) :
    searchIndex lower idx order q =
      ⟨true, true, q, decide (searchMaxResults < (ranked searchCmp ((hitsOf lower idx order q).map Prod.snd)).length),
        ((ranked searchCmp ((hitsOf lower idx order q).map Prod.snd)).take searchMaxResults).map toResult⟩ := by
  have pairs : (hitsOf lower idx order q).map Prod.snd =
      ((entries idx order).filter fun entry =>
        entry.2.parent.isSome && contains (lower entry.2.name) (lower q)).filterMap fun entry =>
          (idx.pathOf entry.1).map fun path => (path, entry.2) := by
    simp only [hitsOf, List.map_filterMap, Option.map_map]
    rfl
  rw [searchIndex, if_neg (Nat.not_lt.mpr long), pairs]

/-- Under the invariant a path belongs to one node, so that no two matches compare as equal. -/
theorem tellsApart_hitsOf (inv : RepInv idx) (clean : CleanNames idx) (enumerates : Enumerates order idx) :
    TellsApart (fun a b : Id × String × Node => searchCmp a.2 b.2) (hitsOf lower idx order q) := by
  rintro ⟨id, path, node⟩ left ⟨other, path', node'⟩ right same
  obtain ⟨stored, _, _, walk⟩ := (mem_hitsOf enumerates).mp left
  obtain ⟨stored', _, _, walk'⟩ := (mem_hitsOf enumerates).mp right
  -- the directory flag may be the same for many nodes, the path is not
  obtain rfl : path = path' := path_eq_of_searchCmp same
  have resolves := resolve_pathOf inv clean (pathOf_eq_some_iff.mpr walk)
  have resolves' := resolve_pathOf inv clean (pathOf_eq_some_iff.mpr walk')
  obtain rfl : id = other := Option.some.inj (resolves.symm.trans resolves')
  rw [stored] at stored'
  cases stored'
  rfl

instance : TransCmp fun a b : Id × String × Node => searchCmp a.2 b.2 where
  eq_swap := OrientedCmp.eq_swap
  isLE_trans := TransCmp.isLE_trans

/-- The answer is the first hundred of all matches in an order that the matches alone determine. -/
theorem searchIndex_exact (lower : String → String) (idx : Index) (inv : RepInv idx) (clean : CleanNames idx) (q : String)
    (long : 2 ≤ q.length) :
    ∃ hits : List (Id × String × Node),
      (∀ id path node, (id, path, node) ∈ hits ↔ Matches lower idx q id path node) ∧
      (hits.map Prod.fst).Nodup ∧ hits.Pairwise (fun a b => Before a.2 b.2) ∧
      (∀ hit ∈ hits, idx.resolve hit.2.1 = some hit.1) ∧
      ∀ order, Enumerates order idx →
        searchIndex lower idx order q =
          ⟨true, true, q, decide (100 < hits.length), (hits.take 100).map fun hit => toResult hit.2⟩ := by
  -- the matches of one enumeration, sorted, are the matches of all of them
  have keys := enumerates_keys idx
  obtain ⟨hits, isHits⟩ : ∃ hits, hits = ranked (fun a b : Id × String × Node => searchCmp a.2 b.2)
    (hitsOf lower idx idx.nodes.keys q) := ⟨_, rfl⟩
  have perm : hits.Perm (hitsOf lower idx idx.nodes.keys q) := isHits ▸ ranked_perm _ _
  have apart := @tellsApart_hitsOf lower idx idx.nodes.keys q inv clean keys
  have found : ∀ id path node, (id, path, node) ∈ hits ↔ Matches lower idx q id path node := by
    intro id path node
    rw [perm.mem_iff, mem_hitsOf keys]
  refine ⟨hits, found, ?_, ?_, ?_, ?_⟩
  · refine (perm.nodup_iff.mpr (nodup_hitsOf keys)).map_on ?_
    rintro ⟨id, path, node⟩ left ⟨other, path', node'⟩ right same
    obtain rfl : id = other := same
    obtain ⟨stored, _, _, walk⟩ := (found id path node).mp left
    obtain ⟨stored', _, _, walk'⟩ := (found id path' node').mp right
    have paths := (pathOf_eq_some_iff.mpr walk).symm.trans (pathOf_eq_some_iff.mpr walk')
    rw [stored] at stored'
    cases stored'
    cases paths
    rfl
  · rw [isHits]
    exact (ranked_strict apart (nodup_hitsOf keys)).imp searchCmp_lt
  · rintro ⟨id, path, node⟩ member
    exact resolve_pathOf inv clean (pathOf_eq_some_iff.mpr ((found id path node).mp member).2.2.2)
  · intro order enumerates
    have same : hits = ranked (fun a b : Id × String × Node => searchCmp a.2 b.2) (hitsOf lower idx order q) := by
      rw [isHits]
      exact ranked_eq_of_perm apart (perm_hitsOf keys enumerates)
    have sorted : ranked searchCmp ((hitsOf lower idx order q).map Prod.snd) = hits.map Prod.snd := by
      rw [same, map_ranked searchCmp Prod.snd]
    rw [searchIndex_eq long, sorted, List.length_map, ← List.map_take, List.map_map]
    rfl

end Hits

/-- The file in the folder, in whatever case it is asked for. -/
theorem searchIndex_exact_file :
    ∃ hits : List (Id × String × Node),
      ("f", "/B/f.txt", ⟨some "b", "f.txt", ⟨false, 1, 0, ""⟩⟩) ∈ hits ∧
      searchIndex (fun s => String.ofList (s.toList.map Char.toLower)) (ofTree foldersAB)
          (ofTree foldersAB).nodes.keys "F.T" =
        ⟨true, true, "F.T", decide (100 < hits.length), (hits.take 100).map fun hit => toResult hit.2⟩ := by
  have inv := (is_ofTree foldersAB).rep
  obtain ⟨hits, found, _, _, _, answer⟩ := searchIndex_exact (fun s => String.ofList (s.toList.map Char.toLower))
    (ofTree foldersAB) inv (cleanNames_ofTree foldersAB) "F.T" (by decide)
  refine ⟨hits, (found _ _ _).mpr ?_, answer _ (enumerates_keys _)⟩
  have there : (ofTree foldersAB).resolve "/B/f.txt" = some "f" := by decide
  exact ⟨by decide, rfl, ⟨[], ['x', 't'], by decide⟩, segments "/B/f.txt", (resolve_eq_some_iff inv).mp there,
    by decide, by decide⟩

end OneDriveDavfs.Api
