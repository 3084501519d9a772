import OneDriveDavfs.Library.Collections
import OneDriveDavfs.Library.Separated

/-! The id-keyed namespace index and the operations of `src/index.rs`.

A `HashMap` is an extensional tree map: what is stored, without an iteration
order. Code that iterates over one takes the order as an argument. The
`BTreeSet` of a directory's children is an extensional tree set, whose list is
in the order of the set.
-/

set_option autoImplicit false

namespace OneDriveDavfs

open Std Library.Collections

abbrev Id := String

structure ItemMeta where
  isDir : Bool
  size : UInt64
  mtime : UInt64
  etag : String
  deriving DecidableEq, Repr

structure Node where
  parent : Option Id
  name : String
  itemMeta : ItemMeta
  deriving DecidableEq, Repr

instance : TransCmp (pairCmp : String × Id → String × Id → Ordering) :=
  inferInstanceAs (TransCmp (compareLex _ _))

/-- The `(name, id)` entries of one directory. -/
abbrev KidSet := ExtTreeSet (String × Id) pairCmp

structure Index where
  nodes : ExtTreeMap Id Node
  kids : ExtTreeMap Id KidSet
  root : Option Id
  deltaToken : Option String
  pendingNextLink : Option String
  crawlComplete : Bool
  generation : UInt64

def Index.empty : Index := ⟨∅, ∅, none, none, none, false, 0⟩

structure DeltaItem where
  id : Id
  parentId : Option Id
  name : String
  deleted : Bool
  isRoot : Bool
  itemMeta : ItemMeta
  deriving DecidableEq, Repr

/-! ## Paths -/

/-- `path.split('/').filter(|s| !s.is_empty())`. -/
def segments (path : String) : List String :=
  (Library.Separated.pieces '/' path.toList).map String.ofList

/-- `/` for no segments, else `format!("/{}", segs.join("/"))`. -/
def joinPath (segs : List String) : String :=
  if segs.isEmpty then "/" else "/" ++ "/".intercalate segs

def trimEndSlashes (path : String) : List Char := path.toList.rdropWhile (· == '/')

def parentPath (path : String) : String :=
  match Library.Separated.rfind '/' (trimEndSlashes path) with
  | some 0 | none => "/"
  | some idx => String.ofList ((trimEndSlashes path).take idx)

def lastSegment (path : String) : String :=
  match Library.Separated.rfind '/' (trimEndSlashes path) with
  | none => String.ofList (trimEndSlashes path)
  | some idx => String.ofList ((trimEndSlashes path).drop (idx + 1))

def normalizePath (path : String) : String := joinPath (segments path)

namespace Index

/-- The entries filed under an id; none is the same as an empty set. -/
def kidsOf (idx : Index) (id : Id) : KidSet := idx.kids[id]?.getD ∅

def parentOf (idx : Index) (id : Id) : Option Id := idx.nodes[id]?.bind Node.parent

/-! ## Removing a subtree -/

/-- `if let Some(set) = self.kids.get_mut(pid) { set.remove(&(name, id)) }`. -/
def dropKid (idx : Index) (pid : Id) (name : String) (id : Id) : Index :=
  { idx with kids := idx.kids.modify pid (·.erase (name, id)) }

/-- The first half of `remove`: the node itself and its entry in its parent. -/
def removeNode (idx : Index) (id : Id) : Index :=
  match idx.nodes[id]? with
  | none => idx
  | some node =>
    let idx := { idx with
      nodes := idx.nodes.erase id
      root := if idx.root = some id then none else idx.root }
    match node.parent with
    | none => idx
    | some pid => idx.dropKid pid node.name id

/-- `remove` with a bound on the depth of the recursion. -/
def removeWithin : Nat → Index → Id → Index
  | 0, idx, _ => idx
  | fuel + 1, idx, id =>
    let idx := idx.removeNode id
    match idx.kids[id]? with
    | none => idx
    | some children =>
      (children.toList.map Prod.snd).foldl (removeWithin fuel) { idx with kids := idx.kids.erase id }

/-- Every level of the recursion takes one set out of `kids`, so the number of
sets bounds its depth. -/
def remove (idx : Index) (id : Id) : Index := removeWithin (idx.kids.size + 1) idx id

/-! ## Applying a delta item -/

def detachMoved (idx : Index) (id parentId : Id) (name : String) : Index :=
  match idx.nodes[id]? with
  | none => idx
  | some old =>
    if old.parent ≠ some parentId ∨ old.name ≠ name then
      match old.parent with
      | none => idx
      | some pid => idx.dropKid pid old.name id
    else idx

/-- The first entry of another id under the same parent and name. -/
def clash (idx : Index) (id parentId : Id) (name : String) : Option Id :=
  (idx.kidsOf parentId).toList.find? (fun kid => kid.1 == name && kid.2 != id) |>.map Prod.snd

def evictClash (idx : Index) (id parentId : Id) (name : String) : Index :=
  match idx.clash id parentId name with
  | none => idx
  | some cid => idx.remove cid

/-- `self.kids.entry(parent_id).or_default().insert(..)` and `self.nodes.insert(..)`. -/
def attach (idx : Index) (id parentId : Id) (name : String) (itemMeta : ItemMeta) : Index :=
  { idx with
    kids := idx.kids.insert parentId ((idx.kidsOf parentId).insert (name, id))
    nodes := idx.nodes.insert id ⟨some parentId, name, itemMeta⟩ }

def apply (idx : Index) (it : DeltaItem) : Index :=
  if it.id = "" then idx
  else if it.deleted then idx.remove it.id
  else if it.isRoot then
    { idx with root := some it.id, nodes := idx.nodes.insert it.id ⟨none, it.name, it.itemMeta⟩ }
  else
    match it.parentId with
    | none => idx
    | some parentId =>
      ((idx.detachMoved it.id parentId it.name).evictClash it.id parentId it.name).attach
        it.id parentId it.name it.itemMeta

/-! ## Walking the tree -/

def resolveFrom (idx : Index) : Id → List String → Option Id
  | cur, [] => some cur
  | cur, seg :: rest => do
    let set ← idx.kids[cur]?
    let kid ← set.toList.find? (·.1 == seg)
    idx.resolveFrom kid.2 rest

def resolve (idx : Index) (path : String) : Option Id := do
  let root ← idx.root
  idx.resolveFrom root (segments path)

/-- The names collected by the walk of `path_of`, top first. -/
def namesOf (idx : Index) : Nat → Id → Option (List String)
  | 0, _ => none
  | fuel + 1, cur => do
    let node ← idx.nodes[cur]?
    match node.parent with
    | none => some []
    | some pid => (idx.namesOf fuel pid).map (· ++ [node.name])

def pathOf (idx : Index) (id : Id) : Option String := (idx.namesOf 64 id).map joinPath

/-! ## Sweeping orphans -/

/-- The filter of `sweep_orphans`: up to the given number of looks at `cur`. -/
def reachesRoot (idx : Index) (root : Id) : Nat → Id → Bool
  | 0, _ => false
  | fuel + 1, cur =>
    if cur = root then true
    else match idx.parentOf cur with
      | some pid => idx.reachesRoot root fuel pid
      | none => false

def reachable (idx : Index) (root id : Id) : Bool :=
  idx.nodes[id]?.isSome && idx.reachesRoot root 64 id

def sweepOrphans (idx : Index) : Index :=
  match idx.root with
  | none => idx
  | some root =>
    { idx with
      nodes := idx.nodes.filter fun id _ => idx.reachable root id
      kids := idx.kids.filterMap fun pid set =>
        if idx.reachable root pid then some (set.filter fun kid => idx.reachable root kid.2)
        else none }

/-! ## Writing by path -/

def placeholderId (path : String) : Id := "local:" ++ path

def upsertAtPath (idx : Index) (path : String) (itemMeta : ItemMeta) : Index × Bool :=
  match (idx.resolve path).filter fun id => (idx.nodes[id]?).isSome with
  | some id => ({ idx with nodes := idx.nodes.modify id fun node => { node with itemMeta } }, true)
  | none =>
    let name := lastSegment path
    if name = "" then (idx, false)
    else match idx.resolve (parentPath path) with
      | none => (idx, false)
      | some parentId =>
        (idx.apply ⟨placeholderId path, some parentId, name, false, false, itemMeta⟩, true)

def removeAtPath (idx : Index) (path : String) : Index × Bool :=
  match idx.resolve path with
  | some id => (idx.remove id, true)
  | none => (idx, false)

def moveAtPath (idx : Index) (source dest : String) : Index × Bool :=
  match idx.resolve source with
  | none => (idx, false)
  | some id =>
    match idx.nodes[id]? with
    | none => (idx, false)
    | some node =>
      let destName := lastSegment dest
      if destName = "" then (idx, false)
      else match idx.resolve (parentPath dest) with
        | none => (idx, false)
        | some parentId => (idx.apply ⟨id, some parentId, destName, false, false, node.itemMeta⟩, true)

end Index

end OneDriveDavfs
