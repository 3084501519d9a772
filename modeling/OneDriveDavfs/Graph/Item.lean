import OneDriveDavfs.Graph.Delta
import OneDriveDavfs.Library.Text

/-! Drive items as Graph describes them: `DriveItem` and its readings in `src/graph.rs`.

Of a facet only its presence is read.
-/

set_option autoImplicit false

namespace OneDriveDavfs.Graph

/-- What the items of an answer parse to; an absent field has its default. -/
structure DriveItem where
  id : String
  name : String
  size : UInt64
  folder : Bool
  lastModified : Option String
  etag : Option String
  /-- the MIME type of the file facet -/
  mimeType : Option String
  /-- the id of the parent reference -/
  parentReference : Option String
  deleted : Bool
  root : Bool
  removed : Bool
  deriving DecidableEq, Repr

structure GraphItem where
  name : String
  isDir : Bool
  size : UInt64
  lastModified : UInt64
  etag : String
  mimeType : String
  deriving DecidableEq, Repr

/-! ## Timestamps -/

/-- The groups of digits that are numbers of 32 bits. -/
def digitGroups (s : String) : List Nat :=
  (((s.toList.splitOnP fun c => !c.isDigit).filter (· ≠ [])).map fun group => Nat.ofDigitChars 10 group 0).filter
    (· < 2 ^ 32)

/-- The unsigned steps wrap in the release build, and the sum is the one of the integers again. -/
def daysFromCivil (y : Int) (m d : Nat) : Int :=
  let y := if m ≤ 2 then y - 1 else y
  let era := (if 0 ≤ y then y else y - 399).tdiv 400
  let yoe := y - era * 400
  let mp : Int := if m > 2 then (m : Int) - 3 else m + 9
  let doy := (153 * mp + 2) / 5 + d - 1
  let doe := yoe * 365 + yoe / 4 - yoe / 100 + doy
  era * 146097 + doe - 719468

def parseIso8601ToUnix (s : String) : UInt64 :=
  match digitGroups s with
  | year :: month :: day :: hour :: minute :: second :: _ =>
    let days := daysFromCivil year month day
    UInt64.ofNat (max (days * 86400 + hour * 3600 + minute * 60 + second) 0).toNat
  | _ => 0

/-! ## The two readings of an item -/

def DriveItem.lastModifiedUnix (item : DriveItem) : UInt64 := (item.lastModified.map parseIso8601ToUnix).getD 0

def toItem (item : DriveItem) : GraphItem where
  name := item.name
  isDir := item.folder
  size := item.size
  lastModified := item.lastModifiedUnix
  etag := item.etag.getD ""
  mimeType := item.mimeType.getD ""

def toDeltaItem (item : DriveItem) : Option DeltaItem :=
  if item.id = "" then none
  else some {
    id := item.id
    parentId := item.parentReference.filter (· ≠ "")
    name := item.name
    deleted := item.deleted || item.removed
    isRoot := item.root
    itemMeta := {
      isDir := item.folder || item.root
      size := item.size
      mtime := item.lastModifiedUnix
      etag := item.etag.getD "" } }

end OneDriveDavfs.Graph
