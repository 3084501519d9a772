import OneDriveDavfs.Index.Model

/-! What `graph::delta` returns, and the link a crawl begins at: `src/graph.rs`. -/

set_option autoImplicit false

namespace OneDriveDavfs

structure DeltaPage where
  items : List DeltaItem
  nextLink : Option String
  deltaToken : Option String
  deriving DecidableEq, Repr

inductive DeltaError where
  | resync
  | other (message : String)
  deriving DecidableEq, Repr

abbrev DeltaReply := Except DeltaError DeltaPage

namespace Graph

/-- `drive_base.trim_matches('/')` below `/drives` unless it is a selector. -/
def driveRootSegment (driveBase : String) : String :=
  let trimmed := (driveBase.toList.dropWhile (· == '/')).rdropWhile (· == '/')
  if '/' ∈ trimmed then "/" ++ String.ofList trimmed else "/drives/" ++ String.ofList trimmed

def deltaQuery : String :=
  "$select=id,name,size,folder,file,eTag,lastModifiedDateTime,parentReference,deleted,root&$top=200"

def initialDeltaUrl (driveBase : String) : String :=
  "https://graph.microsoft.com/v1.0" ++ driveRootSegment driveBase ++ "/root/delta?" ++ deltaQuery

end Graph

end OneDriveDavfs
