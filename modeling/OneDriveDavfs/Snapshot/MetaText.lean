import OneDriveDavfs.Library.Json
import OneDriveDavfs.Library.Text
import OneDriveDavfs.Snapshot.Layout

/-! The metadata record as JSON.

The text is the one that the derived serialisation of `SnapshotMeta` writes:
the fields in their order, absent strings as null. Reading looks the fields up
by name, and the two counts that older snapshots lack default to zero.
-/

set_option autoImplicit false

namespace OneDriveDavfs.Snapshot

open Library.Json Library.Wire

def optionalText : Option String → Value
  | none => .null
  | some s => .text s

def metaMembers (m : SnapshotMeta) : List (String × Value) := [
  ("delta_token", optionalText m.deltaToken),
  ("pending_next_link", optionalText m.pendingNextLink),
  ("crawl_complete", .bool m.crawlComplete),
  ("generation", nat m.generation.toNat),
  ("built_at", nat m.builtAt.toNat),
  ("root_id", optionalText m.rootId),
  ("total_dirs", nat m.totalDirs.toNat),
  ("total_files", nat m.totalFiles.toNat)]

def readOptionalText (members : List (String × Value)) (key : String) : Except String (Option String) :=
  match members.lookup key with
  | none | some .null => .ok none
  | some (.text s) => .ok (some s)
  | some _ => .error "invalid type: expected a string"

def readU64 (members : List (String × Value)) (key : String) (missing : Except String UInt64) :
    Except String UInt64 :=
  match members.lookup key with
  | none => missing
  | some value =>
    match readNat value with
    | some n => if n < 2 ^ 64 then .ok (UInt64.ofNat n) else .error "number out of range"
    | none => .error "invalid type: expected u64"

def readBool (members : List (String × Value)) (key : String) : Except String Bool :=
  match members.lookup key with
  | some (.bool b) => .ok b
  | none => .error ("missing field " ++ key)
  | some _ => .error "invalid type: expected a boolean"

def metaOfMembers (members : List (String × Value)) : Except String SnapshotMeta := do
  return {
    deltaToken := ← readOptionalText members "delta_token"
    pendingNextLink := ← readOptionalText members "pending_next_link"
    crawlComplete := ← readBool members "crawl_complete"
    generation := ← readU64 members "generation" (.error "missing field generation")
    builtAt := ← readU64 members "built_at" (.error "missing field built_at")
    rootId := ← readOptionalText members "root_id"
    totalDirs := ← readU64 members "total_dirs" (.ok 0)
    totalFiles := ← readU64 members "total_files" (.ok 0) }

def readObject {α : Type} (record : List (String × Value) → Except String α) (cs : List Char) : Except String α :=
  match readText cs with
  | some (.object members) => record members
  | _ => .error "expected value"

def readWith {α : Type} (record : List (String × Value) → Except String α) (text : Bytes) : Except String α :=
  match fromUtf8 text with
  | none => .error "invalid unicode"
  | some s => readObject record s.toList

theorem readWith_write {α : Type} (record : List (String × Value) → Except String α) (layout : Layout)
    (members : List (String × Value)) :
    readWith record (utf8 (String.ofList (write layout 0 (.object members)))) = record members := by
  simp only [readWith, readObject, fromUtf8_utf8, String.toList_ofList, readText_write]

/-- The same reader for runs: text without other characters than ASCII is read byte by byte. -/
def readAscii {α : Type} (record : List (String × Value) → Except String α) (text : Bytes) : Except String α :=
  if text.all (· < 0x80) then readObject record (text.map fun byte => Char.ofNat byte.toNat)
  else readWith record text

theorem readWith_eq_readAscii {α : Type} (record : List (String × Value) → Except String α) :
    readWith record = readAscii record := by
  funext text
  by_cases ascii : text.all (· < 0x80) = true
  · have read := fromUtf8_utf8 (latin text)
    rw [utf8_latin (by simpa [Ascii] using ascii)] at read
    simp only [readAscii, readWith, read, latin, String.toList_ofList, if_pos ascii]
  · rw [readAscii, if_neg ascii]

/-- A codec for the metadata record that behaves as `serde_json` does on what it writes. -/
def metaText : MetaJson where
  toVec m := .ok (utf8 (compact (.object (metaMembers m))))
  fromSlice := readWith metaOfMembers

theorem metaOfMembers_metaMembers (m : SnapshotMeta) : metaOfMembers (metaMembers m) = .ok m := by
  have text (value : Option String) (members : List (String × Value)) (key : String)
      (found : members.lookup key = some (optionalText value)) : readOptionalText members key = .ok value := by
    rw [readOptionalText, found]
    cases value <;> rfl
  have number (value : UInt64) (members : List (String × Value)) (key : String) (missing : Except String UInt64)
      (found : members.lookup key = some (nat value.toNat)) : readU64 members key missing = .ok value := by
    simp only [readU64, found, readNat_nat, if_pos value.toNat_lt, UInt64.ofNat_toNat]
  have flag : readBool (metaMembers m) "crawl_complete" = .ok m.crawlComplete := rfl
  rw [metaOfMembers, text m.deltaToken _ _ rfl, text m.pendingNextLink _ _ rfl, flag,
    number m.generation _ _ _ rfl, number m.builtAt _ _ _ rfl, text m.rootId _ _ rfl,
    number m.totalDirs _ _ _ rfl, number m.totalFiles _ _ _ rfl]
  rfl

theorem metaText_roundTrips : metaText.RoundTrips := by
  intro m
  refine ⟨_, rfl, ?_⟩
  dsimp only [metaText]
  rw [compact, readWith_write, metaOfMembers_metaMembers]

def asciiText : MetaJson where
  toVec := metaText.toVec
  fromSlice := readAscii metaOfMembers

theorem metaText_eq_asciiText : metaText = asciiText :=
  congrArg (MetaJson.mk metaText.toVec) (readWith_eq_readAscii metaOfMembers)

end OneDriveDavfs.Snapshot
