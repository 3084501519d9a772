import OneDriveDavfs.Index.Paths
import OneDriveDavfs.Xml

/-! From the request target to a path: `sanitize_path` and the split at the query in `src/lib.rs`.

A path that passed is canonical: a slash, and good names joined by slashes.
The percent-encoding of any spelling of good names leads back to them.
-/

set_option autoImplicit false
set_option maxRecDepth 2000

namespace OneDriveDavfs

open Library Library.Separated Library.Wire

def controlByte (byte : UInt8) : Bool := byte < 0x20 || byte = 0x7F

/-- The loop over the segments: the empty one and `.` are skipped, `..` is refused. -/
def keepSegments : List String → Except String (List String)
  | [] => .ok []
  | segment :: rest =>
    if segment = "" ∨ segment = "." then keepSegments rest
    else if segment = ".." then .error "'..' segments are not allowed in paths"
    else (keepSegments rest).map (segment :: ·)

def sanitizePath (raw : String) : Except String String :=
  match Xml.pctDecode raw with
  | none => .error "malformed percent-encoding in path"
  | some decoded =>
    if (utf8 decoded).any controlByte then .error "control characters are not allowed in paths"
    else (keepSegments ((decoded.toList.splitOn '/').map String.ofList)).map joinPath

/-- The part of the target before the query. -/
def rawPath (target : String) : String := String.ofList (target.toList.takeWhile (· ≠ '?'))

/-! ## Good names -/

def Printable (s : String) : Prop := ∀ c ∈ s.toList, ∀ byte ∈ String.utf8EncodeChar c, controlByte byte = false

/-- A name that `sanitize_path` keeps as it is. -/
structure GoodName (name : String) : Prop where
  clean : CleanName name
  not_dot : name ≠ "."
  not_dots : name ≠ ".."
  printable : Printable name

theorem printable_iff (s : String) : Printable s ↔ (utf8 s).any controlByte = false := by
  rw [utf8_eq_flatMap, List.any_eq_false]
  simp only [Printable, List.mem_flatMap, Bool.not_eq_true]
  exact ⟨fun fine byte ⟨c, member, written⟩ => fine c member byte written,
    fun fine c member byte written => fine byte ⟨c, member, written⟩⟩

theorem Printable.append {front rest : String} (first : Printable front) (second : Printable rest) :
    Printable (front ++ rest) := by
  intro c member
  rw [String.toList_append, List.mem_append] at member
  exact member.elim (first c) (second c)

theorem printable_slash : Printable "/" := (printable_iff "/").mpr (by decide)

theorem printable_joinPath {segs : List String} (fine : ∀ name ∈ segs, Printable name) : Printable (joinPath segs) := by
  by_cases nonempty : segs = []
  · subst nonempty
    exact printable_slash
  · intro c member
    rw [toList_joinPath nonempty] at member
    obtain ⟨piece, inSegs, written⟩ := List.mem_flatMap.mp member
    obtain ⟨name, inNames, rfl⟩ := List.mem_map.mp inSegs
    rcases List.mem_cons.mp written with rfl | inName
    · exact printable_slash _ (by decide)
    · exact fine name inNames c inName

/-! ## What passes -/

theorem keepSegments_eq {segs : List String} (fine : ∀ s ∈ segs, s ≠ "." ∧ s ≠ "..") :
    keepSegments segs = .ok (segs.filter (· ≠ "")) := by
  induction segs with
  | nil => rfl
  | cons segment rest ih =>
    obtain ⟨notDot, notDots⟩ := fine segment List.mem_cons_self
    have tail := ih fun s member => fine s (List.mem_cons_of_mem _ member)
    by_cases empty : segment = ""
    · simp [keepSegments, empty, tail]
    · simp [keepSegments, empty, notDot, notDots, tail, Except.map]

theorem keepSegments_kept {segs kept : List String} (passed : keepSegments segs = .ok kept) :
    ∀ s ∈ kept, s ∈ segs ∧ s ≠ "" ∧ s ≠ "." ∧ s ≠ ".." := by
  induction segs generalizing kept with
  | nil => cases passed; exact fun _ member => absurd member List.not_mem_nil
  | cons segment rest ih =>
    rw [keepSegments] at passed
    split at passed
    · intro s member
      obtain ⟨inRest, others⟩ := ih passed s member
      exact ⟨List.mem_cons_of_mem _ inRest, others⟩
    · rename_i skipped
      split at passed
      · cases passed
      · rename_i notDots
        rw [not_or] at skipped
        cases tail : keepSegments rest with
        | error e => rw [tail] at passed; cases passed
        | ok more =>
          rw [tail] at passed
          cases passed
          intro s member
          rcases List.mem_cons.mp member with rfl | inMore
          · exact ⟨List.mem_cons_self, skipped.1, skipped.2, notDots⟩
          · obtain ⟨inRest, others⟩ := ih tail s inMore
            exact ⟨List.mem_cons_of_mem _ inRest, others⟩

theorem keepSegments_sublist {segs kept : List String} (passed : keepSegments segs = .ok kept) :
    kept.Sublist segs := by
  induction segs generalizing kept with
  | nil => cases passed; exact List.Sublist.refl _
  | cons segment rest ih =>
    rw [keepSegments] at passed
    split at passed
    · exact (ih passed).cons segment
    · split at passed
      · cases passed
      · cases tail : keepSegments rest with
        | error e => rw [tail] at passed; cases passed
        | ok more =>
          rw [tail] at passed
          cases passed
          exact (ih tail).cons_cons segment

theorem mem_of_mem_splitOn {piece xs : List Char} (member : piece ∈ xs.splitOn '/') {c : Char} (inPiece : c ∈ piece) :
    c ∈ xs := by
  induction xs generalizing piece with
  | nil =>
    rw [List.splitOn_nil, List.mem_singleton] at member
    exact absurd (member ▸ inPiece) List.not_mem_nil
  | cons x xs ih =>
    obtain ⟨first, rest, split⟩ := List.exists_cons_of_ne_nil (List.splitOn_ne_nil '/' xs)
    rw [List.splitOn_cons_eq_if_modifyHead, split] at member
    by_cases same : x = '/'
    · simp only [same, beq_self_eq_true, if_true, List.mem_cons] at member
      rcases member with rfl | inTail
      · exact absurd inPiece List.not_mem_nil
      · exact List.mem_cons_of_mem _ (ih (by simpa [split] using inTail) inPiece)
    · simp only [beq_iff_eq, same, if_false, List.modifyHead_cons, List.mem_cons] at member
      rcases member with rfl | inRest
      · rcases List.mem_cons.mp inPiece with rfl | inFirst
        · exact List.mem_cons_self
        · exact List.mem_cons_of_mem _ (ih (by simp [split]) inFirst)
      · exact List.mem_cons_of_mem _ (ih (by simp [split, inRest]) inPiece)

theorem canonical_of_sanitizePath {raw path : String} (passed : sanitizePath raw = .ok path) :
    path = joinPath (segments path) ∧ ∀ name ∈ segments path, GoodName name := by
  unfold sanitizePath at passed
  split at passed
  · cases passed
  · rename_i decoded _
    split at passed
    · cases passed
    · rename_i printable
      have printable' : Printable decoded := (printable_iff decoded).mpr (Bool.not_eq_true _ ▸ printable)
      cases kept : keepSegments ((decoded.toList.splitOn '/').map String.ofList) with
      | error e => rw [kept] at passed; cases passed
      | ok segs =>
        rw [kept] at passed
        cases passed
        -- a segment that was kept is filled, is no dot or dots, and holds neither a slash nor a control byte
        have good : ∀ name ∈ segs, GoodName name := by
          intro name member
          obtain ⟨inPieces, filled, notDot, notDots⟩ := keepSegments_kept kept name member
          obtain ⟨piece, inSplit, rfl⟩ := List.mem_map.mp inPieces
          have noSlash : '/' ∉ piece := clean_of_mem_splitOn '/' _ piece inSplit
          refine ⟨⟨?_, by simpa using noSlash⟩, notDot, notDots, ?_⟩
          · rintro empty
            exact filled (by rw [← String.toList_inj]; simpa using empty)
          · intro c inName
            rw [String.toList_ofList] at inName
            exact printable' c (mem_of_mem_splitOn inSplit inName)
        have names := segments_joinPath fun name member => (good name member).clean
        rw [names]
        exact ⟨rfl, good⟩

/-! ## The way back -/

theorem ascii_encode (bytes : Bytes) : Ascii (Percent.encode Xml.plain bytes) := by
  have kept : ∀ byte, Xml.plain byte = true → byte < 0x80 := forall_byte (by decide)
  have digits : ∀ n : UInt8, n < 16 → Percent.hexDigit n < 0x80 := forall_byte (by decide)
  intro byte member
  rcases Percent.mem_encode member with ⟨keeps, _⟩ | rfl | ⟨n, small, rfl⟩
  · exact kept byte keeps
  · decide
  · exact digits n small

theorem utf8_pctEncode (s : String) : utf8 (Xml.pctEncode s) = Percent.encode Xml.plain (utf8 s) :=
  utf8_latin (ascii_encode _)

theorem pctDecode_pctEncode (s : String) : Xml.pctDecode (Xml.pctEncode s) = some s := by
  have decoded := @Percent.decode_encode_eq_some Xml.plain (by decide) (utf8 s)
  rw [Xml.pctDecode, utf8_pctEncode, decoded, Option.bind_some, fromUtf8_utf8]

theorem pctEncode_injective {a b : String} (same : Xml.pctEncode a = Xml.pctEncode b) : a = b := by
  have decoded := pctDecode_pctEncode a
  rw [same, pctDecode_pctEncode] at decoded
  exact (Option.some.inj decoded).symm

theorem pctEncode_slash (s : String) : Xml.pctEncode (s ++ "/") = Xml.pctEncode s ++ "/" := by
  have slash : Percent.encode Xml.plain (utf8 "/") = utf8 "/" := by decide
  rw [Xml.pctEncode, utf8_append, Percent.encode_append, latin_append, slash]
  rfl

theorem rawPath_pctEncode (s : String) : rawPath (Xml.pctEncode s) = Xml.pctEncode s := by
  have kept : ∀ byte, Xml.plain byte = true → Char.ofNat byte.toNat ≠ '?' := forall_byte (by decide)
  have digits : ∀ n : UInt8, n < 16 → Char.ofNat (Percent.hexDigit n).toNat ≠ '?' := forall_byte (by decide)
  have none : ∀ c ∈ (Xml.pctEncode s).toList, decide (c ≠ '?') = true := by
    intro c member
    rw [Xml.pctEncode, latin, String.toList_ofList] at member
    obtain ⟨byte, written, rfl⟩ := List.mem_map.mp member
    rw [decide_eq_true_iff]
    rcases Percent.mem_encode written with ⟨keeps, _⟩ | rfl | ⟨n, small, rfl⟩
    · exact kept byte keeps
    · decide
    · exact digits n small
  rw [rawPath, List.takeWhile_eq_self_iff.mpr none, String.ofList_toList]

/-- What decodes to a spelling of good names leads to the canonical path of the names. -/
theorem sanitizePath_of_pctDecode {raw spelling : String} (decoded : Xml.pctDecode raw = some spelling)
    (printable : Printable spelling) (fine : ∀ name ∈ segments spelling, name ≠ "." ∧ name ≠ "..") :
    sanitizePath raw = .ok (joinPath (segments spelling)) := by
  have allowed : ¬ (utf8 spelling).any controlByte = true := by
    rw [(printable_iff spelling).mp printable]
    exact Bool.false_ne_true
  have kept : keepSegments ((spelling.toList.splitOn '/').map String.ofList) = .ok (segments spelling) := by
    have pieces : ((spelling.toList.splitOn '/').map String.ofList).filter (· ≠ "") = segments spelling := by
      rw [segments, Library.Separated.pieces, List.filter_map]
      congr 1
      refine List.filter_congr fun piece _ => ?_
      have empty : String.ofList piece = "" ↔ piece = [] := by
        rw [← String.toList_inj, String.toList_ofList]
        rfl
      simp [empty]
    rw [keepSegments_eq, pieces]
    intro segment member
    by_cases empty : segment = ""
    · subst empty
      decide
    · exact fine segment (pieces ▸ List.mem_filter.mpr ⟨member, by simpa using empty⟩)
  rw [sanitizePath, decoded]
  dsimp only
  rw [if_neg allowed, kept]
  rfl

theorem sanitizePath_pctEncode {spelling : String} (printable : Printable spelling)
    (fine : ∀ name ∈ segments spelling, name ≠ "." ∧ name ≠ "..") :
    sanitizePath (Xml.pctEncode spelling) = .ok (joinPath (segments spelling)) :=
  sanitizePath_of_pctDecode (pctDecode_pctEncode spelling) printable fine

end OneDriveDavfs
