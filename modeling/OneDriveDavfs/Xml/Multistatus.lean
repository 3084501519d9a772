import OneDriveDavfs.Dav.Href
import OneDriveDavfs.Graph.Addresses
import OneDriveDavfs.Http.Client
import OneDriveDavfs.Library.Markup
import OneDriveDavfs.Xml.HttpDate

/-! The body of a listing: `multistatus` of `src/xml.rs` and what it is made of.

Addresses are percent-encoded and tags are escaped, both into a fixed template.
Read as markup, the text is one response for each entry, whatever the entries
hold.
-/

set_option autoImplicit false
set_option maxRecDepth 2000

namespace OneDriveDavfs.Xml

open Library Library.Wire Library.Markup

def escapeChar (c : Char) : List Char :=
  match c with
  | '&' => "&amp;".toList
  | '<' => "&lt;".toList
  | '>' => "&gt;".toList
  | '"' => "&quot;".toList
  | '\'' => "&apos;".toList
  | c => [c]

def xmlEscape (s : String) : String := String.ofList (s.toList.flatMap escapeChar)

/-- `s.strip_suffix(back)`. -/
def stripSuffix (back s : String) : Option String :=
  if back.toList.isSuffixOf s.toList then some (String.ofList (s.toList.take (s.toList.length - back.toList.length))) else none

def quotedEtagXml (etag : String) : String :=
  let inner := trim etag
  let inner := ((stripPrefix "\"" inner).bind (stripSuffix "\"")).getD inner
  "&quot;" ++ xmlEscape inner ++ "&quot;"

def responseXml (entry : DavEntry) : String :=
  let resourcetype := if entry.isDir then "<D:collection/>" else ""
  let contentLength :=
    if entry.isDir then "" else "<D:getcontentlength>" ++ toString entry.size.toNat ++ "</D:getcontentlength>"
  "<D:response>\n" ++
    "  <D:href>" ++ hrefText entry ++ "</D:href>\n" ++
    "  <D:propstat>\n" ++
    "    <D:prop>\n" ++
    "      <D:resourcetype>" ++ resourcetype ++ "</D:resourcetype>\n" ++
    "      <D:getlastmodified>" ++ httpDate entry.lastModified ++ "</D:getlastmodified>\n" ++
    "      <D:getetag>" ++ quotedEtagXml entry.etag ++ "</D:getetag>\n" ++
    "      " ++ contentLength ++ "\n" ++
    "    </D:prop>\n" ++
    "    <D:status>HTTP/1.1 200 OK</D:status>\n" ++
    "  </D:propstat>\n" ++
    "</D:response>"

def multistatus (entries : List DavEntry) : String :=
  "<?xml version=\"1.0\" encoding=\"utf-8\"?>\n" ++
    "<D:multistatus xmlns:D=\"DAV:\">\n" ++
    "\n".intercalate (entries.map responseXml) ++ "\n" ++
    "</D:multistatus>"

/-! ## The content that is meant -/

def plainTag (name : String) : Tag := ⟨name, []⟩

def responseContent (entry : DavEntry) : Content :=
  .ofText "\n  ".toList ++ .single (plainTag "D:href") (.ofText (hrefText entry).toList) ++ .ofText "\n  ".toList ++
    .single (plainTag "D:propstat")
      (.ofText "\n    ".toList ++
        .single (plainTag "D:prop")
          (.ofText "\n      ".toList ++
            .single (plainTag "D:resourcetype") (if entry.isDir then .single (plainTag "D:collection") .done else .done) ++
            .ofText "\n      ".toList ++
            .single (plainTag "D:getlastmodified") (.ofText (httpDate entry.lastModified).toList) ++
            .ofText "\n      ".toList ++ .single (plainTag "D:getetag") (.ofText (quotedEtagXml entry.etag).toList) ++
            .ofText "\n      ".toList ++
            (if entry.isDir then .done
              else .single (plainTag "D:getcontentlength") (.ofText (toString entry.size.toNat).toList)) ++
            .ofText "\n    ".toList) ++
        .ofText "\n    ".toList ++ .single (plainTag "D:status") (.ofText "HTTP/1.1 200 OK".toList) ++
        .ofText "\n  ".toList) ++
    .ofText "\n".toList

def responsesContent : List DavEntry → Content
  | [] => .done
  | [entry] => .single (plainTag "D:response") (responseContent entry)
  | entry :: rest => .single (plainTag "D:response") (responseContent entry) ++ (.ofText ['\n'] ++ responsesContent rest)

def document (entries : List DavEntry) : Content :=
  .ofText ['\n'] ++
    .single ⟨"D:multistatus", " xmlns:D=\"DAV:\"".toList⟩ (.ofText ['\n'] ++ responsesContent entries ++ .ofText ['\n'])

/-- The template as it is nested. -/
theorem toList_responseXml (entry : DavEntry) :
    (responseXml entry).toList =
      element (plainTag "D:response")
        ("\n  ".toList ++ element (plainTag "D:href") (hrefText entry).toList ++ "\n  ".toList ++
          element (plainTag "D:propstat")
            ("\n    ".toList ++
              element (plainTag "D:prop")
                ("\n      ".toList ++
                  element (plainTag "D:resourcetype") (if entry.isDir then emptyElement (plainTag "D:collection") else []) ++
                  "\n      ".toList ++ element (plainTag "D:getlastmodified") (httpDate entry.lastModified).toList ++
                  "\n      ".toList ++ element (plainTag "D:getetag") (quotedEtagXml entry.etag).toList ++
                  "\n      ".toList ++
                  (if entry.isDir then []
                    else element (plainTag "D:getcontentlength") (toString entry.size.toNat).toList) ++
                  "\n    ".toList) ++
              "\n    ".toList ++ element (plainTag "D:status") "HTTP/1.1 200 OK".toList ++ "\n  ".toList) ++
          "\n".toList) := by
  unfold responseXml
  split <;> simp [element, emptyElement, plainTag, Tag.chars]

/-! ## Escaped text -/

theorem escapeChar_cases (c : Char) :
    (∃ name, (name, c) ∈ entities ∧ escapeChar c = reference name) ∨
      escapeChar c = [c] ∧ c ≠ '<' ∧ c ≠ '>' ∧ c ≠ '"' ∧ c ≠ '\'' ∧ c ≠ '&' := by
  unfold escapeChar
  split
  · exact .inl ⟨"amp".toList, by decide, by decide⟩
  · exact .inl ⟨"lt".toList, by decide, by decide⟩
  · exact .inl ⟨"gt".toList, by decide, by decide⟩
  · exact .inl ⟨"quot".toList, by decide, by decide⟩
  · exact .inl ⟨"apos".toList, by decide, by decide⟩
  · rename_i ampersand less greater quote apostrophe
    exact .inr ⟨rfl, less, greater, quote, apostrophe, ampersand⟩

theorem unescape_escape (text rest : List Char) :
    unescape (text.flatMap escapeChar ++ rest) = (unescape rest).map (text ++ ·) := by
  induction text with
  | nil => simp
  | cons c text ih =>
    rw [List.flatMap_cons, List.append_assoc]
    rcases escapeChar_cases c with ⟨name, entity, same⟩ | ⟨same, -, -, -, -, plain⟩
    · rw [same, unescape_reference entity, ih, Option.map_map]
      rfl
    · rw [same, List.singleton_append, unescape_cons plain, ih, Option.map_map]
      rfl

theorem quiet_escape (text : List Char) : Quiet (text.flatMap escapeChar) := by
  induction text with
  | nil => exact .of_plain (by simp)
  | cons c text ih =>
    rw [List.flatMap_cons]
    refine Quiet.append ?_ ih
    rcases escapeChar_cases c with ⟨name, entity, same⟩ | ⟨same, plain⟩
    · rw [same]
      exact .reference entity
    · rw [same]
      exact .of_plain (by simpa using plain)

theorem stripPrefix_eq_some_iff {front s rest : String} : stripPrefix front s = some rest ↔ s = front ++ rest := by
  constructor
  · intro stripped
    unfold stripPrefix at stripped
    split at stripped
    · rename_i begins
      obtain ⟨tail, whole⟩ := List.isPrefixOf_iff_prefix.mp begins
      rw [← whole, List.drop_left] at stripped
      cases stripped
      rw [← String.toList_inj, String.toList_append, String.toList_ofList, whole]
    · cases stripped
  · rintro rfl
    exact stripPrefix_append front rest

theorem stripSuffix_eq_some_iff {back s rest : String} : stripSuffix back s = some rest ↔ s = rest ++ back := by
  constructor
  · intro stripped
    unfold stripSuffix at stripped
    split at stripped
    · rename_i ends
      obtain ⟨front, whole⟩ := List.isSuffixOf_iff_suffix.mp ends
      rw [← whole, List.length_append, Nat.add_sub_cancel, List.take_left] at stripped
      cases stripped
      rw [← String.toList_inj, String.toList_append, String.toList_ofList, whole]
    · cases stripped
  · rintro rfl
    have ends : back.toList.isSuffixOf (rest ++ back).toList = true := by
      rw [String.toList_append]
      exact List.isSuffixOf_iff_suffix.mpr (List.suffix_append _ _)
    rw [stripSuffix, if_pos ends, String.toList_append, List.length_append, Nat.add_sub_cancel, List.take_left,
      String.ofList_toList]

/-- The text without its surrounding pair of quotes, if it has one. -/
def Unquoted (text inner : String) : Prop :=
  text = "\"" ++ (inner ++ "\"") ∨ inner = text ∧ ∀ other, text ≠ "\"" ++ (other ++ "\"")

theorem unquoted_strip (text : String) :
    Unquoted text (((stripPrefix "\"" text).bind (stripSuffix "\"")).getD text) := by
  have found : ∀ inner, (stripPrefix "\"" text).bind (stripSuffix "\"") = some inner ↔ text = "\"" ++ (inner ++ "\"") := by
    intro inner
    simp only [Option.bind_eq_some_iff, stripPrefix_eq_some_iff, stripSuffix_eq_some_iff]
    constructor
    · rintro ⟨tail, rfl, rfl⟩
      rfl
    · intro whole
      exact ⟨_, whole, rfl⟩
  cases stripped : (stripPrefix "\"" text).bind (stripSuffix "\"") with
  | none =>
    refine .inr ⟨rfl, fun other whole => ?_⟩
    rw [(found other).mpr whole] at stripped
    cases stripped
  | some inner => exact .inl ((found inner).mp stripped)

theorem toList_quotedEtagXml (etag : String) :
    ∃ inner, Unquoted (trim etag) inner ∧
      (quotedEtagXml etag).toList =
        reference "quot".toList ++ (inner.toList.flatMap escapeChar ++ reference "quot".toList) := by
  refine ⟨_, unquoted_strip (trim etag), ?_⟩
  simp only [quotedEtagXml, xmlEscape, String.toList_append, String.toList_ofList, List.append_assoc]
  rfl

/-! ## Addresses and dates -/

theorem quiet_pctEncode (s : String) : Quiet (pctEncode s).toList := by
  have kept : ∀ byte : UInt8, plain byte = true → Char.ofNat byte.toNat ≠ '<' ∧ Char.ofNat byte.toNat ≠ '>' ∧
      Char.ofNat byte.toNat ≠ '"' ∧ Char.ofNat byte.toNat ≠ '\'' ∧ Char.ofNat byte.toNat ≠ '&' :=
    forall_byte (by decide)
  have digit : ∀ n : UInt8, n < 16 → plain (Percent.hexDigit n) = true := forall_byte (by decide)
  refine .of_plain fun c member => ?_
  rw [Graph.toList_pctEncode] at member
  obtain ⟨byte, written, rfl⟩ := List.mem_map.mp member
  rcases Percent.mem_encode written with ⟨isPlain, _⟩ | rfl | ⟨n, small, rfl⟩
  · exact kept byte isPlain
  · decide
  · exact kept _ (digit n small)

theorem quiet_hrefText (entry : DavEntry) : Quiet (hrefText entry).toList := by
  unfold hrefText
  dsimp only
  split
  · rw [String.toList_append]
    exact (quiet_pctEncode entry.href).append (.of_plain (by simp))
  · exact quiet_pctEncode entry.href

theorem endsInSlash_pctEncode (s : String) :
    (pctEncode s).toList.getLast? = some '/' ↔ s.toList.getLast? = some '/' := by
  rcases List.eq_nil_or_concat s.toList with nothing | ⟨front, c, whole⟩
  -- only the last character of the text decides, and only a slash is encoded with a slash in it
  · have empty : s = "" := String.toList_inj.mp nothing
    subst empty
    decide
  · have split : s = String.ofList front ++ String.singleton c := by
      rw [← String.toList_inj, whole]
      simp
    have last : s.toList.getLast? = some c := by rw [whole]; simp
    have filled : (pctEncode (String.singleton c)).toList ≠ [] := by
      intro nothing
      have empty : pctEncode (String.singleton c) = pctEncode "" := (String.toList_inj.mp nothing).trans rfl
      have other := congrArg String.toList (pctEncode_injective empty)
      simp at other
    have tail : (pctEncode s).toList.getLast? = (pctEncode (String.singleton c)).toList.getLast? := by
      rw [split, Graph.pctEncode_append, String.toList_append, List.getLast?_append_of_ne_nil _ filled]
    rw [tail, last]
    constructor
    · intro slash
      have member := Graph.slash_of_mem_pctEncode (List.mem_of_getLast? slash)
      rw [String.toList_singleton, List.mem_singleton] at member
      rw [member]
    · rintro ⟨⟩
      decide

theorem pctDecode_hrefText (entry : DavEntry) :
    pctDecode (hrefText entry) =
      some (if entry.isDir = true ∧ entry.href.toList.getLast? ≠ some '/' then entry.href ++ "/" else entry.href) := by
  have ends : (pctEncode entry.href).toList.getLast?.any (· = '/') = true ↔ entry.href.toList.getLast? = some '/' := by
    rw [← endsInSlash_pctEncode]
    cases (pctEncode entry.href).toList.getLast? <;> simp
  have added : (entry.isDir && !(pctEncode entry.href).toList.getLast?.any (· = '/')) = true ↔
      entry.isDir = true ∧ entry.href.toList.getLast? ≠ some '/' := by
    rw [Bool.and_eq_true, Bool.not_eq_true', ← Bool.not_eq_true, ends]
  unfold hrefText
  dsimp only
  by_cases adds : entry.isDir = true ∧ entry.href.toList.getLast? ≠ some '/'
  · rw [if_pos (added.mpr adds), if_pos adds, ← pctEncode_slash, pctDecode_pctEncode]
  · rw [if_neg (mt added.mp adds), if_neg adds, pctDecode_pctEncode]

theorem lt_not_mem_toString (n : Nat) : '<' ∉ (toString n).toList := by
  intro member
  rw [Nat.toString_eq_ofList_toDigits, String.toList_ofList] at member
  have digit : '<'.isDigit = true := Nat.isDigit_of_mem_toDigits (by decide) (by decide) member
  cases digit

theorem lt_not_mem_getD {names : List String} (plain : ∀ name ∈ names, '<' ∉ name.toList) (i : Nat) :
    '<' ∉ (names[i]?.getD "").toList := by
  cases found : names[i]? with
  | none => decide
  | some name => exact plain name (List.mem_of_getElem? found)

theorem lt_not_mem_pad2 (n : Nat) : '<' ∉ (pad2 n).toList := by
  unfold pad2
  split
  · rw [String.toList_append, List.mem_append, not_or]
    exact ⟨by decide, lt_not_mem_toString n⟩
  · exact lt_not_mem_toString n

theorem lt_not_mem_httpDate (unixSecs : UInt64) : '<' ∉ (httpDate unixSecs).toList := by
  have weekday := @lt_not_mem_getD weekdays (by decide)
  have month := @lt_not_mem_getD months (by decide)
  have year : ∀ n : Int, '<' ∉ (toString n).toList := by
    intro n
    cases n with
    | ofNat n => exact lt_not_mem_toString n
    | negSucc n =>
      change '<' ∉ ("-" ++ toString (n + 1)).toList
      rw [String.toList_append, List.mem_append, not_or]
      exact ⟨by decide, lt_not_mem_toString (n + 1)⟩
  unfold httpDate
  obtain ⟨date, isDate⟩ : ∃ date, date = civilFromDays (unixSecs.toNat / 86400 : Nat) := ⟨_, rfl⟩
  dsimp only
  rw [← isDate]
  simp only [String.toList_append, List.mem_append, not_or, weekday, month, year, lt_not_mem_pad2, not_false_eq_true,
    true_and, and_true]
  decide

theorem unescape_quotedEtagXml (etag : String) :
    ∃ inner, Unquoted (trim etag) inner ∧
      unescape (quotedEtagXml etag).toList = some ('"' :: (inner.toList ++ ['"'])) := by
  obtain ⟨inner, unquoted, text⟩ := toList_quotedEtagXml etag
  have quote : ("quot".toList, '"') ∈ entities := by decide
  have last := unescape_reference quote []
  rw [List.append_nil] at last
  refine ⟨inner, unquoted, ?_⟩
  rw [text, unescape_reference quote, unescape_escape, last]
  rfl

theorem quiet_quotedEtagXml (etag : String) : Quiet (quotedEtagXml etag).toList := by
  obtain ⟨inner, _, text⟩ := toList_quotedEtagXml etag
  have quote : ("quot".toList, '"') ∈ entities := by decide
  rw [text]
  exact (Quiet.reference quote).append ((quiet_escape inner.toList).append (.reference quote))

/-! ## The body is read back -/

theorem spells_responseXml (entry : DavEntry) :
    Spells (responseXml entry).toList (.single (plainTag "D:response") (responseContent entry)) := by
  have line : ∀ {text : List Char}, '<' ∉ text → Spells text (.ofText text) := Spells.ofText
  have value : ∀ {name : String} {text : String}, OpenTag (plainTag name) → '<' ∉ text.toList →
      Spells (element (plainTag name) text.toList) (.single (plainTag name) (.ofText text.toList)) :=
    fun tagged plain => .single tagged (line plain)
  have quiet : ∀ {text : List Char}, Quiet text → '<' ∉ text := fun quiet member => (quiet.plain '<' member).1 rfl
  have href := value (by decide : OpenTag (plainTag "D:href")) (quiet (quiet_hrefText entry))
  have modified := value (by decide : OpenTag (plainTag "D:getlastmodified")) (lt_not_mem_httpDate entry.lastModified)
  have etag := value (by decide : OpenTag (plainTag "D:getetag")) (quiet (quiet_quotedEtagXml entry.etag))
  have status := value (by decide : OpenTag (plainTag "D:status")) (by decide : '<' ∉ "HTTP/1.1 200 OK".toList)
  have kind : Spells (if entry.isDir then emptyElement (plainTag "D:collection") else [])
      (if entry.isDir then .single (plainTag "D:collection") .done else .done) := by
    split
    · exact .empty (by decide)
    · exact .done
  have length : Spells
      (if entry.isDir then [] else element (plainTag "D:getcontentlength") (toString entry.size.toNat).toList)
      (if entry.isDir then .done
        else .single (plainTag "D:getcontentlength") (.ofText (toString entry.size.toNat).toList)) := by
    split
    · exact .done
    · exact value (by decide) (lt_not_mem_toString _)
  -- the elements from the inside out, with the white space between them
  have inner := line (by decide : '<' ∉ "\n      ".toList)
  have middle := line (by decide : '<' ∉ "\n    ".toList)
  have outer := line (by decide : '<' ∉ "\n  ".toList)
  have prop := ((((((((inner.append (.single (by decide : OpenTag (plainTag "D:resourcetype")) kind)).append inner).append
    modified).append inner).append etag).append inner).append length).append middle)
  have propstat := ((((middle.append (.single (by decide : OpenTag (plainTag "D:prop")) prop)).append middle).append
    status).append outer)
  have response := ((((outer.append href).append outer).append
    (.single (by decide : OpenTag (plainTag "D:propstat")) propstat)).append (line (by decide : '<' ∉ "\n".toList)))
  rw [toList_responseXml]
  exact .single (by decide) response

theorem spells_responses (entries : List DavEntry) :
    Spells ("\n".intercalate (entries.map responseXml)).toList (responsesContent entries) := by
  induction entries with
  | nil => exact .done
  | cons entry rest ih =>
    cases rest with
    | nil => rw [List.map_singleton, String.intercalate_singleton]; exact spells_responseXml entry
    | cons next rest =>
      rw [List.map_cons, List.map_cons, String.intercalate_cons_cons, ← List.map_cons, String.toList_append,
        String.toList_append, List.append_assoc]
      exact (spells_responseXml entry).append ((Spells.ofText (by decide)).append ih)

theorem parse_multistatus (entries : List DavEntry) : parse (multistatus entries).toList = some (document entries) := by
  have line : Spells ['\n'] (.ofText ['\n']) := .ofText (by decide)
  have root : OpenTag ⟨"D:multistatus", " xmlns:D=\"DAV:\"".toList⟩ := by decide
  -- the line break behind the declaration is content of the document
  have whole := Spells.instruction (by decide : '>' ∉ "xml version=\"1.0\" encoding=\"utf-8\"?".toList)
    (line.append (.single root ((line.append (spells_responses entries)).append line)))
  refine parse_spells ?_
  unfold multistatus
  -- the responses are one piece of text from here on
  generalize "\n".intercalate (entries.map responseXml) = body at whole ⊢
  have text : ("<?xml version=\"1.0\" encoding=\"utf-8\"?>\n" ++ "<D:multistatus xmlns:D=\"DAV:\">\n" ++ body ++ "\n" ++
      "</D:multistatus>").toList = instruction "xml version=\"1.0\" encoding=\"utf-8\"?".toList ++
        (['\n'] ++ element ⟨"D:multistatus", " xmlns:D=\"DAV:\"".toList⟩ (['\n'] ++ body.toList ++ ['\n'])) := by
    simp [instruction, element, Tag.chars]
  rw [text]
  exact whole

structure Describes (entry : DavEntry) (response : Content) : Prop where
  href : ∃ text, response.named "D:href" = [.ofText text] ∧ Quiet text ∧
    pctDecode (String.ofList text) =
      some (if entry.isDir = true ∧ entry.href.toList.getLast? ≠ some '/' then entry.href ++ "/" else entry.href)
  etag : ∃ text inner, response.named "D:getetag" = [.ofText text] ∧ Quiet text ∧
    Unquoted (trim entry.etag) inner ∧ unescape text = some ('"' :: (inner.toList ++ ['"']))
  resourcetype : response.named "D:resourcetype" =
    [if entry.isDir then .single (plainTag "D:collection") .done else .done]
  collection : response.named "D:collection" = if entry.isDir then [.done] else []
  length : response.named "D:getcontentlength" =
    if entry.isDir then [] else [.ofText (toString entry.size.toNat).toList]

theorem describes_responseContent (entry : DavEntry) : Describes entry (responseContent entry) := by
  constructor
  case href =>
    refine ⟨(hrefText entry).toList, ?_, quiet_hrefText entry, ?_⟩
    · cases directory : entry.isDir <;> simp [responseContent, plainTag, directory]
    · rw [String.ofList_toList]
      exact pctDecode_hrefText entry
  case etag =>
    obtain ⟨inner, unquoted, unescaped⟩ := unescape_quotedEtagXml entry.etag
    refine ⟨(quotedEtagXml entry.etag).toList, inner, ?_, quiet_quotedEtagXml entry.etag, unquoted, unescaped⟩
    cases directory : entry.isDir <;> simp [responseContent, plainTag, directory]
  case resourcetype => cases directory : entry.isDir <;> simp [responseContent, plainTag, directory]
  case collection => cases directory : entry.isDir <;> simp [responseContent, plainTag, directory]
  case length => cases directory : entry.isDir <;> simp [responseContent, plainTag, directory]

theorem named_responsesContent (entries : List DavEntry) :
    (responsesContent entries).named "D:response" = entries.map responseContent := by
  have alone : ∀ entry, (responseContent entry).named "D:response" = [] := by
    intro entry
    cases directory : entry.isDir <;> simp [responseContent, plainTag, directory]
  induction entries with
  | nil => rfl
  | cons entry rest ih =>
    cases rest with
    | nil => simp [responsesContent, plainTag, alone]
    | cons next rest =>
      rw [responsesContent, Content.named_append, Content.named_append, ih]
      · simp [plainTag, alone]
      · simp

/-- The body of a listing reads as one response for each entry, in their order; nothing in an
address or a tag can be taken for markup, and nothing of them is lost. -/
theorem multistatus_reads (entries : List DavEntry) :
    ∃ content, parse (multistatus entries).toList = some content ∧
      List.Forall₂ Describes entries (content.named "D:response") := by
  have responses : (document entries).named "D:response" = entries.map responseContent := by
    simp [document, named_responsesContent]
  refine ⟨document entries, parse_multistatus entries, ?_⟩
  rw [responses, List.forall₂_map_right_iff, List.forall₂_same]
  exact fun entry _ => describes_responseContent entry

end OneDriveDavfs.Xml
