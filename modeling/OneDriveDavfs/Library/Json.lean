import Mathlib.Data.List.TakeWhile
import Mathlib.Data.List.DropRight

/-! JSON values, how they are written, and how they are read.

A layout puts blanks between the parts of a text: none, or a line for every
member. The reader passes over blanks wherever they may stand, so that it reads
every layout. A number is the text it is written as. Of the escapes by number
the reader knows those of the control characters, which the writer needs.
-/

set_option autoImplicit false

namespace Library.Json

/-! ## Strings -/

def escapeChar (c : Char) : List Char :=
  if c = '"' then ['\\', '"']
  else if c = '\\' then ['\\', '\\']
  else if c = '\u0008' then ['\\', 'b']
  else if c = '\u000c' then ['\\', 'f']
  else if c = '\n' then ['\\', 'n']
  else if c = '\r' then ['\\', 'r']
  else if c = '\t' then ['\\', 't']
  else if c.toNat < 32 then
    ['\\', 'u', '0', '0', Nat.digitChar (c.toNat / 16), Nat.digitChar (c.toNat % 16)]
  else [c]

def writeString (s : String) : List Char := '"' :: (s.toList.flatMap escapeChar ++ ['"'])

def hexValue (c : Char) : Nat :=
  if c.toNat < 58 then c.toNat - 48 else c.toNat - 87

def readChars : List Char → Option (List Char × List Char)
  | [] => none
  | '"' :: rest => some ([], rest)
  | '\\' :: 'u' :: '0' :: '0' :: high :: low :: rest =>
    (readChars rest).map fun found => (Char.ofNat (16 * hexValue high + hexValue low) :: found.1, found.2)
  | '\\' :: 'u' :: _ => none
  | '\\' :: 'b' :: rest => (readChars rest).map fun found => ('\u0008' :: found.1, found.2)
  | '\\' :: 'f' :: rest => (readChars rest).map fun found => ('\u000c' :: found.1, found.2)
  | '\\' :: 'n' :: rest => (readChars rest).map fun found => ('\n' :: found.1, found.2)
  | '\\' :: 'r' :: rest => (readChars rest).map fun found => ('\r' :: found.1, found.2)
  | '\\' :: 't' :: rest => (readChars rest).map fun found => ('\t' :: found.1, found.2)
  | '\\' :: c :: rest => (readChars rest).map fun found => (c :: found.1, found.2)
  | c :: rest => (readChars rest).map fun found => (c :: found.1, found.2)

def readString : List Char → Option (String × List Char)
  | '"' :: rest => (readChars rest).map fun found => (String.ofList found.1, found.2)
  | _ => none

theorem hex_digits : ∀ n : Fin 32,
    16 * hexValue (Nat.digitChar (n / 16)) + hexValue (Nat.digitChar (n % 16)) = n := by decide

theorem readChars_plain {c : Char} (quote : c ≠ '"') (slash : c ≠ '\\') (rest : List Char) :
    readChars (c :: rest) = (readChars rest).map fun found => (c :: found.1, found.2) := by
  rw [readChars] <;> simp_all

theorem readChars_escapeChar (c : Char) (rest : List Char) :
    readChars (escapeChar c ++ rest) = (readChars rest).map fun found => (c :: found.1, found.2) := by
  unfold escapeChar
  split
  · subst c; rfl
  split
  · subst c; rfl
  split
  · subst c; rfl
  split
  · subst c; rfl
  split
  · subst c; rfl
  split
  · subst c; rfl
  split
  · subst c; rfl
  split
  · rename_i small
    have value := hex_digits ⟨c.toNat, small⟩
    simp only [List.cons_append, List.nil_append, readChars, value, Char.ofNat_toNat]
  · rename_i quote slash _ _ _ _ _ _
    exact readChars_plain quote slash rest

theorem readString_writeString (s : String) (rest : List Char) :
    readString (writeString s ++ rest) = some (s, rest) := by
  have chars (cs : List Char) : readChars (cs.flatMap escapeChar ++ '"' :: rest) = some (cs, rest) := by
    induction cs with
    | nil => rfl
    | cons c cs ih => rw [List.flatMap_cons, List.append_assoc, readChars_escapeChar, ih]; rfl
  simp only [writeString, List.cons_append, List.append_assoc, List.nil_append, readString, chars, Option.map_some,
    String.ofList_toList]

/-! ## Values -/

def numberChar (c : Char) : Bool := c.isDigit || c = '-' || c = '+' || c = '.' || c = 'e' || c = 'E'

structure Literal where
  text : List Char
  filled : text ≠ []
  plain : ∀ c ∈ text, numberChar c = true

inductive Value where
  | null
  | bool (value : Bool)
  | number (literal : Literal)
  | text (value : String)
  | array (elements : List Value)
  | object (members : List (String × Value))

/-! ## Writing -/

def isBlank (c : Char) : Bool := c = ' ' || c = '\n' || c = '\r' || c = '\t'

/-- The blanks before a part that stands so deep, and those behind a colon. -/
structure Layout where
  gap : Nat → List Char
  colon : List Char
  gap_blank : ∀ depth, ∀ c ∈ gap depth, isBlank c = true
  colon_blank : ∀ c ∈ colon, isBlank c = true

/-- Everything on one line, without a blank. -/
def Layout.dense : Layout := ⟨fun _ => [], [], by simp, by simp⟩

/-- Every part on its own line, two blanks further in than what it is a part of. -/
def Layout.lines : Layout where
  gap depth := '\n' :: List.replicate (2 * depth) ' '
  colon := [' ']
  gap_blank depth c member := by
    rcases List.mem_cons.mp member with rfl | blank
    · rfl
    · rw [List.eq_of_mem_replicate blank]; rfl
  colon_blank := by simp [isBlank]

variable (layout : Layout)

mutual

def write (depth : Nat) : Value → List Char
  | .null => "null".toList
  | .bool true => "true".toList
  | .bool false => "false".toList
  | .number literal => literal.text
  | .text s => writeString s
  | .array [] => ['[', ']']
  | .array (first :: rest) =>
    '[' :: (layout.gap (depth + 1) ++ (write (depth + 1) first ++ writeElements depth rest))
  | .object [] => ['{', '}']
  | .object (first :: rest) =>
    '{' :: (layout.gap (depth + 1) ++ (writeMember (depth + 1) first ++ writeMembers depth rest))

def writeElements (depth : Nat) : List Value → List Char
  | [] => layout.gap depth ++ [']']
  | value :: rest => ',' :: (layout.gap (depth + 1) ++ (write (depth + 1) value ++ writeElements depth rest))

def writeMember (depth : Nat) : String × Value → List Char
  | (key, value) => writeString key ++ ':' :: (layout.colon ++ write depth value)

def writeMembers (depth : Nat) : List (String × Value) → List Char
  | [] => layout.gap depth ++ ['}']
  | member :: rest => ',' :: (layout.gap (depth + 1) ++ (writeMember (depth + 1) member ++ writeMembers depth rest))

end

def compact (value : Value) : String := String.ofList (write .dense 0 value)

def pretty (value : Value) : String := String.ofList (write .lines 0 value)

/-! ## Reading -/

def skip (cs : List Char) : List Char := cs.dropWhile isBlank

def readNumber (cs : List Char) : Option (Value × List Char) :=
  if filled : cs.takeWhile numberChar ≠ [] then
    some (.number ⟨cs.takeWhile numberChar, filled, fun _ member => List.mem_takeWhile_imp member⟩,
      cs.dropWhile numberChar)
  else none

def readScalar : List Char → Option (Value × List Char)
  | 'n' :: 'u' :: 'l' :: 'l' :: rest => some (.null, rest)
  | 't' :: 'r' :: 'u' :: 'e' :: rest => some (.bool true, rest)
  | 'f' :: 'a' :: 'l' :: 's' :: 'e' :: rest => some (.bool false, rest)
  | cs => readNumber cs

mutual

/-- Every part takes at least a character, so the length of the text bounds the rounds. -/
def read : Nat → List Char → Option (Value × List Char)
  | 0, _ => none
  | fuel + 1, cs =>
    match skip cs with
    | '"' :: rest => (readChars rest).map fun found => (.text (String.ofList found.1), found.2)
    | '[' :: rest =>
      match skip rest with
      | ']' :: rest => some (.array [], rest)
      | rest => do
        let (first, rest) ← read fuel rest
        let (more, rest) ← readElements fuel rest
        return (.array (first :: more), rest)
    | '{' :: rest =>
      match skip rest with
      | '}' :: rest => some (.object [], rest)
      | rest => do
        let (first, rest) ← readMember fuel rest
        let (more, rest) ← readMembers fuel rest
        return (.object (first :: more), rest)
    | rest => readScalar rest

def readElements : Nat → List Char → Option (List Value × List Char)
  | 0, _ => none
  | fuel + 1, cs =>
    match skip cs with
    | ']' :: rest => some ([], rest)
    | ',' :: rest => do
      let (value, rest) ← read fuel rest
      let (more, rest) ← readElements fuel rest
      return (value :: more, rest)
    | _ => none

def readMember : Nat → List Char → Option ((String × Value) × List Char)
  | 0, _ => none
  | fuel + 1, cs => do
    let (key, rest) ← readString (skip cs)
    match skip rest with
    | ':' :: rest =>
      let (value, rest) ← read fuel rest
      return ((key, value), rest)
    | _ => none

def readMembers : Nat → List Char → Option (List (String × Value) × List Char)
  | 0, _ => none
  | fuel + 1, cs =>
    match skip cs with
    | '}' :: rest => some ([], rest)
    | ',' :: rest => do
      let (member, rest) ← readMember fuel rest
      let (more, rest) ← readMembers fuel rest
      return (member :: more, rest)
    | _ => none

end

def readText (cs : List Char) : Option Value :=
  match read cs.length cs with
  | some (value, rest) => if skip rest = [] then some value else none
  | none => none

def parse (s : String) : Option Value := readText s.toList

/-! ## Blanks -/

theorem skip_cons {c : Char} (plain : isBlank c = false) (cs : List Char) : skip (c :: cs) = c :: cs := by
  simp [skip, plain]

theorem skip_blank {gap : List Char} (blank : ∀ c ∈ gap, isBlank c = true) (cs : List Char) :
    skip (gap ++ cs) = skip cs :=
  List.dropWhile_append_of_pos blank

theorem skip_skip (cs : List Char) : skip (skip cs) = skip cs := List.dropWhile_idempotent _ _

theorem skip_append {cs : List Char} (filled : skip cs ≠ []) (more : List Char) : skip (cs ++ more) = skip cs ++ more := by
  have some : (cs.dropWhile isBlank).isEmpty = false := by simpa [skip] using filled
  rw [skip, List.dropWhile_append, some]
  rfl

theorem numberChar_of_isBlank {c : Char} (blank : isBlank c = true) : numberChar c = false := by
  have one : c = ' ' ∨ c = '\n' ∨ c = '\r' ∨ c = '\t' := by simpa [isBlank, or_assoc] using blank
  rcases one with rfl | rfl | rfl | rfl <;> decide

theorem isBlank_of_numberChar {c : Char} (plain : numberChar c = true) : isBlank c = false := by
  by_contra blank
  rw [numberChar_of_isBlank (by simpa using blank)] at plain
  cases plain

/-- What is left after the blanks begins with none. -/
theorem isBlank_of_skip {cs inner : List Char} {c : Char} (begins : skip cs = c :: inner) : isBlank c = false := by
  have again := skip_skip cs
  rw [begins] at again
  by_contra blank
  have shorter := (List.dropWhile_suffix isBlank (l := inner)).length_le
  rw [skip, List.dropWhile_cons_of_pos (by simpa using blank)] at again
  rw [again, List.length_cons] at shorter
  omega

@[simp] theorem dense_gap (depth : Nat) : Layout.dense.gap depth = [] := rfl

@[simp] theorem dense_colon : Layout.dense.colon = [] := rfl

/-! ## Round trip -/

def Ends (rest : List Char) : Prop := ∀ c ∈ rest.head?, numberChar c = false

theorem ends_nil : Ends [] := fun _ member => by cases member

theorem ends_gap (depth : Nat) {c : Char} (other : numberChar c = false) (rest : List Char) :
    Ends (layout.gap depth ++ c :: rest) := by
  intro d found
  cases blanks : layout.gap depth with
  | nil =>
    rw [blanks] at found
    cases found
    exact other
  | cons b bs =>
    rw [blanks] at found
    cases found
    exact numberChar_of_isBlank (layout.gap_blank depth _ (blanks ▸ List.mem_cons_self))

theorem ends_writeElements (depth : Nat) (elements : List Value) (rest : List Char) :
    Ends (writeElements layout depth elements ++ rest) := by
  cases elements with
  | nil =>
    rw [writeElements, List.append_assoc]
    exact ends_gap layout depth (by decide) rest
  | cons value more =>
    rw [writeElements]
    rintro c ⟨⟩
    decide

theorem ends_writeMembers (depth : Nat) (members : List (String × Value)) (rest : List Char) :
    Ends (writeMembers layout depth members ++ rest) := by
  cases members with
  | nil =>
    rw [writeMembers, List.append_assoc]
    exact ends_gap layout depth (by decide) rest
  | cons member more =>
    rw [writeMembers]
    rintro c ⟨⟩
    decide

theorem readNumber_literal (literal : Literal) {rest : List Char} (ends : Ends rest) :
    readNumber (literal.text ++ rest) = some (.number literal, rest) := by
  have stops : rest.takeWhile numberChar = [] ∧ rest.dropWhile numberChar = rest := by
    cases rest with
    | nil => exact ⟨rfl, rfl⟩
    | cons c rest => simp [ends c rfl]
  have taken : (literal.text ++ rest).takeWhile numberChar = literal.text := by
    rw [List.takeWhile_append_of_pos literal.plain, stops.1, List.append_nil]
  have left : (literal.text ++ rest).dropWhile numberChar = rest := by
    rw [List.dropWhile_append_of_pos literal.plain, stops.2]
  unfold readNumber
  simp only [taken, left, dif_pos literal.filled]

theorem read_skip {cs ds : List Char} (same : skip cs = skip ds) (fuel : Nat) : read fuel cs = read fuel ds := by
  cases fuel with
  | zero => rfl
  | succ fuel => rw [read, read, same]

theorem readMember_skip {cs ds : List Char} (same : skip cs = skip ds) (fuel : Nat) :
    readMember fuel cs = readMember fuel ds := by
  cases fuel with
  | zero => rfl
  | succ fuel => rw [readMember, readMember, same]

section Parts
variable {fuel : Nat} {inner rest : List Char}

theorem read_text : read (fuel + 1) ('"' :: inner) =
    (readChars inner).map fun found => (.text (String.ofList found.1), found.2) := by
  rw [read, skip_cons (by decide)]
  rfl

theorem read_array_nil (closed : skip inner = ']' :: rest) : read (fuel + 1) ('[' :: inner) = some (.array [], rest) := by
  simp only [read, skip_cons (show isBlank '[' = false by decide), closed]

theorem read_array (other : ∀ cs, skip inner ≠ ']' :: cs) :
    read (fuel + 1) ('[' :: inner) = (do
      let (first, rest) ← read fuel inner
      let (more, rest) ← readElements fuel rest
      return (.array (first :: more), rest)) := by
  simp only [read, skip_cons (show isBlank '[' = false by decide), ← read_skip (skip_skip inner)]

theorem read_object_nil (closed : skip inner = '}' :: rest) :
    read (fuel + 1) ('{' :: inner) = some (.object [], rest) := by
  simp only [read, skip_cons (show isBlank '{' = false by decide), closed]

theorem read_object (other : ∀ cs, skip inner ≠ '}' :: cs) :
    read (fuel + 1) ('{' :: inner) = (do
      let (first, rest) ← readMember fuel inner
      let (more, rest) ← readMembers fuel rest
      return (.object (first :: more), rest)) := by
  simp only [read, skip_cons (show isBlank '{' = false by decide), ← readMember_skip (skip_skip inner)]

theorem read_scalar {c : Char} (solid : isBlank c = false) (text : c ≠ '"') (array : c ≠ '[') (object : c ≠ '{') :
    read (fuel + 1) (c :: inner) = readScalar (c :: inner) := by
  rw [read, skip_cons solid]
  split <;> simp_all

theorem readScalar_number {c : Char} (plain : numberChar c = true) : readScalar (c :: inner) = readNumber (c :: inner) := by
  unfold readScalar
  split <;> simp_all [numberChar]

theorem read_number {c : Char} (plain : numberChar c = true) :
    read (fuel + 1) (c :: inner) = readNumber (c :: inner) := by
  rw [read_scalar (isBlank_of_numberChar plain), readScalar_number plain]
  all_goals rintro rfl; revert plain; decide

end Parts

/-- What a value begins with is neither a blank nor the end of an array. -/
theorem write_begins (depth : Nat) (value : Value) :
    ∃ c cs, write layout depth value = c :: cs ∧ isBlank c = false ∧ c ≠ ']' := by
  match value with
  | .null => exact ⟨_, _, by rw [write]; rfl, by decide, by decide⟩
  | .bool true => exact ⟨_, _, by rw [write]; rfl, by decide, by decide⟩
  | .bool false => exact ⟨_, _, by rw [write]; rfl, by decide, by decide⟩
  | .number literal =>
    obtain ⟨c, cs, split⟩ := List.exists_cons_of_ne_nil literal.filled
    have plain := literal.plain c (split ▸ List.mem_cons_self)
    refine ⟨c, cs, by rw [write, split], isBlank_of_numberChar plain, ?_⟩
    rintro rfl
    exact absurd plain (by decide)
  | .text s => exact ⟨_, _, by rw [write, writeString], by decide, by decide⟩
  | .array [] => exact ⟨_, _, by rw [write], by decide, by decide⟩
  | .array (first :: rest) => exact ⟨_, _, by rw [write], by decide, by decide⟩
  | .object [] => exact ⟨_, _, by rw [write], by decide, by decide⟩
  | .object (first :: rest) => exact ⟨_, _, by rw [write], by decide, by decide⟩

mutual

theorem read_write (depth : Nat) (value : Value) {rest : List Char} (ends : Ends rest) {fuel : Nat}
    (enough : (write layout depth value).length ≤ fuel) :
    read fuel (write layout depth value ++ rest) = some (value, rest) := by
  obtain ⟨c, cs, begins, _⟩ := write_begins layout depth value
  obtain ⟨fuel, rfl⟩ : ∃ n, fuel = n + 1 := ⟨fuel - 1, by rw [begins, List.length_cons] at enough; omega⟩
  match value with
  | .null => rfl
  | .bool true => rfl
  | .bool false => rfl
  | .number literal =>
    obtain ⟨c, cs, split⟩ := List.exists_cons_of_ne_nil literal.filled
    have number := readNumber_literal literal ends
    rw [split, List.cons_append] at number
    rw [write, split, List.cons_append, read_number (literal.plain c (split ▸ List.mem_cons_self)), number]
  | .text s =>
    have whole := readString_writeString s rest
    simp only [writeString, List.cons_append, readString] at whole
    obtain ⟨found, read, same⟩ := Option.map_eq_some_iff.mp whole
    cases same
    rw [write, writeString, List.cons_append, read_text, read, Option.map_some]
  | .array [] => rfl
  | .array (first :: more) =>
    obtain ⟨c, cs, begins, solid, other⟩ := write_begins layout (depth + 1) first
    simp only [write, List.length_cons, List.length_append] at enough
    have head := read_write (depth + 1) first (ends_writeElements layout depth more rest) (show _ ≤ fuel by omega)
    have tail := @readElements_writeElements depth more rest fuel (by omega)
    have gap := layout.gap_blank (depth + 1)
    have filled : ∀ closed, skip (layout.gap (depth + 1) ++ (write layout (depth + 1) first ++
        (writeElements layout depth more ++ rest))) ≠ ']' :: closed := by
      rw [skip_blank gap, begins, List.cons_append, skip_cons solid]
      exact fun _ same => other (List.cons.inj same).1
    rw [write, List.cons_append, List.append_assoc, List.append_assoc, read_array filled,
      read_skip (skip_blank gap _), head]
    simp only [tail, Option.bind_eq_bind, Option.bind_some, Option.pure_def]
  | .object [] => rfl
  | .object (first :: more) =>
    simp only [write, List.length_cons, List.length_append] at enough
    have head := readMember_writeMember (depth + 1) first (ends_writeMembers layout depth more rest)
      (show _ ≤ fuel by omega)
    have tail := @readMembers_writeMembers depth more rest fuel (by omega)
    have gap := layout.gap_blank (depth + 1)
    have filled : ∀ closed, skip (layout.gap (depth + 1) ++ (writeMember layout (depth + 1) first ++
        (writeMembers layout depth more ++ rest))) ≠ '}' :: closed := by
      rw [skip_blank gap, writeMember, writeString, List.cons_append, List.cons_append, skip_cons (by decide)]
      exact fun _ same => absurd (List.cons.inj same).1 (by decide)
    rw [write, List.cons_append, List.append_assoc, List.append_assoc, read_object filled,
      readMember_skip (skip_blank gap _), head]
    simp only [tail, Option.bind_eq_bind, Option.bind_some, Option.pure_def]

theorem readElements_writeElements (depth : Nat) (elements : List Value) {rest : List Char} {fuel : Nat}
    (enough : (writeElements layout depth elements).length ≤ fuel) :
    readElements fuel (writeElements layout depth elements ++ rest) = some (elements, rest) := by
  match elements with
  | [] =>
    simp only [writeElements, List.length_append, List.length_singleton] at enough
    obtain ⟨fuel, rfl⟩ : ∃ n, fuel = n + 1 := ⟨fuel - 1, by omega⟩
    rw [writeElements, List.append_assoc, readElements, skip_blank (layout.gap_blank depth)]
    rfl
  | value :: more =>
    simp only [writeElements, List.length_cons, List.length_append] at enough
    obtain ⟨fuel, rfl⟩ : ∃ n, fuel = n + 1 := ⟨fuel - 1, by omega⟩
    have head := read_write (depth + 1) value (ends_writeElements layout depth more rest) (show _ ≤ fuel by omega)
    have tail := @readElements_writeElements depth more rest fuel (by omega)
    rw [writeElements, List.cons_append, List.append_assoc, List.append_assoc, readElements, skip_cons (by decide)]
    simp only [read_skip (skip_blank (layout.gap_blank (depth + 1)) _), head, tail, Option.bind_eq_bind,
      Option.bind_some, Option.pure_def]

theorem readMember_writeMember (depth : Nat) (member : String × Value) {rest : List Char} (ends : Ends rest)
    {fuel : Nat} (enough : (writeMember layout depth member).length ≤ fuel) :
    readMember fuel (writeMember layout depth member ++ rest) = some (member, rest) := by
  match member with
  | (key, value) =>
    simp only [writeMember, List.length_append, List.length_cons] at enough
    obtain ⟨fuel, rfl⟩ : ∃ n, fuel = n + 1 := ⟨fuel - 1, by omega⟩
    have body := read_write depth value ends (show _ ≤ fuel by omega)
    have quote (cs : List Char) : skip (writeString key ++ cs) = writeString key ++ cs := by
      rw [writeString, List.cons_append, skip_cons (by decide)]
    rw [writeMember, List.append_assoc, List.cons_append, List.append_assoc, readMember, quote]
    have colon (cs : List Char) : skip (':' :: cs) = ':' :: cs := skip_cons (by decide) cs
    simp only [readString_writeString, Option.bind_eq_bind, Option.bind_some, colon,
      read_skip (skip_blank layout.colon_blank _), body, Option.pure_def]

theorem readMembers_writeMembers (depth : Nat) (members : List (String × Value)) {rest : List Char} {fuel : Nat}
    (enough : (writeMembers layout depth members).length ≤ fuel) :
    readMembers fuel (writeMembers layout depth members ++ rest) = some (members, rest) := by
  match members with
  | [] =>
    simp only [writeMembers, List.length_append, List.length_singleton] at enough
    obtain ⟨fuel, rfl⟩ : ∃ n, fuel = n + 1 := ⟨fuel - 1, by omega⟩
    rw [writeMembers, List.append_assoc, readMembers, skip_blank (layout.gap_blank depth)]
    rfl
  | member :: more =>
    simp only [writeMembers, List.length_cons, List.length_append] at enough
    obtain ⟨fuel, rfl⟩ : ∃ n, fuel = n + 1 := ⟨fuel - 1, by omega⟩
    have head := readMember_writeMember (depth + 1) member (ends_writeMembers layout depth more rest)
      (show _ ≤ fuel by omega)
    have tail := @readMembers_writeMembers depth more rest fuel (by omega)
    rw [writeMembers, List.cons_append, List.append_assoc, List.append_assoc, readMembers, skip_cons (by decide)]
    simp only [readMember_skip (skip_blank (layout.gap_blank (depth + 1)) _), head, tail, Option.bind_eq_bind,
      Option.bind_some, Option.pure_def]

end

/-- A value is read back from every layout of it. -/
theorem readText_write (value : Value) : readText (write layout 0 value) = some value := by
  have whole := read_write layout 0 value ends_nil (Nat.le_refl _)
  rw [List.append_nil] at whole
  rw [readText, whole]
  rfl

theorem parse_compact (value : Value) : parse (compact value) = some value := by
  rw [parse, compact, String.toList_ofList, readText_write]

/-! ## Numbers -/

theorem numberChar_of_isDigit {c : Char} (digit : c.isDigit = true) : numberChar c = true := by simp [numberChar, digit]

def nat (n : Nat) : Value :=
  .number ⟨Nat.toDigits 10 n, Nat.toDigits_ne_nil, fun _ member =>
    numberChar_of_isDigit (Nat.isDigit_of_mem_toDigits (by decide) (by decide) member)⟩

def readNat : Value → Option Nat
  | .number literal => if literal.text.all Char.isDigit then some (Nat.ofDigitChars 10 literal.text 0) else none
  | _ => none

theorem readNat_nat (n : Nat) : readNat (nat n) = some n := by
  have digits : (Nat.toDigits 10 n).all Char.isDigit = true :=
    List.all_eq_true.mpr fun _ member => Nat.isDigit_of_mem_toDigits (by decide) (by decide) member
  rw [nat, readNat, if_pos digits, Nat.ofDigitChars_ten_toDigits]

/-! ## Objects entry by entry -/

/-- Puts a member in its place; one of the same key is replaced. -/
def insertMember (key : String) (value : Value) : List (String × Value) → List (String × Value)
  | [] => [(key, value)]
  | (k, v) :: rest =>
    if key = k then (key, value) :: rest
    else if key < k then (key, value) :: (k, v) :: rest
    else (k, v) :: insertMember key value rest

def insertAll (members entries : List (String × Value)) : List (String × Value) :=
  entries.foldl (fun members entry => insertMember entry.1 entry.2 members) members

def ofEntries (entries : List (String × Value)) : Value := .object (insertAll [] entries)

def Value.field (key : String) : Value → Option Value
  | .object members => members.lookup key
  | _ => none

theorem lookup_cons_ite (key other : String) (value : Value) (members : List (String × Value)) :
    ((key, value) :: members).lookup other = if key = other then some value else members.lookup other := by
  rw [List.lookup_cons]
  by_cases own : key = other
  · simp [own]
  · rw [if_neg own, beq_eq_false_iff_ne.mpr (Ne.symm own)]

theorem lookup_insertMember (key other : String) (value : Value) (members : List (String × Value)) :
    (insertMember key value members).lookup other = if key = other then some value else members.lookup other := by
  induction members with
  | nil => exact lookup_cons_ite key other value []
  | cons member rest ih =>
    obtain ⟨k, v⟩ := member
    rw [insertMember]
    split
    · rename_i same
      subst same
      by_cases own : key = other <;> simp only [lookup_cons_ite, own, if_true, if_false]
    · rename_i differs
      split
      · exact lookup_cons_ite key other value _
      · rw [lookup_cons_ite, ih, lookup_cons_ite]
        by_cases own : k = other
        · rw [if_pos own, if_pos own, if_neg fun same => differs (same.trans own.symm)]
        · rw [if_neg own, if_neg own]

theorem lookup_insertAll (entries members : List (String × Value)) (key : String) :
    (insertAll members entries).lookup key = (entries.reverse.lookup key).or (members.lookup key) := by
  induction entries generalizing members with
  | nil => rfl
  | cons entry rest ih =>
    rw [insertAll, List.foldl_cons, ← insertAll, ih, lookup_insertMember, List.reverse_cons, List.lookup_append,
      Option.or_assoc]
    congr 1
    rw [lookup_cons_ite]
    split <;> rfl

theorem field_ofEntries (entries : List (String × Value)) (key : String) :
    (ofEntries entries).field key = entries.reverse.lookup key := by
  rw [ofEntries, Value.field, lookup_insertAll]
  exact Option.or_none

end Library.Json
