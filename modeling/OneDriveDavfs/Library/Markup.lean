import Mathlib.Data.List.Basic

/-! Markup: text with elements in it, how it is written, and how it is read.

`Spells` says which texts spell which content; `parse` reads a text, and every
text that spells content is read as that content. References to characters are
left as they stand in the text and are taken out of it by `unescape`.
-/

set_option autoImplicit false

namespace Library.Markup

/-- A name and what stands behind it up to the end of the tag. -/
structure Tag where
  name : String
  attributes : List Char
  deriving DecidableEq, Repr

namespace Tag

def ofChars (chars : List Char) : Tag :=
  ⟨String.ofList (chars.takeWhile (· ≠ ' ')), chars.dropWhile (· ≠ ' ')⟩

def chars (tag : Tag) : List Char := tag.name.toList ++ tag.attributes

end Tag

inductive Content where
  | done
  | char (c : Char) (rest : Content)
  | element (tag : Tag) (inside rest : Content)
  deriving DecidableEq, Repr

namespace Content

def append : Content → Content → Content
  | .done, other => other
  | .char c rest, other => .char c (rest.append other)
  | .element tag inside rest, other => .element tag inside (rest.append other)

instance : Append Content := ⟨append⟩

def ofText (text : List Char) : Content := text.foldr .char .done

def single (tag : Tag) (inside : Content) : Content := .element tag inside .done

/-- What is in the elements of a name, at any depth and in their order. -/
def named (name : String) : Content → List Content
  | .done => []
  | .char _ rest => rest.named name
  | .element tag inside rest =>
    if tag.name = name then inside :: (inside.named name ++ rest.named name)
    else inside.named name ++ rest.named name

section Named
variable {name : String}

@[simp] theorem named_done : done.named name = [] := rfl

@[simp] theorem named_append (front rest : Content) : (front ++ rest).named name = front.named name ++ rest.named name := by
  change (front.append rest).named name = _
  induction front with
  | done => rfl
  | char c front ih => simpa only [append, named] using ih
  | element tag inside front _ ih =>
    simp only [append, named, ih]
    split <;> simp

@[simp] theorem named_ofText (text : List Char) : (ofText text).named name = [] := by
  induction text with
  | nil => rfl
  | cons c text ih => exact ih

@[simp] theorem named_single (tag : Tag) (inside : Content) :
    (single tag inside).named name = (if tag.name = name then [inside] else []) ++ inside.named name := by
  rw [single, named, named, List.append_nil]
  split <;> rfl

end Named

end Content

/-! ## Writing -/

/-- A tag that opens an element and does not close it: no tag that closes, no instruction. -/
structure OpenTag (tag : Tag) : Prop where
  parts : Tag.ofChars tag.chars = tag
  filled : tag.chars ≠ []
  within : '>' ∉ tag.chars
  first : tag.chars.head? ≠ some '/' ∧ tag.chars.head? ≠ some '?'
  last : tag.chars.getLast? ≠ some '/'

instance (tag : Tag) : Decidable (OpenTag tag) :=
  decidable_of_iff
    (Tag.ofChars tag.chars = tag ∧ tag.chars ≠ [] ∧ '>' ∉ tag.chars ∧
      (tag.chars.head? ≠ some '/' ∧ tag.chars.head? ≠ some '?') ∧ tag.chars.getLast? ≠ some '/')
    ⟨fun given => ⟨given.1, given.2.1, given.2.2.1, given.2.2.2.1, given.2.2.2.2⟩,
      fun tagged => ⟨tagged.parts, tagged.filled, tagged.within, tagged.first, tagged.last⟩⟩

def element (tag : Tag) (inside : List Char) : List Char :=
  '<' :: (tag.chars ++ '>' :: (inside ++ '<' :: '/' :: (tag.name.toList ++ ['>'])))

def emptyElement (tag : Tag) : List Char := '<' :: (tag.chars ++ ['/', '>'])

def instruction (body : List Char) : List Char := '<' :: '?' :: (body ++ ['>'])

/-- The text spells the content. Instructions are not content. -/
inductive Spells : List Char → Content → Prop where
  | done : Spells [] .done
  | char {c : Char} {rest : List Char} {content : Content} (text : c ≠ '<') (after : Spells rest content) :
      Spells (c :: rest) (.char c content)
  | instruction {body rest : List Char} {content : Content} (within : '>' ∉ body) (after : Spells rest content) :
      Spells (instruction body ++ rest) content
  | emptyElement {tag : Tag} {rest : List Char} {content : Content} (tagged : OpenTag tag) (after : Spells rest content) :
      Spells (emptyElement tag ++ rest) (.element tag .done content)
  | element {tag : Tag} {chars rest : List Char} {inside content : Content} (tagged : OpenTag tag)
      (between : Spells chars inside) (after : Spells rest content) :
      Spells (element tag chars ++ rest) (.element tag inside content)

section Spelled
variable {chars others : List Char} {content other : Content}

theorem Spells.append (spells : Spells chars content) (next : Spells others other) :
    Spells (chars ++ others) (content ++ other) := by
  induction spells with
  | done => exact next
  | char text _ ih => exact .char text ih
  | instruction within _ ih =>
    rw [List.append_assoc]
    exact .instruction within ih
  | emptyElement tagged _ ih =>
    rw [List.append_assoc]
    exact .emptyElement tagged ih
  | element tagged between _ _ ih =>
    rw [List.append_assoc]
    exact .element tagged between ih

theorem Spells.ofText {text : List Char} (plain : '<' ∉ text) : Spells text (.ofText text) := by
  induction text with
  | nil => exact .done
  | cons c text ih =>
    obtain ⟨first, others⟩ := List.ne_and_not_mem_of_not_mem_cons plain
    exact .char (Ne.symm first) (ih others)

theorem Spells.single {tag : Tag} (tagged : OpenTag tag) (between : Spells chars content) :
    Spells (Markup.element tag chars) (.single tag content) := by
  rw [← List.append_nil (Markup.element tag chars)]
  exact .element tagged between .done

theorem Spells.empty {tag : Tag} (tagged : OpenTag tag) : Spells (Markup.emptyElement tag) (.single tag .done) := by
  rw [← List.append_nil (Markup.emptyElement tag)]
  exact .emptyElement tagged .done

end Spelled

/-! ## Reading -/

def readTag (chars : List Char) : Option (List Char × List Char) :=
  match chars.dropWhile (· ≠ '>') with
  | [] => none
  | _ :: rest => some (chars.takeWhile (· ≠ '>'), rest)

/-- Content up to a tag that closes or to the end; `fuel` bounds the characters and tags. -/
def read : Nat → List Char → Option (Content × List Char)
  | 0, _ => none
  | _ + 1, [] => some (.done, [])
  | fuel + 1, c :: rest =>
    if c = '<' then do
      let (tag, after) ← readTag rest
      -- the end of what is around, which takes the tag itself
      if tag.head? = some '/' then return (.done, c :: rest)
      else if tag.head? = some '?' then read fuel after
      else if tag.getLast? = some '/' then
        let (content, left) ← read fuel after
        return (.element (.ofChars tag.dropLast) .done content, left)
      else
        let (inside, closing) ← read fuel after
        -- `closing` begins with the `<` of a tag that closes, or is empty
        let (close, after) ← readTag (closing.drop 1)
        if close = '/' :: (Tag.ofChars tag).name.toList then
          let (content, left) ← read fuel after
          return (.element (.ofChars tag) inside content, left)
        else none
    else do
      let (content, left) ← read fuel rest
      return (.char c content, left)

def parse (chars : List Char) : Option Content :=
  match read (chars.length + 1) chars with
  | some (content, []) => some content
  | _ => none

theorem readTag_append {tag : List Char} (within : '>' ∉ tag) (rest : List Char) :
    readTag (tag ++ '>' :: rest) = some (tag, rest) := by
  have stays : ∀ c ∈ tag, decide (c ≠ '>') = true := by
    intro c member
    exact decide_eq_true fun same => within (same ▸ member)
  rw [readTag, List.dropWhile_append_of_pos stays, List.takeWhile_append_of_pos stays]
  simp

def Stops (left : List Char) : Prop := left = [] ∨ ∃ name rest, '>' ∉ name ∧ left = '<' :: '/' :: (name ++ '>' :: rest)

theorem read_stops {left : List Char} (stops : Stops left) (fuel : Nat) : read (fuel + 1) left = some (.done, left) := by
  rcases stops with rfl | ⟨name, rest, within, rfl⟩
  · rfl
  · have closing : '>' ∉ '/' :: name := List.not_mem_cons_of_ne_of_not_mem (by decide) within
    have tag := readTag_append closing rest
    rw [List.cons_append] at tag
    rw [read, if_pos rfl, tag]
    rfl

theorem OpenTag.within_name {tag : Tag} (tagged : OpenTag tag) : '>' ∉ tag.name.toList :=
  fun member => tagged.within (List.mem_append_left _ member)

theorem read_spells {chars : List Char} {content : Content} (spells : Spells chars content) {left : List Char}
    (stops : Stops left) {fuel : Nat} (enough : chars.length < fuel) : read fuel (chars ++ left) = some (content, left) := by
  induction spells generalizing left fuel with
  | done =>
    obtain ⟨fuel, rfl⟩ := Nat.exists_eq_succ_of_ne_zero (Nat.ne_of_gt enough)
    exact read_stops stops fuel
  | char text _ ih =>
    obtain ⟨fuel, rfl⟩ := Nat.exists_eq_succ_of_ne_zero (Nat.ne_of_gt (Nat.zero_lt_of_lt enough))
    rw [List.cons_append, read, if_neg text, ih stops (by simpa using enough)]
    rfl
  | @instruction body rest content within _ ih =>
    obtain ⟨fuel, rfl⟩ := Nat.exists_eq_succ_of_ne_zero (Nat.ne_of_gt (Nat.zero_lt_of_lt enough))
    have question : '>' ∉ '?' :: body := List.not_mem_cons_of_ne_of_not_mem (by decide) within
    have shape : instruction body ++ rest ++ left = '<' :: ('?' :: body ++ '>' :: (rest ++ left)) := by simp [instruction]
    have length : (instruction body ++ rest).length = body.length + rest.length + 3 := by simp [instruction]; omega
    rw [shape, read, if_pos rfl, readTag_append question]
    exact ih stops (by omega)
  | @emptyElement tag rest content tagged _ ih =>
    obtain ⟨fuel, rfl⟩ := Nat.exists_eq_succ_of_ne_zero (Nat.ne_of_gt (Nat.zero_lt_of_lt enough))
    -- the slash is read as the last character of the tag
    have closed : '>' ∉ tag.chars ++ ['/'] := by simpa using tagged.within
    have shape : emptyElement tag ++ rest ++ left = '<' :: ((tag.chars ++ ['/']) ++ '>' :: (rest ++ left)) := by
      simp [emptyElement]
    have length : (emptyElement tag ++ rest).length = tag.chars.length + rest.length + 3 := by simp [emptyElement]; omega
    have head : (tag.chars ++ ['/']).head? = tag.chars.head? := List.head?_append_of_ne_nil _ tagged.filled
    have after := ih stops (show rest.length < fuel by omega)
    rw [shape, read, if_pos rfl, readTag_append closed]
    simp [head, tagged.first, tagged.parts, after]
  | @element tag chars rest inside content tagged between _ insideRead afterRead =>
    obtain ⟨fuel, rfl⟩ := Nat.exists_eq_succ_of_ne_zero (Nat.ne_of_gt (Nat.zero_lt_of_lt enough))
    have closing : '>' ∉ '/' :: tag.name.toList := List.not_mem_cons_of_ne_of_not_mem (by decide) (tagged.within_name)
    have shape : element tag chars ++ rest ++ left =
        '<' :: (tag.chars ++ '>' :: (chars ++ '<' :: ('/' :: tag.name.toList ++ '>' :: (rest ++ left)))) := by simp [element]
    have length : (element tag chars ++ rest).length =
        tag.chars.length + chars.length + (tag.name.toList).length + rest.length + 5 := by simp [element]; omega
    -- the reading of the inside stops at the tag that closes
    have closes : Stops ('<' :: ('/' :: tag.name.toList ++ '>' :: (rest ++ left))) :=
      .inr ⟨tag.name.toList, rest ++ left, tagged.within_name, rfl⟩
    rw [shape, read, if_pos rfl, readTag_append tagged.within]
    have first := insideRead closes (show chars.length < fuel by omega)
    have second := afterRead stops (show rest.length < fuel by omega)
    have close := readTag_append closing (rest ++ left)
    rw [List.cons_append] at first close
    simp [first, second, close, tagged.first, tagged.last, tagged.parts]

theorem parse_spells {chars : List Char} {content : Content} (spells : Spells chars content) :
    parse chars = some content := by
  have whole := read_spells spells (.inl rfl) (Nat.lt_succ_self _)
  rw [List.append_nil] at whole
  rw [parse, whole]

/-! ## References -/

def entities : List (List Char × Char) :=
  [("amp".toList, '&'), ("lt".toList, '<'), ("gt".toList, '>'), ("quot".toList, '"'), ("apos".toList, '\'')]

def reference (name : List Char) : List Char := '&' :: (name ++ [';'])

/-- Takes the references out of a text; inside of one, the name so far is kept, last character
first. -/
def unescapeFrom : Option (List Char) → List Char → Option (List Char)
  | none, [] => some []
  | some _, [] => none
  | none, c :: rest => if c = '&' then unescapeFrom (some []) rest else (unescapeFrom none rest).map (c :: ·)
  | some name, c :: rest =>
    if c = ';' then do
      let value ← entities.lookup name.reverse
      let text ← unescapeFrom none rest
      return value :: text
    else unescapeFrom (some (c :: name)) rest

def unescape (text : List Char) : Option (List Char) := unescapeFrom none text

/-- No character of the text can be taken for markup. -/
structure Quiet (text : List Char) : Prop where
  plain : ∀ c ∈ text, c ≠ '<' ∧ c ≠ '>' ∧ c ≠ '"' ∧ c ≠ '\''
  references : ∀ front rest, text = front ++ '&' :: rest → ∃ entity ∈ entities, entity.1 ++ [';'] <+: rest

theorem unescapeFrom_name {name : List Char} (plain : ';' ∉ name) (front rest : List Char) :
    unescapeFrom (some front) (name ++ ';' :: rest) =
      (entities.lookup (front.reverse ++ name)).bind fun value => (unescapeFrom none rest).map (value :: ·) := by
  induction name generalizing front with
  | nil =>
    rw [List.nil_append, unescapeFrom, if_pos rfl, List.append_nil]
    cases unescapeFrom none rest <;> rfl
  | cons c name ih =>
    obtain ⟨first, others⟩ := List.ne_and_not_mem_of_not_mem_cons plain
    rw [List.cons_append, unescapeFrom, if_neg (Ne.symm first), ih others]
    simp

theorem unescape_reference {name : List Char} {value : Char} (entity : (name, value) ∈ entities) (rest : List Char) :
    unescape (reference name ++ rest) = (unescape rest).map (value :: ·) := by
  have known : (entities.all fun entity => !entity.1.contains ';' && entities.lookup entity.1 == some entity.2) = true := by
    decide
  have own := List.all_eq_true.mp known _ entity
  simp only [Bool.and_eq_true, Bool.not_eq_true', List.contains_eq_mem, decide_eq_false_iff_not, beq_iff_eq] at own
  have text : reference name ++ rest = '&' :: (name ++ ';' :: rest) := by simp [reference]
  rw [text, unescape, unescapeFrom, if_pos rfl, unescapeFrom_name own.1, List.reverse_nil, List.nil_append, own.2,
    Option.bind_some, unescape]

theorem unescape_cons {c : Char} (plain : c ≠ '&') (rest : List Char) :
    unescape (c :: rest) = (unescape rest).map (c :: ·) := by
  rw [unescape, unescapeFrom, if_neg plain, unescape]

theorem Quiet.append {front rest : List Char} (quiet : Quiet front) (others : Quiet rest) : Quiet (front ++ rest) := by
  constructor
  case plain =>
    intro c member
    rcases List.mem_append.mp member with early | late
    · exact quiet.plain c early
    · exact others.plain c late
  case references =>
    intro before after split
    rcases List.append_eq_append_iff.mp split with ⟨between, rfl, tail⟩ | ⟨between, head, tail⟩
    · exact others.references between after tail
    · cases between with
      | nil => exact others.references [] after tail.symm
      | cons c between =>
        cases tail
        obtain ⟨entity, member, begins⟩ := quiet.references before between head
        exact ⟨entity, member, begins.trans (List.prefix_append _ _)⟩

theorem Quiet.of_plain {text : List Char} (plain : ∀ c ∈ text, c ≠ '<' ∧ c ≠ '>' ∧ c ≠ '"' ∧ c ≠ '\'' ∧ c ≠ '&') :
    Quiet text := by
  constructor
  case plain =>
    intro c member
    obtain ⟨less, greater, quote, apostrophe, _⟩ := plain c member
    exact ⟨less, greater, quote, apostrophe⟩
  case references =>
    intro front rest split
    have ampersand : '&' ∈ text := by rw [split]; simp
    exact absurd rfl (plain '&' ampersand).2.2.2.2

theorem Quiet.reference {name : List Char} {value : Char} (entity : (name, value) ∈ entities) :
    Quiet (Markup.reference name) := by
  have all : (entities.all fun entity => (entity.1 ++ [';']).all fun c =>
      c != '<' && c != '>' && c != '"' && c != '\'' && c != '&') = true := by decide
  have plain : ∀ c ∈ name ++ [';'], c ≠ '<' ∧ c ≠ '>' ∧ c ≠ '"' ∧ c ≠ '\'' ∧ c ≠ '&' := by
    intro c member
    have checked := List.all_eq_true.mp (List.all_eq_true.mp all _ entity) c member
    simpa only [Bool.and_eq_true, bne_iff_ne, and_assoc] using checked
  constructor
  case plain =>
    intro c member
    rcases List.mem_cons.mp member with rfl | inName
    · decide
    · obtain ⟨less, greater, quote, apostrophe, _⟩ := plain c inName
      exact ⟨less, greater, quote, apostrophe⟩
  case references =>
    intro front rest split
    cases front with
    | nil =>
      cases split
      exact ⟨_, entity, List.prefix_rfl⟩
    | cons c front =>
      -- there is no second ampersand
      obtain ⟨_, tail⟩ := List.cons.inj split
      have inName : '&' ∈ name ++ [';'] := by rw [tail]; simp
      exact absurd rfl (plain '&' inName).2.2.2.2

end Library.Markup
