import OneDriveDavfs.Library.Json

/-! A JSON text that was cut short.

What a reader takes from a text does not depend on what follows, except that a
number goes on with its characters. So a proper beginning of an object cannot
be read: with the end behind it, the reader would leave that end.
-/

set_option autoImplicit false

namespace Library.Json

variable (layout : Layout)

theorem readChars_append {cs found rest : List Char} (read : readChars cs = some (found, rest)) (more : List Char) :
    readChars (cs ++ more) = some (found, rest ++ more) := by
  fun_induction readChars cs generalizing found rest with
  | case1 => cases read
  | case2 => cases read; rfl
  | case3 high low tail ih =>
    obtain ⟨inner, was, same⟩ := Option.map_eq_some_iff.mp read
    cases same
    simp only [List.cons_append, readChars, ih was, Option.map_some]
  | case4 => cases read
  | case5 tail ih | case6 tail ih | case7 tail ih | case8 tail ih | case9 tail ih =>
    obtain ⟨inner, was, same⟩ := Option.map_eq_some_iff.mp read
    cases same
    simp only [List.cons_append, readChars, ih was, Option.map_some]
  | case10 c tail =>
    rename_i ih
    obtain ⟨inner, was, same⟩ := Option.map_eq_some_iff.mp read
    cases same
    rw [List.cons_append, List.cons_append, readChars, ih was]
    · rfl
    all_goals simp_all
  | case11 c tail =>
    rename_i quote _ _ _ _ _ _ _ escaped ih
    obtain ⟨inner, was, same⟩ := Option.map_eq_some_iff.mp read
    cases same
    have slash : c ≠ '\\' := by
      intro same
      cases tail with
      | nil => cases was
      | cons d ds => exact escaped d ds same rfl
    rw [List.cons_append, readChars_plain quote slash, ih was, Option.map_some]

theorem readString_append {cs rest : List Char} {s : String} (read : readString cs = some (s, rest)) (more : List Char) :
    readString (cs ++ more) = some (s, rest ++ more) := by
  unfold readString at read
  split at read
  · obtain ⟨found, was, same⟩ := Option.map_eq_some_iff.mp read
    cases same
    simp only [List.cons_append, readString, readChars_append was more, Option.map_some]
  · cases read

def Value.isNumber : Value → Bool
  | .number _ => true
  | _ => false

theorem readNumber_append {cs rest : List Char} {value : Value} (read : readNumber cs = some (value, rest))
    (stopped : rest ≠ []) (more : List Char) : readNumber (cs ++ more) = some (value, rest ++ more) := by
  unfold readNumber at read
  split at read
  · rename_i filled
    cases read
    have shorter : ¬ (cs.takeWhile numberChar).length = cs.length := by
      intro whole
      have split := congrArg List.length (List.takeWhile_append_dropWhile (p := numberChar) (l := cs))
      rw [List.length_append] at split
      exact stopped (List.length_eq_zero_iff.mp (by omega))
    have taken : (cs ++ more).takeWhile numberChar = cs.takeWhile numberChar := by
      rw [List.takeWhile_append, if_neg shorter]
    have left : (cs ++ more).dropWhile numberChar = cs.dropWhile numberChar ++ more := by
      rw [List.dropWhile_append, if_neg (by simpa using stopped)]
    unfold readNumber
    simp only [taken, left, dif_pos filled]
  · cases read

theorem readNumber_begins {cs rest : List Char} {value : Value} (read : readNumber cs = some (value, rest)) :
    value.isNumber = true ∧ ∃ c inner, cs = c :: inner ∧ numberChar c = true := by
  unfold readNumber at read
  split at read
  · rename_i filled
    cases read
    refine ⟨rfl, ?_⟩
    cases cs with
    | nil => exact absurd rfl filled
    | cons c inner =>
      by_cases plain : numberChar c = true
      · exact ⟨c, inner, rfl, plain⟩
      · exact absurd (List.takeWhile_cons_of_neg plain) filled
  · cases read

theorem readScalar_append {cs rest : List Char} {value : Value} (read : readScalar cs = some (value, rest))
    (stopped : value.isNumber = true → rest ≠ []) (more : List Char) :
    readScalar (cs ++ more) = some (value, rest ++ more) := by
  unfold readScalar at read
  split at read
  · cases read; rfl
  · cases read; rfl
  · cases read; rfl
  · obtain ⟨number, c, inner, rfl, plain⟩ := readNumber_begins read
    rw [List.cons_append, readScalar_number plain, ← List.cons_append]
    exact readNumber_append read (stopped number) more

/-- What was read is read in more rounds and with more text behind it as well; a number has to be at its end. -/
structure Grows (fuel : Nat) : Prop where
  value : ∀ {cs value rest}, read fuel cs = some (value, rest) → (value.isNumber = true → rest ≠ []) →
    ∀ {rounds}, fuel ≤ rounds → ∀ more, read rounds (cs ++ more) = some (value, rest ++ more)
  elements : ∀ {cs elements rest}, readElements fuel cs = some (elements, rest) →
    ∀ {rounds}, fuel ≤ rounds → ∀ more, readElements rounds (cs ++ more) = some (elements, rest ++ more)
  member : ∀ {cs member rest}, readMember fuel cs = some (member, rest) → rest ≠ [] →
    ∀ {rounds}, fuel ≤ rounds → ∀ more, readMember rounds (cs ++ more) = some (member, rest ++ more)
  members : ∀ {cs members rest}, readMembers fuel cs = some (members, rest) →
    ∀ {rounds}, fuel ≤ rounds → ∀ more, readMembers rounds (cs ++ more) = some (members, rest ++ more)

section Filled
variable {fuel : Nat} {cs : List Char}

theorem skip_ne_of_read {found : Value × List Char} (was : read fuel cs = some found) : skip cs ≠ [] := by
  intro empty
  rw [read_skip (show skip cs = skip [] by rw [empty]; rfl)] at was
  cases fuel <;> cases was

theorem skip_ne_of_readMember {found : (String × Value) × List Char} (was : readMember fuel cs = some found) :
    skip cs ≠ [] := by
  intro empty
  rw [readMember_skip (show skip cs = skip [] by rw [empty]; rfl)] at was
  cases fuel <;> cases was

theorem ne_of_readElements {found : List Value × List Char} (was : readElements fuel cs = some found) : cs ≠ [] := by
  rintro rfl
  cases fuel <;> cases was

theorem ne_of_readMembers {found : List (String × Value) × List Char} (was : readMembers fuel cs = some found) :
    cs ≠ [] := by
  rintro rfl
  cases fuel <;> cases was

end Filled

theorem skip_append_ne {cs : List Char} {c : Char} (other : ∀ tail, skip cs ≠ c :: tail) (filled : skip cs ≠ [])
    (more tail : List Char) : skip (cs ++ more) ≠ c :: tail := by
  rw [skip_append filled]
  cases begins : skip cs with
  | nil => exact absurd begins filled
  | cons d ds =>
    intro same
    exact other ds (begins.trans (by rw [(List.cons.inj same).1]))

section Step
variable {fuel rounds : Nat} (ih : Grows fuel) (enough : fuel ≤ rounds) (more : List Char)
include ih enough

theorem Grows.array_step {inner rest : List Char} {value : Value}
    (found : read (fuel + 1) ('[' :: inner) = some (value, rest)) :
    read (rounds + 1) ('[' :: (inner ++ more)) = some (value, rest ++ more) := by
  by_cases closed : ∃ tail, skip inner = ']' :: tail
  · obtain ⟨tail, closed⟩ := closed
    rw [read_array_nil closed] at found
    cases found
    exact read_array_nil (by rw [skip_append (by simp [closed]), closed, List.cons_append])
  · have other : ∀ tail, skip inner ≠ ']' :: tail := fun tail same => closed ⟨tail, same⟩
    rw [read_array other] at found
    simp only [Option.bind_eq_bind, Option.bind_eq_some_iff, Option.pure_def] at found
    obtain ⟨⟨first, middle⟩, head, ⟨others, last⟩, tail, same⟩ := found
    cases same
    rw [read_array (skip_append_ne other (skip_ne_of_read head) more),
      ih.value head (fun _ => ne_of_readElements tail) enough]
    simp only [ih.elements tail enough, Option.bind_eq_bind, Option.bind_some, Option.pure_def]

theorem Grows.object_step {inner rest : List Char} {value : Value}
    (found : read (fuel + 1) ('{' :: inner) = some (value, rest)) :
    read (rounds + 1) ('{' :: (inner ++ more)) = some (value, rest ++ more) := by
  by_cases closed : ∃ tail, skip inner = '}' :: tail
  · obtain ⟨tail, closed⟩ := closed
    rw [read_object_nil closed] at found
    cases found
    exact read_object_nil (by rw [skip_append (by simp [closed]), closed, List.cons_append])
  · have other : ∀ tail, skip inner ≠ '}' :: tail := fun tail same => closed ⟨tail, same⟩
    rw [read_object other] at found
    simp only [Option.bind_eq_bind, Option.bind_eq_some_iff, Option.pure_def] at found
    obtain ⟨⟨first, middle⟩, head, ⟨others, last⟩, tail, same⟩ := found
    cases same
    rw [read_object (skip_append_ne other (skip_ne_of_readMember head) more),
      ih.member head (ne_of_readMembers tail) enough]
    simp only [ih.members tail enough, Option.bind_eq_bind, Option.bind_some, Option.pure_def]

theorem Grows.value_step {cs rest : List Char} {value : Value} (found : read (fuel + 1) cs = some (value, rest))
    (stopped : value.isNumber = true → rest ≠ []) : read (rounds + 1) (cs ++ more) = some (value, rest ++ more) := by
  cases begins : skip cs with
  | nil =>
    rw [read, begins] at found
    cases found
  | cons c inner =>
    have filled : skip cs ≠ [] := by simp [begins]
    have solid := isBlank_of_skip begins
    have front : skip cs = skip (c :: inner) := by rw [begins, skip_cons solid]
    have whole : skip (cs ++ more) = skip (c :: (inner ++ more)) := by
      rw [skip_append filled, begins, List.cons_append, skip_cons solid]
    rw [read_skip front] at found
    rw [read_skip whole]
    by_cases text : c = '"'
    · subst text
      rw [read_text] at found ⊢
      obtain ⟨chars, was, same⟩ := Option.map_eq_some_iff.mp found
      cases same
      rw [readChars_append was, Option.map_some]
    by_cases array : c = '['
    · subst array
      exact ih.array_step enough more found
    by_cases object : c = '{'
    · subst object
      exact ih.object_step enough more found
    · rw [read_scalar solid text array object] at found ⊢
      rw [← List.cons_append]
      exact readScalar_append found stopped more

theorem Grows.elements_step {cs rest : List Char} {elements : List Value}
    (found : readElements (fuel + 1) cs = some (elements, rest)) :
    readElements (rounds + 1) (cs ++ more) = some (elements, rest ++ more) := by
  have filled : skip cs ≠ [] := by
    intro empty
    rw [readElements, empty] at found
    cases found
  rw [readElements] at found ⊢
  rw [skip_append filled]
  split at found
  · rename_i tail closed
    cases found
    rw [closed]
    rfl
  · rename_i inner begins
    simp only [Option.bind_eq_bind, Option.bind_eq_some_iff, Option.pure_def] at found
    obtain ⟨⟨value, middle⟩, head, ⟨others, last⟩, tail, same⟩ := found
    cases same
    rw [begins]
    have grown := ih.value head (fun _ => ne_of_readElements tail) enough
    simp only [List.cons_append, grown, ih.elements tail enough, Option.bind_eq_bind, Option.bind_some,
      Option.pure_def]
  · cases found

theorem Grows.member_step {cs rest : List Char} {member : String × Value}
    (found : readMember (fuel + 1) cs = some (member, rest)) (stopped : rest ≠ []) :
    readMember (rounds + 1) (cs ++ more) = some (member, rest ++ more) := by
  rw [readMember] at found ⊢
  simp only [Option.bind_eq_bind, Option.bind_eq_some_iff] at found
  obtain ⟨⟨key, middle⟩, keyRead, found⟩ := found
  have filled : skip cs ≠ [] := by
    intro empty
    rw [empty] at keyRead
    cases keyRead
  dsimp only at found
  split at found
  · rename_i inner colon
    simp only [Option.bind_eq_some_iff, Option.pure_def] at found
    obtain ⟨⟨value, last⟩, body, same⟩ := found
    cases same
    rw [skip_append filled]
    have behind : skip middle ≠ [] := by simp [colon]
    simp only [readString_append keyRead, Option.bind_eq_bind, Option.bind_some, skip_append behind, colon,
      List.cons_append, ih.value body (fun _ => stopped) enough, Option.pure_def]
  · cases found

theorem Grows.members_step {cs rest : List Char} {members : List (String × Value)}
    (found : readMembers (fuel + 1) cs = some (members, rest)) :
    readMembers (rounds + 1) (cs ++ more) = some (members, rest ++ more) := by
  have filled : skip cs ≠ [] := by
    intro empty
    rw [readMembers, empty] at found
    cases found
  rw [readMembers] at found ⊢
  rw [skip_append filled]
  split at found
  · rename_i tail closed
    cases found
    rw [closed]
    rfl
  · rename_i inner begins
    simp only [Option.bind_eq_bind, Option.bind_eq_some_iff, Option.pure_def] at found
    obtain ⟨⟨member, middle⟩, head, ⟨others, last⟩, tail, same⟩ := found
    cases same
    rw [begins]
    simp only [List.cons_append, ih.member head (ne_of_readMembers tail) enough, ih.members tail enough, Option.bind_eq_bind,
      Option.bind_some, Option.pure_def]
  · cases found

end Step

theorem grows (fuel : Nat) : Grows fuel := by
  induction fuel with
  | zero =>
    constructor
    all_goals
      intro _ _ _ found
      cases found
  | succ fuel ih =>
    have rounds {n : Nat} (enough : fuel + 1 ≤ n) : ∃ m, n = m + 1 := ⟨n - 1, by omega⟩
    constructor
    · intro cs value rest found stopped n enough more
      obtain ⟨m, rfl⟩ := rounds enough
      exact ih.value_step (Nat.le_of_succ_le_succ enough) more found stopped
    · intro cs elements rest found n enough more
      obtain ⟨m, rfl⟩ := rounds enough
      exact ih.elements_step (Nat.le_of_succ_le_succ enough) more found
    · intro cs member rest found stopped n enough more
      obtain ⟨m, rfl⟩ := rounds enough
      exact ih.member_step (Nat.le_of_succ_le_succ enough) more found stopped
    · intro cs members rest found n enough more
      obtain ⟨m, rfl⟩ := rounds enough
      exact ih.members_step (Nat.le_of_succ_le_succ enough) more found

theorem isNumber_of_read_object {fuel : Nat} {inner rest : List Char} {value : Value}
    (found : read (fuel + 1) ('{' :: inner) = some (value, rest)) : value.isNumber = false := by
  by_cases closed : ∃ tail, skip inner = '}' :: tail
  · obtain ⟨tail, closed⟩ := closed
    rw [read_object_nil closed] at found
    cases found
    rfl
  · rw [read_object fun tail same => closed ⟨tail, same⟩] at found
    simp only [Option.bind_eq_bind, Option.bind_eq_some_iff, Option.pure_def] at found
    obtain ⟨_, _, _, _, same⟩ := found
    cases same
    rfl

/-- A proper beginning of an object is not a text. -/
theorem readText_cut {members : List (String × Value)} {front tail : List Char}
    (whole : front ++ tail = write layout 0 (.object members)) (more : tail ≠ []) : readText front = none := by
  by_contra found
  obtain ⟨value, found⟩ := Option.ne_none_iff_exists'.mp found
  unfold readText at found
  split at found
  · rename_i inner rest was
    have object : inner.isNumber = false := by
      cases front with
      | nil => cases was
      | cons c cs =>
        have brace : c = '{' := by
          cases members <;> (rw [write] at whole; exact (List.cons.inj whole).1)
        subst brace
        exact isNumber_of_read_object was
    have enough : front.length ≤ (write layout 0 (.object members)).length := by
      rw [← whole, List.length_append]
      omega
    -- with its end behind it the beginning is still what was read, and the end is left
    have longer := (grows front.length).value was (by simp [object]) enough tail
    have written := read_write layout 0 (.object members) ends_nil (Nat.le_refl _)
    rw [List.append_nil] at written
    rw [whole, written] at longer
    have left : rest ++ tail = [] := (Prod.mk.inj (Option.some.inj longer)).2.symm
    exact more (List.append_eq_nil_iff.mp left).2
  · cases found

end Library.Json
