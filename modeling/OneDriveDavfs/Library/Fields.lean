import OneDriveDavfs.Library.Wire

/-! Records of texts with a length in front and of numbers.

A record is a list of fields that stand one after the other in some bytes. The
length in front of a text comes with the bytes and can point anywhere, so a
reader has to be told apart from the record: what passes is a record whose
fields are all inside the bytes, what overruns is a length that leaves the
address space.
-/

set_option autoImplicit false

namespace Library.Fields

open Library.Wire

inductive Field where
  /-- Four bytes with the length, then that many bytes of UTF-8. -/
  | text
  | fixed (width : Nat)
  deriving DecidableEq, Repr

def textEnd (data : Bytes) (pos : Nat) : Nat := pos + 4 + ofLe (slice data pos (pos + 4))

structure TextAt (data : Bytes) (pos stop : Nat) : Prop where
  length : pos + 4 ≤ data.length
  ends : stop = textEnd data pos
  inside : stop ≤ data.length
  valid : (fromUtf8 (slice data (pos + 4) stop)).isSome = true

/-- The fields stand in the data one after the other from the first position to the second. -/
inductive Passes (data : Bytes) : List Field → Nat → Nat → Prop where
  | done {pos : Nat} : Passes data [] pos pos
  | text {pos mid stop : Nat} {fields : List Field} : TextAt data pos mid → Passes data fields mid stop →
      Passes data (.text :: fields) pos stop
  | fixed {pos stop width : Nat} {fields : List Field} : pos + width ≤ data.length →
      Passes data fields (pos + width) stop → Passes data (.fixed width :: fields) pos stop

/-- All fields before some text stand in the data, and the text comes next. -/
def Meets (data : Bytes) (fields : List Field) (pos here : Nat) : Prop :=
  ∃ front back, fields = front ++ .text :: back ∧ Passes data front pos here

/-- The length of the text leads to or beyond the bound. -/
def Overruns (bound : Nat) (data : Bytes) (pos : Nat) : Prop := pos + 4 ≤ data.length ∧ bound ≤ textEnd data pos

def repeated (record : List Field) : Nat → List Field
  | 0 => []
  | count + 1 => record ++ repeated record count

variable {data : Bytes} {fields more : List Field} {pos stop : Nat}

theorem TextAt.lt {mid : Nat} (text : TextAt data pos mid) : pos < mid := by
  rw [text.ends, textEnd]
  omega

theorem passes_nil_iff : Passes data [] pos stop ↔ stop = pos := by
  constructor
  · rintro ⟨⟩
    rfl
  · rintro rfl
    exact .done

theorem passes_text_iff : Passes data (.text :: fields) pos stop ↔ ∃ mid, TextAt data pos mid ∧ Passes data fields mid stop := by
  constructor
  · rintro (_ | ⟨text, rest⟩)
    exact ⟨_, text, rest⟩
  · rintro ⟨mid, text, rest⟩
    exact .text text rest

theorem passes_fixed_iff {width : Nat} : Passes data (.fixed width :: fields) pos stop ↔
    pos + width ≤ data.length ∧ Passes data fields (pos + width) stop := by
  constructor
  · rintro (_ | _ | ⟨inside, rest⟩)
    exact ⟨inside, rest⟩
  · rintro ⟨inside, rest⟩
    exact .fixed inside rest

theorem passes_append_iff : Passes data (fields ++ more) pos stop ↔
    ∃ mid, Passes data fields pos mid ∧ Passes data more mid stop := by
  induction fields generalizing pos with
  | nil => simp [passes_nil_iff]
  | cons field rest ih =>
    cases field with
    | text =>
      simp only [List.cons_append, passes_text_iff, ih]
      constructor
      · rintro ⟨next, text, mid, first, second⟩
        exact ⟨mid, ⟨next, text, first⟩, second⟩
      · rintro ⟨mid, ⟨next, text, first⟩, second⟩
        exact ⟨next, text, mid, first, second⟩
    | fixed width =>
      simp only [List.cons_append, passes_fixed_iff, ih]
      constructor
      · rintro ⟨inside, mid, first, second⟩
        exact ⟨mid, ⟨inside, first⟩, second⟩
      · rintro ⟨mid, ⟨inside, first⟩, second⟩
        exact ⟨inside, mid, first, second⟩

theorem Passes.le (passes : Passes data fields pos stop) : pos ≤ stop := by
  induction passes with
  | done => exact Nat.le_refl _
  | text text _ ih => exact Nat.le_trans (Nat.le_of_lt text.lt) ih
  | fixed _ _ ih => omega

theorem Passes.le_length (passes : Passes data fields pos stop) (inside : pos ≤ data.length) : stop ≤ data.length := by
  induction passes with
  | done => exact inside
  | text text _ ih => exact ih text.inside
  | fixed bound _ ih => exact ih bound

theorem Passes.unique {other : Nat} (first : Passes data fields pos stop) (second : Passes data fields pos other) :
    stop = other := by
  induction first with
  | done => exact (passes_nil_iff.mp second).symm
  | text text _ ih =>
    obtain ⟨mid, again, rest⟩ := passes_text_iff.mp second
    rw [again.ends, ← text.ends] at rest
    exact ih rest
  | fixed _ _ ih => exact ih (passes_fixed_iff.mp second).2

theorem meets_nil_iff {here : Nat} : ¬ Meets data [] pos here := by
  rintro ⟨front, back, same, _⟩
  simp at same

theorem meets_text_iff {here : Nat} : Meets data (.text :: fields) pos here ↔
    here = pos ∨ ∃ mid, TextAt data pos mid ∧ Meets data fields mid here := by
  constructor
  · rintro ⟨front, back, same, passes⟩
    cases front with
    | nil => exact .inl (passes_nil_iff.mp passes)
    | cons first front =>
      obtain ⟨rfl, rfl⟩ := List.cons.inj same
      obtain ⟨mid, text, rest⟩ := passes_text_iff.mp passes
      exact .inr ⟨mid, text, front, back, rfl, rest⟩
  · rintro (rfl | ⟨mid, text, front, back, rfl, rest⟩)
    · exact ⟨[], fields, rfl, .done⟩
    · exact ⟨.text :: front, back, rfl, .text text rest⟩

theorem meets_fixed_iff {here width : Nat} : Meets data (.fixed width :: fields) pos here ↔
    pos + width ≤ data.length ∧ Meets data fields (pos + width) here := by
  constructor
  · rintro ⟨front, back, same, passes⟩
    cases front with
    | nil => cases (List.cons.inj same).1
    | cons first front =>
      obtain ⟨rfl, rfl⟩ := List.cons.inj same
      obtain ⟨inside, rest⟩ := passes_fixed_iff.mp passes
      exact ⟨inside, front, back, rfl, rest⟩
  · rintro ⟨inside, front, back, rfl, rest⟩
    exact ⟨.fixed width :: front, back, rfl, .fixed inside rest⟩

theorem meets_append_iff {here : Nat} : Meets data (fields ++ more) pos here ↔
    Meets data fields pos here ∨ ∃ mid, Passes data fields pos mid ∧ Meets data more mid here := by
  induction fields generalizing pos with
  | nil => simp [passes_nil_iff, meets_nil_iff]
  | cons field rest ih =>
    cases field with
    | text =>
      simp only [List.cons_append, meets_text_iff, passes_text_iff, ih]
      constructor
      · rintro (same | ⟨mid, text, first | ⟨next, passes, second⟩⟩)
        · exact .inl (.inl same)
        · exact .inl (.inr ⟨mid, text, first⟩)
        · exact .inr ⟨next, ⟨mid, text, passes⟩, second⟩
      · rintro ((same | ⟨mid, text, first⟩) | ⟨next, ⟨mid, text, passes⟩, second⟩)
        · exact .inl same
        · exact .inr ⟨mid, text, .inl first⟩
        · exact .inr ⟨mid, text, .inr ⟨next, passes, second⟩⟩
    | fixed width =>
      simp only [List.cons_append, meets_fixed_iff, passes_fixed_iff, ih]
      constructor
      · rintro ⟨inside, first | ⟨next, passes, second⟩⟩
        · exact .inl ⟨inside, first⟩
        · exact .inr ⟨next, ⟨inside, passes⟩, second⟩
      · rintro (⟨inside, first⟩ | ⟨next, ⟨inside, passes⟩, second⟩)
        · exact ⟨inside, .inl first⟩
        · exact ⟨inside, .inr ⟨next, passes, second⟩⟩

theorem Meets.le {here : Nat} (meets : Meets data fields pos here) : pos ≤ here := by
  obtain ⟨_, _, _, passes⟩ := meets
  exact passes.le

end Library.Fields
