import Mathlib.Data.List.DropRight
import Mathlib.Data.List.Infix

/-! Lists cut into pieces at a separator.

A clean piece is non-empty and holds no separator. Every list has one list of
clean pieces, and joining clean pieces loses nothing: the pieces, the last
piece and everything before it can all be read back.
-/

set_option autoImplicit false

namespace Library.Separated

variable {α : Type}

def Clean (sep : α) (piece : List α) : Prop := piece ≠ [] ∧ sep ∉ piece

/-- Every piece behind a separator of its own. -/
def joined (sep : α) (segs : List (List α)) : List α := segs.flatMap (sep :: ·)

@[simp] theorem joined_nil (sep : α) : joined sep [] = [] := rfl

@[simp] theorem joined_cons (sep : α) (seg : List α) (segs : List (List α)) :
    joined sep (seg :: segs) = sep :: (seg ++ joined sep segs) := rfl

@[simp] theorem joined_append (sep : α) (front rest : List (List α)) :
    joined sep (front ++ rest) = joined sep front ++ joined sep rest := by
  simp [joined]

theorem joined_eq_intercalate (sep : α) (segs : List (List α)) (nonempty : segs ≠ []) :
    joined sep segs = sep :: [sep].intercalate segs := by
  induction segs with
  | nil => exact absurd rfl nonempty
  | cons seg rest ih =>
    cases rest with
    | nil => simp
    | cons next rest => rw [joined_cons, ih (by simp), List.intercalate_cons_cons]; simp

variable [DecidableEq α]

instance (sep : α) (piece : List α) : Decidable (Clean sep piece) :=
  inferInstanceAs (Decidable (_ ∧ _))

def pieces (sep : α) (xs : List α) : List (List α) := (xs.splitOn sep).filter (· ≠ [])

theorem clean_of_mem_splitOn (sep : α) (xs : List α) : ∀ piece ∈ xs.splitOn sep, sep ∉ piece := by
  induction xs with
  | nil => simp
  | cons x xs ih =>
    obtain ⟨first, rest, split⟩ := List.exists_cons_of_ne_nil (List.splitOn_ne_nil sep xs)
    rw [List.splitOn_cons_eq_if_modifyHead]
    intro piece member
    by_cases same : x = sep
    · simp only [same, beq_self_eq_true, if_true, List.mem_cons] at member
      rcases member with rfl | member
      · exact List.not_mem_nil
      · exact ih piece member
    · simp only [beq_iff_eq, same, if_false, split, List.modifyHead_cons, List.mem_cons] at member
      rcases member with rfl | member
      · have firstClean := ih first (by simp [split])
        simp [Ne.symm same, firstClean]
      · exact ih piece (by simp [split, member])

theorem clean_of_mem_pieces {sep : α} {xs piece : List α} (member : piece ∈ pieces sep xs) :
    Clean sep piece := by
  simp only [pieces, ne_eq, decide_not, List.mem_filter, Bool.not_eq_eq_eq_not, Bool.not_true,
    decide_eq_false_iff_not] at member
  exact ⟨member.2, clean_of_mem_splitOn sep xs piece member.1⟩

@[simp] theorem pieces_nil (sep : α) : pieces sep [] = [] := by simp [pieces]

theorem pieces_append_sep (sep : α) (front rest : List α) :
    pieces sep (front ++ sep :: rest) = pieces sep front ++ pieces sep rest := by
  simp [pieces, List.splitOn_append_cons_self]

theorem pieces_of_clean {sep : α} {seg : List α} (clean : Clean sep seg) :
    pieces sep seg = [seg] := by
  simp [pieces, List.splitOn_eq_singleton clean.2, clean.1]

/-- Clean pieces survive being joined and cut again. -/
theorem pieces_joined {sep : α} {segs : List (List α)} (clean : ∀ seg ∈ segs, Clean sep seg) :
    pieces sep (joined sep segs) = segs := by
  induction segs with
  | nil => simp
  | cons seg rest ih =>
    have restClean : ∀ seg ∈ rest, Clean sep seg := fun s member => clean s (by simp [member])
    have segClean := clean seg (by simp)
    rw [joined_cons, ← List.nil_append (sep :: _), pieces_append_sep, pieces_nil, List.nil_append]
    cases rest with
    | nil => simpa using pieces_of_clean segClean
    | cons next rest =>
      rw [joined_cons, pieces_append_sep, pieces_of_clean segClean]
      have tail := ih restClean
      rw [joined_cons, ← List.nil_append (sep :: _), pieces_append_sep, pieces_nil, List.nil_append] at tail
      rw [tail, List.singleton_append]

/-- A list ends with the pieces of another one exactly when it is that list, or ends with it behind a separator. -/
theorem splitOn_suffix_iff (sep : α) (xs ys : List α) :
    xs.splitOn sep <:+ ys.splitOn sep ↔ xs = ys ∨ sep :: xs <:+ ys := by
  have whole (zs : List α) : joined sep (zs.splitOn sep) = sep :: zs := by
    rw [joined_eq_intercalate sep _ (List.splitOn_ne_nil sep zs), List.intercalate_splitOn]
  constructor
  · rintro ⟨front, split⟩
    have same := congrArg (joined sep) split
    rw [joined_append, whole, whole] at same
    cases front with
    | nil => exact .inl (List.cons.inj same).2
    | cons piece rest =>
      rw [joined_cons, List.cons_append] at same
      exact .inr ⟨piece ++ joined sep rest, (List.cons.inj same).2⟩
  · rintro (rfl | ⟨front, rfl⟩)
    · exact List.suffix_rfl
    · rw [List.splitOn_append_cons_self]
      exact List.suffix_append _ _

/-! ## The last separator -/

def rfind (sep : α) (xs : List α) : Option Nat :=
  (xs.reverse.findIdx? (· = sep)).map fun back => xs.length - 1 - back

theorem rfind_eq_none {sep : α} {xs : List α} (clean : sep ∉ xs) : rfind sep xs = none := by
  have absent : ∀ x ∈ xs, x ≠ sep := fun x member same => clean (same ▸ member)
  simpa [rfind, List.findIdx?_eq_none_iff] using absent

theorem rfind_append_clean {sep : α} (front : List α) {last : List α} (clean : sep ∉ last) :
    rfind sep (front ++ sep :: last) = some front.length := by
  have absent : ∀ x ∈ last, x ≠ sep := fun x member same => clean (same ▸ member)
  have position : (last.reverse ++ sep :: front.reverse).findIdx? (· = sep) = some last.length := by
    rw [List.findIdx?_append, List.findIdx?_cons]
    simp only [decide_true, if_true, List.length_reverse, Option.map_some]
    rw [List.findIdx?_eq_none_iff.mpr (by simpa using absent)]
    simp
  simp only [rfind, List.reverse_append, List.reverse_cons, List.append_assoc,
    List.singleton_append, position, Option.map_some, List.length_append, List.length_cons]
  congr 1
  omega

theorem rfind_cases (sep : α) (xs : List α) :
    (sep ∉ xs ∧ rfind sep xs = none) ∨
      ∃ front last, xs = front ++ sep :: last ∧ sep ∉ last ∧ rfind sep xs = some front.length := by
  by_cases member : sep ∈ xs
  · obtain ⟨back, front, split, absent⟩ := List.eq_append_cons_of_mem (List.mem_reverse.mpr member)
    have whole : xs = front.reverse ++ sep :: back.reverse := by
      rw [← List.reverse_reverse xs, split]
      simp
    have clean : sep ∉ back.reverse := by simpa using absent
    exact .inr ⟨_, _, whole, clean, whole ▸ rfind_append_clean _ clean⟩
  · exact .inl ⟨member, rfind_eq_none member⟩

def rsplitOnce (sep : α) (xs : List α) : Option (List α × List α) :=
  (rfind sep xs).map fun idx => (xs.take idx, xs.drop (idx + 1))

theorem rsplitOnce_separator {sep : α} (front : List α) {last : List α} (absent : sep ∉ last) :
    rsplitOnce sep (front ++ sep :: last) = some (front, last) := by
  have behind : (front ++ sep :: last).drop (front.length + 1) = last := by
    rw [← List.drop_drop, List.drop_left]
    rfl
  rw [rsplitOnce, rfind_append_clean front absent, Option.map_some, List.take_left, behind]

theorem rsplitOnce_cases (sep : α) (xs : List α) :
    (sep ∉ xs ∧ rsplitOnce sep xs = none) ∨
      ∃ front last, xs = front ++ sep :: last ∧ sep ∉ last ∧ rsplitOnce sep xs = some (front, last) := by
  rcases rfind_cases sep xs with ⟨absent, position⟩ | ⟨front, last, whole, absent, _⟩
  · exact .inl ⟨absent, by rw [rsplitOnce, position]; rfl⟩
  · exact .inr ⟨front, last, whole, absent, whole ▸ rsplitOnce_separator front absent⟩

theorem pieces_rdropWhile (sep : α) (xs : List α) :
    pieces sep (xs.rdropWhile (· == sep)) = pieces sep xs := by
  induction xs using List.reverseRecOn with
  | nil => simp
  | append_singleton xs x ih =>
    by_cases same : x = sep
    · rw [List.rdropWhile_concat_pos _ _ _ (by simpa using same), ih, same, pieces_append_sep]
      simp
    · rw [List.rdropWhile_concat_neg _ _ _ (by simpa using same)]

theorem rdropWhile_cases (sep : α) (xs : List α) :
    (sep ∉ xs.rdropWhile (· == sep) ∧ rfind sep (xs.rdropWhile (· == sep)) = none) ∨
      ∃ front last, xs.rdropWhile (· == sep) = front ++ sep :: last ∧ Clean sep last ∧
        rfind sep (xs.rdropWhile (· == sep)) = some front.length := by
  refine (rfind_cases sep (xs.rdropWhile (· == sep))).imp_right ?_
  rintro ⟨front, last, split, absent, position⟩
  refine ⟨front, last, split, ⟨?_, absent⟩, position⟩
  rintro rfl
  have nonempty : xs.rdropWhile (· == sep) ≠ [] := by simp [split]
  have ends := List.rdropWhile_last_not (· == sep) xs nonempty
  simp [split] at ends

theorem rdropWhile_append_clean {sep : α} (front : List α) {last : List α} (clean : Clean sep last) :
    (front ++ last).rdropWhile (· == sep) = front ++ last := by
  obtain ⟨nonempty, absent⟩ := clean
  obtain ⟨init, x, rfl⟩ := List.eq_nil_or_concat' last |>.resolve_left nonempty
  rw [← List.append_assoc]
  apply List.rdropWhile_concat_neg
  simp only [beq_iff_eq]
  rintro rfl
  exact absent (by simp)

/-! ## The first occurrence of a pattern -/

/-- `split_once`: what stands before the first occurrence, and what behind it. -/
def splitOnce (pattern : List α) : List α → Option (List α × List α)
  | [] => if pattern = [] then some ([], []) else none
  | x :: xs =>
    if pattern <+: x :: xs then some ([], (x :: xs).drop pattern.length)
    else (splitOnce pattern xs).map fun parts => (x :: parts.1, parts.2)

theorem splitOnce_pattern (pattern rest : List α) : splitOnce pattern (pattern ++ rest) = some ([], rest) := by
  cases whole : pattern ++ rest with
  | nil =>
    obtain ⟨rfl, rfl⟩ := List.append_eq_nil_iff.mp whole
    rfl
  | cons x xs =>
    rw [splitOnce, ← whole, if_pos (List.prefix_append _ _), List.drop_left]

theorem splitOnce_eq_some {pattern xs front rest : List α} (cut : splitOnce pattern xs = some (front, rest)) :
    xs = front ++ pattern ++ rest := by
  induction xs generalizing front with
  | nil =>
    rw [splitOnce] at cut
    split at cut
    · rename_i empty
      cases cut
      rw [empty]
      rfl
    · cases cut
  | cons x xs ih =>
    rw [splitOnce] at cut
    split at cut
    · rename_i begins
      cases cut
      exact List.prefix_iff_eq_append.mp begins |>.symm
    · obtain ⟨⟨before, behind⟩, later, same⟩ := Option.map_eq_some_iff.mp cut
      cases same
      rw [ih later]
      rfl

theorem splitOnce_clean {sep : α} {xs front rest : List α} (cut : splitOnce [sep] xs = some (front, rest)) :
    sep ∉ front := by
  induction xs generalizing front with
  | nil => cases cut
  | cons x xs ih =>
    rw [splitOnce] at cut
    split at cut
    · cases cut
      exact List.not_mem_nil
    · rename_i other
      obtain ⟨⟨before, behind⟩, later, same⟩ := Option.map_eq_some_iff.mp cut
      cases same
      rw [List.singleton_prefix_cons_iff] at other
      exact fun member => (List.mem_cons.mp member).elim other (ih later)

theorem splitOnce_append {pattern front rest : List α}
    (first : ∀ tail, tail ≠ [] → tail <:+ front → ¬ pattern <+: tail ++ (pattern ++ rest)) :
    splitOnce pattern (front ++ (pattern ++ rest)) = some (front, rest) := by
  induction front with
  | nil => exact splitOnce_pattern pattern rest
  | cons x front ih =>
    have later := ih fun tail filled behind => first tail filled (behind.trans (List.suffix_cons x front))
    rw [List.cons_append, splitOnce, ← List.cons_append, if_neg (first _ (List.cons_ne_nil _ _) List.suffix_rfl), later]
    rfl

theorem splitOnce_separator {sep : α} {front : List α} (absent : sep ∉ front) (rest : List α) :
    splitOnce [sep] (front ++ sep :: rest) = some (front, rest) := by
  have nowhere : ∀ tail, tail ≠ [] → tail <:+ front → ¬ [sep] <+: tail ++ ([sep] ++ rest) := by
    rintro (_ | ⟨x, tail⟩) filled behind begins
    · exact filled rfl
    · rw [List.cons_append, List.singleton_prefix_cons_iff] at begins
      exact absent (behind.subset (begins ▸ List.mem_cons_self))
  exact splitOnce_append nowhere

theorem takeWhile_ne_eq_iff {sep : α} {piece : List α} (absent : sep ∉ piece) (xs : List α) :
    xs.takeWhile (· ≠ sep) = piece ↔ ∃ tail, xs = piece ++ tail ∧ (tail = [] ∨ ∃ more, tail = sep :: more) := by
  constructor
  · rintro rfl
    refine ⟨xs.dropWhile (· ≠ sep), List.takeWhile_append_dropWhile.symm, ?_⟩
    cases left : xs.dropWhile (· ≠ sep) with
    | nil => exact .inl rfl
    | cons x more =>
      have stopped := List.head?_dropWhile_not (· ≠ sep) xs
      rw [left] at stopped
      have same : x = sep := by simpa using stopped
      exact .inr ⟨more, same ▸ rfl⟩
  · rintro ⟨tail, rfl, ends⟩
    have kept : ∀ x ∈ piece, decide (x ≠ sep) = true := fun x member => by
      rw [decide_eq_true_iff]
      rintro rfl
      exact absent member
    rw [List.takeWhile_append_of_pos kept]
    rcases ends with rfl | ⟨more, rfl⟩ <;> simp

end Library.Separated
