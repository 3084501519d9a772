import OneDriveDavfs.Library.Fields
import OneDriveDavfs.Snapshot.MetaText

/-! Which bytes make `decode` panic.

The offsets and lengths of a file are whatever its bytes say. Every reader
follows the fields of its record; it traps where the length in front of a text
leaves the address space, and nowhere else.
-/

set_option autoImplicit false

namespace OneDriveDavfs

open Library.Wire Library.Fields

namespace Snapshot

/-- A Rust slice has no more than `isize::MAX` bytes. -/
def IsSlice (P : Platform) (data : Bytes) : Prop := data.length < 2 ^ (P.usizeBits - 1)

theorem IsSlice.room {P : Platform} {data : Bytes} (small : IsSlice P data) : data.length + 2 ^ 31 ≤ 2 ^ P.usizeBits := by
  have wide := P.atLeast32
  have half : 2 ^ P.usizeBits = 2 ^ (P.usizeBits - 1) + 2 ^ (P.usizeBits - 1) := by
    rw [← Nat.two_mul, ← Nat.pow_succ']
    congr 1
    omega
  have least : 2 ^ 31 ≤ 2 ^ (P.usizeBits - 1) := Nat.pow_le_pow_right (by decide) (by omega)
  unfold IsSlice at small
  omega

/-! ## Readers -/

/-- The reader takes the fields off one after the other, and traps exactly at a length that overruns. -/
structure Follows {α : Type} (P : Platform) (data : Bytes) (fields : List Field) (pos : Nat)
    (result : Result (α × Nat)) : Prop where
  traps : result = .error .trap ↔ ∃ here, Meets data fields pos here ∧ Overruns (2 ^ P.usizeBits) data here
  passes : ∀ stop, (∃ a, result = .ok (a, stop)) ↔ Passes data fields pos stop

namespace Follows

variable {α β : Type} {P : Platform} {data : Bytes} {fields more : List Field} {pos : Nat}

theorem pure (a : α) : Follows P data [] pos (.ok (a, pos)) where
  traps := by simp [meets_nil_iff]
  passes := by
    intro stop
    rw [passes_nil_iff]
    simp [eq_comm]

theorem bind {result : Result (α × Nat)} {rest : α × Nat → Result (β × Nat)} (first : Follows P data fields pos result)
    (second : ∀ a mid, Passes data fields pos mid → Follows P data more mid (rest (a, mid))) :
    Follows P data (fields ++ more) pos (result >>= rest) where
  traps := by
    simp only [Result.bind_eq_trap_iff, first.traps, meets_append_iff, or_and_right, exists_or, Prod.exists]
    refine or_congr_right ⟨?_, ?_⟩
    · rintro ⟨a, mid, read, trapped⟩
      have passes := (first.passes mid).mp ⟨a, read⟩
      obtain ⟨here, meets, overruns⟩ := (second a mid passes).traps.mp trapped
      exact ⟨here, ⟨mid, passes, meets⟩, overruns⟩
    · rintro ⟨here, ⟨mid, passes, meets⟩, overruns⟩
      obtain ⟨a, read⟩ := (first.passes mid).mpr passes
      exact ⟨a, mid, read, (second a mid passes).traps.mpr ⟨here, meets, overruns⟩⟩
  passes := by
    intro stop
    simp only [Result.bind_eq_ok_iff, passes_append_iff, Prod.exists]
    constructor
    · rintro ⟨b, a, mid, read, done⟩
      have passes := (first.passes mid).mp ⟨a, read⟩
      exact ⟨mid, passes, ((second a mid passes).passes stop).mp ⟨b, done⟩⟩
    · rintro ⟨mid, passes, done⟩
      obtain ⟨a, read⟩ := (first.passes mid).mpr passes
      obtain ⟨b, done⟩ := ((second a mid passes).passes stop).mpr done
      exact ⟨b, a, mid, read, done⟩

theorem fixed {width : Nat} {message : String} {rest : Result (β × Nat)} (narrow : width < 2 ^ 31) (small : IsSlice P data)
    (inside : pos ≤ data.length)
    (second : pos + width ≤ data.length → Follows P data fields (pos + width) rest) :
    Follows P data (.fixed width :: fields) pos (do
      let stop ← P.add pos width
      if stop > data.length then throw (.error message)
      rest) := by
  have room := small.room
  rw [Platform.add_of_lt (show pos + width < 2 ^ P.usizeBits by omega), Result.ok_bind]
  by_cases past : pos + width > data.length
  · rw [if_pos past]
    refine ⟨?_, fun stop => ?_⟩
    · simp [Result.throw_eq, Result.error_bind, meets_fixed_iff, Nat.not_le_of_gt past]
    · simp [Result.throw_eq, Result.error_bind, passes_fixed_iff, Nat.not_le_of_gt past]
  · have bound := Nat.le_of_not_gt past
    have follows := second bound
    rw [if_neg past]
    refine ⟨?_, fun stop => ?_⟩
    · simp only [meets_fixed_iff, bound, true_and]
      exact follows.traps
    · simp only [passes_fixed_iff, bound, true_and]
      exact follows.passes stop

theorem byte {message : String} {rest : UInt8 → Result (β × Nat)}
    (second : ∀ b, pos + 1 ≤ data.length → Follows P data fields (pos + 1) (rest b)) :
    Follows P data (.fixed 1 :: fields) pos
      (match data[pos]? with
        | none => throw (.error message)
        | some b => rest b) := by
  cases found : data[pos]? with
  | none =>
    have past : ¬ pos + 1 ≤ data.length := by
      rw [List.getElem?_eq_none_iff] at found
      omega
    refine ⟨?_, fun stop => ?_⟩
    · simp [Result.throw_eq, meets_fixed_iff, past]
    · simp [Result.throw_eq, passes_fixed_iff, past]
  | some b =>
    have bound : pos + 1 ≤ data.length := (List.getElem?_eq_some_iff.mp found).1
    have follows := second b bound
    refine ⟨?_, fun stop => ?_⟩
    · simp only [meets_fixed_iff, bound, true_and]
      exact follows.traps
    · simp only [passes_fixed_iff, bound, true_and]
      exact follows.passes stop

end Follows

section Readers
variable {P : Platform} {data : Bytes} {pos : Nat}

theorem usize_textLen (P : Platform) (data : Bytes) (pos : Nat) (length : pos + 4 ≤ data.length) :
    P.usize (ofLe (slice data pos (pos + 4))) = ofLe (slice data pos (pos + 4)) := by
  refine Platform.usize_of_lt (Nat.lt_of_lt_of_le (ofLe_lt _) ?_)
  rw [length_slice length, Nat.add_sub_cancel_left]
  exact P.word_le

/-- What `read_str` does, with the three ends of its checks. -/
theorem readStr_eq (small : IsSlice P data) (inside : pos ≤ data.length) : readStr P data pos =
    if pos + 4 ≤ data.length then
      if textEnd data pos < 2 ^ P.usizeBits then
        if textEnd data pos ≤ data.length then
          match fromUtf8 (slice data (pos + 4) (textEnd data pos)) with
          | none => .error (.error "non-utf8 string")
          | some s => .ok (s, textEnd data pos)
        else .error (.error "truncated string")
      else .error .trap
    else .error (.error "truncated string length") := by
  have room := small.room
  rw [readStr, Platform.add_of_lt (show pos + 4 < 2 ^ P.usizeBits by omega), Result.ok_bind]
  by_cases length : pos + 4 ≤ data.length
  · have ends : pos + 4 + P.usize (ofLe (slice data pos (pos + 4))) = textEnd data pos := by
      rw [usize_textLen P data pos length, textEnd]
    simp only [if_neg (Nat.not_lt_of_ge length), if_pos length, Platform.add, ends]
    split
    · by_cases bound : textEnd data pos ≤ data.length
      · simp only [Result.pure_eq, Result.ok_bind, if_neg (Nat.not_lt_of_ge bound), if_pos bound]
        cases fromUtf8 (slice data (pos + 4) (textEnd data pos)) <;> rfl
      · simp only [Result.ok_bind, if_pos (Nat.lt_of_not_ge bound), if_neg bound]
        rfl
    · rfl
  · simp only [if_pos (Nat.lt_of_not_ge length), if_neg length]
    rfl

theorem readStr_follows (small : IsSlice P data) (inside : pos ≤ data.length) :
    Follows P data [.text] pos (readStr P data pos) := by
  rw [readStr_eq small inside]
  refine ⟨?_, fun stop => ?_⟩
  · -- the reader traps exactly where the position before the text overruns
    have first : (∃ here, Meets data [.text] pos here ∧ Overruns (2 ^ P.usizeBits) data here) ↔
        Overruns (2 ^ P.usizeBits) data pos := by simp [meets_text_iff, meets_nil_iff]
    rw [first, Overruns]
    split
    · rename_i length
      split
      · rename_i word
        have stays := Nat.not_le_of_gt word
        split
        · split <;> simp [stays]
        · simp [stays]
      · rename_i past
        simp [length, Nat.le_of_not_gt past]
    · rename_i short
      simp [short]
  · -- and returns exactly where the text stands there
    have only : Passes data [.text] pos stop ↔ TextAt data pos stop := by simp [passes_text_iff, passes_nil_iff]
    have room := small.room
    rw [only]
    split
    · rename_i length
      by_cases bound : textEnd data pos ≤ data.length
      · rw [if_pos (show textEnd data pos < 2 ^ P.usizeBits by omega), if_pos bound]
        split
        · rename_i broken
          simp only [reduceCtorEq, exists_false, false_iff]
          intro text
          have valid := text.valid
          rw [text.ends, broken] at valid
          cases valid
        · rename_i s whole
          simp only [Except.ok.injEq, Prod.mk.injEq, exists_eq_left']
          constructor
          · rintro rfl
            exact ⟨length, rfl, bound, by rw [whole]; rfl⟩
          · exact fun text => text.ends.symm
      · have nothing : ¬ TextAt data pos stop := fun text => bound (text.ends ▸ text.inside)
        rw [if_neg bound]
        split <;> simp [nothing]
    · rename_i short
      have nothing : ¬ TextAt data pos stop := fun text => short text.length
      simp [nothing]

def childFields : List Field := [.text, .fixed 1, .fixed 16, .text, .text]

def rowFields : List Field := [.text, .fixed 12, .text, .fixed 16, .text]

theorem readChild_follows (small : IsSlice P data) (inside : pos ≤ data.length) :
    Follows P data childFields pos (readChild P data pos) := by
  refine @Follows.bind _ _ _ _ [.text] _ _ _ _ (readStr_follows small inside) fun name mid passes => ?_
  refine Follows.byte fun flag bound => ?_
  refine Follows.fixed (by decide) small bound fun bound => ?_
  refine @Follows.bind _ _ _ _ [.text] _ _ _ _ (readStr_follows small bound) fun etag mid passes => ?_
  refine @Follows.bind _ _ _ _ [.text] _ _ _ _ (readStr_follows small (passes.le_length bound)) fun id mid passes => ?_
  exact Follows.pure _

theorem readDirRow_follows (small : IsSlice P data) (inside : pos ≤ data.length) :
    Follows P data rowFields pos (readDirRow P data pos) := by
  refine @Follows.bind _ _ _ _ [.text] _ _ _ _ (readStr_follows small inside) fun path mid passes => ?_
  refine Follows.fixed (by decide) small (passes.le_length inside) fun bound => ?_
  refine @Follows.bind _ _ _ _ [.text] _ _ _ _ (readStr_follows small bound) fun id mid passes => ?_
  refine Follows.fixed (by decide) small (passes.le_length bound) fun bound => ?_
  refine @Follows.bind _ _ _ _ [.text] _ _ _ _ (readStr_follows small bound) fun etag mid passes => ?_
  exact Follows.pure _

end Readers

/-! ## Loops -/

section Loops
variable {P : Platform} {data : Bytes} {pos : Nat}

theorem readDirRows_traps_iff (small : IsSlice P data) (count : Nat) (inside : pos ≤ data.length) :
    readDirRows P data count pos = .error .trap ↔
      ∃ here, Meets data (repeated rowFields count) pos here ∧ Overruns (2 ^ P.usizeBits) data here := by
  induction count generalizing pos with
  | zero => simp [readDirRows, repeated, meets_nil_iff]
  | succ count ih =>
    have row := readDirRow_follows small inside
    simp only [readDirRows, Result.bind_eq_trap_iff, row.traps, Prod.exists, Result.pure_eq, reduceCtorEq, and_false,
      exists_false, or_false, repeated, meets_append_iff, or_and_right, exists_or]
    refine or_congr_right ⟨?_, ?_⟩
    · rintro ⟨first, mid, read, trapped⟩
      have passes := (row.passes mid).mp ⟨first, read⟩
      obtain ⟨here, meets, overruns⟩ := (ih (passes.le_length inside)).mp trapped
      exact ⟨here, ⟨mid, passes, meets⟩, overruns⟩
    · rintro ⟨here, ⟨mid, passes, meets⟩, overruns⟩
      obtain ⟨first, read⟩ := (row.passes mid).mpr passes
      exact ⟨first, mid, read, (ih (passes.le_length inside)).mpr ⟨here, meets, overruns⟩⟩

structure BlockAt (P : Platform) (data : Bytes) (pos k start len : Nat) : Prop where
  row : ∃ own path, Passes data (repeated rowFields k) pos own ∧ TextAt data own path ∧
    start = P.usize (ofLe (slice data path (path + 8))) ∧ len = ofLe (slice data (path + 8) (path + 12))

theorem BlockAt.unique {k start len start' len' : Nat} (first : BlockAt P data pos k start len)
    (second : BlockAt P data pos k start' len') : start = start' ∧ len = len' := by
  obtain ⟨own, path, passes, text, rfl, rfl⟩ := first
  obtain ⟨own', path', passes', text', rfl, rfl⟩ := second
  cases passes.unique passes'
  have same : path = path' := text.ends.trans text'.ends.symm
  subst same
  exact ⟨rfl, rfl⟩

theorem BlockAt.cons {mid k start len : Nat} (passes : Passes data rowFields pos mid) :
    BlockAt P data mid k start len ↔ BlockAt P data pos (k + 1) start len := by
  constructor
  · rintro ⟨own, path, more, rest⟩
    exact ⟨own, path, passes_append_iff.mpr ⟨mid, passes, more⟩, rest⟩
  · rintro ⟨own, path, more, rest⟩
    obtain ⟨next, first, more⟩ := passes_append_iff.mp more
    cases passes.unique first
    exact ⟨own, path, more, rest⟩

theorem readDirRow_block (small : IsSlice P data) (inside : pos ≤ data.length) {row : DirRow} {stop : Nat}
    (read : readDirRow P data pos = .ok (row, stop)) :
    BlockAt P data pos 0 (P.usize row.blockOff.toNat) row.blockLen.toNat := by
  obtain ⟨⟨path, mid⟩, first, read⟩ := Result.bind_eq_ok_iff.mp read
  obtain ⟨_, text, rest⟩ := passes_text_iff.mp (((readStr_follows small inside).passes mid).mp ⟨path, first⟩)
  cases passes_nil_iff.mp rest
  have room := small.room
  have here := text.inside
  simp only [Platform.add_of_lt (show mid + 12 < 2 ^ P.usizeBits by omega), Result.ok_bind] at read
  by_cases past : mid + 12 > data.length
  · simp [if_pos past, Result.throw_eq, Result.error_bind] at read
  simp only [if_neg past] at read
  obtain ⟨⟨id, mid'⟩, _, read⟩ := Result.bind_eq_ok_iff.mp read
  obtain ⟨stop', _, read⟩ := Result.bind_eq_ok_iff.mp read
  split at read
  · cases read
  obtain ⟨⟨etag, last⟩, _, read⟩ := Result.bind_eq_ok_iff.mp read
  cases read
  have off : ofLe (slice data mid (mid + 8)) < 2 ^ 64 := by
    have bound := ofLe_lt (slice data mid (mid + 8))
    rwa [length_slice (by omega), Nat.add_sub_cancel_left] at bound
  have len : ofLe (slice data (mid + 8) (mid + 12)) < 2 ^ 32 := by
    have bound := ofLe_lt (slice data (mid + 8) (mid + 12))
    rwa [length_slice (by omega), show mid + 12 - (mid + 8) = 4 by omega] at bound
  exact ⟨pos, mid, .done, text, by rw [UInt64.toNat_ofNat_of_lt' off], UInt32.toNat_ofNat_of_lt' len⟩

theorem readDirRows_ok (small : IsSlice P data) {count : Nat} (inside : pos ≤ data.length) {rows : List DirRow}
    (read : readDirRows P data count pos = .ok rows) :
    (∃ stop, Passes data (repeated rowFields count) pos stop) ∧ rows.length = count ∧ ∀ k row, rows[k]? = some row →
      BlockAt P data pos k (P.usize row.blockOff.toNat) row.blockLen.toNat := by
  induction count generalizing pos rows with
  | zero =>
    cases read
    exact ⟨⟨pos, .done⟩, rfl, by simp⟩
  | succ count ih =>
    simp only [readDirRows, Result.bind_eq_ok_iff, Prod.exists, Result.pure_eq, Except.ok.injEq] at read
    obtain ⟨row, mid, first, rest, more, rfl⟩ := read
    have passes := ((readDirRow_follows small inside).passes mid).mp ⟨row, first⟩
    obtain ⟨⟨stop, passed⟩, length, blocks⟩ := ih (passes.le_length inside) more
    refine ⟨⟨stop, passes_append_iff.mpr ⟨mid, passes, passed⟩⟩, by rw [List.length_cons, length], fun k other at_k => ?_⟩
    cases k with
    | zero =>
      cases at_k
      exact readDirRow_block small inside first
    | succ k => exact (BlockAt.cons passes).mp (blocks k other at_k)

theorem readDirRows_of_passes (small : IsSlice P data) {count stop : Nat} (inside : pos ≤ data.length)
    (passes : Passes data (repeated rowFields count) pos stop) : ∃ rows, readDirRows P data count pos = .ok rows := by
  induction count generalizing pos with
  | zero => exact ⟨[], rfl⟩
  | succ count ih =>
    obtain ⟨mid, first, more⟩ := passes_append_iff.mp passes
    obtain ⟨row, read⟩ := ((readDirRow_follows small inside).passes mid).mpr first
    obtain ⟨rows, rest⟩ := ih (first.le_length inside) more
    exact ⟨row :: rows, by simp [readDirRows, read, rest]⟩

theorem lt_of_childFields {mid : Nat} (passes : Passes data childFields pos mid) : pos < mid := by
  obtain ⟨next, text, rest⟩ := passes_text_iff.mp passes
  exact Nat.lt_of_lt_of_le text.lt rest.le

theorem readChildren_traps_iff (small : IsSlice P data) (fuel : Nat) (inside : pos ≤ data.length)
    (enough : data.length - pos ≤ fuel) : readChildren P data fuel pos = .error .trap ↔
      ∃ here, Meets data (repeated childFields fuel) pos here ∧ Overruns (2 ^ P.usizeBits) data here := by
  induction fuel generalizing pos with
  | zero =>
    have atEnd : ¬ pos < data.length := by omega
    simp [readChildren, atEnd, repeated, meets_nil_iff]
  | succ fuel ih =>
    by_cases more : pos < data.length
    · have child := readChild_follows small inside
      simp only [readChildren, if_pos more, Result.bind_eq_trap_iff, child.traps, Prod.exists, Result.pure_eq,
        reduceCtorEq, and_false, exists_false, or_false, repeated, meets_append_iff, or_and_right, exists_or]
      refine or_congr_right ⟨?_, ?_⟩
      · rintro ⟨first, mid, read, trapped⟩
        have passes := (child.passes mid).mp ⟨first, read⟩
        have further := lt_of_childFields passes
        obtain ⟨here, meets, overruns⟩ := (ih (passes.le_length inside) (by omega)).mp trapped
        exact ⟨here, ⟨mid, passes, meets⟩, overruns⟩
      · rintro ⟨here, ⟨mid, passes, meets⟩, overruns⟩
        have further := lt_of_childFields passes
        obtain ⟨first, read⟩ := (child.passes mid).mpr passes
        exact ⟨first, mid, read, (ih (passes.le_length inside) (by omega)).mpr ⟨here, meets, overruns⟩⟩
    · simp only [readChildren, if_neg more, Result.pure_eq, reduceCtorEq, false_iff, not_exists, not_and]
      intro here meets overruns
      have beyond := meets.le
      have length := overruns.1
      omega

theorem readChildren_ok_iff (small : IsSlice P data) (fuel : Nat) (inside : pos ≤ data.length)
    (enough : data.length - pos ≤ fuel) : (∃ children, readChildren P data fuel pos = .ok children) ↔
      ∃ count, Passes data (repeated childFields count) pos data.length := by
  induction fuel generalizing pos with
  | zero =>
    have atEnd : pos = data.length := by omega
    subst atEnd
    simp only [readChildren, Nat.lt_irrefl, if_false, Result.pure_eq, Except.ok.injEq, exists_eq', true_iff]
    exact ⟨0, .done⟩
  | succ fuel ih =>
    -- a child takes at least one byte, so the fuel never runs out before the block does
    by_cases more : pos < data.length
    · have child := readChild_follows small inside
      simp only [readChildren, if_pos more, Result.bind_eq_ok_iff, Prod.exists, Result.pure_eq, Except.ok.injEq]
      constructor
      · rintro ⟨_, first, mid, read, rest, done, rfl⟩
        have passes := (child.passes mid).mp ⟨first, read⟩
        have further := lt_of_childFields passes
        obtain ⟨count, passed⟩ := (ih (passes.le_length inside) (by omega)).mp ⟨rest, done⟩
        exact ⟨count + 1, passes_append_iff.mpr ⟨mid, passes, passed⟩⟩
      · rintro ⟨count, passes⟩
        cases count with
        | zero => exact absurd (passes_nil_iff.mp passes) (Nat.ne_of_gt more)
        | succ count =>
          obtain ⟨mid, first, passed⟩ := passes_append_iff.mp passes
          have further := lt_of_childFields first
          obtain ⟨c, read⟩ := (child.passes mid).mpr first
          obtain ⟨rest, done⟩ := (ih (first.le_length inside) (by omega)).mpr ⟨count, passed⟩
          exact ⟨_, c, mid, read, rest, done, rfl⟩
    · have atEnd : pos = data.length := by omega
      subst atEnd
      simp only [readChildren, if_neg more, Result.pure_eq, Except.ok.injEq, exists_eq', true_iff]
      exact ⟨0, .done⟩

end Loops

/-! ## Blocks -/

def BlockPasses (bytes : Bytes) (start len : Nat) : Prop :=
  start + len ≤ bytes.length ∧
    ∃ count, Passes (slice bytes start (start + len)) (repeated childFields count) 0 len

/-- The end of the block is beyond the address space, or a text in it overruns. -/
def BlockOverruns (bound : Nat) (bytes : Bytes) (start len : Nat) : Prop :=
  bound ≤ start + len ∨ (start + len ≤ bytes.length ∧
    ∃ here, Meets (slice bytes start (start + len)) (repeated childFields len) 0 here ∧
      Overruns bound (slice bytes start (start + len)) here)

section Blocks
variable {P : Platform} {bytes : Bytes} {off : UInt64} {len : UInt32}

theorem IsSlice.slice (small : IsSlice P bytes) {start stop : Nat} (inside : stop ≤ bytes.length) :
    IsSlice P (slice bytes start stop) := by
  unfold IsSlice at small ⊢
  rw [length_slice inside]
  omega

theorem usize_len (P : Platform) (len : UInt32) : P.usize len.toNat = len.toNat :=
  Platform.usize_of_lt (Nat.lt_of_lt_of_le len.toNat_lt P.word_le)

theorem parseChildBlock_eq (small : IsSlice P bytes) : parseChildBlock P bytes off len =
    if P.usize off.toNat + len.toNat ≤ bytes.length then
      readChildren P (slice bytes (P.usize off.toNat) (P.usize off.toNat + len.toNat)) len.toNat 0
    else if P.usize off.toNat + len.toNat < 2 ^ P.usizeBits then .error (.error "child block out of range")
    else .error .trap := by
  have room := small.room
  simp only [parseChildBlock, usize_len, Platform.add]
  by_cases inside : P.usize off.toNat + len.toNat ≤ bytes.length
  · rw [if_pos inside, if_pos (by omega), Result.ok_bind, if_neg (Nat.not_lt_of_ge inside), sliceOf,
      if_pos ⟨Nat.le_add_right _ _, inside⟩]
    simp only [Result.ok_bind]
    rw [length_slice inside, Nat.add_sub_cancel_left]
  · rw [if_neg inside]
    split
    · rw [Result.ok_bind, if_pos (Nat.lt_of_not_ge inside)]
      rfl
    · rfl

theorem parseChildBlock_traps_iff (small : IsSlice P bytes) : parseChildBlock P bytes off len = .error .trap ↔
    BlockOverruns (2 ^ P.usizeBits) bytes (P.usize off.toNat) len.toNat := by
  have room := small.room
  rw [parseChildBlock_eq small, BlockOverruns]
  split
  · rename_i inside
    have length := @length_slice bytes (P.usize off.toNat) _ inside
    rw [Nat.add_sub_cancel_left] at length
    rw [readChildren_traps_iff (small.slice inside) _ (Nat.zero_le _) (by omega)]
    simp [inside, show ¬ 2 ^ P.usizeBits ≤ P.usize off.toNat + len.toNat by omega]
  · rename_i outside
    split
    · simp [outside]
      omega
    · rename_i beyond
      simp [Nat.le_of_not_gt beyond]

theorem parseChildBlock_ok_iff (small : IsSlice P bytes) :
    (∃ children, parseChildBlock P bytes off len = .ok children) ↔ BlockPasses bytes (P.usize off.toNat) len.toNat := by
  rw [parseChildBlock_eq small, BlockPasses]
  split
  · rename_i inside
    have length := @length_slice bytes (P.usize off.toNat) _ inside
    rw [Nat.add_sub_cancel_left] at length
    rw [readChildren_ok_iff (small.slice inside) _ (Nat.zero_le _) (by omega), length]
    simp [inside]
  · rename_i outside
    split <;> simp [outside]

end Blocks

/-! ## The whole file -/

def dirTableAt (P : Platform) (bytes : Bytes) : Nat := P.usize (ofLe (slice bytes 8 16))

def dirCountOf (bytes : Bytes) : Nat := ofLe (slice bytes 16 20)

def metaAt (P : Platform) (bytes : Bytes) : Nat := P.usize (ofLe (slice bytes 20 28))

def metaLenOf (bytes : Bytes) : Nat := ofLe (slice bytes 28 32)

def tableOf (P : Platform) (bytes : Bytes) : Bytes := slice bytes (dirTableAt P bytes) (metaAt P bytes)

/-- The file begins like a snapshot and its metadata can be read. -/
structure Opens (P : Platform) (bytes : Bytes) : Prop where
  header : headerLen ≤ bytes.length
  magic : slice bytes 0 4 = magic
  version : ofLe (slice bytes 4 8) = version
  offsets : bytes.length ≠ headerLen → dirTableAt P bytes ≤ bytes.length
  inside : metaAt P bytes + metaLenOf bytes ≤ bytes.length
  readable : ∃ m, P.json.fromSlice (slice bytes (metaAt P bytes) (metaAt P bytes + metaLenOf bytes)) = .ok m

/-- The table comes before the metadata, no length in its rows overruns, and no block of a row does
that comes after blocks that can be read. -/
structure InBounds (P : Platform) (bytes : Bytes) : Prop where
  ordered : dirTableAt P bytes ≤ metaAt P bytes
  rows : ∀ here, Meets (tableOf P bytes) (repeated rowFields (dirCountOf bytes)) 0 here →
    ¬ Overruns (2 ^ P.usizeBits) (tableOf P bytes) here
  blocks : ∀ stop, Passes (tableOf P bytes) (repeated rowFields (dirCountOf bytes)) 0 stop →
    ∀ k < dirCountOf bytes,
      (∀ j < k, ∀ start len, BlockAt P (tableOf P bytes) 0 j start len → BlockPasses bytes start len) →
      ∀ start len, BlockAt P (tableOf P bytes) 0 k start len → ¬ BlockOverruns (2 ^ P.usizeBits) bytes start len

section Decode
variable {P : Platform} {bytes : Bytes}

theorem ofLe_slice_lt (bytes : Bytes) (start stop : Nat) : ofLe (slice bytes start stop) < 256 ^ (stop - start) := by
  refine Nat.lt_of_lt_of_le (ofLe_lt _) (Nat.pow_le_pow_right (by decide) ?_)
  rw [slice, List.length_drop, List.length_take]
  omega

def headerOf (bytes : Bytes) : Header :=
  ⟨UInt64.ofNat (ofLe (slice bytes 8 16)), UInt32.ofNat (ofLe (slice bytes 16 20)),
    UInt64.ofNat (ofLe (slice bytes 20 28)), UInt32.ofNat (ofLe (slice bytes 28 32))⟩

theorem usize_dirTableOff : P.usize (headerOf bytes).dirTableOff.toNat = dirTableAt P bytes := by
  rw [headerOf, UInt64.toNat_ofNat_of_lt' (ofLe_slice_lt bytes 8 16), dirTableAt]

theorem usize_metaOff : P.usize (headerOf bytes).metaOff.toNat = metaAt P bytes := by
  rw [headerOf, UInt64.toNat_ofNat_of_lt' (ofLe_slice_lt bytes 20 28), metaAt]

theorem toNat_dirCount : (headerOf bytes).dirCount.toNat = dirCountOf bytes := by
  rw [headerOf, UInt32.toNat_ofNat_of_lt' (ofLe_slice_lt bytes 16 20), dirCountOf]

theorem toNat_metaLen : (headerOf bytes).metaLen.toNat = metaLenOf bytes := by
  rw [headerOf, UInt32.toNat_ofNat_of_lt' (ofLe_slice_lt bytes 28 32), metaLenOf]

theorem parseHeader_cases : (∃ message, parseHeader P bytes = .error (.error message)) ∨
    (parseHeader P bytes = .ok (headerOf bytes) ∧ headerLen ≤ bytes.length ∧ slice bytes 0 4 = magic ∧
      ofLe (slice bytes 4 8) = version ∧ (bytes.length ≠ headerLen → dirTableAt P bytes ≤ bytes.length)) := by
  have dirTableOff := @usize_dirTableOff P bytes
  unfold parseHeader
  split
  · exact .inl ⟨_, rfl⟩
  · rename_i long
    split
    · exact .inl ⟨_, rfl⟩
    · rename_i begins
      dsimp only
      split
      · exact .inl ⟨_, rfl⟩
      · rename_i current
        split
        · exact .inl ⟨_, rfl⟩
        · rename_i ranges
          refine .inr ⟨rfl, Nat.le_of_not_gt long, not_not.mp begins, not_not.mp current, fun whole => ?_⟩
          rw [← dirTableOff]
          exact Nat.le_of_not_gt fun beyond => ranges ⟨.inl beyond, whole, .inr beyond⟩

theorem parseHeader_of_opens (opens : Opens P bytes) : parseHeader P bytes = .ok (headerOf bytes) := by
  have dirTableOff := @usize_dirTableOff P bytes
  have metaOff := @usize_metaOff P bytes
  rw [headerOf] at dirTableOff metaOff
  have metaInside := opens.inside
  simp only [parseHeader, if_neg (Nat.not_lt_of_ge opens.header), opens.magic, opens.version, ne_eq, not_true_eq_false,
    if_false, dirTableOff, metaOff]
  rw [if_neg]
  · rfl
  · rintro ⟨_, whole, beyond | beyond⟩
    · omega
    · exact absurd (opens.offsets whole) (Nat.not_le_of_gt beyond)

theorem parseMeta_eq (small : IsSlice P bytes) :
    parseMeta P bytes (headerOf bytes).metaOff (headerOf bytes).metaLen =
      if metaAt P bytes + metaLenOf bytes ≤ bytes.length then
        readMetaText P (slice bytes (metaAt P bytes) (metaAt P bytes + metaLenOf bytes))
      else if metaAt P bytes + metaLenOf bytes < 2 ^ P.usizeBits then .error (.error "index meta truncated")
      else .error (.error "index meta overflow") := by
  have room := small.room
  rw [parseMeta, usize_metaOff, usize_len, toNat_metaLen]
  dsimp only [sliceGet]
  by_cases inside : metaAt P bytes + metaLenOf bytes ≤ bytes.length
  · rw [if_pos (show metaAt P bytes + metaLenOf bytes < 2 ^ P.usizeBits by omega), if_pos ⟨Nat.le_add_right _ _, inside⟩,
      if_pos inside]
  · rw [if_neg inside]
    split
    · rw [if_neg fun both => inside both.2]
      rfl
    · rfl

theorem parseMeta_cases (small : IsSlice P bytes) :
    (∃ message, parseMeta P bytes (headerOf bytes).metaOff (headerOf bytes).metaLen = .error (.error message)) ∨
      ∃ m, parseMeta P bytes (headerOf bytes).metaOff (headerOf bytes).metaLen = .ok m ∧
        metaAt P bytes + metaLenOf bytes ≤ bytes.length ∧
        P.json.fromSlice (slice bytes (metaAt P bytes) (metaAt P bytes + metaLenOf bytes)) = .ok m := by
  rw [parseMeta_eq small]
  split
  · rename_i inside
    cases read : P.json.fromSlice (slice bytes (metaAt P bytes) (metaAt P bytes + metaLenOf bytes)) with
    | error e => exact .inl ⟨_, by simp only [readMetaText, read]; rfl⟩
    | ok m => exact .inr ⟨m, by simp [readMetaText, read], inside, rfl⟩
  · split <;> exact .inl ⟨_, rfl⟩

/-- The loop over the rows stops at the first block that cannot be read. -/
theorem foldlM_traps_iff (rows : List DirRow) (idx : Index) :
    rows.foldlM (fun idx row => do
      let children ← parseChildBlock P bytes row.blockOff row.blockLen
      return addRow idx row children) idx = .error .trap ↔
    ∃ (k : Nat) (row : DirRow), rows[k]? = some row ∧ parseChildBlock P bytes row.blockOff row.blockLen = .error .trap ∧
      ∀ j < k, ∀ before : DirRow, rows[j]? = some before → ∃ children,
        parseChildBlock P bytes before.blockOff before.blockLen = .ok children := by
  induction rows generalizing idx with
  | nil => simp
  | cons first rest ih =>
    simp only [List.foldlM_cons, Result.bind_eq_trap_iff, Result.bind_eq_ok_iff, Result.pure_eq, Except.ok.injEq,
      reduceCtorEq, and_false, exists_false, or_false]
    constructor
    · rintro (trapped | ⟨_, ⟨children, read, rfl⟩, trapped⟩)
      · exact ⟨0, first, rfl, trapped, fun j less => absurd less (Nat.not_lt_zero j)⟩
      · obtain ⟨k, row, at_k, trapped, earlier⟩ := (ih _).mp trapped
        refine ⟨k + 1, row, at_k, trapped, fun j less before at_j => ?_⟩
        cases j with
        | zero =>
          cases at_j
          exact ⟨children, read⟩
        | succ j => exact earlier j (Nat.lt_of_succ_lt_succ less) before at_j
    · -- the first row is either the one that traps or one of those read before it
      rintro ⟨k, row, at_k, trapped, earlier⟩
      cases k with
      | zero =>
        cases at_k
        exact .inl trapped
      | succ k =>
        obtain ⟨children, read⟩ := earlier 0 (Nat.succ_pos k) first rfl
        refine .inr ⟨_, ⟨children, read, rfl⟩, (ih _).mpr ⟨k, row, at_k, trapped, fun j less before at_j => ?_⟩⟩
        exact earlier (j + 1) (Nat.succ_lt_succ less) before at_j

theorem decode_cases (small : IsSlice P bytes) : (¬ Opens P bytes ∧ ∃ message, decode P bytes = .error (.error message)) ∨
    (Opens P bytes ∧ (decode P bytes = .error .trap ↔
      ¬ dirTableAt P bytes ≤ metaAt P bytes ∨ (dirTableAt P bytes ≤ metaAt P bytes ∧
        (readDirRows P (tableOf P bytes) (dirCountOf bytes) 0 = .error .trap ∨
          ∃ rows, readDirRows P (tableOf P bytes) (dirCountOf bytes) 0 = .ok rows ∧
            ∃ (k : Nat) (row : DirRow), rows[k]? = some row ∧
              parseChildBlock P bytes row.blockOff row.blockLen = .error .trap ∧
              ∀ j < k, ∀ before : DirRow, rows[j]? = some before → ∃ children,
                parseChildBlock P bytes before.blockOff before.blockLen = .ok children)))) := by
  rcases @parseHeader_cases P bytes with ⟨message, rejected⟩ | ⟨accepted, long, begins, current, ranges⟩
  · refine .inl ⟨fun opens => ?_, message, ?_⟩
    · rw [parseHeader_of_opens opens] at rejected
      cases rejected
    · rw [decode, rejected, Result.error_bind]
  rcases parseMeta_cases small with ⟨message, rejected⟩ | ⟨m, read, inside, text⟩
  · refine .inl ⟨fun opens => ?_, message, ?_⟩
    · rw [parseMeta_eq small, if_pos opens.inside, readMetaText] at rejected
      obtain ⟨m, readable⟩ := opens.readable
      rw [readable] at rejected
      cases rejected
    · rw [decode, accepted, Result.ok_bind, rejected, Result.error_bind]
  refine .inr ⟨⟨long, begins, current, ranges, inside, m, text⟩, ?_⟩
  simp only [decode, accepted, Result.ok_bind, read, usize_dirTableOff, usize_metaOff, parseDirTable, toNat_dirCount]
  -- only the slice between the two offsets and what is read in it can trap
  by_cases ordered : dirTableAt P bytes ≤ metaAt P bytes
  · have table : sliceOf bytes (dirTableAt P bytes) (metaAt P bytes) = .ok (tableOf P bytes) :=
      if_pos ⟨ordered, by omega⟩
    simp only [table, Result.ok_bind, Result.bind_eq_trap_iff, foldlM_traps_iff]
    simp only [Result.pure_eq, reduceCtorEq, and_false, exists_false, or_false, ordered, not_true_eq_false, false_or,
      true_and]
  · have table : sliceOf bytes (dirTableAt P bytes) (metaAt P bytes) = .error .trap := if_neg fun both => ordered both.1
    simp [table, Result.error_bind, ordered]

/-- `decode` gives an index or an error, whatever the bytes, exactly when a file that opens has its
directory table before its metadata and no length that is read in it overruns. -/
theorem decode_in_bounds_iff (P : Platform) (bytes : Bytes) (small : IsSlice P bytes) :
    decode P bytes ≠ .error .trap ↔ (Opens P bytes → InBounds P bytes) := by
  rcases decode_cases small with ⟨closed, message, rejected⟩ | ⟨opens, traps⟩
  · exact iff_of_true (by simp [rejected]) fun opens => absurd opens closed
  rw [ne_eq, traps, not_or, not_not, forall_prop_of_true opens]
  have insideMeta := opens.inside
  have table : IsSlice P (tableOf P bytes) := small.slice (by omega)
  constructor
  · rintro ⟨ordered, further⟩
    obtain ⟨rowsStay, blocksStay⟩ := not_or.mp (fun more => further ⟨ordered, more⟩)
    refine ⟨ordered, fun here meets overruns => rowsStay ((readDirRows_traps_iff table _ (Nat.zero_le _)).mpr
      ⟨here, meets, overruns⟩), fun stop passes k less earlier start len block overruns => blocksStay ?_⟩
    obtain ⟨rows, read⟩ := readDirRows_of_passes table (Nat.zero_le _) passes
    obtain ⟨_, length, blocks⟩ := readDirRows_ok table (Nat.zero_le _) read
    have at_k : rows[k]? = some (rows.get ⟨k, length ▸ less⟩) := List.getElem?_eq_getElem _
    -- the row the walk found at `k` is the row the table holds there
    obtain ⟨rfl, rfl⟩ := (blocks k _ at_k).unique block
    refine ⟨rows, read, k, _, at_k, (parseChildBlock_traps_iff small).mpr overruns, fun j before other at_j => ?_⟩
    exact (parseChildBlock_ok_iff small).mpr (earlier j before _ _ (blocks j other at_j))
  · intro bounds
    refine ⟨bounds.ordered, ?_⟩
    rintro ⟨_, trapped | ⟨rows, read, k, row, at_k, trapped, earlier⟩⟩
    · -- a trap in the table
      obtain ⟨here, meets, overruns⟩ := (readDirRows_traps_iff table _ (Nat.zero_le _)).mp trapped
      exact bounds.rows here meets overruns
    · -- a trap in a block, with every block before it read
      obtain ⟨⟨stop, passes⟩, length, blocks⟩ := readDirRows_ok table (Nat.zero_le _) read
      have less : k < dirCountOf bytes := length ▸ (List.getElem?_eq_some_iff.mp at_k).1
      refine bounds.blocks stop passes k less (fun j before start len block => ?_) _ _ (blocks k row at_k)
        ((parseChildBlock_traps_iff small).mp trapped)
      have at_j : rows[j]? = some (rows.get ⟨j, by omega⟩) := List.getElem?_eq_getElem _
      obtain ⟨rfl, rfl⟩ := (blocks j _ at_j).unique block
      exact (parseChildBlock_ok_iff small).mp (earlier j before _ at_j)

end Decode

def rootWithFile : Index :=
  [⟨"r", none, "root", false, true, ⟨true, 0, 0, ""⟩⟩, ⟨"f", some "r", "f.txt", false, false, ⟨false, 1, 0, ""⟩⟩].foldl
    Index.apply Index.empty

def oneRow : Bytes :=
  match encode (wasm32 metaText) ["r", "f"] 7 rootWithFile with
  | .ok bytes => bytes
  | .error _ => []

theorem decode_in_bounds_iff_oneRow :
    dirCountOf oneRow = 1 ∧ Opens (wasm32 metaText) oneRow ∧ InBounds (wasm32 metaText) oneRow := by
  have small : IsSlice (wasm32 metaText) oneRow := by unfold IsSlice; decide +kernel
  have decoded : (decode (wasm32 metaText) oneRow).isOk = true := by
    rw [metaText_eq_asciiText]
    decide +kernel
  have readable : ((wasm32 metaText).json.fromSlice (slice oneRow (metaAt (wasm32 metaText) oneRow)
      (metaAt (wasm32 metaText) oneRow + metaLenOf oneRow))).isOk = true := by
    rw [metaText_eq_asciiText]
    decide +kernel
  have opens : Opens (wasm32 metaText) oneRow := by
    refine ⟨by decide +kernel, by decide +kernel, by decide +kernel, fun _ => by decide +kernel, by decide +kernel, ?_⟩
    cases read : (wasm32 metaText).json.fromSlice (slice oneRow (metaAt (wasm32 metaText) oneRow)
        (metaAt (wasm32 metaText) oneRow + metaLenOf oneRow)) with
    | error message =>
      rw [read] at readable
      cases readable
    | ok m => exact ⟨m, rfl⟩
  obtain ⟨idx, stored⟩ := Result.exists_of_isOk decoded
  refine ⟨by decide +kernel, opens, (decode_in_bounds_iff _ _ small).mp ?_ opens⟩
  rw [stored]
  exact fun trapped => by cases trapped

def tableSaidAt (off : UInt64) : Bytes :=
  writeHeader (List.replicate headerLen 0 ++ text) off 0 32 (UInt32.ofNat text.length)
where
  text : Bytes :=
    utf8 "\x7b\"delta_token\":null,\"pending_next_link\":null,\"crawl_complete\":true,\"generation\":0,\"built_at\":7,\"root_id\":null,\"total_dirs\":0,\"total_files\":0\x7d"

/-- A table that is said to begin one byte further ends before it begins. -/
theorem table_behind_metadata_panics :
    IsSlice (wasm32 metaText) (tableSaidAt 33) ∧ decode (wasm32 metaText) (tableSaidAt 33) = .error .trap := by
  have trapped : (match decode (wasm32 metaText) (tableSaidAt 33) with
      | .error fault => decide (fault = .trap)
      | .ok _ => false) = true := by
    rw [metaText_eq_asciiText]
    decide +kernel
  refine ⟨by unfold IsSlice; decide +kernel, ?_⟩
  split at trapped
  · rename_i fault failed
    rw [failed, of_decide_eq_true trapped]
  · cases trapped

end Snapshot

end OneDriveDavfs
