import OneDriveDavfs.Library.Separated
import OneDriveDavfs.Library.Text

/-! The `Destination` header: `destination_path` and `is_loopback_hostport` in `src/lib.rs`.

The check cuts a host out of the authority and compares it with four names.
What it cuts off is never looked at again, so that authorities other than the
loopback ones pass: those that begin with a bracket before one of the names,
and the bare `::1` with a port.
-/

set_option autoImplicit false

namespace OneDriveDavfs

open Library.Separated Library.Wire

namespace Destination

def loopbackHosts : List String := ["127.0.0.1", "localhost", "localhost.localdomain", "::1"]

def isPort (port : List Char) : Bool := !port.isEmpty && port.all Char.isDigit

def hostOf (hostport : List Char) : List Char :=
  match hostport with
  | '[' :: rest => rest.takeWhile (· ≠ ']')
  | _ =>
    match rsplitOnce ':' hostport with
    | some (h, port) => if isPort port then h else hostport
    | none => hostport

def isLoopbackHostport (hostport : List Char) : Bool := String.ofList (hostOf hostport) ∈ loopbackHosts

def destinationPath (raw : String) : Except String String :=
  let raw := trim raw
  if ¬ "://".toList <:+: raw.toList then .ok raw
  else
    match splitOnce "://".toList raw.toList with
    | none => .error "malformed Destination URL"
    | some (_, rest) =>
      let (hostport, path) :=
        match rest.findIdx? (· = '/') with
        | some i => (rest.take i, rest.drop i)
        | none => (rest, "/".toList)
      if isLoopbackHostport hostport then .ok (String.ofList path) else .error "Destination host must be loopback"

/-! ## Absolute values -/

/-- `scheme://authority`, or `scheme://authority/rest`. -/
structure Absolute where
  scheme : List Char
  authority : List Char
  rest : Option (List Char)
  /-- the scheme ends at the first mark -/
  marked : ¬ "://".toList <:+: scheme
  /-- the authority ends at the first slash -/
  bounded : '/' ∉ authority

namespace Absolute
variable (url : Absolute)

def tail : List Char := url.rest.elim [] ('/' :: ·)

def text : String := String.ofList (url.scheme ++ ("://".toList ++ (url.authority ++ url.tail)))

end Absolute

def Loopback (authority : List Char) : Prop :=
  ∃ host ∈ ["127.0.0.1", "localhost", "localhost.localdomain", "[::1]"], ∃ port,
    (port = [] ∨ ∃ digits, isPort digits = true ∧ port = ':' :: digits) ∧ authority = host.toList ++ port

/-- An absolute value is accepted for its authority alone, and keeps what follows it. -/
structure Checked (url : Absolute) : Prop where
  accepted_iff : (∃ path, destinationPath url.text = .ok path) ↔ Loopback url.authority
  path_eq : ∀ path, destinationPath url.text = .ok path → path.toList = '/' :: url.rest.getD []

/-! ## What the check cuts out of an authority -/

/-- Authorities of which no more than a name is looked at. -/
inductive Disguised : List Char → Prop where
  | bracketed {host : String} {more : List Char} : host ∈ loopbackHosts →
      (more = [] ∨ ∃ behind, more = ']' :: behind) → Disguised ('[' :: (host.toList ++ more))
  | bare {digits : List Char} : isPort digits = true → Disguised ("::1".toList ++ ':' :: digits)

theorem isPort_clean {port : List Char} (digits : isPort port = true) : ':' ∉ port := by
  rw [isPort, Bool.and_eq_true, List.all_eq_true] at digits
  intro member
  exact absurd (digits.2 ':' member) (by decide)

theorem last_colon_unique {front last before digits : List Char}
    (same : front ++ ':' :: last = before ++ ':' :: digits) (clean : ':' ∉ last) (absent : ':' ∉ digits) :
    front = before ∧ last = digits := by
  have cut := rsplitOnce_separator front clean
  rw [same, rsplitOnce_separator before absent, Option.some.injEq, Prod.mk.injEq] at cut
  exact ⟨cut.1.symm, cut.2.symm⟩

theorem isLoopbackHostport_bracketed (rest : List Char) :
    isLoopbackHostport ('[' :: rest) = true ↔ Disguised ('[' :: rest) := by
  have clean : ∀ host ∈ loopbackHosts, ']' ∉ host.toList := by decide
  rw [isLoopbackHostport, decide_eq_true_iff, hostOf]
  constructor
  · intro known
    obtain ⟨more, whole, ends⟩ := (takeWhile_ne_eq_iff (clean _ known) rest).mp String.toList_ofList.symm
    rw [whole]
    exact .bracketed known ends
  · generalize given : '[' :: rest = authority
    rintro (⟨known, ends⟩ | _)
    · cases given
      rw [(takeWhile_ne_eq_iff (clean _ known) _).mpr ⟨_, rfl, ends⟩, String.ofList_toList]
      exact known
    · cases given

theorem authority_host {host : String}
    (member : host ∈ ["127.0.0.1", "localhost", "localhost.localdomain", "[::1]"]) :
    (host ∈ loopbackHosts ∧ ':' ∉ host.toList ∧ host.toList ≠ [] ∧ host.toList.head? ≠ some '[') ∨ host = "[::1]" := by
  revert host
  decide

theorem loopback_host {host : String} (member : host ∈ loopbackHosts) :
    (host ∈ ["127.0.0.1", "localhost", "localhost.localdomain", "[::1]"] ∧ ':' ∉ host.toList) ∨ host = "::1" := by
  revert host
  decide

section Plain
variable {authority : List Char} (plain : authority.head? ≠ some '[')
include plain

theorem hostOf_plain :
    hostOf authority = match rsplitOnce ':' authority with
      | some (h, port) => if isPort port then h else authority
      | none => authority := by
  unfold hostOf
  split
  · exact absurd rfl plain
  · rfl

theorem loopback_plain (loopback : Loopback authority) :
    ∃ host ∈ loopbackHosts, ':' ∉ host.toList ∧
      (authority = host.toList ∨ ∃ digits, isPort digits = true ∧ authority = host.toList ++ ':' :: digits) := by
  obtain ⟨host, member, port, ends, whole⟩ := loopback
  rcases authority_host member with ⟨known, clean, _⟩ | rfl
  · refine ⟨host, known, clean, ?_⟩
    rcases ends with rfl | ⟨digits, isDigits, rfl⟩
    · exact .inl (whole.trans (List.append_nil _))
    · exact .inr ⟨digits, isDigits, whole⟩
  · subst whole
    exact absurd rfl plain

theorem disguised_plain (disguised : Disguised authority) :
    ∃ digits, isPort digits = true ∧ authority = "::1".toList ++ ':' :: digits := by
  cases disguised with
  | bracketed => exact absurd rfl plain
  | bare digits => exact ⟨_, digits, rfl⟩

theorem known_without_colon (absent : ':' ∉ authority) :
    String.ofList authority ∈ loopbackHosts ↔ Loopback authority ∨ Disguised authority := by
  constructor
  · intro known
    rcases loopback_host known with ⟨member, _⟩ | six
    · exact .inl ⟨_, member, [], .inl rfl, by rw [String.toList_ofList, List.append_nil]⟩
    · have same : authority = "::1".toList := by rw [← six, String.toList_ofList]
      exact absurd (by rw [same]; decide) absent
  · rintro (loopback | disguised)
    · obtain ⟨host, known, _, rfl | ⟨digits, _, rfl⟩⟩ := loopback_plain plain loopback
      · rwa [String.ofList_toList]
      · exact absurd (List.mem_append_right _ List.mem_cons_self) absent
    · obtain ⟨digits, _, rfl⟩ := disguised_plain plain disguised
      exact absurd (List.mem_append_right _ List.mem_cons_self) absent

section Colon
variable {front last : List Char} (whole : authority = front ++ ':' :: last)
include whole

/-- Before the last colon and a port stands the host, and `::1` there is a disguise. -/
theorem known_with_port (port : isPort last = true) :
    String.ofList front ∈ loopbackHosts ↔ Loopback authority ∨ Disguised authority := by
  constructor
  · intro known
    rcases loopback_host known with ⟨member, _⟩ | six
    · exact .inl ⟨_, member, _, .inr ⟨last, port, rfl⟩, by rw [String.toList_ofList, whole]⟩
    · have same : front = "::1".toList := by rw [← six, String.toList_ofList]
      rw [whole, same]
      exact .inr (.bare port)
  · rintro (loopback | disguised)
    · obtain ⟨host, known, clean, same | ⟨digits, isDigits, same⟩⟩ := loopback_plain plain loopback
      · rw [whole] at same
        exact absurd (same ▸ List.mem_append_right _ List.mem_cons_self) clean
      · rw [(last_colon_unique (whole.symm.trans same) (isPort_clean port) (isPort_clean isDigits)).1, String.ofList_toList]
        exact known
    · obtain ⟨digits, isDigits, same⟩ := disguised_plain plain disguised
      rw [(last_colon_unique (whole.symm.trans same) (isPort_clean port) (isPort_clean isDigits)).1, String.ofList_toList]
      decide

/-- What is no port belongs to the host, which then is no name: the last colon of `::1` stands before a digit. -/
theorem unknown_with_odd_port (clean : ':' ∉ last) (odd : isPort last ≠ true) :
    String.ofList authority ∈ loopbackHosts ↔ Loopback authority ∨ Disguised authority := by
  have colon : ':' ∈ authority := whole ▸ List.mem_append_right _ List.mem_cons_self
  have other : ∀ {before digits : List Char}, isPort digits = true → authority ≠ before ++ ':' :: digits := by
    intro before digits port same
    obtain ⟨_, rfl⟩ := last_colon_unique (whole.symm.trans same) clean (isPort_clean port)
    exact odd port
  constructor
  · intro known
    rcases loopback_host known with ⟨_, absent⟩ | six
    · rw [String.toList_ofList] at absent
      exact absurd colon absent
    · have same : authority = ":".toList ++ ':' :: "1".toList := by
        have text := String.toList_ofList (l := authority)
        rw [six] at text
        exact text.symm
      exact absurd same (other (by decide))
  · rintro (loopback | disguised)
    · obtain ⟨host, _, absent, same | ⟨digits, port, same⟩⟩ := loopback_plain plain loopback
      · exact absurd (same ▸ colon) absent
      · exact absurd same (other port)
    · obtain ⟨digits, port, same⟩ := disguised_plain plain disguised
      exact absurd same (other port)

end Colon

theorem isLoopbackHostport_plain : isLoopbackHostport authority = true ↔ Loopback authority ∨ Disguised authority := by
  rw [isLoopbackHostport, decide_eq_true_iff, hostOf_plain plain]
  rcases rsplitOnce_cases ':' authority with ⟨absent, cut⟩ | ⟨front, last, whole, clean, cut⟩
  · rw [cut]
    exact known_without_colon plain absent
  · rw [cut]
    dsimp only
    split
    · rename_i port
      exact known_with_port plain whole port
    · rename_i odd
      exact unknown_with_odd_port plain whole clean odd

end Plain

theorem isLoopbackHostport_iff (authority : List Char) :
    isLoopbackHostport authority = true ↔ Loopback authority ∨ Disguised authority := by
  by_cases bracket : authority.head? = some '['
  · obtain ⟨rest, rfl⟩ := List.head?_eq_some_iff.mp bracket
    have loopback : Loopback ('[' :: rest) → Disguised ('[' :: rest) := by
      rintro ⟨host, member, port, _, whole⟩
      rcases authority_host member with ⟨_, _, filled, plain⟩ | rfl
      · rw [whole, List.head?_append_of_ne_nil _ filled] at bracket
        exact absurd bracket plain
      · have behind : rest = "::1".toList ++ (']' :: port) := List.tail_eq_of_cons_eq whole
        rw [behind]
        exact .bracketed (by decide) (.inr ⟨port, rfl⟩)
    rw [isLoopbackHostport_bracketed, or_iff_right_of_imp loopback]
  · exact isLoopbackHostport_plain bracket

/-! ## The whole value -/

namespace Absolute
variable (url : Absolute)

/-- The authority as the check sees it: without a rest, the end of the value is trimmed. -/
def seen : List Char := if url.rest.isNone then url.authority.rdropWhile isWhitespace else url.authority

def last : List Char := url.rest.getD url.authority

/-- What `destination_path` hands on for an accepted authority. -/
def given : List Char := '/' :: (url.rest.getD []).rdropWhile isWhitespace

theorem seen_bounded : '/' ∉ url.seen := by
  unfold seen
  split
  · exact fun member => url.bounded ((List.rdropWhile_prefix _ _).subset member)
  · exact url.bounded

theorem toList_trim_text :
    (trim url.text).toList = url.scheme.dropWhile isWhitespace ++
      ("://".toList ++ (url.seen ++ (url.rest.elim [] fun rest => '/' :: rest.rdropWhile isWhitespace))) := by
  have colon : isWhitespace ':' = false := by decide
  have slash : isWhitespace '/' = false := by decide
  have mark : "://".toList = [':', '/', '/'] := rfl
  unfold text tail seen
  cases url.rest with
  | none =>
    have whole := toList_trim_marked slash (url.scheme ++ ':' :: ['/']) url.authority
    rw [dropWhile_marked colon] at whole
    simpa [mark] using whole
  | some rest =>
    have whole := toList_trim_marked slash (url.scheme ++ ':' :: '/' :: '/' :: url.authority) rest
    rw [dropWhile_marked colon] at whole
    simpa [mark] using whole

theorem splitOnce_mark (behind : List Char) :
    splitOnce "://".toList (url.scheme.dropWhile isWhitespace ++ ("://".toList ++ behind)) =
      some (url.scheme.dropWhile isWhitespace, behind) := by
  refine splitOnce_append ?_
  intro tail filled inScheme begins
  -- a mark that begins in the scheme and ends behind it would begin with two of its characters
  rcases tail with _ | ⟨a, _ | ⟨b, _ | ⟨c, tail⟩⟩⟩
  · exact filled rfl
  · cases (List.cons_prefix_cons.mp begins).1
    exact absurd (List.cons_prefix_cons.mp (List.cons_prefix_cons.mp begins).2).1 (by decide)
  · obtain ⟨_, second⟩ := List.cons_prefix_cons.mp begins
    obtain ⟨_, third⟩ := List.cons_prefix_cons.mp second
    exact absurd (List.cons_prefix_cons.mp third).1 (by decide)
  · have inside : "://".toList <+: a :: b :: c :: tail := by
      simpa [List.cons_prefix_cons] using begins
    have part : a :: b :: c :: tail <:+: url.scheme := (inScheme.trans (List.dropWhile_suffix _)).isInfix
    exact url.marked (inside.isInfix.trans part)

/-- The answer for an absolute value, in terms of what it is made of. -/
theorem destinationPath_text :
    destinationPath url.text =
      if isLoopbackHostport url.seen then .ok (String.ofList url.given) else .error "Destination host must be loopback" := by
  have mark : ¬ ¬ "://".toList <:+: (trim url.text).toList := by
    rw [toList_trim_text, not_not]
    exact ⟨_, _, List.append_assoc _ _ _⟩
  have clean : ∀ c ∈ url.seen, decide (c = '/') = false := by
    intro c member
    rw [decide_eq_false_iff_not]
    rintro rfl
    exact url.seen_bounded member
  unfold destinationPath
  dsimp only
  rw [if_neg mark, toList_trim_text, splitOnce_mark]
  dsimp only
  -- the authority that is seen ends before the first slash, if there is one
  have absent : url.seen.findIdx? (· = '/') = none := List.findIdx?_eq_none_iff.mpr clean
  unfold given
  cases url.rest with
  | none =>
    rw [Option.elim_none, List.append_nil, absent]
    rfl
  | some rest =>
    have found : (url.seen ++ '/' :: rest.rdropWhile isWhitespace).findIdx? (· = '/') = some url.seen.length := by
      rw [List.findIdx?_append, absent, List.findIdx?_cons]
      simp
    rw [Option.elim_some, found]
    simp only [List.take_left, List.drop_left]
    rfl

end Absolute

theorem isDigit_not_whitespace {c : Char} (digit : c.isDigit = true) : isWhitespace c = false := by
  have bounds : 48 ≤ c.toNat ∧ c.toNat ≤ 57 := by
    simpa [Char.isDigit, UInt32.le_iff_toNat_le] using digit
  rw [← Bool.not_eq_true]
  intro white
  simp only [isWhitespace, Bool.or_eq_true, Bool.and_eq_true, decide_eq_true_eq] at white
  omega

theorem Loopback.rdropWhile_eq {authority : List Char} (loopback : Loopback authority) :
    authority.rdropWhile isWhitespace = authority := by
  have names : ["127.0.0.1", "localhost", "localhost.localdomain", "[::1]"].all
      (fun host => host.toList.all fun c => !isWhitespace c) = true := by decide
  obtain ⟨host, member, port, ends, rfl⟩ := loopback
  have black : ∀ c ∈ host.toList ++ port, isWhitespace c = false := by
    intro c inText
    rcases List.mem_append.mp inText with inHost | inPort
    · have inName := List.all_eq_true.mp (List.all_eq_true.mp names host member) c inHost
      rwa [Bool.not_eq_true'] at inName
    · rcases ends with rfl | ⟨digits, isDigits, rfl⟩
      · exact absurd inPort List.not_mem_nil
      · rw [isPort, Bool.and_eq_true, List.all_eq_true] at isDigits
        rcases List.mem_cons.mp inPort with rfl | inDigits
        · decide
        · exact isDigit_not_whitespace (isDigits.2 c inDigits)
  rw [List.rdropWhile_eq_self_iff]
  intro filled
  rw [black _ (List.getLast_mem filled)]
  exact Bool.false_ne_true

section Check
variable (url : Absolute)

theorem accepted_iff_seen :
    (∃ path, destinationPath url.text = .ok path) ↔ Loopback url.seen ∨ Disguised url.seen := by
  rw [url.destinationPath_text, ← isLoopbackHostport_iff]
  split
  · rename_i passes
    exact ⟨fun _ => passes, fun _ => ⟨_, rfl⟩⟩
  · rename_i refused
    exact ⟨fun ⟨_, impossible⟩ => (nomatch impossible), fun passes => absurd passes refused⟩

theorem toList_of_accepted {path : String} (passed : destinationPath url.text = .ok path) : path.toList = url.given := by
  rw [url.destinationPath_text] at passed
  split at passed
  · cases passed
    exact String.toList_ofList
  · cases passed

theorem seen_of_loopback (loopback : Loopback url.authority) : url.seen = url.authority := by
  unfold Absolute.seen
  split
  · exact loopback.rdropWhile_eq
  · rfl

theorem seen_of_untrimmed (untrimmed : url.last.rdropWhile isWhitespace = url.last) : url.seen = url.authority := by
  unfold Absolute.last at untrimmed
  unfold Absolute.seen
  cases rest : url.rest with
  | none =>
    rw [rest, Option.getD_none] at untrimmed
    exact untrimmed
  | some => rfl

/-- What an absolute value leads to is right exactly when the authority that is seen is no disguise, and an accepted
value has no white space at its end. -/
theorem checked_iff :
    Checked url ↔ (Disguised url.seen → Loopback url.seen) ∧
      (Loopback url.seen → url.last.rdropWhile isWhitespace = url.last) := by
  constructor
  · rintro ⟨accepted_iff, path_eq⟩
    refine ⟨?_, ?_⟩
    · -- a disguised authority is accepted, so it would have to be a loopback one
      intro disguised
      have loopback := accepted_iff.mp ((accepted_iff_seen url).mpr (.inr disguised))
      exact seen_of_loopback url loopback ▸ loopback
    · intro loopback
      obtain ⟨path, passed⟩ := (accepted_iff_seen url).mpr (.inl loopback)
      have kept := path_eq path passed
      rw [toList_of_accepted url passed, Absolute.given, List.cons.injEq] at kept
      unfold Absolute.last
      cases rest : url.rest with
      | none => exact (accepted_iff.mp ⟨path, passed⟩).rdropWhile_eq
      | some rest' =>
        rw [rest] at kept
        exact kept.2
  · rintro ⟨genuine, untrimmed⟩
    -- what is accepted is loopback, since it is no disguise
    have loopback_of_accepted : (∃ path, destinationPath url.text = .ok path) → Loopback url.seen := fun accepted =>
      ((accepted_iff_seen url).mp accepted).elim id genuine
    refine ⟨⟨?_, ?_⟩, ?_⟩
    · intro accepted
      have loopback := loopback_of_accepted accepted
      exact seen_of_untrimmed url (untrimmed loopback) ▸ loopback
    · intro loopback
      rw [accepted_iff_seen, seen_of_loopback url loopback]
      exact .inl loopback
    · intro path passed
      have kept := untrimmed (loopback_of_accepted ⟨path, passed⟩)
      rw [toList_of_accepted url passed, Absolute.given]
      unfold Absolute.last at kept
      cases rest : url.rest with
      | none => rfl
      | some rest' =>
        rw [rest, Option.getD_some] at kept
        rw [Option.getD_some, kept]

end Check

def foreign : Absolute where
  scheme := "http".toList
  authority := "[localhost]@evil.example".toList
  rest := some "x".toList
  marked := by decide
  bounded := by decide

theorem foreign_accepted :
    foreign.text = "http://[localhost]@evil.example/x" ∧ destinationPath foreign.text = .ok "/x" ∧ ¬ Checked foreign := by
  have passed : destinationPath foreign.text = .ok "/x" := by decide
  refine ⟨by decide, passed, ?_⟩
  rintro ⟨accepted_iff, _⟩
  obtain ⟨host, member, port, _, whole⟩ := accepted_iff.mp ⟨_, passed⟩
  rcases authority_host member with ⟨_, _, filled, plain⟩ | rfl
  · have front := congrArg List.head? whole
    rw [List.head?_append_of_ne_nil _ filled] at front
    exact plain front.symm
  · exact absurd (congrArg (fun text => text[1]?) whole) (by simp [foreign])

end Destination

end OneDriveDavfs
