import OneDriveDavfs.Graph.Requests
import OneDriveDavfs.Library.Loop

/-! The listing of a folder: `children` in `src/graph.rs`.

The loop counts its pages and follows the links of the answers. The replies
are whatever they are, so that the chain of the links may end, go on for ever
or come back to where it was.
-/

set_option autoImplicit false

namespace OneDriveDavfs

open Library Library.Wire Library.Effect

namespace Graph

structure Listing where
  url : String
  items : List GraphItem
  pages : Nat

section Rounds
variable (token : Auth.TokenJson) (json : GraphJson) (env : Environment) (config : Config)

def childrenRound (listing : Listing) : Daemon (Listing ⊕ List GraphItem) := do
  let response ← graphRequest token env config .get listing.url none []
  if response.status ≠ 200 then throw (failedWith "children" response)
  else
    match json.driveItemPage response.body with
    | .error e => throw (.failed ("failed to parse children page: " ++ e))
    | .ok page =>
      let items := listing.items ++ page.value.map toItem
      let pages := listing.pages + 1
      match page.nextLink with
      | some next =>
        match validateNextLink next pages with
        | .ok url => return .inl ⟨url, items, pages⟩
        | .error e => throw (.failed e)
      | none => return .inr items

def firstListing (path : String) : Listing :=
  ⟨v1 (itemPathSegment config.driveBase path ++ "/children?$top=200"), [], 0⟩

def IsPage (url : String) (world : World) (page : DriveItemPage) : Prop :=
  ∃ response, (graphRequest token env config .get url none []).outcome world = .ok response ∧
    response.status = 200 ∧ json.driveItemPage response.body = .ok page

def asked (url : String) (world : World) : World := (graphRequest token env config .get url none []).after world

/-- The pages of a chain of replies: each one but the last has a link to Graph, the last one has none. -/
inductive Pages : String → World → List DriveItemPage → Prop where
  | last {url : String} {world : World} {page : DriveItemPage} :
      IsPage token json env config url world page → page.nextLink = none → Pages url world [page]
  | more {url next : String} {world : World} {page : DriveItemPage} {pages : List DriveItemPage} :
      IsPage token json env config url world page → page.nextLink = some next → startsWith next graphOrigin = true →
      Pages next (asked token env config url world) pages → Pages url world (page :: pages)

variable {token json env config} {listing : Listing} {world : World}

theorem Pages.length_pos {url : String} {pages : List DriveItemPage}
    (chain : Pages token json env config url world pages) :
    0 < pages.length := by
  cases chain <;> exact Nat.succ_pos _

theorem after_childrenRound :
    (childrenRound token json env config listing).after world = asked token env config listing.url world := by
  unfold childrenRound asked
  cases sent : (graphRequest token env config .get listing.url none []).outcome world with
  | error stop => rw [after_bind_error _ sent]
  | ok response =>
    rw [after_bind_ok _ sent]
    split
    · rfl
    · split
      · rfl
      · dsimp only
        split
        · split <;> rfl
        · rfl

theorem IsPage.unique {url : String} {page other : DriveItemPage}
    (answered : IsPage token json env config url world page)
    (again : IsPage token json env config url world other) : page = other := by
  obtain ⟨response, came, _, parsed⟩ := answered
  obtain ⟨same, cameAgain, _, parsedAgain⟩ := again
  cases came.symm.trans cameAgain
  exact Except.ok.inj (parsed.symm.trans parsedAgain)

theorem childrenRound_stops (other : ¬ ∃ page, IsPage token json env config listing.url world page) :
    ∃ stop, (childrenRound token json env config listing).outcome world = .error stop := by
  unfold childrenRound
  cases sent : (graphRequest token env config .get listing.url none []).outcome world with
  | error stop => exact ⟨stop, outcome_bind_error _ sent⟩
  | ok response =>
    rw [outcome_bind_ok _ sent]
    by_cases status : response.status = 200
    · rw [if_neg (not_not.mpr status)]
      cases parsed : json.driveItemPage response.body with
      | error e => exact ⟨_, rfl⟩
      | ok page => exact absurd ⟨page, response, sent, status, parsed⟩ other
    · rw [if_pos status]
      exact ⟨_, rfl⟩

theorem childrenRound_of_answered {page : DriveItemPage}
    (answered : IsPage token json env config listing.url world page) :
    (childrenRound token json env config listing).outcome world = match page.nextLink with
      | some next => match validateNextLink next (listing.pages + 1) with
        | .ok url => .ok (.inl ⟨url, listing.items ++ page.value.map toItem, listing.pages + 1⟩)
        | .error e => .error (.failed e)
      | none => .ok (.inr (listing.items ++ page.value.map toItem)) := by
  obtain ⟨response, came, status, parsed⟩ := answered
  unfold childrenRound
  rw [outcome_bind_ok _ came, if_neg (not_not.mpr status), parsed]
  dsimp only
  split
  · split <;> rfl
  · rfl

theorem IsPage.exists_iff {url : String} {page : DriveItemPage} (answered : IsPage token json env config url world page)
    {Q : DriveItemPage → Prop} : (∃ other, IsPage token json env config url world other ∧ Q other) ↔ Q page := by
  constructor
  · rintro ⟨other, again, holds⟩
    rwa [answered.unique again]
  · exact fun holds => ⟨page, answered, holds⟩

theorem childrenRound_returned_iff {items : List GraphItem} :
    (childrenRound token json env config listing).outcome world = .ok (.inr items) ↔
      ∃ page, IsPage token json env config listing.url world page ∧ page.nextLink = none ∧
        items = listing.items ++ page.value.map toItem := by
  by_cases isPage : ∃ page, IsPage token json env config listing.url world page
  · obtain ⟨page, answered⟩ := isPage
    rw [childrenRound_of_answered answered, answered.exists_iff]
    cases page.nextLink with
    | none => simp [eq_comm]
    | some next =>
      dsimp only
      split <;> simp
  · obtain ⟨stop, stopped⟩ := childrenRound_stops isPage
    rw [stopped]
    constructor
    · exact fun returned => by cases returned
    · rintro ⟨page, answered, _⟩
      exact absurd ⟨page, answered⟩ isPage

theorem childrenRound_again_iff {next : Listing} :
    (childrenRound token json env config listing).outcome world = .ok (.inl next) ↔
      ∃ page, IsPage token json env config listing.url world page ∧ page.nextLink = some next.url ∧
        startsWith next.url graphOrigin = true ∧ listing.pages + 1 < maxChildrenPages ∧
        next.items = listing.items ++ page.value.map toItem ∧ next.pages = listing.pages + 1 := by
  by_cases isPage : ∃ page, IsPage token json env config listing.url world page
  · obtain ⟨page, answered⟩ := isPage
    rw [childrenRound_of_answered answered, answered.exists_iff]
    cases page.nextLink with
    | none => simp
    | some link =>
      dsimp only
      cases valid : validateNextLink link (listing.pages + 1) with
      | ok url =>
        -- the validator hands the link back as it is
        obtain ⟨rfl, inside, few⟩ := validateNextLink_ok_iff.mp valid
        constructor
        · intro went
          cases went
          exact ⟨rfl, inside, few, rfl, rfl⟩
        · rintro ⟨same, _, _, items, pages⟩
          obtain ⟨url, _, _⟩ := next
          cases same
          rw [← items, ← pages]
      | error e =>
        constructor
        · exact fun went => by cases went
        -- the other origin and the last page are the only refusals
        · rintro ⟨same, inside, few, _⟩
          cases same
          rw [validateNextLink_ok_iff.mpr ⟨rfl, inside, few⟩] at valid
          cases valid
  · obtain ⟨stop, stopped⟩ := childrenRound_stops isPage
    rw [stopped]
    constructor
    · exact fun went => by cases went
    · rintro ⟨page, answered, _⟩
      exact absurd ⟨page, answered⟩ isPage

/-- The model with a bound on its rounds is the loop with that bound. -/
theorem childrenFrom_eq_bounded {left : Nat} (few : left ≤ maxChildrenPages) (url : String) (items : List GraphItem) :
    childrenFrom token json env config left url items =
      bounded .cut (childrenRound token json env config) left ⟨url, items, maxChildrenPages - left⟩ := by
  induction left generalizing url items with
  | zero => rfl
  | succ left ih =>
    have counted : maxChildrenPages - (left + 1) + 1 = maxChildrenPages - left := by omega
    rw [childrenFrom, bounded, childrenRound, bind_assoc]
    refine bind_congr fun response => ?_
    by_cases status : response.status = 200
    · rw [if_neg (not_not.mpr status), if_neg (not_not.mpr status)]
      cases json.driveItemPage response.body with
      | error e => rfl
      | ok page =>
        dsimp only
        cases page.nextLink with
        | none => rfl
        | some next =>
          dsimp only
          rw [counted]
          cases validateNextLink next (maxChildrenPages - left) with
          | error e => rfl
          | ok url => exact ih (Nat.le_of_succ_le few) url _
    · rw [if_pos status, if_pos status]
      rfl

theorem exists_childrenLoop (first : listing.pages < maxChildrenPages) : ∃ rounds result left,
    rounds ≤ maxChildrenPages - listing.pages ∧
      Loop (childrenRound token json env config) listing world rounds result left := by
  have decreases : ∀ (listing : Listing) (world : World) (next : Listing),
      (childrenRound token json env config listing).outcome world = .ok (.inl next) →
        maxChildrenPages - 1 - next.pages < maxChildrenPages - 1 - listing.pages := by
    intro listing world next went
    obtain ⟨_, _, _, _, few, _, pages⟩ := childrenRound_again_iff.mp went
    omega
  obtain ⟨rounds, result, left, bound, loop⟩ := exists_loop decreases listing world
  exact ⟨rounds, result, left, by omega, loop⟩

theorem childrenLoop_returns_iff {rounds : Nat} {result : Except Stop (List GraphItem)} {left : World}
    (loop : Loop (childrenRound token json env config) listing world rounds result left)
    (first : listing.pages < maxChildrenPages) (items : List GraphItem) :
    result = .ok items ↔ ∃ pages, Pages token json env config listing.url world pages ∧
      listing.pages + pages.length ≤ maxChildrenPages ∧
      items = listing.items ++ pages.flatMap fun page => page.value.map toItem := by
  induction loop with
  | @returned listing world out ended =>
    obtain ⟨page, answered, isLast, rfl⟩ := childrenRound_returned_iff.mp ended
    constructor
    · intro same
      cases same
      exact ⟨[page], .last answered isLast, first, by simp⟩
    · rintro ⟨pages, chain, _, rfl⟩
      cases chain with
      | last again _ => simp [again.unique answered]
      | more again link _ _ =>
        rw [again.unique answered, isLast] at link
        cases link
  | @stopped listing world stop ended =>
    constructor
    · exact fun same => by cases same
    · rintro ⟨pages, chain, short, rfl⟩
      cases chain with
      | last answered isLast =>
        have returned := childrenRound_returned_iff.mpr ⟨_, answered, isLast, rfl⟩
        cases returned.symm.trans ended
      | more answered link inside rest =>
        -- the chain has another page, so there is room for one
        have more := rest.length_pos
        rw [List.length_cons] at short
        have went : (childrenRound token json env config listing).outcome world = .ok (.inl ⟨_, _, _⟩) :=
          childrenRound_again_iff.mpr ⟨_, answered, link, inside, by omega, rfl, rfl⟩
        cases went.symm.trans ended
  | @again listing next world left rounds result ended loop ih =>
    obtain ⟨page, answered, link, inside, few, isItems, isPages⟩ := childrenRound_again_iff.mp ended
    rw [ih (isPages ▸ few), after_childrenRound, isItems, isPages]
    constructor
    · rintro ⟨pages, chain, short, rfl⟩
      refine ⟨page :: pages, .more answered link inside chain, ?_, ?_⟩
      · rw [List.length_cons]
        omega
      · rw [List.flatMap_cons, List.append_assoc]
    · rintro ⟨pages, chain, short, rfl⟩
      cases chain with
      | last again isLast =>
        rw [again.unique answered, link] at isLast
        cases isLast
      | more again otherLink _ rest =>
        cases again.unique answered
        cases link.symm.trans otherLink
        rw [List.length_cons] at short
        exact ⟨_, rest, by omega, by rw [List.flatMap_cons, List.append_assoc]⟩

theorem children_loop (path : String) (world : World) :
    ∃ rounds ≤ 500, Loop (childrenRound token json env config) (firstListing config path) world rounds
      ((children token json env config path).outcome world) ((children token json env config path).after world) := by
  have first : (firstListing config path).pages < maxChildrenPages := Nat.succ_pos 499
  obtain ⟨rounds, result, left, bound, loop⟩ := @exists_childrenLoop token json env config _ world first
  have isRun : children token json env config path =
      bounded .cut (childrenRound token json env config) maxChildrenPages (firstListing config path) :=
    childrenFrom_eq_bounded le_rfl _ _
  have ended : (children token json env config path).outcome world = result ∧
      (children token json env config path).after world = left := by
    rw [isRun]
    exact loop.bounded_eq bound
  rw [ended.1, ended.2]
  exact ⟨rounds, bound, loop⟩

theorem children_returns_iff {path : String} {items : List GraphItem} :
    (children token json env config path).outcome world = .ok items ↔
      ∃ pages, Pages token json env config (firstListing config path).url world pages ∧ pages.length ≤ 500 ∧
        items = pages.flatMap fun page => page.value.map toItem := by
  have first : (firstListing config path).pages < maxChildrenPages := Nat.succ_pos 499
  obtain ⟨_, _, loop⟩ := @children_loop token json env config path world
  rw [childrenLoop_returns_iff loop first]
  simp only [firstListing, Nat.zero_add, List.nil_append]
  rfl

variable (token json env config) in
/-- However the links of the answers go, the listing takes at most 500 requests, and it is whole or an error. -/
theorem children_whole_or_error (path : String) (world : World) :
    (∃ rounds ≤ 500, Loop (childrenRound token json env config) (firstListing config path) world rounds
      ((children token json env config path).outcome world) ((children token json env config path).after world)) ∧
    ∀ items, (children token json env config path).outcome world = .ok items ↔
      ∃ pages, Pages token json env config (firstListing config path).url world pages ∧ pages.length ≤ 500 ∧
        items = pages.flatMap fun page => page.value.map toItem :=
  ⟨children_loop path world, fun _ => children_returns_iff⟩

end Rounds

end Graph

end OneDriveDavfs
