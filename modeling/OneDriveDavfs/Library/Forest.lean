import Mathlib.Data.List.Induction
import Mathlib.Logic.Relation

/-! Forests given by upward links.

Every node knows its parent, if it has one, and its own label. Nothing forbids
cycles or parents that do not exist: a node is rooted when its chain of
parents ends at a node without one, and its trail is then the labels met on
the way down.
-/

set_option autoImplicit false

namespace Library.Forest

variable {κ ν : Type}

/-- The parent and the label of each node that exists. -/
abbrev Links (κ ν : Type) := κ → Option (Option κ × ν)

/-- The labels from the top of a node's chain of parents down to the node. -/
inductive Trail (links : Links κ ν) : κ → List ν → Prop where
  | top {x : κ} {label : ν} : links x = some (none, label) → Trail links x []
  | step {x parent : κ} {label : ν} {segs : List ν} : links x = some (some parent, label) →
      Trail links parent segs → Trail links x (segs ++ [label])

def Child (links : Links κ ν) (parent x : κ) : Prop := ∃ label, links x = some (some parent, label)

abbrev Below (links : Links κ ν) : κ → κ → Prop := Relation.ReflTransGen (Child links)

def SiblingsDiffer (links : Links κ ν) : Prop :=
  ∀ {x y parent : κ} {label : ν}, links x = some (some parent, label) →
    links y = some (some parent, label) → x = y

def SingleTop (links : Links κ ν) : Prop :=
  ∀ {x y : κ} {label other : ν}, links x = some (none, label) → links y = some (none, other) → x = y

variable {links : Links κ ν}

theorem Trail.exists_link {x : κ} {segs : List ν} (trail : Trail links x segs) :
    ∃ link, links x = some link := by
  cases trail with
  | top link => exact ⟨_, link⟩
  | step link _ => exact ⟨_, link⟩

theorem Trail.unique {x : κ} {first second : List ν} (left : Trail links x first)
    (right : Trail links x second) : first = second := by
  induction left generalizing second with
  | top link =>
    cases right with
    | top _ => rfl
    | step other _ => simp [link] at other
  | step link _ ih =>
    cases right with
    | top other => simp [link] at other
    | step other rest =>
      obtain ⟨rfl, rfl⟩ : _ ∧ _ := by simpa [link] using other
      rw [ih rest]

theorem Trail.of_child {x parent : κ} {label : ν} {segs : List ν}
    (link : links x = some (some parent, label)) (trail : Trail links x segs) :
    ∃ front, segs = front ++ [label] ∧ Trail links parent front := by
  cases trail with
  | top other => simp [link] at other
  | step other rest =>
    obtain ⟨rfl, rfl⟩ : _ ∧ _ := by simpa [link] using other
    exact ⟨_, rfl, rest⟩

theorem Trail.nil_iff {x : κ} : Trail links x [] ↔ ∃ label, links x = some (none, label) := by
  constructor
  · intro trail
    generalize same : ([] : List ν) = segs at trail
    cases trail with
    | top link => exact ⟨_, link⟩
    | step _ _ => simp at same
  · rintro ⟨label, link⟩
    exact .top link

theorem Trail.concat_iff {x : κ} {front : List ν} {label : ν} :
    Trail links x (front ++ [label]) ↔
      ∃ parent, links x = some (some parent, label) ∧ Trail links parent front := by
  constructor
  · intro trail
    generalize same : front ++ [label] = segs at trail
    cases trail with
    | top _ => simp at same
    | step link rest =>
      obtain ⟨sameFront, sameLast⟩ := List.append_inj' same rfl
      subst sameFront
      cases List.singleton_inj.mp sameLast
      exact ⟨_, link, rest⟩
  · rintro ⟨parent, link, rest⟩
    exact .step link rest

theorem Trail.split {x : κ} {segs : List ν} (trail : Trail links x segs) (front rest : List ν)
    (whole : segs = front ++ rest) : ∃ y, Trail links y front ∧ Below links y x := by
  induction rest using List.reverseRecOn generalizing x segs with
  | nil =>
    rw [List.append_nil] at whole
    exact ⟨x, whole ▸ trail, .refl⟩
  | append_singleton rest last ih =>
    rw [← List.append_assoc] at whole
    obtain ⟨parent, link, up⟩ := Trail.concat_iff.mp (whole ▸ trail)
    obtain ⟨y, upper, below⟩ := ih up rfl
    exact ⟨y, upper, below.tail ⟨last, link⟩⟩

/-- A trail names at most one node. -/
theorem Trail.injective (siblings : SiblingsDiffer links) (single : SingleTop links)
    {x y : κ} {segs : List ν} (left : Trail links x segs) (right : Trail links y segs) : x = y := by
  induction left generalizing y with
  | top link =>
    obtain ⟨_, other⟩ := Trail.nil_iff.mp right
    exact single link other
  | step link _ ih =>
    obtain ⟨parent, other, rest⟩ := Trail.concat_iff.mp right
    cases ih rest
    exact siblings link other

/-- A trail depends only on the links of the nodes it passes, and not on the label at the top. -/
theorem Trail.mono {more : Links κ ν}
    (inner : ∀ {x parent label}, links x = some (some parent, label) → more x = some (some parent, label))
    (outer : ∀ {x label}, links x = some (none, label) → ∃ other, more x = some (none, other))
    {x : κ} {segs : List ν} (trail : Trail links x segs) : Trail more x segs := by
  induction trail with
  | top link =>
    obtain ⟨_, other⟩ := outer link
    exact .top other
  | step link _ ih => exact .step (inner link) ih

theorem Trail.of_below {top x : κ} (below : Below links top x) {segs : List ν}
    (trail : Trail links x segs) : ∃ front rest, segs = front ++ rest ∧ Trail links top front := by
  induction below generalizing segs with
  | refl => exact ⟨segs, [], by simp, trail⟩
  | tail _ child ih =>
    obtain ⟨label, link⟩ := child
    obtain ⟨front, rfl, up⟩ := Trail.of_child link trail
    obtain ⟨start, rest, rfl, upper⟩ := ih up
    exact ⟨start, rest ++ [label], by simp, upper⟩

theorem Trail.not_child_below {x parent : κ} {segs : List ν} (trail : Trail links parent segs)
    (child : Child links parent x) : ¬ Below links x parent := by
  intro below
  obtain ⟨label, link⟩ := child
  obtain ⟨front, rest, split, up⟩ := Trail.of_below below trail
  have longer := (Trail.step link trail).unique up
  have lengths := congrArg List.length longer
  rw [split] at lengths
  simp only [List.length_append, List.length_singleton] at lengths
  omega

/-! ## Ways down -/

/-- The labels on the way down from a node to one below it, without coming back to the first. -/
inductive Descent (links : Links κ ν) (top : κ) : κ → List ν → Prop where
  | here : Descent links top top []
  | step {x parent : κ} {label : ν} {segs : List ν} : Descent links top parent segs →
      links x = some (some parent, label) → x ≠ top → Descent links top x (segs ++ [label])

theorem Descent.hangs {top x : κ} {segs : List ν} (descent : Descent links top x segs) : Below links top x := by
  induction descent with
  | here => exact .refl
  | step _ link _ ih => exact ih.tail ⟨_, link⟩

theorem Trail.descend {top x : κ} {front segs : List ν} (trail : Trail links top front)
    (descent : Descent links top x segs) : Trail links x (front ++ segs) := by
  induction descent with
  | here => simpa using trail
  | step _ link _ ih =>
    rw [← List.append_assoc]
    exact .step link ih

theorem Trail.descent {top x : κ} {front segs : List ν} (trail : Trail links top front) (below : Below links top x)
    (whole : Trail links x segs) : ∃ rest, segs = front ++ rest ∧ Descent links top x rest := by
  induction below generalizing segs with
  | refl => exact ⟨[], by rw [List.append_nil, whole.unique trail], .here⟩
  | tail above child ih =>
    obtain ⟨label, link⟩ := child
    obtain ⟨upper, rfl, up⟩ := Trail.of_child link whole
    obtain ⟨rest, rfl, descent⟩ := ih up
    refine ⟨rest ++ [label], by simp, .step descent link ?_⟩
    rintro rfl
    exact up.not_child_below ⟨label, link⟩ above

/-! ## Climbing a bounded number of nodes -/

/-- Look at no more than the given number of nodes on the way up. -/
def climb (links : Links κ ν) : Nat → κ → Option (List ν)
  | 0, _ => none
  | fuel + 1, x =>
    match links x with
    | none => none
    | some (none, _) => some []
    | some (some parent, label) => (climb links fuel parent).map (· ++ [label])

theorem climb_eq_some_iff (fuel : Nat) (x : κ) (segs : List ν) :
    climb links fuel x = some segs ↔ Trail links x segs ∧ segs.length < fuel := by
  induction fuel generalizing x segs with
  | zero => simp [climb]
  | succ fuel ih =>
    rcases link : links x with _ | ⟨parent, label⟩
    · simp only [climb, link, reduceCtorEq, false_iff]
      rintro ⟨trail, _⟩
      obtain ⟨_, present⟩ := trail.exists_link
      simp [link] at present
    · cases parent with
      | none =>
        simp only [climb, link, Option.some.injEq]
        constructor
        · rintro rfl
          exact ⟨.top link, by simp⟩
        · rintro ⟨trail, _⟩
          exact (Trail.top link).unique trail
      | some parent =>
        simp only [climb, link, Option.map_eq_some_iff]
        constructor
        · rintro ⟨front, up, rfl⟩
          obtain ⟨trail, bound⟩ := (ih parent front).mp up
          exact ⟨.step link trail, by simpa using bound⟩
        · rintro ⟨trail, bound⟩
          obtain ⟨front, rfl, up⟩ := Trail.of_child link trail
          exact ⟨front, (ih parent front).mpr ⟨up, by simpa using bound⟩, rfl⟩

end Library.Forest
