import Mathlib.Data.List.Forall2
import ShaderReflection.Fault

/-!
# What an attempt can give

An attempt ends with a value or with a fault. `Gives` says which values and which faults are
possible, and `Relates` how the values of two attempts are related. For both there is one lemma for
each way in which attempts are put together.
-/

namespace ShaderReflection.Attempt

variable {α β : Type} {allowed : Fault → Prop}

theorem bind_eq_ok {first : Attempt α} {next : α → Attempt β} {value : β} :
    (first >>= next) = .ok value ↔ ∃ between, first = .ok between ∧ next between = .ok value := by
  constructor
  · intro isOk
    cases first with
    | ok between => exact ⟨between, rfl, isOk⟩
    | error fault => cases isOk
  · intro found
    rcases found with ⟨between, rfl, isOk⟩
    exact isOk

theorem eq_ok_of_mapError {attempt : Attempt α} {change : Fault → β} {value : α}
    (isOk : attempt.mapError change = .ok value) : attempt = .ok value := by
  cases attempt with
  | ok found =>
      cases isOk
      rfl
  | error fault => cases isOk

theorem eq_error_of_mapError {attempt : Attempt α} {change : Fault → β} {value : β}
    (isError : attempt.mapError change = .error value) :
    ∃ fault, attempt = .error fault ∧ change fault = value := by
  cases attempt with
  | ok found => cases isError
  | error fault =>
      cases isError
      exact ⟨fault, rfl, rfl⟩

theorem eq_error_of_map {attempt : Attempt α} {change : α → β} {fault : Fault}
    (isError : attempt.map change = .error fault) : attempt = .error fault := by
  cases attempt with
  | ok found => cases isError
  | error other =>
      cases isError
      rfl

/-- An attempt ends with a good value or with an allowed fault. -/
def Gives (allowed : Fault → Prop) (good : α → Prop) : Attempt α → Prop
  | .ok value => good value
  | .error fault => allowed fault

/-- An attempt that never fails. -/
abbrev Succeeds (good : α → Prop) (attempt : Attempt α) : Prop :=
  Gives (fun _ => False) good attempt

theorem Succeeds.exists_ok {good : α → Prop} {attempt : Attempt α}
    (succeeds : Succeeds good attempt) : ∃ value, attempt = .ok value ∧ good value := by
  cases attempt with
  | ok value => exact ⟨value, rfl, succeeds⟩
  | error fault => exact succeeds.elim

theorem Gives.weaken {good better : α → Prop} {fewer : Fault → Prop} {attempt : Attempt α}
    (gives : Gives fewer better attempt) (isAllowed : ∀ fault, fewer fault → allowed fault)
    (isGood : ∀ value, better value → good value) : Gives allowed good attempt := by
  cases attempt with
  | ok value => exact isGood value gives
  | error fault => exact isAllowed fault gives

theorem Gives.bind {between : α → Prop} {good : β → Prop} {first : Attempt α}
    {next : α → Attempt β} (gives : Gives allowed between first)
    (further : ∀ value, between value → Gives allowed good (next value)) :
    Gives allowed good (first >>= next) := by
  cases first with
  | ok value => exact further value gives
  | error fault => exact gives

/-- What every step of a loop keeps holds at its end. -/
theorem Gives.foldlM {invariant : β → Prop} {step : β → α → Attempt β} {list : List α}
    {start : β} (holds : invariant start)
    (keeps : ∀ sofar, invariant sofar → ∀ element ∈ list,
      Gives allowed invariant (step sofar element)) :
    Gives allowed invariant (list.foldlM step start) := by
  induction list generalizing start with
  | nil => exact holds
  | cons element list induction =>
      rw [List.foldlM_cons]
      refine Gives.bind (keeps start holds element List.mem_cons_self) ?_
      intro later laterHolds
      exact induction laterHolds fun sofar sofarHolds other isOther =>
        keeps sofar sofarHolds other (List.mem_cons_of_mem _ isOther)

/-- What every step of a loop carries on from the elements before it to the next one holds of all
elements at its end. A step may rely on where its element stands in the list. -/
theorem Gives.foldlM_split {invariant : List α → β → Prop} {step : β → α → Attempt β}
    {list : List α} {start : β} (holds : invariant [] start)
    (keeps : ∀ before element after, list = before ++ element :: after → ∀ sofar,
      invariant before sofar →
        Gives allowed (invariant (before ++ [element])) (step sofar element)) :
    Gives allowed (invariant list) (list.foldlM step start) := by
  have all : ∀ before rest, list = before ++ rest → ∀ sofar, invariant before sofar →
      Gives allowed (invariant list) (rest.foldlM step sofar) := by
    intro before rest isList sofar holds
    induction rest generalizing before sofar with
    | nil =>
        rw [isList, List.append_nil]
        exact holds
    | cons element rest induction =>
        rw [List.foldlM_cons]
        refine (keeps before element rest isList sofar holds).bind fun later laterHolds => ?_
        exact induction (before ++ [element]) (by simpa using isList) later laterHolds
  exact all [] list rfl start holds

theorem Gives.foldlM_prefix {invariant : List α → β → Prop} {step : β → α → Attempt β}
    {list : List α} {start : β} (holds : invariant [] start)
    (keeps : ∀ before sofar, invariant before sofar → ∀ element ∈ list,
      Gives allowed (invariant (before ++ [element])) (step sofar element)) :
    Gives allowed (invariant list) (list.foldlM step start) :=
  foldlM_split holds fun before element _ isList sofar sofarHolds =>
    keeps before sofar sofarHolds element (isList ▸ by simp)

theorem Gives.mapM {step : α → Attempt β} {list : List α}
    (each : ∀ element ∈ list, Gives allowed (fun _ => True) (step element)) :
    Gives allowed (fun _ => True) (list.mapM step) := by
  induction list with
  | nil => trivial
  | cons element list induction =>
      rw [List.mapM_cons]
      refine (each element List.mem_cons_self).bind fun _ _ => ?_
      refine (induction fun other isOther => each other (List.mem_cons_of_mem _ isOther)).bind ?_
      intro _ _
      trivial

/-! ## Two attempts -/

section Two

variable {γ δ : Type} {related : α → β → Prop} {results : γ → δ → Prop}

/-- If two attempts both end with a value, their values are related. -/
def Relates (related : α → β → Prop) (attempt : Attempt α) (other : Attempt β) : Prop :=
  ∀ value found, attempt = .ok value → other = .ok found → related value found

theorem Relates.ok {value : α} {found : β} (areRelated : related value found) :
    Relates related (.ok value) (.ok found) := by
  rintro _ _ ⟨⟩ ⟨⟩
  exact areRelated

theorem Relates.error {fault : Fault} {other : Attempt β} :
    Relates related (.error fault) other := by
  rintro _ _ ⟨⟩

theorem Relates.error_right {fault : Fault} {attempt : Attempt α} :
    Relates related attempt (.error fault) := by
  rintro _ _ _ ⟨⟩

theorem Relates.bind {first : Attempt α} {other : Attempt β} {next : α → Attempt γ}
    {otherNext : β → Attempt δ} (relates : Relates related first other)
    (further : ∀ value found, related value found →
      Relates results (next value) (otherNext found)) :
    Relates results (first >>= next) (other >>= otherNext) := by
  intro result otherResult isResult isOther
  rcases bind_eq_ok.mp isResult with ⟨value, isValue, isNext⟩
  rcases bind_eq_ok.mp isOther with ⟨found, isFound, isOtherNext⟩
  exact further value found (relates value found isValue isFound) _ _ isNext isOtherNext

/-- What the steps of two loops over related rows keep holds at their ends. -/
theorem Relates.foldlM {step : γ → α → Attempt γ} {otherStep : δ → β → Attempt δ}
    {list : List α} {others : List β} (rows : List.Forall₂ related list others)
    (keeps : ∀ sofar otherSofar element other, results sofar otherSofar →
      related element other → Relates results (step sofar element) (otherStep otherSofar other))
    {start : γ} {otherStart : δ} (holds : results start otherStart) :
    Relates results (list.foldlM step start) (others.foldlM otherStep otherStart) := by
  induction rows generalizing start otherStart with
  | nil => exact .ok holds
  | cons first _ induction =>
      rw [List.foldlM_cons, List.foldlM_cons]
      exact (keeps _ _ _ _ holds first).bind fun _ _ => induction

theorem Relates.mapM {step : α → Attempt γ} {otherStep : β → Attempt δ} {list : List α}
    {others : List β} (rows : List.Forall₂ related list others)
    (each : ∀ element other, related element other →
      Relates results (step element) (otherStep other)) :
    Relates (List.Forall₂ results) (list.mapM step) (others.mapM otherStep) := by
  induction rows with
  | nil => exact .ok .nil
  | cons first _ induction =>
      rw [List.mapM_cons, List.mapM_cons]
      refine (each _ _ first).bind fun value found areRelated => ?_
      exact induction.bind fun values others rest => .ok (.cons areRelated rest)

end Two

end ShaderReflection.Attempt
