import ShaderReflection.Proofs.Query.Writing

/-!
# A query in writing is read back

Patterns whose kinds may be asked for come back from their text as they were. If any one of their
kinds is replaced by another name, wherever it stands, the text can still be read, and the name is
reported as unknown. Both are `read_write`.
-/

namespace ShaderReflection.Query

open ShaderReflection.Tree

/-! ## Kinds -/

/-- The names that a pattern may ask for: any node, or the nodes of a kind. Tokens have no kind that
could be asked for. -/
def IsKind (name : String) : Prop :=
  name = "_" ∨ ∃ kind : Kind, kind ≠ .anonymous ∧ name = kind.name

theorem ofName?_name (kind : Kind) : Kind.ofName? kind.name = some kind := by
  cases kind <;> decide

theorem isName_of_isKind {name : String} (isKind : IsKind name) : isName name.toList = true := by
  rcases isKind with rfl | ⟨kind, -, rfl⟩
  · decide
  · cases kind <;> decide

namespace Pattern

theorem isAllowedKind_iff {name : String} : isAllowedKind name = true ↔ IsKind name := by
  rw [isAllowedKind, Bool.or_eq_true, beq_iff_eq, wildcard, Option.any_eq_true, IsKind]
  apply or_congr_right
  constructor
  · rintro ⟨kind, isFound, notToken⟩
    have isName := List.find?_some isFound
    exact ⟨kind, bne_iff_ne.mp notToken, (beq_iff_eq.mp isName).symm⟩
  · rintro ⟨kind, notToken, rfl⟩
    exact ⟨kind, ofName?_name kind, bne_iff_ne.mpr notToken⟩

/-! ## The kinds of patterns -/

theorem kindsOfAll_append (left right : List Pattern) :
    kindsOfAll (left ++ right) = kindsOfAll left ++ kindsOfAll right := by
  induction left with
  | nil => rfl
  | cons pattern left induction =>
      rw [List.cons_append, kindsOfAll, induction, kindsOfAll, List.append_assoc]

theorem kindsOfAll_split (before : List Pattern) (pattern : Pattern) (after : List Pattern) :
    kindsOfAll (before ++ pattern :: after) =
      kindsOfAll before ++ (pattern.kinds ++ kindsOfAll after) := by
  rw [kindsOfAll_append, kindsOfAll]

theorem isKind_of_mem_kindsOfAll {isKind : String → Prop} {patterns : List Pattern}
    (each : ∀ pattern ∈ patterns, ∀ name ∈ pattern.kinds, isKind name) :
    ∀ name ∈ kindsOfAll patterns, isKind name := by
  induction patterns with
  | nil => exact List.forall_mem_nil _
  | cons pattern patterns induction =>
      rcases List.forall_mem_cons.mp each with ⟨first, others⟩
      exact List.forall_mem_append.mpr ⟨first, induction others⟩

theorem WellFormed.isKind_of_mem_kinds {isKind : String → Prop} {pattern : Pattern}
    (wellFormed : pattern.WellFormed isKind) : ∀ name ∈ pattern.kinds, isKind name := by
  induction wellFormed with
  | mk kindIs fieldIs captureIs below induction =>
      rw [kinds, List.forall_mem_cons]
      exact ⟨kindIs, isKind_of_mem_kindsOfAll induction⟩

theorem WellFormed.mono {isKind isOther : String → Prop}
    (weaker : ∀ {name}, isKind name → isOther name) {pattern : Pattern}
    (wellFormed : pattern.WellFormed isKind) : pattern.WellFormed isOther := by
  induction wellFormed with
  | mk kindIs fieldIs captureIs below induction =>
      exact .mk (weaker kindIs) fieldIs captureIs induction

/-! ## Another kind in one place -/

/-- Two patterns are the same except for one kind, which is `name` in the second. -/
inductive Rekinded (name : String) : Pattern → Pattern → Prop
  | here {kind : String} {field capture : Option String} {children : List Pattern} :
      Rekinded name (mk kind field capture children) (mk name field capture children)
  | inside {kind : String} {field capture : Option String} {before after : List Pattern}
      {child other : Pattern} (rekinded : Rekinded name child other) :
      Rekinded name (mk kind field capture (before ++ child :: after))
        (mk kind field capture (before ++ other :: after))

/-- Two rows of patterns are the same except for one kind, which is `name` in the second. -/
def RekindedRow (name : String) (patterns changed : List Pattern) : Prop :=
  ∃ before pattern other after, patterns = before ++ pattern :: after ∧
    changed = before ++ other :: after ∧ pattern.Rekinded name other

section Rekinded

variable {name : String} {pattern other : Pattern} {patterns changed : List Pattern}

theorem Rekinded.field (rekinded : pattern.Rekinded name other) : other.field = pattern.field := by
  cases rekinded <;> rfl

theorem Rekinded.wellFormed {isKind : String → Prop} (rekinded : pattern.Rekinded name other)
    (isNew : isKind name) (wellFormed : pattern.WellFormed isKind) : other.WellFormed isKind := by
  induction rekinded with
  | here =>
      cases wellFormed with
      | mk kindIs fieldIs captureIs below => exact .mk isNew fieldIs captureIs below
  | inside rekinded induction =>
      cases wellFormed with
      | mk kindIs fieldIs captureIs below =>
          simp only [List.forall_mem_append, List.forall_mem_cons] at below
          refine .mk kindIs fieldIs captureIs ?_
          simp only [List.forall_mem_append, List.forall_mem_cons]
          exact ⟨below.1, induction below.2.1, below.2.2⟩

/-- The new kind stands where an old one stood, between the same kinds. -/
theorem Rekinded.exists_kinds (rekinded : pattern.Rekinded name other) :
    ∃ front old back, pattern.kinds = front ++ old :: back ∧
      other.kinds = front ++ name :: back := by
  induction rekinded with
  | @here kind field capture children => exact ⟨[], kind, kindsOfAll children, rfl, rfl⟩
  | @inside kind field capture before after child other rekinded induction =>
      rcases induction with ⟨front, old, back, isOld, isNew⟩
      refine ⟨kind :: (kindsOfAll before ++ front), old, back ++ kindsOfAll after, ?_, ?_⟩
      · rw [kinds, kindsOfAll_split, isOld]
        simp
      · rw [kinds, kindsOfAll_split, isNew]
        simp

theorem RekindedRow.exists_kinds (rekinded : RekindedRow name patterns changed) :
    ∃ front old back, kindsOfAll patterns = front ++ old :: back ∧
      kindsOfAll changed = front ++ name :: back := by
  rcases rekinded with ⟨before, pattern, other, after, rfl, rfl, inside⟩
  rcases inside.exists_kinds with ⟨front, old, back, isOld, isNew⟩
  refine ⟨kindsOfAll before ++ front, old, back ++ kindsOfAll after, ?_, ?_⟩
  · rw [kindsOfAll_split, isOld]
    simp
  · rw [kindsOfAll_split, isNew]
    simp

/-- What holds of each pattern and of the changed one holds of each in the changed row. -/
theorem RekindedRow.forall_mem {property : Pattern → Prop}
    (rekinded : RekindedRow name patterns changed) (each : ∀ pattern ∈ patterns, property pattern)
    (keeps : ∀ {pattern other}, pattern.Rekinded name other → property pattern → property other) :
    ∀ pattern ∈ changed, property pattern := by
  rcases rekinded with ⟨before, pattern, other, after, rfl, rfl, inside⟩
  simp only [List.forall_mem_append, List.forall_mem_cons] at each ⊢
  exact ⟨each.1, keeps inside each.2.1, each.2.2⟩

theorem RekindedRow.ne_nil (rekinded : RekindedRow name patterns changed) : changed ≠ [] := by
  rcases rekinded with ⟨before, pattern, other, after, rfl, rfl, inside⟩
  simp

end Rekinded

/-! ## Looking at the kinds -/

theorem check_eq_ok {patterns : List Pattern} (known : ∀ name ∈ kindsOfAll patterns, IsKind name) :
    check patterns = .ok patterns := by
  have noFault : ((kindsOfAll patterns).find? fun kind => !isAllowedKind kind) = none := by
    apply List.find?_eq_none.mpr
    intro name isName
    simp [isAllowedKind_iff.mpr (known name isName)]
  rw [check, noFault]

/-- The first kind that is not known is reported. -/
theorem check_eq_error {patterns : List Pattern} {front back : List String} {name : String}
    (isSplit : kindsOfAll patterns = front ++ name :: back) (known : ∀ other ∈ front, IsKind other)
    (unknown : ¬ IsKind name) : check patterns = .error (.unknownPatternKind name) := by
  have notAllowed : isAllowedKind name = false :=
    Bool.eq_false_iff.mpr fun isAllowed => unknown (isAllowedKind_iff.mp isAllowed)
  have fault : ((kindsOfAll patterns).find? fun kind => !isAllowedKind kind) = some name := by
    rw [isSplit]
    apply List.find?_eq_some_iff_append.mpr
    refine ⟨by simp [notAllowed], front, back, rfl, ?_⟩
    intro other isOther
    simp [isAllowedKind_iff.mpr (known other isOther)]
  rw [check, fault]

end Pattern

/-! ## The round trip -/

/-- Patterns that ask for known kinds are read back from their text just as they were. With any one
kind replaced by a name that is not a known kind, the text is rejected because of this name. -/
theorem read_write {patterns : List Pattern} (notEmpty : patterns ≠ [])
    (wellFormed : ∀ pattern ∈ patterns, pattern.WellFormed IsKind)
    (noField : ∀ pattern ∈ patterns, pattern.field = none) :
    read (write patterns) = .ok patterns ∧
      ∀ {name changed}, isName name.toList = true → ¬ IsKind name →
        Pattern.RekindedRow name patterns changed →
          read (write changed) = .error (.unknownPatternKind name) := by
  have known : ∀ name ∈ Pattern.kindsOfAll patterns, IsKind name :=
    Pattern.isKind_of_mem_kindsOfAll fun pattern isPattern =>
      (wellFormed pattern isPattern).isKind_of_mem_kinds
  constructor
  · rw [read_write_eq_check notEmpty isName_of_isKind wellFormed noField,
      Pattern.check_eq_ok known]
  · intro name changed isWord unknown rekinded
    have named : ∀ pattern ∈ changed, pattern.WellFormed fun name => isName name.toList = true :=
      rekinded.forall_mem (fun pattern isPattern =>
        (wellFormed pattern isPattern).mono isName_of_isKind) fun inside => inside.wellFormed isWord
    have bare : ∀ pattern ∈ changed, pattern.field = none :=
      rekinded.forall_mem noField fun inside isBare => inside.field.trans isBare
    rcases rekinded.exists_kinds with ⟨front, old, back, isOld, isNew⟩
    have knownFront : ∀ other ∈ front, IsKind other := by
      intro other isOther
      exact known other (isOld ▸ List.mem_append_left _ isOther)
    rw [read_write_eq_check rekinded.ne_nil id named bare,
      Pattern.check_eq_error isNew knownFront unknown]

/-- A query with a field, captures and child patterns. -/
def functionQuery : List Pattern := [
  .mk "function_declaration" none (some "fn") [
    .mk "identifier" (some "name") (some "fn.name") [],
    .mk "_" none none []],
  .mk "_" none (some "any-node") []]

/-- The same query with a child pattern for nodes of a kind that there is not. -/
def misspeltQuery : List Pattern := [
  .mk "function_declaration" none (some "fn") [
    .mk "identifer" (some "name") (some "fn.name") [],
    .mk "_" none none []],
  .mk "_" none (some "any-node") []]

theorem read_write_functionQuery :
    write functionQuery =
        "(function_declaration name: (identifier) @fn.name (_)) @fn (_) @any-node" ∧
      read (write functionQuery) = .ok functionQuery ∧
      read (write misspeltQuery) = .error (.unknownPatternKind "identifer") := by
  have wellFormed : ∀ pattern ∈ functionQuery, pattern.WellFormed IsKind := by
    have any : ∀ {capture : Option String},
        (∀ name ∈ capture, isCaptureName name.toList = true) →
          (Pattern.mk "_" none capture []).WellFormed IsKind :=
      fun captureIs => .mk (.inl rfl) (by simp) captureIs (List.forall_mem_nil _)
    have name : (Pattern.mk "identifier" (some "name") (some "fn.name") []).WellFormed IsKind :=
      .mk (.inr ⟨.identifier, by decide, rfl⟩) (by simp; decide) (by simp; decide)
        (List.forall_mem_nil _)
    simp only [functionQuery, List.forall_mem_cons]
    refine ⟨.mk (.inr ⟨.functionDeclaration, by decide, rfl⟩) (by simp) (by simp; decide) ?_,
      any (by simp; decide), List.forall_mem_nil _⟩
    simp only [List.forall_mem_cons]
    exact ⟨name, any (by simp), List.forall_mem_nil _⟩
  have noField : ∀ pattern ∈ functionQuery, pattern.field = none := by
    simp [functionQuery, Pattern.field]
  have rekinded : Pattern.RekindedRow "identifer" functionQuery misspeltQuery :=
    ⟨[], _, _, _, rfl, rfl, @Pattern.Rekinded.inside _ _ _ _ [] _ _ _ .here⟩
  have unknown : ¬ IsKind "identifer" := by
    rw [← Pattern.isAllowedKind_iff]
    decide
  have roundTrip := read_write (by simp [functionQuery]) wellFormed noField
  exact ⟨by decide +kernel, roundTrip.1, roundTrip.2 (by decide) unknown rekinded⟩

end ShaderReflection.Query
