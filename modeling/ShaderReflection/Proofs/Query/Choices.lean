import ShaderReflection.Proofs.Query.Meeting

/-!
# The first choice is the best

A pattern asks for places in the row of named children of a node, later and later ones, at which
its child patterns are met one by one. The search goes through the row once and takes the first
child that will do for each child pattern (`Search`). So it finds places whenever there are any, and
no other places come earlier than those that it finds (`matchNode_least`).
-/

namespace ShaderReflection.Query.Pattern

open ShaderReflection.Tree

variable {source : List Char} {node : Node} {patterns : List Pattern}

/-! ## Places for child patterns -/

/-- The patterns that are met by children in order, and not by fields. -/
def inOrder (patterns : List Pattern) : List Pattern :=
  patterns.filter fun pattern => pattern.field.isNone

/-- The named child at a place meets a pattern. -/
def MeetsAt (source : List Char) (node : Node) (pattern : Pattern) (place : Nat) : Prop :=
  ∃ child, node.namedChildren[place]? = some child ∧ pattern.Meets source child

/-- At later and later places the named children of a node meet the child patterns that are not for
fields, one by one. -/
structure Assigns (source : List Char) (patterns : List Pattern) (node : Node)
    (places : List Nat) : Prop where
  increasing : places.Pairwise (· < ·)
  meets : List.Forall₂ (MeetsAt source node) (inOrder patterns) places

/-- The fields of a node meet the child patterns that are for fields. -/
def FieldsMeet (source : List Char) (patterns : List Pattern) (node : Node) : Prop :=
  ∀ pattern ∈ patterns, ∀ field, pattern.field = some field →
    ∃ target, node.field? field = some target ∧ pattern.Meets source target

section Cons

variable {pattern : Pattern} {rest : List Pattern} {field : String}

theorem inOrder_field (isField : pattern.field = some field) :
    inOrder (pattern :: rest) = inOrder rest := by
  rw [inOrder, List.filter_cons, isField]
  rfl

theorem inOrder_other (noField : pattern.field = none) :
    inOrder (pattern :: rest) = pattern :: inOrder rest := by
  rw [inOrder, List.filter_cons, noField]
  rfl

end Cons

/-- Chosen nodes meet child patterns one by one. -/
theorem meetsAll_iff {chosen : List Node} : MeetsAll source patterns node chosen ↔
    FieldsMeet source patterns node ∧
      List.Forall₂ (Meets source) (inOrder patterns) chosen := by
  induction patterns generalizing chosen with
  | nil =>
      rw [MeetsAll, inOrder, List.filter_nil, List.forall₂_nil_left_iff, FieldsMeet]
      exact ⟨fun isNil => ⟨List.forall_mem_nil _, isNil⟩, And.right⟩
  | cons pattern rest induction =>
      rw [FieldsMeet, List.forall_mem_cons, ← FieldsMeet]
      cases isField : pattern.field with
      | some field =>
          rw [meetsAll_field isField, inOrder_field isField, induction, and_assoc]
          simp only [Option.some.injEq, forall_eq']
      | none =>
          rw [meetsAll_other isField, inOrder_other isField, List.forall₂_cons_left_iff]
          simp only [reduceCtorEq, false_implies, implies_true, true_and, induction]
          constructor
          · rintro ⟨first, others, rfl, meets, fields, further⟩
            exact ⟨fields, first, others, meets, further, rfl⟩
          · rintro ⟨fields, first, others, meets, further, rfl⟩
            exact ⟨first, others, rfl, meets, fields, further⟩

/-- Places from some place on give a row of children from there on. -/
theorem exists_sublist_of_places {place : Nat} {places : List Nat}
    (increasing : places.Pairwise (· < ·)) (notBefore : ∀ other ∈ places, place ≤ other)
    (meets : List.Forall₂ (MeetsAt source node) patterns places) :
    ∃ chosen, chosen.Sublist (node.namedChildren.drop place) ∧
      List.Forall₂ (Meets source) patterns chosen := by
  induction meets generalizing place with
  | nil => exact ⟨[], List.nil_sublist _, .nil⟩
  | @cons pattern first patterns places meets further induction =>
      rcases meets with ⟨child, isChild, meets⟩
      rcases List.pairwise_cons.mp increasing with ⟨later, increasing⟩
      have behind : ∀ other ∈ places, first + 1 ≤ other := later
      rcases induction increasing behind with ⟨chosen, isRow, meetsRow⟩
      refine ⟨child :: chosen, ?_, .cons meets meetsRow⟩
      have atFirst : node.namedChildren.drop first =
          child :: node.namedChildren.drop (first + 1) := by
        rcases List.getElem?_eq_some_iff.mp isChild with ⟨inside, rfl⟩
        exact List.drop_eq_getElem_cons inside
      have fromFirst : (node.namedChildren.drop first).Sublist (node.namedChildren.drop place) :=
        List.drop_sublist_drop_left _ (notBefore first List.mem_cons_self)
      rw [atFirst] at fromFirst
      exact (isRow.cons_cons child).trans fromFirst

/-! ## The search -/

/-- How the search goes through child patterns from a place on, with what has been kept so far. A
pattern for a field leaves the place as it is; any other one takes the first child from the place on
that matches it, and the search goes on behind that child. -/
inductive Search (source : List Char) (node : Node) : List Pattern → (place : Nat) →
    (sofar : Captures) → (picks : List Nat) → (captures : Captures) → Prop
  | done {place : Nat} {sofar : Captures} : Search source node [] place sofar [] sofar
  | field {pattern : Pattern} {rest : List Pattern} {place : Nat} {sofar captures found : Captures}
      {picks : List Nat} {field : String} {target : Node}
      (isField : pattern.field = some field) (isTarget : node.field? field = some target)
      (isMatch : matchNode source pattern target = some found)
      (further : Search source node rest place (sofar.putAll found.entries) picks captures) :
      Search source node (pattern :: rest) place sofar picks captures
  | child {pattern : Pattern} {rest : List Pattern} {place pick : Nat}
      {sofar captures found : Captures} {picks : List Nat} {child : Node}
      (noField : pattern.field = none) (notBefore : place ≤ pick)
      (isChild : node.namedChildren[pick]? = some child)
      (skipped : ∀ earlier, place ≤ earlier → earlier < pick →
        ∀ other, node.namedChildren[earlier]? = some other → matchNode source pattern other = none)
      (isMatch : matchNode source pattern child = some found)
      (further : Search source node rest (pick + 1) (sofar.putAll found.entries) picks captures) :
      Search source node (pattern :: rest) place sofar (pick :: picks) captures

/-- Picking from the children behind a place takes the first of them that gives a result. -/
theorem exists_place_of_pick {α β : Type} {select : α → Option β} {list rest : List α}
    {result : β} {place : Nat} (picked : pick select (list.drop place) = some (result, rest)) :
    ∃ found candidate, place ≤ found ∧ list[found]? = some candidate ∧
      select candidate = some result ∧ rest = list.drop (found + 1) ∧
      ∀ earlier, place ≤ earlier → earlier < found →
        ∀ other, list[earlier]? = some other → select other = none := by
  rcases exists_of_pick picked with ⟨before, candidate, isSplit, skipped, isResult⟩
  have atPlace : ∀ count, (list.drop place)[count]? = list[place + count]? := fun count =>
    List.getElem?_drop
  refine ⟨place + before.length, candidate, Nat.le_add_right _ _, ?_, isResult, ?_, ?_⟩
  · rw [← atPlace, isSplit, List.getElem?_append_right (Nat.le_refl _), Nat.sub_self]
    rfl
  · rw [Nat.add_assoc, ← List.drop_drop, isSplit, ← List.drop_drop, List.drop_left]
    rfl
  · intro earlier notBefore isBefore other isOther
    rcases Nat.exists_eq_add_of_le notBefore with ⟨count, rfl⟩
    have inFront : count < before.length := by omega
    rw [← atPlace, isSplit, List.getElem?_append_left inFront] at isOther
    exact skipped other (List.mem_of_getElem? isOther)

/-- A match of child patterns is a search. -/
theorem exists_search {place : Nat} {sofar captures : Captures}
    (matched : matchChildren source patterns node (node.namedChildren.drop place) sofar =
      some captures) : ∃ picks, Search source node patterns place sofar picks captures := by
  induction patterns generalizing place sofar with
  | nil =>
      rw [matchChildren] at matched
      cases matched
      exact ⟨[], .done⟩
  | cons pattern rest induction =>
      rcases cases_matchChildren matched with
        ⟨field, target, found, isField, isTarget, isMatch, later⟩ |
        ⟨noField, found, remaining, picked, later⟩
      · rcases induction later with ⟨picks, further⟩
        exact ⟨picks, .field isField isTarget isMatch further⟩
      · rcases exists_place_of_pick picked with
          ⟨pick, child, notBefore, isChild, isMatch, rfl, skipped⟩
        rcases induction later with ⟨picks, further⟩
        exact ⟨pick :: picks, .child noField notBefore isChild skipped isMatch further⟩

namespace Search

variable {place : Nat} {sofar captures : Captures} {picks places : List Nat}

theorem notBefore (search : Search source node patterns place sofar picks captures) :
    ∀ pick ∈ picks, place ≤ pick := by
  induction search with
  | done => exact List.forall_mem_nil _
  | field _ _ _ _ induction => exact induction
  | child _ isLater _ _ _ _ induction =>
      rw [List.forall_mem_cons]
      refine ⟨isLater, ?_⟩
      intro pick isPick
      have isBehind := induction pick isPick
      omega

/-- The search takes later and later children, which meet the patterns. -/
theorem assigns (search : Search source node patterns place sofar picks captures) :
    Assigns source patterns node picks := by
  induction search with
  | done => exact ⟨.nil, .nil⟩
  | field isField _ _ _ induction =>
      refine ⟨induction.increasing, ?_⟩
      rw [inOrder_field isField]
      exact induction.meets
  | @child pattern _ _ _ _ _ _ _ child noField _ isChild _ isMatch further induction =>
      have meets : pattern.Meets source child :=
        (isSome_matchNode source pattern child).mp (Option.isSome_of_mem isMatch)
      refine ⟨List.pairwise_cons.mpr ⟨further.notBefore, induction.increasing⟩, ?_⟩
      rw [inOrder_other noField]
      exact .cons ⟨child, isChild, meets⟩ induction.meets

/-- No places for the patterns come earlier than those that the search takes. Whatever stands at the
first of them is a candidate when the search looks for it, and the others stand behind it. -/
theorem least (search : Search source node patterns place sofar picks captures)
    (assigns : Assigns source patterns node places)
    (notBefore : ∀ other ∈ places, place ≤ other) : List.Forall₂ (· ≤ ·) picks places := by
  induction search generalizing places with
  | done =>
      have isNil : places = [] := List.forall₂_nil_left_iff.mp assigns.meets
      rw [isNil]
      exact .nil
  | field isField _ _ _ induction =>
      refine induction ⟨assigns.increasing, ?_⟩ notBefore
      rw [← inOrder_field isField]
      exact assigns.meets
  | @child pattern _ _ pick _ _ _ _ child noField _ _ skipped _ _ induction =>
      have meets := assigns.meets
      rw [inOrder_other noField] at meets
      rcases List.forall₂_cons_left_iff.mp meets with ⟨first, others, ⟨other, isOther, met⟩,
        further, rfl⟩
      rcases List.pairwise_cons.mp assigns.increasing with ⟨behind, increasing⟩
      have isFirst : pick ≤ first := by
        by_contra isEarlier
        have isNone := skipped first (notBefore first List.mem_cons_self) (by omega) other isOther
        have isSome := (isSome_matchNode source pattern other).mpr met
        rw [isNone] at isSome
        cases isSome
      refine .cons isFirst (induction ⟨increasing, further⟩ ?_)
      intro other isOther
      have isBehind := behind other isOther
      omega

end Search

/-! ## Matching -/

/-- A node meets a pattern just if there are places for its child patterns, fields apart. -/
theorem meets_iff {pattern : Pattern} : pattern.Meets source node ↔
    node.isNamed = true ∧ (pattern.kind = wildcard ∨ node.type source = pattern.kind) ∧
      FieldsMeet source pattern.children node ∧
      ∃ places, Assigns source pattern.children node places := by
  cases pattern with
  | mk kind field capture children =>
      rw [Meets, Pattern.kind, Pattern.children]
      refine and_congr_right fun _ => and_congr_right fun _ => ?_
      constructor
      · rintro ⟨chosen, isRow, meets⟩
        have isSome := (isSome_matchChildren source children node node.namedChildren .empty).mpr
          ⟨chosen, isRow, meets⟩
        rcases Option.isSome_iff_exists.mp isSome with ⟨captures, matched⟩
        have searched : ∃ picks, Search source node children 0 .empty picks captures :=
          exists_search matched
        rcases searched with ⟨picks, search⟩
        exact ⟨(meetsAll_iff.mp meets).1, picks, search.assigns⟩
      · rintro ⟨fields, places, assigns⟩
        rcases exists_sublist_of_places assigns.increasing (fun _ _ => Nat.zero_le _)
          assigns.meets with ⟨chosen, isRow, meets⟩
        exact ⟨chosen, isRow, meetsAll_iff.mpr ⟨fields, meets⟩⟩

theorem exists_search_of_matchNode {pattern : Pattern} {captures : Captures}
    (matched : matchNode source pattern node = some captures) :
    ∃ picks inner, Search source node pattern.children 0 .empty picks inner ∧
      captures = keep pattern.capture node inner := by
  cases pattern with
  | mk kind field capture children =>
      rw [matchNode] at matched
      split at matched
      · rcases Option.map_eq_some_iff.mp matched with ⟨inner, isInner, rfl⟩
        have searched : ∃ picks, Search source node children 0 .empty picks inner :=
          exists_search isInner
        rcases searched with ⟨picks, search⟩
        exact ⟨picks, inner, search, rfl⟩
      · cases matched

/-- The search finds a match just if there is one: the node is named and of the kind that is asked
for, its fields meet the patterns for fields, and there are places for the other child patterns,
each met in the same sense. The places that the search takes come no later than any others. -/
theorem matchNode_least (source : List Char) (pattern : Pattern) (node : Node) :
    ((matchNode source pattern node).isSome ↔ pattern.Meets source node) ∧
      (pattern.Meets source node ↔
        node.isNamed = true ∧ (pattern.kind = wildcard ∨ node.type source = pattern.kind) ∧
          FieldsMeet source pattern.children node ∧
          ∃ places, Assigns source pattern.children node places) ∧
      ∀ captures, matchNode source pattern node = some captures →
        ∃ picks inner, Search source node pattern.children 0 .empty picks inner ∧
          captures = keep pattern.capture node inner ∧
          Assigns source pattern.children node picks ∧
          ∀ places, Assigns source pattern.children node places →
            List.Forall₂ (· ≤ ·) picks places := by
  refine ⟨isSome_matchNode source pattern node, meets_iff, ?_⟩
  intro captures matched
  rcases exists_search_of_matchNode matched with ⟨picks, inner, search, isKept⟩
  refine ⟨picks, inner, search, isKept, search.assigns, ?_⟩
  intro places assigns
  exact search.least assigns fun _ _ => Nat.zero_le _

end ShaderReflection.Query.Pattern
