import ShaderReflection.Proofs.NameTable
import ShaderReflection.Proofs.Tree.Spans
import ShaderReflection.Query.Match

/-!
# What it means to match

A pattern asks for some way to meet its child patterns by named children in order. The search takes
the first child that will do for each of them, and never has to try another: whatever an assignment
leaves for the patterns behind, the first choice leaves too. A match keeps a node for each capture
of the pattern.
-/

namespace ShaderReflection.Query

open ShaderReflection.Tree

/-! ## Picking -/

section Pick

variable {α β : Type} {select : α → Option β} {list rest : List α} {result : β}

theorem exists_of_pick (picked : pick select list = some (result, rest)) :
    ∃ before candidate, list = before ++ candidate :: rest ∧
      (∀ other ∈ before, select other = none) ∧ select candidate = some result := by
  induction list with
  | nil => cases picked
  | cons candidate list induction =>
      rw [pick] at picked
      split at picked
      · rename_i isResult
        cases picked
        exact ⟨[], candidate, rfl, List.forall_mem_nil _, isResult⟩
      · rename_i isNone
        rcases induction picked with ⟨before, found, rfl, others, isResult⟩
        exact ⟨candidate :: before, found, rfl, List.forall_mem_cons.mpr ⟨isNone, others⟩, isResult⟩

theorem eq_none_of_pick (picked : pick select list = none) : ∀ candidate ∈ list,
    select candidate = none := by
  induction list with
  | nil => exact List.forall_mem_nil _
  | cons candidate list induction =>
      rw [pick] at picked
      split at picked
      · cases picked
      · rename_i isNone
        exact List.forall_mem_cons.mpr ⟨isNone, induction picked⟩

end Pick

/-- Of a row whose first element does not stand before a place, the others stand behind it. -/
theorem sublist_of_notMem {α : Type} {first place : α} {others before rest : List α}
    (row : (first :: others).Sublist (before ++ place :: rest)) (notBefore : first ∉ before) :
    others.Sublist rest := by
  rcases List.sublist_append_iff.mp row with ⟨front, back, isRow, inFront, inBack⟩
  cases front with
  | nil =>
      rw [List.nil_append] at isRow
      subst isRow
      cases inBack with
      | cons _ later => exact (List.sublist_cons_self first others).trans later
      | cons_cons _ later => exact later
  | cons other front =>
      cases isRow
      exact absurd (inFront.subset List.mem_cons_self) notBefore

namespace Pattern

variable {source : List Char} {node : Node}

/-! ## Meeting a pattern -/

mutual

/-- A node meets a pattern: it is named and of the kind that is asked for, and its fields and some
of its named children, in order, meet the child patterns. -/
def Meets (source : List Char) : Pattern → Node → Prop
  | mk kind _ _ children, node =>
      node.isNamed = true ∧ (kind = wildcard ∨ node.type source = kind) ∧
        ∃ chosen, chosen.Sublist node.namedChildren ∧ MeetsAll source children node chosen

/-- A pattern for a field is met by that field of the node, and the others are met by the chosen
nodes, one by one. -/
def MeetsAll (source : List Char) : List Pattern → Node → (chosen : List Node) → Prop
  | [], _, chosen => chosen = []
  | pattern :: rest, node, chosen =>
      match pattern.field with
      | some field =>
          (∃ target, node.field? field = some target ∧ Meets source pattern target) ∧
            MeetsAll source rest node chosen
      | none =>
          ∃ first others, chosen = first :: others ∧ Meets source pattern first ∧
            MeetsAll source rest node others

end

theorem asksFor_iff {kind type : String} :
    asksFor kind type = true ↔ kind = wildcard ∨ type = kind := by
  rw [asksFor, Bool.or_eq_true, beq_iff_eq, beq_iff_eq]

section Children

variable {pattern : Pattern} {rest : List Pattern} {candidates : List Node} {captures : Captures}

theorem matchChildren_field {field : String} (isField : pattern.field = some field) :
    matchChildren source (pattern :: rest) node candidates captures =
      ((node.field? field).bind (matchNode source pattern)).bind fun found =>
        matchChildren source rest node candidates (captures.putAll found.entries) := by
  rw [matchChildren, isField]
  dsimp only
  cases (node.field? field).bind (matchNode source pattern) <;> rfl

theorem matchChildren_other (noField : pattern.field = none) :
    matchChildren source (pattern :: rest) node candidates captures =
      (pick (matchNode source pattern) candidates).bind fun picked =>
        matchChildren source rest node picked.2 (captures.putAll picked.1.entries) := by
  rw [matchChildren, noField]
  dsimp only
  cases pick (matchNode source pattern) candidates <;> rfl

/-- How child patterns match: the first one by the node of its field, or by the first candidate that
it matches, and the others by what is left. -/
theorem cases_matchChildren {later : Captures}
    (matched : matchChildren source (pattern :: rest) node candidates captures = some later) :
    (∃ field target found, pattern.field = some field ∧ node.field? field = some target ∧
      matchNode source pattern target = some found ∧
      matchChildren source rest node candidates (captures.putAll found.entries) = some later) ∨
    (pattern.field = none ∧ ∃ found remaining,
      pick (matchNode source pattern) candidates = some (found, remaining) ∧
      matchChildren source rest node remaining (captures.putAll found.entries) = some later) := by
  cases isField : pattern.field with
  | some field =>
      rw [matchChildren_field isField] at matched
      rcases Option.bind_eq_some_iff.mp matched with ⟨found, isFound, further⟩
      rcases Option.bind_eq_some_iff.mp isFound with ⟨target, isTarget, isMatch⟩
      exact .inl ⟨field, target, found, rfl, isTarget, isMatch, further⟩
  | none =>
      rw [matchChildren_other isField] at matched
      rcases Option.bind_eq_some_iff.mp matched with ⟨⟨found, remaining⟩, picked, further⟩
      exact .inr ⟨rfl, found, remaining, picked, further⟩

theorem meetsAll_field {field : String} (isField : pattern.field = some field)
    {chosen : List Node} :
    MeetsAll source (pattern :: rest) node chosen ↔
      (∃ target, node.field? field = some target ∧ pattern.Meets source target) ∧
        MeetsAll source rest node chosen := by
  rw [MeetsAll, isField]

theorem meetsAll_other (noField : pattern.field = none) {chosen : List Node} :
    MeetsAll source (pattern :: rest) node chosen ↔
      ∃ first others, chosen = first :: others ∧ pattern.Meets source first ∧
        MeetsAll source rest node others := by
  rw [MeetsAll, noField]

end Children

mutual

/-- The search finds a match just if there is one. -/
theorem isSome_matchNode (source : List Char) : (pattern : Pattern) → (node : Node) →
    ((matchNode source pattern node).isSome ↔ pattern.Meets source node)
  | mk kind field capture children, node => by
      rw [matchNode, Meets]
      split
      · rename_i asks
        rw [Bool.and_eq_true, asksFor_iff] at asks
        rw [Option.isSome_map, isSome_matchChildren source children node node.namedChildren .empty]
        exact ⟨fun met => ⟨asks.1, asks.2, met⟩, fun met => met.2.2⟩
      · rename_i asksNot
        rw [Bool.and_eq_true, asksFor_iff] at asksNot
        refine ⟨fun found => absurd found (by simp), fun met => absurd ?_ asksNot⟩
        exact ⟨met.1, met.2.1⟩

theorem isSome_matchChildren (source : List Char) : (patterns : List Pattern) → (node : Node) →
    (candidates : List Node) → (captures : Captures) →
    ((matchChildren source patterns node candidates captures).isSome ↔
      ∃ chosen, chosen.Sublist candidates ∧ MeetsAll source patterns node chosen)
  | [], node, candidates, captures => by
      rw [matchChildren]
      exact ⟨fun _ => ⟨[], List.nil_sublist _, rfl⟩, fun _ => rfl⟩
  | pattern :: rest, node, candidates, captures => by
      have matched := isSome_matchNode source pattern
      cases isField : pattern.field with
      | some field =>
          simp only [matchChildren_field isField, meetsAll_field isField]
          cases isTarget : node.field? field with
          | none => simp
          | some target =>
              rw [Option.bind_some]
              cases result : matchNode source pattern target with
              | none =>
                  refine ⟨fun found => absurd found (by simp), ?_⟩
                  rintro ⟨chosen, -, ⟨other, same, meets⟩, -⟩
                  cases same
                  have isSome := (matched target).mpr meets
                  rw [result] at isSome
                  cases isSome
              | some found =>
                  have meets : pattern.Meets source target := (matched target).mp (by simp [result])
                  rw [Option.bind_some, isSome_matchChildren source rest node candidates]
                  simp [meets]
      | none =>
          simp only [matchChildren_other isField, meetsAll_other isField]
          cases picked : pick (matchNode source pattern) candidates with
          | none =>
              refine ⟨fun found => absurd found (by simp), ?_⟩
              rintro ⟨chosen, isRow, first, others, rfl, meets, -⟩
              have isSome := (matched first).mpr meets
              rw [eq_none_of_pick picked first (isRow.subset List.mem_cons_self)] at isSome
              cases isSome
          | some pair =>
              rcases exists_of_pick picked with ⟨before, candidate, rfl, skipped, isResult⟩
              rw [Option.bind_some, isSome_matchChildren source rest node pair.2]
              constructor
              · rintro ⟨chosen, isRow, later⟩
                have meets : pattern.Meets source candidate :=
                  (matched candidate).mp (by simp [isResult])
                exact ⟨candidate :: chosen, (isRow.cons_cons candidate).trans
                  (List.sublist_append_right _ _), candidate, chosen, rfl, meets, later⟩
              · rintro ⟨chosen, isRow, first, others, rfl, meets, later⟩
                refine ⟨others, sublist_of_notMem isRow fun isBefore => ?_, later⟩
                have isSome := (matched first).mpr meets
                rw [skipped first isBefore] at isSome
                cases isSome

end

/-! ## Captures -/

mutual

/-- A pattern and all patterns inside it, parents before children. -/
def subpatterns : Pattern → List Pattern
  | mk kind field capture children =>
      mk kind field capture children :: subpatternsOfAll children

def subpatternsOfAll : List Pattern → List Pattern
  | [] => []
  | pattern :: rest => pattern.subpatterns ++ subpatternsOfAll rest

end

/-- Captures below a node: just the captures of the given patterns have nodes, and each has the node
itself or one below it that meets a pattern with this capture. -/
structure Binds (source : List Char) (node : Node) (patterns : List Pattern)
    (captures : Captures) : Prop where
  names : ∀ name, name ∈ captures.names ↔ ∃ pattern ∈ patterns, pattern.capture = some name
  targets : ∀ name target, captures.get? name = some target → target ∈ node.walk ∧
    ∃ pattern ∈ patterns, pattern.capture = some name ∧ pattern.Meets source target

theorem binds_empty : Binds source node [] .empty where
  names := fun name => by simp
  targets := fun name target found => by cases found

theorem mem_of_field? {field : String} {target : Node}
    (isTarget : node.field? field = some target) :
    target ∈ node.children := by
  rcases Option.bind_eq_some_iff.mp isTarget with ⟨kind, -, isFirst⟩
  exact List.mem_of_find?_eq_some isFirst

theorem Binds.merge {before patterns : List Pattern} {captures found : Captures} {child : Node}
    (binds : Binds source node before captures) (further : Binds source child patterns found)
    (isChild : child ∈ node.children) :
    Binds source node (before ++ patterns) (captures.putAll found.entries) where
  names := by
    intro name
    have isFound : name ∈ found.entries.map Prod.fst ↔ name ∈ found.names := Iff.rfl
    rw [NameTable.mem_names_putAll, isFound, binds.names, further.names]
    simp only [List.mem_append, or_and_right, exists_or]
  targets := by
    intro name target isTarget
    rcases NameTable.get?_putAll isTarget with isOld | isNew
    · rcases binds.targets name target isOld with ⟨isBelow, pattern, isPattern, meets⟩
      exact ⟨isBelow, pattern, List.mem_append_left _ isPattern, meets⟩
    · rcases further.targets name target (NameTable.get?_of_mem_entries isNew) with
        ⟨isBelow, pattern, isPattern, meets⟩
      exact ⟨Node.mem_walk_of_child isChild isBelow, pattern, List.mem_append_right _ isPattern,
        meets⟩

theorem Binds.keep {pattern : Pattern} {patterns : List Pattern} {captures : Captures}
    (binds : Binds source node patterns captures) (meets : pattern.Meets source node) :
    Binds source node (pattern :: patterns) (keep pattern.capture node captures) := by
  cases isCapture : pattern.capture with
  | none =>
      refine ⟨?_, ?_⟩
      · intro name
        rw [Pattern.keep, binds.names, List.exists_mem_cons_iff, isCapture]
        simp
      · intro name target isTarget
        rcases binds.targets name target isTarget with ⟨isBelow, other, isOther, meetsOther⟩
        exact ⟨isBelow, other, List.mem_cons_of_mem _ isOther, meetsOther⟩
  | some own =>
      refine ⟨?_, ?_⟩
      · intro name
        rw [Pattern.keep, NameTable.mem_names_put, binds.names, List.exists_mem_cons_iff,
          isCapture, Option.some.injEq, or_comm, eq_comm]
      · intro name target isTarget
        rw [Pattern.keep, NameTable.get?_put] at isTarget
        split at isTarget
        · rename_i isOwn
          cases isTarget
          exact ⟨node.mem_walk_self, pattern, List.mem_cons_self, isOwn ▸ isCapture, meets⟩
        · rcases binds.targets name target isTarget with ⟨isBelow, other, isOther, meetsOther⟩
          exact ⟨isBelow, other, List.mem_cons_of_mem _ isOther, meetsOther⟩

mutual

theorem binds_of_matchNode : (pattern : Pattern) → (node : Node) → {captures : Captures} →
    matchNode source pattern node = some captures →
      Binds source node pattern.subpatterns captures
  | mk kind field capture children, node, captures, matched => by
      have meets := (isSome_matchNode source _ node).mp (Option.isSome_of_mem matched)
      rw [matchNode] at matched
      split at matched
      · rcases Option.map_eq_some_iff.mp matched with ⟨inner, isInner, rfl⟩
        have candidates : ∀ candidate ∈ node.namedChildren, candidate ∈ node.children :=
          fun candidate isCandidate => (List.mem_filter.mp isCandidate).1
        have binds := binds_of_matchChildren children node candidates binds_empty isInner
        rw [List.nil_append] at binds
        exact binds.keep meets
      · cases matched

theorem binds_of_matchChildren : (patterns : List Pattern) → (node : Node) →
    {candidates : List Node} → (∀ candidate ∈ candidates, candidate ∈ node.children) →
    {before : List Pattern} → {sofar captures : Captures} → Binds source node before sofar →
    matchChildren source patterns node candidates sofar = some captures →
      Binds source node (before ++ subpatternsOfAll patterns) captures
  | [], node, candidates, inside, before, sofar, captures, binds, matched => by
      rw [matchChildren] at matched
      cases matched
      rw [subpatternsOfAll, List.append_nil]
      exact binds
  | pattern :: rest, node, candidates, inside, before, sofar, captures, binds, matched => by
      rw [subpatternsOfAll, ← List.append_assoc]
      rcases cases_matchChildren matched with
        ⟨field, target, found, -, isTarget, isMatch, later⟩ | ⟨-, found, remaining, picked, later⟩
      · exact binds_of_matchChildren rest node inside
          (binds.merge (binds_of_matchNode pattern target isMatch) (mem_of_field? isTarget)) later
      · rcases exists_of_pick picked with ⟨front, candidate, rfl, -, isMatch⟩
        rw [List.forall_mem_append, List.forall_mem_cons] at inside
        exact binds_of_matchChildren rest node inside.2.2
          (binds.merge (binds_of_matchNode pattern candidate isMatch) inside.2.1) later

end

end Pattern

end ShaderReflection.Query
