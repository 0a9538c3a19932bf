import Mathlib.Logic.Relation
import ShaderReflection.Tree.Cursor

/-!
# Laws of moving in a tree

A cursor that has come from the root by any steps is the root, or the child of its parent that its
number says (`Rooted`). A row of children tells the siblings of each of them (`siblings_eq`): those
behind it, and those in front of it from the nearest on. The laws of moving sideways are what these
two facts say of single steps (`lawful`).
-/

namespace ShaderReflection.Tree.Cursor

variable {tree : SyntaxTree} {source : List Char} {cursor found : Cursor}

/-! ## Steps -/

/-- One step in a tree: down to a child, to a named child or to a field, up to the parent, or
sideways to a sibling. -/
inductive Step (source : List Char) : Cursor → Cursor → Prop
  | child {cursor found : Cursor} (index : Int) (isFound : cursor.child source index = .ok found) :
      Step source cursor found
  | namedChild {cursor found : Cursor} (index : Int)
      (isFound : cursor.namedChild source index = .ok found) : Step source cursor found
  | field {cursor found : Cursor} (name : String) (isFound : cursor.field? name = some found) :
      Step source cursor found
  | firstOfKind {cursor found : Cursor} (kind : Kind)
      (isFound : cursor.firstOfKind? kind = some found) : Step source cursor found
  | parent {cursor found : Cursor} (isFound : cursor.parent? = some found) :
      Step source cursor found
  | next {cursor found : Cursor} (isFound : cursor.next? = some found) : Step source cursor found
  | previous {cursor found : Cursor} (isFound : cursor.previous? = some found) :
      Step source cursor found
  | nextNamed {cursor found : Cursor} (isFound : cursor.nextNamed? = some found) :
      Step source cursor found
  | previousNamed {cursor found : Cursor} (isFound : cursor.previousNamed? = some found) :
      Step source cursor found

/-- A cursor that steps in a tree lead to from its root. -/
def Reachable (tree : SyntaxTree) (cursor : Cursor) : Prop :=
  Relation.ReflTransGen (Step tree.source) (ofRoot tree) cursor

/-! ## Children and their siblings -/

theorem map_focus_children (cursor : Cursor) :
    cursor.children.map focus = cursor.focus.children := by
  apply List.ext_getElem?
  intro index
  rw [children, List.getElem?_map, List.getElem?_mapIdx, Option.map_map]
  exact Option.map_id_apply

theorem map_focus_namedChildren (cursor : Cursor) :
    cursor.namedChildren.map focus = cursor.focus.namedChildren := by
  rw [namedChildren, Node.namedChildren, ← map_focus_children, List.filter_map]
  rfl

/-- A child knows the node above it and its own number. -/
theorem above_of_getElem? {index : Nat} (isChild : cursor.children[index]? = some found) :
    found.above = (cursor.focus, index) :: cursor.above := by
  rw [children, List.getElem?_mapIdx] at isChild
  rcases Option.map_eq_some_iff.mp isChild with ⟨node, -, rfl⟩
  rfl

theorem parent?_of_mem (isChild : found ∈ cursor.children) : found.parent? = some cursor := by
  rcases List.mem_iff_getElem?.mp isChild with ⟨index, atIndex⟩
  rw [parent?, above_of_getElem? atIndex]

/-- The siblings of a child are told by the row in which it stands. -/
theorem siblings_eq {front back : List Cursor} (isRow : cursor.children = front ++ found :: back) :
    found.siblingsAfter = back ∧ found.siblingsBefore = front.reverse := by
  have atPlace : cursor.children[front.length]? = some found := by
    rw [isRow, List.getElem?_append_right (Nat.le_refl _), Nat.sub_self, List.getElem?_cons_zero]
  have isAbove := above_of_getElem? atPlace
  have isParent : (⟨cursor.focus, cursor.above⟩ : Cursor) = cursor := rfl
  constructor
  · rw [siblingsAfter, isAbove]
    simp only [isParent, isRow]
    rw [← List.drop_drop, List.drop_left, List.drop_one, List.tail_cons]
  · rw [siblingsBefore, isAbove]
    simp only [isParent, isRow, List.take_left]

/-! ## Where steps lead -/

/-- A cursor that is the root, or a child of such a cursor. -/
inductive Rooted (tree : SyntaxTree) : Cursor → Prop
  | root : Rooted tree (ofRoot tree)
  | child {cursor found : Cursor} (rooted : Rooted tree cursor)
      (isChild : found ∈ cursor.children) : Rooted tree found

theorem mem_of_at? {cursors : List Cursor} {index : Int}
    (isFound : at? cursors index = some found) : found ∈ cursors := by
  cases index with
  | ofNat index => exact List.mem_of_getElem? isFound
  | negSucc index => cases isFound

theorem at?_of_child {index : Int} (isFound : cursor.child source index = .ok found) :
    at? cursor.children index = some found := by
  rw [child] at isFound
  split at isFound
  · rename_i other isOther
    cases isFound
    exact isOther
  · cases isFound

theorem at?_of_namedChild {index : Int} (isFound : cursor.namedChild source index = .ok found) :
    at? cursor.namedChildren index = some found := by
  rw [namedChild] at isFound
  split at isFound
  · rename_i other isOther
    cases isFound
    exact isOther
  · cases isFound

/-- Siblings are children of the same cursor. -/
theorem Rooted.of_sibling (rooted : Rooted tree cursor)
    (isSibling : found ∈ cursor.siblingsAfter ∨ found ∈ cursor.siblingsBefore) :
    Rooted tree found := by
  cases rooted with
  | root => simp [siblingsAfter, siblingsBefore, ofRoot] at isSibling
  | @child parent _ rooted isChild =>
      rcases List.append_of_mem isChild with ⟨front, back, isRow⟩
      rw [(siblings_eq isRow).1, (siblings_eq isRow).2, List.mem_reverse] at isSibling
      refine .child rooted ?_
      rw [isRow, List.mem_append, List.mem_cons]
      rcases isSibling with isBehind | isBefore
      · exact .inr (.inr isBehind)
      · exact .inl isBefore

theorem Rooted.step (rooted : Rooted tree cursor) (step : Step source cursor found) :
    Rooted tree found := by
  cases step with
  | child index isFound => exact .child rooted (mem_of_at? (at?_of_child isFound))
  | namedChild index isFound =>
      exact .child rooted (List.mem_filter.mp (mem_of_at? (at?_of_namedChild isFound))).1
  | field name isFound =>
      rcases Option.bind_eq_some_iff.mp isFound with ⟨kind, -, isFirst⟩
      exact .child rooted (List.mem_of_find?_eq_some isFirst)
  | firstOfKind kind isFound => exact .child rooted (List.mem_of_find?_eq_some isFound)
  | parent isFound =>
      cases rooted with
      | root => cases isFound
      | child rooted isChild =>
          rw [parent?_of_mem isChild] at isFound
          cases isFound
          exact rooted
  | next isFound => exact rooted.of_sibling (.inl (List.mem_of_head? isFound))
  | previous isFound => exact rooted.of_sibling (.inr (List.mem_of_head? isFound))
  | nextNamed isFound => exact rooted.of_sibling (.inl (List.mem_of_find?_eq_some isFound))
  | previousNamed isFound => exact rooted.of_sibling (.inr (List.mem_of_find?_eq_some isFound))

theorem rooted_of_reachable (reachable : Reachable tree cursor) : Rooted tree cursor := by
  induction reachable with
  | refl => exact .root
  | tail _ step rooted => exact rooted.step step

theorem exists_child_of_mem (isChild : found ∈ cursor.children) :
    ∃ index, cursor.child source index = .ok found := by
  rcases List.mem_iff_getElem?.mp isChild with ⟨index, atIndex⟩
  have atPlace : at? cursor.children index = some found := atIndex
  exact ⟨index, by rw [child, atPlace]⟩

theorem Rooted.reachable (rooted : Rooted tree cursor) : Reachable tree cursor := by
  induction rooted with
  | root => exact .refl
  | child _ isChild reachable =>
      rcases exists_child_of_mem isChild with ⟨index, isFound⟩
      exact reachable.tail (.child index isFound)

/-- Two cursors with the same way are the same cursor. -/
theorem Rooted.eq_of_way_eq (rooted : Rooted tree cursor) (other : Rooted tree found)
    (sameWay : cursor.way = found.way) : cursor = found := by
  induction rooted generalizing found with
  | root =>
      cases other with
      | root => rfl
      | child other isChild =>
          rcases List.mem_iff_getElem?.mp isChild with ⟨index, atIndex⟩
          rw [way, way, above_of_getElem? atIndex] at sameWay
          cases sameWay
  | child rooted isChild induction =>
      rcases List.mem_iff_getElem?.mp isChild with ⟨index, atIndex⟩
      rw [way, way, above_of_getElem? atIndex] at sameWay
      cases other with
      | root => cases sameWay
      | child other isOther =>
          rcases List.mem_iff_getElem?.mp isOther with ⟨place, atPlace⟩
          rw [above_of_getElem? atPlace, List.map_cons, List.map_cons, List.cons.injEq] at sameWay
          rcases sameWay with ⟨rfl, sameRest⟩
          cases induction other sameRest
          exact Option.some.inj (atIndex.symm.trans atPlace)

/-! ## Places in a row -/

section Places

variable {cursors front back : List Cursor}

theorem at?_eq_none_iff {index : Int} :
    at? cursors index = none ↔ ¬ (0 ≤ index ∧ index < cursors.length) := by
  cases index with
  | ofNat index =>
      simp only [at?, List.getElem?_eq_none_iff, Int.ofNat_eq_natCast]
      omega
  | negSucc index =>
      have negative := Int.negSucc_lt_zero index
      simp only [at?, true_iff]
      omega

/-- An element with an index in range stands behind as many others as the index says. -/
theorem exists_split {index : Int} (positive : 0 ≤ index) (inside : index < cursors.length) :
    ∃ front found back, cursors = front ++ found :: back ∧ index = front.length := by
  rcases Int.eq_ofNat_of_zero_le positive with ⟨place, rfl⟩
  have inRow : place < cursors.length := Int.ofNat_lt.mp inside
  refine ⟨cursors.take place, cursors[place], cursors.drop (place + 1), ?_, ?_⟩
  · rw [List.getElem_cons_drop, List.take_append_drop]
  · rw [List.length_take_of_le (Nat.le_of_lt inRow)]

theorem at?_split : at? (front ++ found :: back) front.length = some found := by
  change (front ++ found :: back)[front.length]? = some found
  rw [List.getElem?_append_right (Nat.le_refl _), Nat.sub_self, List.getElem?_cons_zero]

theorem at?_behind : at? (front ++ found :: back) (front.length + 1) = back.head? := by
  change (front ++ found :: back)[front.length + 1]? = back.head?
  rw [List.getElem?_append_right (Nat.le_succ _), Nat.succ_sub (Nat.le_refl _), Nat.sub_self,
    List.getElem?_cons_succ, List.head?_eq_getElem?]

theorem at?_before : at? (front ++ found :: back) (front.length - 1) = front.getLast? := by
  cases isLast : front.getLast? with
  | none =>
      rw [List.getLast?_eq_none_iff.mp isLast]
      rfl
  | some last =>
      rcases List.getLast?_eq_some_iff.mp isLast with ⟨others, rfl⟩
      have before : ((others ++ [last]).length : Int) - 1 = others.length := by
        rw [List.length_append, List.length_singleton]
        omega
      rw [before, List.append_assoc, List.singleton_append, at?_split]

end Places

/-! ## Laws -/

theorem toOption_child (cursor : Cursor) (index : Int) :
    (cursor.child source index).toOption = at? cursor.children index := by
  rw [child]
  cases at? cursor.children index <;> rfl

theorem toOption_namedChild (cursor : Cursor) (index : Int) :
    (cursor.namedChild source index).toOption = at? cursor.namedChildren index := by
  rw [namedChild]
  cases at? cursor.namedChildren index <;> rfl

def isNamed (cursor : Cursor) : Bool := cursor.focus.isNamed

/-- Beside a child stand the nearest named children, if there are any. -/
theorem named_siblings_eq {front back : List Cursor}
    (isRow : cursor.children = front ++ found :: back) :
    found.nextNamed? = (back.filter isNamed).head? ∧
      found.previousNamed? = (front.filter isNamed).getLast? := by
  rcases siblings_eq isRow with ⟨after, before⟩
  constructor
  · rw [nextNamed?, after, List.head?_filter]
    rfl
  · rw [previousNamed?, before, ← List.head?_reverse, ← List.filter_reverse, List.head?_filter]
    rfl

/-- What holds below a cursor. A child with an index in range has the cursor for its parent, and
its siblings are the children with the next index and with the one before; with any other index
there is no child. The same holds of named children and named siblings. Around any child the named
siblings are the nearest named children. -/
structure Lawful (source : List Char) (cursor : Cursor) : Prop where
  children : ∀ index : Int, 0 ≤ index → index < cursor.focus.children.length →
    ∃ found, cursor.child source index = .ok found ∧ found.parent? = some cursor ∧
      cursor.focus.children[index.toNat]? = some found.focus ∧
      found.next? = (cursor.child source (index + 1)).toOption ∧
      found.previous? = (cursor.child source (index - 1)).toOption
  noChild : ∀ index : Int, ¬ (0 ≤ index ∧ index < cursor.focus.children.length) →
    cursor.child source index = .error (.noChild index (cursor.focus.type source))
  namedChildren : ∀ index : Int, 0 ≤ index → index < cursor.focus.namedChildren.length →
    ∃ found, cursor.namedChild source index = .ok found ∧ found.parent? = some cursor ∧
      cursor.focus.namedChildren[index.toNat]? = some found.focus ∧
      found.nextNamed? = (cursor.namedChild source (index + 1)).toOption ∧
      found.previousNamed? = (cursor.namedChild source (index - 1)).toOption
  noNamedChild : ∀ index : Int, ¬ (0 ≤ index ∧ index < cursor.focus.namedChildren.length) →
    cursor.namedChild source index = .error (.noNamedChild index (cursor.focus.type source))
  nearest : ∀ front found back, cursor.children = front ++ found :: back →
    found.nextNamed? = (back.filter isNamed).head? ∧
      found.previousNamed? = (front.filter isNamed).getLast?

theorem lawful (source : List Char) (cursor : Cursor) : Lawful source cursor where
  children := by
    intro index positive inside
    rw [← map_focus_children, List.length_map] at inside
    rcases exists_split positive inside with ⟨front, found, back, isRow, rfl⟩
    have isFound : cursor.child source front.length = .ok found := by
      rw [child, isRow, at?_split]
    refine ⟨found, isFound, parent?_of_mem (by simp [isRow]), ?_, ?_, ?_⟩
    · rw [← map_focus_children, List.getElem?_map, isRow, Int.toNat_natCast]
      exact congrArg (Option.map focus) at?_split
    · rw [toOption_child, next?, (siblings_eq isRow).1, isRow, at?_behind]
    · rw [toOption_child, previous?, (siblings_eq isRow).2, List.head?_reverse, isRow, at?_before]
  noChild := by
    intro index outside
    rw [← map_focus_children, List.length_map] at outside
    rw [child, at?_eq_none_iff.mpr outside]
  namedChildren := by
    intro index positive inside
    rw [← map_focus_namedChildren, List.length_map] at inside
    rcases exists_split positive inside with ⟨front, found, back, isNamedRow, rfl⟩
    -- The named children around this one are what is named of the children around it.
    have isFiltered : cursor.children.filter isNamed = front ++ found :: back := isNamedRow
    rcases List.filter_eq_append_iff.mp isFiltered with ⟨left, right, isRow, rfl, isRight⟩
    rcases List.filter_eq_cons_iff.mp isRight with ⟨gap, behind, rfl, isGap, isFound, rfl⟩
    have noneNamed : gap.filter isNamed = [] := List.filter_eq_nil_iff.mpr isGap
    have isWhole : cursor.children = (left ++ gap) ++ found :: behind := by
      rw [isRow, List.append_assoc]
    have sideways := named_siblings_eq isWhole
    rw [List.filter_append, noneNamed, List.append_nil] at sideways
    have isChild : cursor.namedChild source (left.filter isNamed).length = .ok found := by
      rw [namedChild, isNamedRow, at?_split]
    refine ⟨found, isChild, parent?_of_mem (by simp [isWhole]), ?_, ?_, ?_⟩
    · rw [← map_focus_namedChildren, List.getElem?_map, isNamedRow, Int.toNat_natCast]
      exact congrArg (Option.map focus) at?_split
    · rw [toOption_namedChild, sideways.1, isNamedRow, at?_behind]
    · rw [toOption_namedChild, sideways.2, isNamedRow, at?_before]
  noNamedChild := by
    intro index outside
    rw [← map_focus_namedChildren, List.length_map] at outside
    rw [namedChild, at?_eq_none_iff.mpr outside]
  nearest := fun _ _ _ isRow => named_siblings_eq isRow

/-- The laws of moving hold at every cursor that steps lead to. The root has no parent and no
siblings; any other cursor is the child of its parent, to which steps lead as well. Cursors are at
the same node just if they are equal, whatever steps led there. -/
theorem moves_lawful (tree : SyntaxTree) :
    ((ofRoot tree).parent? = none ∧ (ofRoot tree).next? = none ∧
      (ofRoot tree).previous? = none ∧ (ofRoot tree).nextNamed? = none ∧
      (ofRoot tree).previousNamed? = none) ∧
    ∀ cursor, Reachable tree cursor →
      Lawful tree.source cursor ∧
      (cursor = ofRoot tree ∨ ∃ parent index, Reachable tree parent ∧
        cursor.parent? = some parent ∧ parent.child tree.source index = .ok cursor) ∧
      ∀ other, Reachable tree other → (cursor.atSameNode other = true ↔ cursor = other) := by
  refine ⟨⟨rfl, rfl, rfl, rfl, rfl⟩, ?_⟩
  intro cursor reachable
  have rooted := rooted_of_reachable reachable
  refine ⟨lawful tree.source cursor, ?_, ?_⟩
  · cases rooted with
    | root => exact .inl rfl
    | @child parent _ above isChild =>
        rcases exists_child_of_mem isChild with ⟨index, isFound⟩
        exact .inr ⟨parent, index, above.reachable, parent?_of_mem isChild, isFound⟩
  · intro other reachableToo
    rw [atSameNode, beq_iff_eq]
    exact ⟨rooted.eq_of_way_eq (rooted_of_reachable reachableToo), congrArg way⟩

/-- The tree of an expression: an operator between two names. -/
def sumTree : SyntaxTree where
  source := "a+b".toList
  root := .named (.known .binaryExpression) (some ⟨0, 3⟩) [
    .named (.known .identifier) (some ⟨0, 1⟩) [.token (.known .identifier) ⟨0, 1⟩],
    .token (.known .binaryOperator) ⟨1, 2⟩,
    .named (.known .identifier) (some ⟨2, 3⟩) [.token (.known .identifier) ⟨2, 3⟩]]

theorem moves_lawful_sumTree : ∃ operator second,
    (ofRoot sumTree).child sumTree.source 1 = .ok operator ∧
      operator.nextNamed? = some second ∧ Reachable sumTree second ∧
      Lawful sumTree.source second := by
  have toSecond : Reachable sumTree ⟨_, [(sumTree.root, 2)]⟩ :=
    .tail (.single (.child 1 rfl)) (.nextNamed rfl)
  exact ⟨_, _, rfl, rfl, toSecond, ((moves_lawful sumTree).2 _ toSecond).1⟩

end ShaderReflection.Tree.Cursor
