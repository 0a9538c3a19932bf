import ShaderReflection.Fault

/-!
# Moving in a tree

A cursor is a node together with the way to it from the root, so that it can move to the parent
and to siblings. Cursors are at the same node exactly if their ways are equal.
-/

namespace ShaderReflection.Tree

/-- A node, and the nodes above it with the number of the child on the way down, nearest first. -/
structure Cursor where
  focus : Node
  above : List (Node × Nat)
deriving Repr

namespace Cursor

def ofRoot (tree : SyntaxTree) : Cursor := ⟨tree.root, []⟩

/-- The numbers of the children on the way from the root, last first. -/
def way (cursor : Cursor) : List Nat := cursor.above.map Prod.snd

def atSameNode (left right : Cursor) : Bool := left.way == right.way

/-! ## Down -/

def children (cursor : Cursor) : List Cursor :=
  cursor.focus.children.mapIdx fun index child =>
    ⟨child, (cursor.focus, index) :: cursor.above⟩

def namedChildren (cursor : Cursor) : List Cursor :=
  cursor.children.filter fun child => child.focus.isNamed

/-- The element of a list with an index that may be out of range on either side. -/
def at? (cursors : List Cursor) : (index : Int) → Option Cursor
  | .ofNat index => cursors[index]?
  | .negSucc _ => none

def child (source : List Char) (cursor : Cursor) (index : Int) : Attempt Cursor :=
  match at? cursor.children index with
  | some found => .ok found
  | none => .error (.noChild index (cursor.focus.type source))

def namedChild (source : List Char) (cursor : Cursor) (index : Int) : Attempt Cursor :=
  match at? cursor.namedChildren index with
  | some found => .ok found
  | none => .error (.noNamedChild index (cursor.focus.type source))

def firstOfKind? (cursor : Cursor) (kind : Kind) : Option Cursor :=
  cursor.children.find? fun child => child.focus.kind? == some kind

def field? (cursor : Cursor) (field : String) : Option Cursor :=
  (cursor.focus.kind?.bind fun kind => kind.field? field).bind cursor.firstOfKind?

/-! ## Up and sideways -/

def parent? (cursor : Cursor) : Option Cursor :=
  match cursor.above with
  | [] => none
  | (node, _) :: above => some ⟨node, above⟩

/-- The siblings behind the node, nearest first. -/
def siblingsAfter (cursor : Cursor) : List Cursor :=
  match cursor.above with
  | [] => []
  | (node, index) :: above => (children ⟨node, above⟩).drop (index + 1)

/-- The siblings in front of the node, nearest first. -/
def siblingsBefore (cursor : Cursor) : List Cursor :=
  match cursor.above with
  | [] => []
  | (node, index) :: above => ((children ⟨node, above⟩).take index).reverse

def next? (cursor : Cursor) : Option Cursor := cursor.siblingsAfter.head?

def previous? (cursor : Cursor) : Option Cursor := cursor.siblingsBefore.head?

def nextNamed? (cursor : Cursor) : Option Cursor :=
  cursor.siblingsAfter.find? fun sibling => sibling.focus.isNamed

def previousNamed? (cursor : Cursor) : Option Cursor :=
  cursor.siblingsBefore.find? fun sibling => sibling.focus.isNamed

end Cursor

end ShaderReflection.Tree
