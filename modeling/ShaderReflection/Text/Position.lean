/-!
# Places in a text

A position counts characters from the start of a text and, at the same time, lines and columns.
A span is a stretch of text between two offsets.
-/

namespace ShaderReflection.Text

/-! ## Positions -/

/-- A place between two characters. Offsets start at zero, lines and columns at one; only a line
feed ends a line. -/
structure Position where
  offset : Nat
  line : Nat
  column : Nat
deriving DecidableEq, Repr

namespace Position

def start : Position := ⟨0, 1, 1⟩

def step (position : Position) (char : Char) : Position :=
  if char = '\n' then ⟨position.offset + 1, position.line + 1, 1⟩
  else ⟨position.offset + 1, position.line, position.column + 1⟩

def advance (position : Position) (text : List Char) : Position :=
  text.foldl step position

@[simp] theorem advance_nil (position : Position) : position.advance [] = position := rfl

@[simp] theorem advance_cons (position : Position) (char : Char) (text : List Char) :
    position.advance (char :: text) = (position.step char).advance text := rfl

@[simp] theorem advance_append (position : Position) (left right : List Char) :
    position.advance (left ++ right) = (position.advance left).advance right :=
  List.foldl_append

@[simp] theorem offset_advance (position : Position) (text : List Char) :
    (position.advance text).offset = position.offset + text.length := by
  induction text generalizing position with
  | nil => rfl
  | cons char text induction =>
      rw [advance_cons, induction, List.length_cons]
      unfold step
      split <;> simp only [] <;> omega

end Position

/-! ## Spans -/

/-- The characters from offset `start` up to, but not including, offset `stop`. -/
structure Span where
  start : Nat
  stop : Nat
deriving DecidableEq, Repr

namespace Span

def whole (text : List Char) : Span := ⟨0, text.length⟩

/-- The characters of a span; what lies behind the end of the text is left out. -/
def slice (span : Span) (text : List Char) : List Char :=
  (text.drop span.start).take (span.stop - span.start)

@[simp] theorem slice_whole (text : List Char) : (whole text).slice text = text := by
  simp [slice, whole]

/-- The span between two offsets of which a negative one counts from the end of the text. -/
def ofOffsets (text : List Char) (start stop : Int) : Span :=
  let fromStart (offset : Int) : Nat :=
    if offset < 0 then (offset + text.length).toNat else offset.toNat
  ⟨fromStart start, fromStart stop⟩

end Span

/-! ## Bytes -/

def byteLength : List Char → Nat
  | [] => 0
  | char :: text => char.utf8Size + byteLength text

theorem byteLength_append (left right : List Char) :
    byteLength (left ++ right) = byteLength left + byteLength right := by
  induction left with
  | nil => simp [byteLength]
  | cons char left induction => simp [byteLength, induction, Nat.add_assoc]

def byteOffset : (text : List Char) → (offset : Nat) → Nat
  | [], _ => 0
  | _ :: _, 0 => 0
  | char :: text, offset + 1 => char.utf8Size + byteOffset text offset

theorem byteOffset_eq (text : List Char) (offset : Nat) :
    byteOffset text offset = byteLength (text.take offset) := by
  induction text generalizing offset with
  | nil => simp [byteOffset, byteLength]
  | cons char text induction =>
      cases offset with
      | zero => rfl
      | succ offset => simp [byteOffset, byteLength, induction]

end ShaderReflection.Text
