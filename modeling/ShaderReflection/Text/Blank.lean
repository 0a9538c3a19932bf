import ShaderReflection.Text.Ranges

/-!
# Blank characters and line ends

Two sets of characters: those that count as white space, and those that end a line of text.
-/

namespace ShaderReflection.Text

/-- The code points of white space: the separators of the Unicode character database, the next-line
character, and the controls from tab to carriage return and from U+001C to U+001F. -/
def blankRanges : List (Nat × Nat) :=
  [
    (0x9, 0xd), (0x1c, 0x20), (0x85, 0x85), (0xa0, 0xa0), (0x1680, 0x1680), (0x2000, 0x200a),
    (0x2028, 0x2029), (0x202f, 0x202f), (0x205f, 0x205f), (0x3000, 0x3000)]

def isBlank (char : Char) : Bool := inRanges blankRanges char.toNat

def lineEndRanges : List (Nat × Nat) :=
  [
    (0xa, 0xd), (0x1c, 0x1e), (0x85, 0x85), (0x2028, 0x2029)]

def isLineEnd (char : Char) : Bool := inRanges lineEndRanges char.toNat

def firstLine (text : List Char) : List Char := text.takeWhile fun char => !isLineEnd char

end ShaderReflection.Text
