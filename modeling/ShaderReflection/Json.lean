import ShaderReflection.Text.Hex
import ShaderReflection.Text.Numeral

/-!
# Data interchange text

Values of the JSON data format and their text: indented by two spaces for each level, with every
character outside of printable ASCII written as an escape.
-/

namespace ShaderReflection

/-- A value. The members of an object keep their order. Numbers are integers. -/
inductive Json where
  | null
  | number (value : Int)
  | text (value : List Char)
  | list (items : List Json)
  | object (members : List (List Char × Json))
deriving Repr

namespace Json

/-! ## Characters -/

def escapeUnit (unit : Nat) : List Char := '\\' :: 'u' :: Text.hexDigits 4 unit

/-- How a character is written between quotes. One that does not fit into sixteen bits is written
as a pair of surrogates. -/
def escape (char : Char) : List Char :=
  if char = '"' then ['\\', '"']
  else if char = '\\' then ['\\', '\\']
  else if char = '\n' then ['\\', 'n']
  else if char = '\r' then ['\\', 'r']
  else if char = '\t' then ['\\', 't']
  else if char = '\x08' then ['\\', 'b']
  else if char = '\x0c' then ['\\', 'f']
  else if 0x20 ≤ char.toNat ∧ char.toNat < 0x7f then [char]
  else if char.toNat < 0x10000 then escapeUnit char.toNat
  else
    let rest := char.toNat - 0x10000
    escapeUnit (0xd800 + rest / 0x400) ++ escapeUnit (0xdc00 + rest % 0x400)

def quote (text : List Char) : List Char := '"' :: text.flatMap escape ++ ['"']

def digits : Int → List Char
  | .ofNat value => Nat.toDigits 10 value
  | .negSucc value => '-' :: Nat.toDigits 10 (value + 1)

/-! ## Values -/

mutual

/-- Whether all numbers of a value can be written: none has more decimal digits than the limit. -/
def fits : Json → Bool
  | null => true
  | number value => decide (value.natAbs < 10 ^ Text.Numeral.digitLimit)
  | text _ => true
  | list items => fitsAll items
  | object members => fitsMembers members

def fitsAll : List Json → Bool
  | [] => true
  | item :: items => item.fits && fitsAll items

def fitsMembers : List (List Char × Json) → Bool
  | [] => true
  | (_, value) :: members => value.fits && fitsMembers members

end

def newLine (level : Nat) : List Char := '\n' :: List.replicate (2 * level) ' '

mutual

def render (level : Nat) : Json → List Char
  | null => "null".toList
  | number value => digits value
  | text value => quote value
  | list [] => ['[', ']']
  | list (item :: items) =>
      '[' :: newLine (level + 1) ++ render (level + 1) item ++ renderItems level items
  | object [] => ['\x7b', '\x7d']
  | object ((key, value) :: members) =>
      '\x7b' :: newLine (level + 1) ++ quote key ++ [':', ' '] ++ render (level + 1) value ++
        renderMembers level members

/-- The rest of a list behind its first item, with the closing bracket. -/
def renderItems (level : Nat) : List Json → List Char
  | [] => newLine level ++ [']']
  | item :: items =>
      ',' :: newLine (level + 1) ++ render (level + 1) item ++ renderItems level items

/-- The rest of an object behind its first member, with the closing brace. -/
def renderMembers (level : Nat) : List (List Char × Json) → List Char
  | [] => newLine level ++ ['\x7d']
  | (key, value) :: members =>
      ',' :: newLine (level + 1) ++ quote key ++ [':', ' '] ++ render (level + 1) value ++
        renderMembers level members

end

end Json

end ShaderReflection
