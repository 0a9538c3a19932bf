import ShaderReflection.Text.Blank
import ShaderReflection.Wgsl.Terminal

/-!
# Lexemes

How each class of lexemes is read from the front of a text, and the lexicon of the shading
language. Every reader gives a non-empty piece of the front of the text, or nothing.
-/

namespace ShaderReflection.Wgsl.Lexeme

open ShaderReflection.Grammar ShaderReflection.Text

/-! ## Words -/

def isWordStart (char : Char) : Bool := char.isAlpha || char == '_'

def isWordPart (char : Char) : Bool := char.isAlphanum || char == '_'

/-- A letter or underscore, and all letters, digits and underscores that follow. -/
def word : List Char → Option (List Char)
  | [] => none
  | char :: text => if isWordStart char then some (char :: text.takeWhile isWordPart) else none

/-! ## Numbers -/

def isHexDigit (char : Char) : Bool :=
  char.isDigit || ('a' ≤ char && char ≤ 'f') || ('A' ≤ char && char ≤ 'F')

/-- The first character, if it is one of `letters`. -/
def oneOf (letters : List Char) : List Char → List Char
  | char :: _ => if letters.contains char then [char] else []
  | [] => []

/-- Append to a piece of the front of a text whatever `read` finds behind it. -/
def followed (text : List Char) (read : List Char → List Char) (front : List Char) : List Char :=
  front ++ read (text.drop front.length)

/-- A zero alone, or digits of which the first is not zero; empty if there is neither. -/
def decimal : List Char → List Char
  | '0' :: _ => ['0']
  | text => text.takeWhile Char.isDigit

/-- An integer in decimal or hexadecimal notation with an optional suffix. -/
def intLiteral (text : List Char) : Option (List Char) :=
  let hexadecimal :=
    match text with
    | '0' :: mark :: rest =>
        if mark = 'x' ∨ mark = 'X' then
          match rest.takeWhile isHexDigit with
          | [] => none
          | digits => some ('0' :: mark :: digits)
        else none
    | _ => none
  match hexadecimal with
  | some front => some (followed text (oneOf ['i', 'u']) front)
  | none =>
      match decimal text with
      | [] => none
      | front => some (followed text (oneOf ['i', 'u']) front)

/-- The mark, optional sign and digits of an exponent; empty if there are no digits. -/
def exponent : List Char → List Char
  | mark :: rest =>
      if mark = 'e' ∨ mark = 'E' then
        let sign := oneOf ['+', '-'] rest
        match (rest.drop sign.length).takeWhile Char.isDigit with
        | [] => []
        | digits => mark :: sign ++ digits
      else []
  | [] => []

/-- Digits with a point or an exponent or both; empty if there is neither. -/
def fractional (text : List Char) : List Char :=
  let whole := text.takeWhile Char.isDigit
  match text.drop whole.length with
  | '.' :: rest =>
      let part := rest.takeWhile Char.isDigit
      if whole.isEmpty && part.isEmpty then []
      else followed text exponent (whole ++ '.' :: part)
  | rest =>
      match whole, exponent rest with
      | [], _ => []
      | _, [] => []
      | _, power => whole ++ power

/-- A number with a point or an exponent and an optional suffix, or a decimal integer with a
suffix that marks it as a float. -/
def floatLiteral (text : List Char) : Option (List Char) :=
  match fractional text with
  | [] =>
      match decimal text with
      | [] => none
      | front =>
          match oneOf ['f', 'h'] (text.drop front.length) with
          | [] => none
          | suffix => some (front ++ suffix)
  | front => some (followed text (oneOf ['f', 'h']) front)

/-! ## Strings -/

/-- The rest of a string up to its closing quote. A backslash takes the next character with it,
and a string ends on its line. -/
def stringRest : List Char → Option (List Char)
  | [] => none
  | '"' :: _ => some ['"']
  | '\n' :: _ => none
  | '\\' :: '\n' :: _ => none
  | '\\' :: char :: text => (stringRest text).map ('\\' :: char :: ·)
  | char :: text => if char = '\\' then none else (stringRest text).map (char :: ·)

def stringLiteral : List Char → Option (List Char)
  | '"' :: text => (stringRest text).map ('"' :: ·)
  | _ => none

/-! ## Operators -/

def doubleOperators : List (List Char) :=
  ["&&", "||", "==", "!=", "<=", ">=", "<<", ">>"].map String.toList

def singleOperators : List Char := "<>+-*/%&|^".toList

def unaryOperators : List Char := "-!~&*".toList

def binaryOperator : List Char → Option (List Char)
  | [] => none
  | char :: text =>
      if doubleOperators.contains (char :: text.take 1) then some (char :: text.take 1)
      else if singleOperators.contains char then some [char]
      else none

def unaryOperator : List Char → Option (List Char)
  | [] => none
  | char :: _ => if unaryOperators.contains char then some [char] else none

/-! ## Bodies -/

/-- Text up to the next brace or comment. A slash opens a comment if a slash or an asterisk
follows. -/
def bodyRun : List Char → List Char
  | [] => []
  | '/' :: '/' :: _ => []
  | '/' :: '*' :: _ => []
  | char :: text => if char = '\x7b' ∨ char = '\x7d' then [] else char :: bodyRun text

/-- A stretch of a function body that begins with something other than white space. -/
def bodyText : List Char → Option (List Char)
  | [] => none
  | char :: text =>
      if isBlank char then none
      else
        match bodyRun (char :: text) with
        | [] => none
        | run => some run

/-! ## Trivia -/

def isSpace (char : Char) : Bool :=
  char == ' ' || char == '\t' || char == '\x0c' || char == '\r' || char == '\n'

def space (text : List Char) : Option (List Char) :=
  match text.takeWhile isSpace with
  | [] => none
  | run => some run

/-- Two slashes and the rest of the line, without the line feed. -/
def lineComment : List Char → Option (List Char)
  | '/' :: '/' :: text => some ('/' :: '/' :: text.takeWhile (· != '\n'))
  | _ => none

def commentRest : List Char → Option (List Char)
  | [] => none
  | '*' :: '/' :: _ => some ['*', '/']
  | char :: text => (commentRest text).map (char :: ·)

/-- A comment between marks; it does not nest. -/
def blockComment : List Char → Option (List Char)
  | '/' :: '*' :: text => (commentRest text).map ('/' :: '*' :: ·)
  | _ => none

/-! ## The lexicon -/

def patterns : List (Pattern Terminal) := [
  ⟨some .floatLiteral, floatLiteral⟩,
  ⟨some .bodyText, bodyText⟩,
  ⟨some .intLiteral, intLiteral⟩,
  ⟨some .identifier, word⟩,
  ⟨some .stringLiteral, stringLiteral⟩,
  ⟨none, blockComment⟩,
  ⟨none, lineComment⟩,
  ⟨none, space⟩,
  ⟨some .binaryOperator, binaryOperator⟩,
  ⟨some .unaryOperator, unaryOperator⟩]

def lexicon : Lexicon Terminal := ⟨patterns, spellings⟩

end ShaderReflection.Wgsl.Lexeme
