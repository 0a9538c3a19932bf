import ShaderReflection.Grammar.Reader
import ShaderReflection.Query.Pattern
import ShaderReflection.Wgsl.Lexeme

/-!
# The pattern language

Patterns are written as nested lists in parentheses: a kind, then child patterns, each possibly
with the name of a field in front, and behind the closing parenthesis possibly a capture.
-/

namespace ShaderReflection.Query

open ShaderReflection.Grammar ShaderReflection.Grammar.Part ShaderReflection.Grammar.Rule

/-! ## Grammar -/

inductive Terminal where
  | leftParen | rightParen | colon | atSign | name | captureName
deriving DecidableEq, Repr

instance : Alphabet Terminal where
  number := Terminal.ctorIdx
  number_injective := by
    intro left right equal
    rw [← Terminal.ofNat_ctorIdx left, equal, Terminal.ofNat_ctorIdx]

inductive Nonterminal where
  | query | patterns | pattern | children | child | fieldPattern | capture
deriving DecidableEq, Repr

instance : Alphabet Nonterminal where
  number := Nonterminal.ctorIdx
  number_injective := by
    intro left right equal
    rw [← Nonterminal.ofNat_ctorIdx left, equal, Nonterminal.ofNat_ctorIdx]

def rules : Rules Terminal Nonterminal where
  start := .query
  list := List.flatten [
    build .query [part .patterns],
    build .patterns [part? .patterns, part .pattern],
    build .pattern [token .leftParen, token .name, part? .children, token .rightParen,
      part? .capture],
    build .children [part? .children, part .child],
    build .child [part .pattern],
    build .child [part .fieldPattern],
    build .fieldPattern [token .name, token .colon, part .pattern],
    build .capture [token .atSign, token .captureName]]

/-! ## Lexicon -/

def isCapturePart (char : Char) : Bool :=
  Wgsl.Lexeme.isWordPart char || char == '.' || char == '-'

/-- A letter or underscore, and all letters, digits, underscores, points and hyphens that
follow. -/
def captureName : List Char → Option (List Char)
  | [] => none
  | char :: text =>
      if Wgsl.Lexeme.isWordStart char then some (char :: text.takeWhile isCapturePart) else none

/-- A semicolon and the rest of the line, without the line feed. -/
def comment : List Char → Option (List Char)
  | ';' :: text => some (';' :: text.takeWhile (· != '\n'))
  | _ => none

def lexicon : Lexicon Terminal where
  patterns := [
    ⟨some .captureName, captureName⟩,
    ⟨some .name, Wgsl.Lexeme.word⟩,
    ⟨none, Wgsl.Lexeme.space⟩,
    ⟨none, comment⟩]
  spellings := [⟨['@'], .atSign⟩, ⟨[':'], .colon⟩, ⟨['('], .leftParen⟩, ⟨[')'], .rightParen⟩]

/-- The pattern language, ready to read texts. -/
def language : Language Terminal Nonterminal := ⟨Parser.ofRules rules, lexicon⟩

/-! ## From derivations to patterns -/

/-- What a part of a query contributes to the pattern around it. -/
inductive Piece where
  | word (text : String)
  | pattern (pattern : Pattern)
  | capture (name : String)

namespace Piece

def pattern? : Piece → Option Pattern
  | pattern found => some found
  | _ => none

def capture? : Piece → Option String
  | capture name => some name
  | _ => none

def assemble (head : Nonterminal) (pieces : List Piece) : List Piece :=
  match head, pieces with
  | .pattern, .word kind :: rest =>
      [.pattern (.mk kind none (rest.filterMap capture?).getLast? (rest.filterMap pattern?))]
  | .fieldPattern, .word field :: rest =>
      (rest.filterMap pattern?).map fun pattern => .pattern (pattern.forField field)
  | .capture, [.word name] => [.capture name]
  | _, _ => pieces

mutual

/-- The pieces of a derivation. Punctuation contributes nothing. -/
def ofDerivation : Derivation Terminal Nonterminal Token → List Piece
  | .leaf .name token => [.word (String.ofList token.text)]
  | .leaf .captureName token => [.word (String.ofList token.text)]
  | .leaf _ _ => []
  | .node rule children => assemble rule.head (ofDerivations children)

def ofDerivations : List (Derivation Terminal Nonterminal Token) → List Piece
  | [] => []
  | tree :: rest => ofDerivation tree ++ ofDerivations rest

end

end Piece

/-- Read the patterns of a query. Their kinds are looked at only when the whole text has been
read. -/
def read (query : String) : Attempt (List Pattern) :=
  match language.read query.toList with
  | .error rejection => .error (.malformedQuery rejection.position.column query)
  | .ok tree => Pattern.check ((Piece.ofDerivation tree).filterMap Piece.pattern?)

end ShaderReflection.Query
