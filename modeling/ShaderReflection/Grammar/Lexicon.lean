import ShaderReflection.Text.Position

/-!
# Lexicons

A lexicon says how terminals are read from a text: by patterns, which take a stretch of text of
their own choice, and by spellings, which are fixed. Which of them are tried depends on the
terminals that are acceptable at the place in question.
-/

namespace ShaderReflection.Grammar

/-- A pattern reads a lexeme at the front of a text. A pattern without a terminal reads trivia,
which is skipped. -/
structure Pattern (τ : Type) where
  terminal : Option τ
  read : List Char → Option (List Char)

/-- A terminal that is always written the same way. Several spellings may share a terminal. -/
structure Spelling (τ : Type) where
  text : List Char
  terminal : τ

/-- A lexeme and the terminal that it is read as, which is `none` for trivia. -/
structure Lexeme (τ : Type) where
  terminal : Option τ
  text : List Char
deriving DecidableEq, Repr

/-- Patterns and spellings in the order in which they are tried. -/
structure Lexicon (τ : Type) where
  patterns : List (Pattern τ)
  spellings : List (Spelling τ)

namespace Lexicon

variable {τ : Type}

/-- The part of a lexicon that is known where only some terminals are acceptable. Trivia is always
known. -/
def restrict (lexicon : Lexicon τ) (accepted : τ → Bool) : Lexicon τ where
  patterns := lexicon.patterns.filter fun pattern => pattern.terminal.all accepted
  spellings := lexicon.spellings.filter fun spelling => accepted spelling.terminal

/-- A spelling that some pattern reads in full is a reserved word of that pattern. -/
def reserved (lexicon : Lexicon τ) (spelling : Spelling τ) : Bool :=
  lexicon.patterns.any fun pattern => pattern.read spelling.text == some spelling.text

/-- The first pattern that reads something, with what it reads. The lexeme goes to a spelling's
terminal if it is that spelling. -/
def readPattern (lexicon : Lexicon τ) (text : List Char) : Option (Lexeme τ) :=
  lexicon.patterns.findSome? fun pattern =>
    (pattern.read text).map fun word =>
      match lexicon.spellings.find? fun spelling => spelling.text == word with
      | some spelling => ⟨some spelling.terminal, word⟩
      | none => ⟨pattern.terminal, word⟩

/-- The first spelling at the front of the text. Reserved words are left to their pattern. -/
def readSpelling (lexicon : Lexicon τ) (text : List Char) : Option (Lexeme τ) :=
  (lexicon.spellings.find? fun spelling =>
    spelling.text.isPrefixOf text && !lexicon.reserved spelling).map fun spelling =>
      ⟨some spelling.terminal, spelling.text⟩

/-- Read one lexeme. The first entry that reads something wins, even if another would read more;
patterns come before spellings. -/
def read (lexicon : Lexicon τ) (text : List Char) : Option (Lexeme τ) :=
  match lexicon.readPattern text with
  | some lexeme => some lexeme
  | none => lexicon.readSpelling text

end Lexicon

end ShaderReflection.Grammar
