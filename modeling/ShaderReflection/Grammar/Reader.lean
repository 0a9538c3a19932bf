import ShaderReflection.Grammar.Machine
import ShaderReflection.Grammar.Lexicon

/-!
# Reading a text

The parsing machine and a lexicon together. Before each lexeme the reader asks the state on top of
the stack which terminals are acceptable, and reads with that part of the lexicon; so the same
characters can be different terminals in different places.
-/

namespace ShaderReflection.Grammar

open ShaderReflection.Text

/-- A terminal in a text: where it starts and how it is written. -/
structure Token where
  start : Position
  text : List Char
deriving DecidableEq, Repr

def Token.span (token : Token) : Span :=
  ⟨token.start.offset, token.start.offset + token.text.length⟩

/-- Why a text is rejected: a terminal that is not acceptable, a character at which nothing can be
read, or the end of the text, which is reported at the start of the last token. -/
inductive Rejection (τ : Type) where
  | terminal (letter : τ) (token : Token)
  | character (char : Char) (position : Position)
  | ending (position : Position)
deriving DecidableEq, Repr

def Rejection.position {τ : Type} : Rejection τ → Position
  | .terminal _ token => token.start
  | .character _ position => position
  | .ending position => position

/-- A language: its parser and its lexicon. -/
structure Language (τ ν : Type) where
  parser : Parser τ ν
  lexicon : Lexicon τ

/-- How far a text has been read: the trees so far, the start of the last token, the place reached
and the text that is left. -/
structure Progress (τ ν : Type) where
  stack : Stack τ ν Token
  last : Position
  position : Position
  rest : List Char

/-- One step of reading: further on, or a result. -/
inductive Advance (τ ν : Type) where
  | more (progress : Progress τ ν)
  | done (tree : Derivation τ ν Token)
  | rejected (rejection : Rejection τ)

namespace Language

variable {τ ν : Type} [Alphabet τ] [Alphabet ν] [DecidableEq τ] [DecidableEq ν]

def known (language : Language τ ν) (number : Nat) : Lexicon τ :=
  let accepted := (language.parser.state number).accepted
  language.lexicon.restrict fun letter => accepted.contains (some (Alphabet.number letter))

/-- Nothing that is acceptable can be read. If the whole lexicon reads a terminal there, that
terminal is to blame, otherwise the character. -/
def blame (language : Language τ ν) (position : Position) (char : Char) (text : List Char) :
    Rejection τ :=
  match language.lexicon.read (char :: text) with
  | some ⟨some letter, word⟩ => .terminal letter ⟨position, word⟩
  | _ => .character char position

def step (language : Language τ ν) (progress : Progress τ ν) : Advance τ ν :=
  match progress.rest with
  | [] =>
      match language.parser.feed progress.stack none with
      | .ok (.accepted tree) => .done tree
      | _ => .rejected (.ending progress.last)
  | char :: text =>
      match (language.known (Stack.state progress.stack)).read (char :: text) with
      | none => .rejected (language.blame progress.position char text)
      | some ⟨none, word⟩ =>
          .more ⟨progress.stack, progress.last, progress.position.advance word,
            (char :: text).drop word.length⟩
      | some ⟨some letter, word⟩ =>
          let token : Token := ⟨progress.position, word⟩
          match language.parser.feed progress.stack (some (letter, token)) with
          | .ok (.shifted stack) =>
              .more ⟨stack, progress.position, progress.position.advance word,
                (char :: text).drop word.length⟩
          | _ => .rejected (.terminal letter token)

/-- Step until there is a result. Each step but the last takes at least one character, so the fuel
never runs out when it exceeds the length of the text. -/
def loop (language : Language τ ν) :
    (fuel : Nat) → Progress τ ν → Except (Rejection τ) (Derivation τ ν Token)
  | 0, progress => .error (.ending progress.last)
  | fuel + 1, progress =>
      match language.step progress with
      | .more later => language.loop fuel later
      | .done tree => .ok tree
      | .rejected rejection => .error rejection

def read (language : Language τ ν) (text : List Char) :
    Except (Rejection τ) (Derivation τ ν Token) :=
  language.loop (text.length + 1) ⟨[], Position.start, Position.start, text⟩

end Language

end ShaderReflection.Grammar
