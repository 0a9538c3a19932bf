import ShaderReflection.Text.Blank
import ShaderReflection.Text.Digit

/-!
# Numerals

Integers as a reader may write them: digits of any script, single underscores between digits, an
optional sign, in base sixteen an optional `0x`, and white space around the whole. A decimal numeral
has a limited number of digits.
-/

namespace ShaderReflection.Text.Numeral

/-- White space around a numeral: blanks other than the separators U+001C to U+001F. -/
def isPadding (char : Char) : Bool :=
  isBlank char && !(decide (0x1c ≤ char.toNat) && decide (char.toNat ≤ 0x1f))

def trim (text : List Char) : List Char :=
  ((text.dropWhile isPadding).reverse.dropWhile isPadding).reverse

/-- The value of digits in a base, added to what has been read so far. An underscore has to be
followed by a digit. -/
def value? (base : Nat) (sofar : Nat) : List Char → Option Nat
  | [] => some sofar
  | '_' :: char :: text =>
      match digitValue? base char with
      | some digit => value? base (sofar * base + digit) text
      | none => none
  | char :: text =>
      match digitValue? base char with
      | some digit => value? base (sofar * base + digit) text
      | none => none

def natural? (base : Nat) : List Char → Option Nat
  | [] => none
  | char :: text => (digitValue? base char).bind fun digit => value? base digit text

/-- A text without the mark of base sixteen, which an underscore may follow. -/
def unmarked : List Char → List Char
  | '0' :: mark :: text =>
      if mark = 'x' ∨ mark = 'X' then
        match text with
        | '_' :: rest => rest
        | rest => rest
      else '0' :: mark :: text
  | text => text

/-! ## Limits -/

/-- The most digits of a numeral, unless the base is a power of two. -/
def digitLimit : Nat := 4300

/-- Why a text is not read as an integer. -/
inductive Flaw where
  | malformed
  /-- The digits are in order, but there are too many of them. -/
  | tooLong (digits : Nat)
deriving DecidableEq, Repr

def isDigitOrUnderscore (base : Nat) (char : Char) : Bool :=
  (digitValue? base char).isSome || char == '_'

/-- The number of digits in front of a text, if it is above the limit. What stands behind the digits
plays no role. -/
def excess? (base : Nat) (text : List Char) : Option Nat :=
  let front := text.takeWhile (isDigitOrUnderscore base)
  let digits := front.countP (· != '_')
  if (natural? base front).isSome ∧ digitLimit < digits then some digits else none

/-! ## Integers -/

def natural (base : Nat) (text : List Char) : Except Flaw Nat :=
  match natural? base text with
  | some value => .ok value
  | none => .error .malformed

/-- The value of a text in base ten or sixteen. Only in base ten there is a limit. -/
def unsigned (base : Nat) (text : List Char) : Except Flaw Nat :=
  if base = 16 then natural base (unmarked text)
  else
    match excess? base text with
    | some digits => .error (.tooLong digits)
    | none => natural base text

def integer (base : Nat) (text : List Char) : Except Flaw Int :=
  match trim text with
  | '-' :: rest => (unsigned base rest).map fun value => -Int.ofNat value
  | '+' :: rest => (unsigned base rest).map Int.ofNat
  | rest => (unsigned base rest).map Int.ofNat

end ShaderReflection.Text.Numeral
