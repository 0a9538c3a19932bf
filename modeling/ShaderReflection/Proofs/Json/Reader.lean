import Mathlib.Algebra.Group.Nat.Defs
import ShaderReflection.Json

/-!
# Reading the data format

A reader for any text of the JSON data format: white space between any two parts, every kind of
escape, and numbers with fractions and exponents. It knows nothing of how this library lays out a
text, so what it makes of one can be compared with what was meant.
-/

namespace ShaderReflection.Json

open ShaderReflection.Text

/-! ## What a text stands for -/

/-- What a text stands for. A number is its mantissa times a power of ten. An object keeps its
members in order, also those with the same key. -/
inductive Datum where
  | null
  | truth (value : Bool)
  | number (mantissa exponent : Int)
  | text (value : List Char)
  | list (items : List Datum)
  | object (members : List (List Char × Datum))
deriving Repr

/-- No object in a value has two members with the same key. -/
inductive Datum.DistinctKeys : Datum → Prop where
  | null : DistinctKeys .null
  | truth (value : Bool) : DistinctKeys (.truth value)
  | number (mantissa exponent : Int) : DistinctKeys (.number mantissa exponent)
  | text (value : List Char) : DistinctKeys (.text value)
  | list {items : List Datum} (inside : ∀ item ∈ items, DistinctKeys item) :
      DistinctKeys (.list items)
  | object {members : List (List Char × Datum)} (distinct : (members.map Prod.fst).Nodup)
      (inside : ∀ member ∈ members, DistinctKeys member.2) : DistinctKeys (.object members)

mutual

/-- What a text of a value should stand for. -/
def toDatum : Json → Datum
  | null => .null
  | number value => .number value 0
  | text value => .text value
  | list items => .list (toData items)
  | object members => .object (toMembers members)

def toData : List Json → List Datum
  | [] => []
  | item :: items => item.toDatum :: toData items

def toMembers : List (List Char × Json) → List (List Char × Datum)
  | [] => []
  | (key, value) :: members => (key, value.toDatum) :: toMembers members

end

theorem toData_eq_map (items : List Json) : toData items = items.map toDatum := by
  induction items with
  | nil => rfl
  | cons item items induction => rw [toData, induction, List.map_cons]

theorem toMembers_eq_map (members : List (List Char × Json)) :
    toMembers members = members.map fun member => (member.1, member.2.toDatum) := by
  induction members with
  | nil => rfl
  | cons member members induction => rw [toMembers, induction, List.map_cons]

/-! ## Characters -/

def isBlank (char : Char) : Bool := char == ' ' || char == '\t' || char == '\n' || char == '\r'

def skip (input : List Char) : List Char := input.dropWhile isBlank

def hexValue? (char : Char) : Option Nat :=
  if '0' ≤ char ∧ char ≤ '9' then some (char.toNat - '0'.toNat)
  else if 'a' ≤ char ∧ char ≤ 'f' then some (char.toNat - 'a'.toNat + 10)
  else if 'A' ≤ char ∧ char ≤ 'F' then some (char.toNat - 'A'.toNat + 10)
  else none

def hexNumber? (sofar : Nat) (digits : List Char) : Option Nat :=
  digits.foldlM (fun sofar char => (hexValue? char).map (sofar * 16 + ·)) sofar

theorem hexValue?_digitChar : ∀ digit < 16, hexValue? (Nat.digitChar digit) = some digit := by
  decide

theorem hexNumber?_hexDigits (width number sofar : Nat) :
    hexNumber? sofar (hexDigits width number) =
      some (sofar * 16 ^ width + number % 16 ^ width) := by
  induction width generalizing number with
  | zero => simp [hexNumber?, hexDigits, Nat.mod_one]
  | succ width induction =>
      have last := hexValue?_digitChar (number % 16) (Nat.mod_lt _ (by omega))
      have split : number % 16 ^ (width + 1) = number % 16 + 16 * (number / 16 % 16 ^ width) := by
        rw [Nat.pow_succ, Nat.mul_comm, Nat.mod_mul]
      have front := induction (number / 16)
      rw [hexNumber?] at front ⊢
      rw [hexDigits, List.foldlM_append, front, split, Nat.pow_succ]
      simp only [List.foldlM_cons, List.foldlM_nil, Option.bind_eq_bind, Option.bind_some, last,
        Option.map_some, Option.pure_def, Option.some.injEq]
      rw [← Nat.mul_assoc]
      omega

/-- What a backslash and a mark stand for. -/
def escaped? (mark : Char) : Option Char :=
  [('"', '"'), ('\\', '\\'), ('/', '/'), ('b', '\x08'), ('f', '\x0c'), ('n', '\n'), ('r', '\r'),
    ('t', '\t')].lookup mark

/-- The code units up to a closing quote, and the text behind it. A control character has to be
escaped. -/
def readUnits : List Char → Option (List Nat × List Char)
  | [] => none
  | '"' :: rest => some ([], rest)
  | '\\' :: 'u' :: first :: second :: third :: fourth :: rest => do
      let unit ← hexNumber? 0 [first, second, third, fourth]
      let (units, later) ← readUnits rest
      return (unit :: units, later)
  | '\\' :: mark :: rest => do
      let char ← escaped? mark
      let (units, later) ← readUnits rest
      return (char.toNat :: units, later)
  | char :: rest => do
      guard (char ≠ '\\' ∧ 0x20 ≤ char.toNat)
      let (units, later) ← readUnits rest
      return (char.toNat :: units, later)

def isHigh (unit : Nat) : Bool := decide (0xd800 ≤ unit) && decide (unit < 0xdc00)

def isLow (unit : Nat) : Bool := decide (0xdc00 ≤ unit) && decide (unit < 0xe000)

/-- The character with a code point; a surrogate is not a character. -/
def scalar? (code : Nat) : Option Char :=
  if code.isValidChar then some (Char.ofNat code) else none

/-- The characters of code units. A high surrogate and the low one behind it are one character. -/
def joinUnits : List Nat → Option (List Char)
  | [] => some []
  | [unit] => (scalar? unit).map ([·])
  | high :: low :: rest =>
      if isHigh high && isLow low then do
        let char ← scalar? (0x10000 + (high - 0xd800) * 0x400 + (low - 0xdc00))
        return char :: (← joinUnits rest)
      else do
        let char ← scalar? high
        return char :: (← joinUnits (low :: rest))

/-- The characters up to a closing quote, and the text behind it. -/
def readQuoted (input : List Char) : Option (List Char × List Char) := do
  let (units, rest) ← readUnits input
  return (← joinUnits units, rest)

/-! ## Numbers -/

def decimalNumber (digits : List Char) : Nat := Nat.ofDigitChars 10 digits 0

/-- One digit or more. -/
def readDigits (input : List Char) : Option (List Char × List Char) :=
  match input.takeWhile Char.isDigit with
  | [] => none
  | digits => some (digits, input.drop digits.length)

/-- The digits in front of the point. A zero stands alone. -/
def readWhole : List Char → Option (List Char × List Char)
  | '0' :: rest => some (['0'], rest)
  | input => readDigits input

def readFraction : List Char → Option (List Char × List Char)
  | '.' :: rest => readDigits rest
  | input => some ([], input)

def readMinus : List Char → Int × List Char
  | '-' :: rest => (-1, rest)
  | input => (1, input)

def readSign : List Char → Int × List Char
  | '+' :: rest => (1, rest)
  | input => readMinus input

def readPower : List Char → Option (Int × List Char)
  | [] => some (0, [])
  | mark :: input =>
      if mark = 'e' ∨ mark = 'E' then do
        let (digits, rest) ← readDigits (readSign input).2
        return ((readSign input).1 * decimalNumber digits, rest)
      else some (0, mark :: input)

def readNumber (input : List Char) : Option (Datum × List Char) := do
  let (whole, rest) ← readWhole (readMinus input).2
  let (fraction, rest) ← readFraction rest
  let (power, rest) ← readPower rest
  let mantissa := (readMinus input).1 * decimalNumber (whole ++ fraction)
  return (.number mantissa (power - fraction.length), rest)

/-! ## Values -/

def readWord (word : List Char) (value : Datum) (input : List Char) : Option (Datum × List Char) :=
  if word.isPrefixOf input then some (value, input.drop word.length) else none

mutual

/-- Read a value at the front of a text. The fuel has to exceed the length of the text. -/
def readValue : (fuel : Nat) → List Char → Option (Datum × List Char)
  | 0, _ => none
  | fuel + 1, input =>
      match skip input with
      | [] => none
      | '"' :: rest => do
          let (value, rest) ← readQuoted rest
          return (.text value, rest)
      | '[' :: rest =>
          match skip rest with
          | ']' :: rest => some (.list [], rest)
          | rest => do
              let (item, rest) ← readValue fuel rest
              let (items, rest) ← readItems fuel rest
              return (.list (item :: items), rest)
      | '\x7b' :: rest =>
          match skip rest with
          | '\x7d' :: rest => some (.object [], rest)
          | rest => do
              let (member, rest) ← readMember fuel rest
              let (members, rest) ← readMembers fuel rest
              return (.object (member :: members), rest)
      | 'n' :: rest => readWord "ull".toList .null rest
      | 't' :: rest => readWord "rue".toList (.truth true) rest
      | 'f' :: rest => readWord "alse".toList (.truth false) rest
      | rest => readNumber rest

/-- Read the items of a list behind its first one, and the closing bracket. -/
def readItems : (fuel : Nat) → List Char → Option (List Datum × List Char)
  | 0, _ => none
  | fuel + 1, input =>
      match skip input with
      | ']' :: rest => some ([], rest)
      | ',' :: rest => do
          let (item, rest) ← readValue fuel rest
          let (items, rest) ← readItems fuel rest
          return (item :: items, rest)
      | _ => none

/-- Read a key, a colon and a value. -/
def readMember : (fuel : Nat) → List Char → Option ((List Char × Datum) × List Char)
  | 0, _ => none
  | fuel + 1, input =>
      match skip input with
      | '"' :: rest => do
          let (key, rest) ← readQuoted rest
          match skip rest with
          | ':' :: rest => do
              let (value, rest) ← readValue fuel rest
              return ((key, value), rest)
          | _ => none
      | _ => none

/-- Read the members of an object behind its first one, and the closing brace. -/
def readMembers : (fuel : Nat) → List Char → Option (List (List Char × Datum) × List Char)
  | 0, _ => none
  | fuel + 1, input =>
      match skip input with
      | '\x7d' :: rest => some ([], rest)
      | ',' :: rest => do
          let (member, rest) ← readMember fuel rest
          let (members, rest) ← readMembers fuel rest
          return (member :: members, rest)
      | _ => none

end

/-- What a whole text stands for; nothing but white space may come behind the value. -/
def decode (input : List Char) : Option Datum :=
  match readValue (input.length + 1) input with
  | some (value, rest) => if (skip rest).isEmpty then some value else none
  | none => none

example : decode "[-1.50E+3, \"\\ud83d\\uDE00\\/\"] ".toList =
    some (.list [.number (-150) 1, .text ['😀', '/']]) := by
  rfl

end ShaderReflection.Json
