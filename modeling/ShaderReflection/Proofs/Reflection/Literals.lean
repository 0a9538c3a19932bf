import Mathlib.Data.Nat.Digits.Defs
import ShaderReflection.Proofs.Attempt
import ShaderReflection.Proofs.Wgsl.Texts
import ShaderReflection.Reflection.Bindings

/-!
# Integer literals

What an integer literal denotes is told from how it is written: its digits by their places, in
base ten or sixteen, whatever suffix follows. The reader of integers takes digits of any script,
signs and underscores as well; but of a literal of the grammar it gives just what the literal
denotes (`integerValue_of_denotes`), and every literal denotes something (`exists_denotes`). The one
exception are decimal literals with more digits than are read (`integerValue_of_exceeds`).
-/

namespace ShaderReflection.Reflection

open ShaderReflection.Text ShaderReflection.Attempt ShaderReflection.Wgsl

/-! ## What a literal denotes -/

/-- The value of a hexadecimal digit. -/
def hexValue (char : Char) : Nat :=
  if char.isDigit then char.toNat - '0'.toNat
  else if char.isUpper then char.toNat - 'A'.toNat + 10
  else char.toNat - 'a'.toNat + 10

/-- The number that digits of a base write, the most significant one first. -/
def numberOf (base : Nat) (digits : List Char) : Nat :=
  Nat.ofDigits base (digits.map hexValue).reverse

/-- What an integer literal denotes. A suffix says nothing about the value. -/
inductive Denotes : (text : List Char) → (value : Nat) → Prop
  | decimal {digits suffix : List Char} (areDigits : digits ∈ Texts.decimal)
      (isSuffix : suffix ∈ Texts.maybe Texts.intSuffix) :
      Denotes (digits ++ suffix) (numberOf 10 digits)
  | hexadecimal {mark : Char} {digits suffix : List Char} (isMark : mark = 'x' ∨ mark = 'X')
      (areDigits : digits ∈ Texts.several (Texts.one Lexeme.isHexDigit))
      (isSuffix : suffix ∈ Texts.maybe Texts.intSuffix) :
      Denotes ('0' :: mark :: digits ++ suffix) (numberOf 16 digits)

/-- Every integer literal of the grammar denotes something. -/
theorem exists_denotes {text : List Char} (isText : text ∈ Terminal.texts .intLiteral) :
    ∃ value, Denotes text value := by
  rcases Language.mem_mul.mp isText with ⟨_, isHexadecimal | isDecimal, suffix, isSuffix, rfl⟩
  · rcases Language.mem_mul.mp isHexadecimal with ⟨_, ⟨_, rfl, _, ⟨mark, isMark, rfl⟩, rfl⟩,
      digits, areDigits, rfl⟩
    exact ⟨_, .hexadecimal (by simpa using isMark) areDigits isSuffix⟩
  · exact ⟨_, .decimal isDecimal isSuffix⟩

/-- A decimal literal with more digits than are read. -/
inductive Exceeds : (text : List Char) → (count : Nat) → Prop
  | intro {digits suffix : List Char} (areDigits : digits ∈ Texts.decimal)
      (isSuffix : suffix ∈ Texts.maybe Texts.intSuffix)
      (isLong : Numeral.digitLimit < digits.length) : Exceeds (digits ++ suffix) digits.length

theorem Exceeds.digitLimit_lt {text : List Char} {count : Nat} (exceeds : Exceeds text count) :
    Numeral.digitLimit < text.length := by
  rcases exceeds with ⟨-, -, isLong⟩
  rw [List.length_append]
  omega

/-! ## Plain digits -/

/-- A digit of a base that cannot be taken for anything else in a numeral or behind it. -/
structure IsPlainDigit (base : Nat) (char : Char) : Prop where
  hasValue : digitValue? base char = some (hexValue char)
  notPadding : Numeral.isPadding char = false
  notMark : char ∉ ['_', '-', '+', 'x', 'X']
  notSuffix : (char == 'i' || char == 'u') = false

instance (base : Nat) (char : Char) : Decidable (IsPlainDigit base char) :=
  decidable_of_iff (digitValue? base char = some (hexValue char) ∧
    Numeral.isPadding char = false ∧ char ∉ ['_', '-', '+', 'x', 'X'] ∧
    (char == 'i' || char == 'u') = false)
    ⟨fun ⟨value, padding, mark, suffix⟩ => ⟨value, padding, mark, suffix⟩,
      fun ⟨value, padding, mark, suffix⟩ => ⟨value, padding, mark, suffix⟩⟩

theorem isAscii_of_isHexDigit {char : Char} (isDigit : Lexeme.isHexDigit char = true) :
    char.toNat < 128 := by
  simp only [Lexeme.isHexDigit, Char.isDigit, ge_iff_le, Bool.or_eq_true, Bool.and_eq_true,
    decide_eq_true_eq, Char.le_def, UInt32.le_iff_toNat_le] at isDigit
  rw [Char.toNat]
  rcases isDigit with (⟨_, below⟩ | ⟨_, below⟩) | ⟨_, below⟩
  · exact lt_of_le_of_lt below (by decide)
  · exact lt_of_le_of_lt below (by decide)
  · exact lt_of_le_of_lt below (by decide)

theorem isHexDigit_of_isDigit {char : Char} (isDigit : char.isDigit = true) :
    Lexeme.isHexDigit char = true := by
  simp [Lexeme.isHexDigit, isDigit]

/-- A fact on hexadecimal digits is found out by trying the characters with small codes. -/
theorem forall_isHexDigit {property : Char → Prop}
    (small : ∀ code < 128, Lexeme.isHexDigit (Char.ofNat code) = true →
      property (Char.ofNat code)) :
    ∀ char, Lexeme.isHexDigit char = true → property char := by
  intro char isDigit
  have found := small char.toNat (isAscii_of_isHexDigit isDigit)
  rw [Char.ofNat_toNat] at found
  exact found isDigit

theorem isPlainDigit_of_isHexDigit {char : Char} (isDigit : Lexeme.isHexDigit char = true) :
    IsPlainDigit 16 char := by
  have all : ∀ char, Lexeme.isHexDigit char = true → IsPlainDigit 16 char :=
    forall_isHexDigit (by decide)
  exact all char isDigit

theorem isPlainDigit_of_isDigit {char : Char} (isDigit : char.isDigit = true) :
    IsPlainDigit 10 char := by
  have all : ∀ char, Lexeme.isHexDigit char = true → char.isDigit = true → IsPlainDigit 10 char :=
    forall_isHexDigit (by decide)
  exact all char (isHexDigit_of_isDigit isDigit) isDigit

/-! ## Reading digits -/

section Digits

variable {base : Nat} {digits : List Char}

/-- Digits by their places and digits one after the other give the same number. -/
theorem numberOf_cons (base : Nat) (char : Char) (digits : List Char) :
    numberOf base (char :: digits) =
      hexValue char * base ^ digits.length + numberOf base digits := by
  rw [numberOf, List.map_cons, List.reverse_cons, Nat.ofDigits_append, Nat.ofDigits_singleton,
    List.length_reverse, List.length_map, ← numberOf]
  ring

/-- What follows in a numeral shifts what has been read of it. -/
theorem value?_eq (plain : ∀ char ∈ digits, IsPlainDigit base char) (sofar : Nat) :
    Numeral.value? base sofar digits =
      some (sofar * base ^ digits.length + numberOf base digits) := by
  induction digits generalizing sofar with
  | nil => simp [Numeral.value?, numberOf]
  | cons char digits induction =>
      rcases List.forall_mem_cons.mp plain with ⟨first, others⟩
      have notUnderscore : char ≠ '_' := by
        rintro rfl
        exact first.notMark (by simp)
      rw [Numeral.value?, first.hasValue]
      · show Numeral.value? base (sofar * base + hexValue char) digits = _
        rw [induction others, numberOf_cons, List.length_cons]
        ring_nf
      · intro next rest isUnderscore
        exact absurd isUnderscore notUnderscore

theorem trim_eq (plain : ∀ char ∈ digits, IsPlainDigit base char) :
    Numeral.trim digits = digits := by
  have keeps : ∀ list : List Char, (∀ char ∈ list, IsPlainDigit base char) →
      list.dropWhile Numeral.isPadding = list := by
    intro list each
    cases list with
    | nil => rfl
    | cons char list => rw [List.dropWhile_cons, (each char List.mem_cons_self).notPadding]; rfl
  rw [Numeral.trim, keeps digits plain, keeps digits.reverse (by simpa using plain),
    List.reverse_reverse]

theorem unmarked_eq (plain : ∀ char ∈ digits, IsPlainDigit base char) :
    Numeral.unmarked digits = digits := by
  rw [Numeral.unmarked.eq_def]
  split
  · rename_i mark rest
    have notMark := (plain mark (by simp)).notMark
    rw [if_neg]
    rintro (rfl | rfl) <;> simp at notMark
  · rfl

theorem natural?_eq (isFull : digits ≠ []) (plain : ∀ char ∈ digits, IsPlainDigit base char) :
    Numeral.natural? base digits = some (numberOf base digits) := by
  cases digits with
  | nil => exact absurd rfl isFull
  | cons char digits =>
      rcases List.forall_mem_cons.mp plain with ⟨first, others⟩
      rw [Numeral.natural?, first.hasValue, Option.bind_some, value?_eq others, numberOf_cons]

theorem natural_eq (isFull : digits ≠ []) (plain : ∀ char ∈ digits, IsPlainDigit base char) :
    Numeral.natural base digits = .ok (numberOf base digits) := by
  rw [Numeral.natural, natural?_eq isFull plain]

/-- All of the text counts as digits. -/
theorem excess?_eq (isFull : digits ≠ []) (plain : ∀ char ∈ digits, IsPlainDigit base char) :
    Numeral.excess? base digits =
      if Numeral.digitLimit < digits.length then some digits.length else none := by
  have areFront : digits.takeWhile (Numeral.isDigitOrUnderscore base) = digits := by
    rw [List.takeWhile_eq_self_iff]
    intro char isChar
    rw [Numeral.isDigitOrUnderscore, (plain char isChar).hasValue]
    rfl
  have counted : digits.countP (· != '_') = digits.length := by
    rw [List.countP_eq_length]
    intro char isChar
    have notMark := (plain char isChar).notMark
    rw [List.mem_cons, not_or] at notMark
    exact bne_iff_ne.mpr notMark.1
  rw [Numeral.excess?, areFront, counted, natural?_eq isFull plain]
  simp only [Option.isSome_some, true_and]

/-- There is no sign in front of the digits. -/
theorem integer_eq (plain : ∀ char ∈ digits, IsPlainDigit base char) :
    Numeral.integer base digits = (Numeral.unsigned base digits).map Int.ofNat := by
  rw [Numeral.integer, trim_eq plain]
  split
  · exact absurd (by simp) (plain '-' List.mem_cons_self).notMark
  · exact absurd (by simp) (plain '+' List.mem_cons_self).notMark
  · rfl

theorem integerIn_sixteen (isFull : digits ≠ []) (plain : ∀ char ∈ digits, IsPlainDigit 16 char) :
    integerIn 16 digits = .ok (numberOf 16 digits : Int) := by
  rw [integerIn, integer_eq plain, Numeral.unsigned, if_pos rfl, unmarked_eq plain,
    natural_eq isFull plain]
  rfl

theorem integerIn_ten (isFull : digits ≠ []) (plain : ∀ char ∈ digits, IsPlainDigit 10 char) :
    integerIn 10 digits =
      if Numeral.digitLimit < digits.length then .error (.unreadableInteger digits.length)
      else .ok (numberOf 10 digits : Int) := by
  rw [integerIn, integer_eq plain, Numeral.unsigned, if_neg (by decide), excess?_eq isFull plain]
  by_cases isLong : Numeral.digitLimit < digits.length
  · rw [if_pos isLong, if_pos isLong]
    rfl
  · rw [if_neg isLong, if_neg isLong, natural_eq isFull plain]
    rfl

end Digits

/-! ## Reading a literal -/

theorem withoutSuffix_append {number suffix : List Char}
    (isSuffix : suffix ∈ Texts.maybe Texts.intSuffix)
    (plain : ∀ char ∈ number, (char == 'i' || char == 'u') = false) :
    withoutSuffix (number ++ suffix) = number := by
  have dropped : ∀ char ∈ suffix.reverse, (char == 'i' || char == 'u') = true := by
    rcases isSuffix with rfl | ⟨char, isLetter, rfl⟩
    · simp
    · simpa using isLetter
  have kept : number.reverse.dropWhile (fun char => char == 'i' || char == 'u') =
      number.reverse := by
    cases reversed : number.reverse with
    | nil => rfl
    | cons char rest =>
        have isChar : char ∈ number := by
          rw [← List.mem_reverse, reversed]
          exact List.mem_cons_self
        rw [List.dropWhile_cons, plain char isChar]
        rfl
  rw [withoutSuffix, List.reverse_append, List.dropWhile_append_of_pos dropped, kept,
    List.reverse_reverse]

/-- A decimal literal is read without its suffix and in base ten. -/
theorem integerValue_of_decimal {digits suffix : List Char} (areDigits : digits ∈ Texts.decimal)
    (isSuffix : suffix ∈ Texts.maybe Texts.intSuffix) :
    integerValue (digits ++ suffix) =
      if Numeral.digitLimit < digits.length then .error (.unreadableInteger digits.length)
      else .ok (numberOf 10 digits : Int) := by
  have isFull : digits ≠ [] := by
    rcases Texts.mem_decimal areDigits with rfl | ⟨char, rest, rfl, -⟩ <;> simp
  have plain : ∀ char ∈ digits, IsPlainDigit 10 char := fun char isChar =>
    isPlainDigit_of_isDigit (Texts.isDigit_of_mem_decimal areDigits char isChar)
  have cut := withoutSuffix_append isSuffix fun char isChar => (plain char isChar).notSuffix
  rw [integerValue, cut]
  split
  · exact absurd (by simp) (plain 'x' (by simp)).notMark
  · exact absurd (by simp) (plain 'X' (by simp)).notMark
  · exact integerIn_ten isFull plain

theorem integerValue_of_exceeds {text : List Char} {count : Nat} (exceeds : Exceeds text count) :
    integerValue text = .error (.unreadableInteger count) := by
  rcases exceeds with ⟨areDigits, isSuffix, isLong⟩
  rw [integerValue_of_decimal areDigits isSuffix, if_pos isLong]

/-- The reader gives the value that a literal denotes, however long it is in base sixteen. -/
theorem integerValue_of_denotes {text : List Char} {value : Nat} (denotes : Denotes text value)
    (short : ∀ count, ¬ Exceeds text count) : integerValue text = .ok (value : Int) := by
  cases denotes with
  | @decimal digits suffix areDigits isSuffix =>
      have isShort : ¬ Numeral.digitLimit < digits.length := fun isLong =>
        short _ (.intro areDigits isSuffix isLong)
      rw [integerValue_of_decimal areDigits isSuffix, if_neg isShort]
  | @hexadecimal mark digits suffix isMark areDigits isSuffix =>
      rcases Texts.mem_several_one.mp areDigits with ⟨isFull, each⟩
      have plain : ∀ char ∈ digits, IsPlainDigit 16 char :=
        fun char isChar => isPlainDigit_of_isHexDigit (each char isChar)
      have cut : withoutSuffix ('0' :: mark :: digits ++ suffix) = '0' :: mark :: digits := by
        apply withoutSuffix_append isSuffix
        intro char isChar
        rcases List.mem_cons.mp isChar with rfl | isChar
        · rfl
        rcases List.mem_cons.mp isChar with rfl | inDigits
        · rcases isMark with rfl | rfl <;> rfl
        · exact (plain char inDigits).notSuffix
      rw [integerValue, cut]
      rcases isMark with rfl | rfl
      · exact integerIn_sixteen isFull plain
      · exact integerIn_sixteen isFull plain

example : integerValue "0xfFu".toList = .ok 255 := by rfl

end ShaderReflection.Reflection
