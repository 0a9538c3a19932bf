import Mathlib
import ShaderReflection.Proofs.Json.Reader

/-!
# Writing and reading the data format

What a reader of the data format makes of the text of a value is that value. The readers of the
parts of a text are met one by one; each is given what it should read with anything behind it that
cannot belong to it.
-/

namespace ShaderReflection.Json

open ShaderReflection.Text

variable {rest : List Char}

/-! ## Escapes -/

theorem readUnits_escapeUnit {unit : Nat} (inRange : unit < 0x10000) (rest : List Char) :
    readUnits (escapeUnit unit ++ rest) =
      (readUnits rest).map fun found => (unit :: found.1, found.2) := by
  have value := hexNumber?_hexDigits 4 unit 0
  have isSmall : unit < 16 ^ 4 := inRange
  rw [Nat.zero_mul, Nat.zero_add, Nat.mod_eq_of_lt isSmall] at value
  have four : ∃ first second third fourth, hexDigits 4 unit = [first, second, third, fourth] :=
    ⟨_, _, _, _, rfl⟩
  rcases four with ⟨first, second, third, fourth, digits⟩
  rw [digits] at value
  rw [escapeUnit, digits]
  simp only [List.cons_append, List.nil_append, readUnits, value, Option.bind_eq_bind,
    Option.bind_some]
  cases readUnits rest <;> rfl

/-- The code units of a character: one, or a pair of surrogates. -/
def codeUnits (char : Char) : List Nat :=
  if char.toNat < 0x10000 then [char.toNat]
  else [0xd800 + (char.toNat - 0x10000) / 0x400, 0xdc00 + (char.toNat - 0x10000) % 0x400]

theorem toNat_lt (char : Char) : char.toNat < 0x110000 := by
  have valid : char.toNat.isValidChar := char.valid
  rcases valid with low | high
  · omega
  · omega

/-- A mark behind a backslash stands for one character. -/
theorem readUnits_mark {mark char : Char} (notUnit : mark ≠ 'u')
    (isEscaped : escaped? mark = some char) (isSmall : char.toNat < 0x10000) (rest : List Char) :
    readUnits ('\\' :: mark :: rest) =
      (readUnits rest).map fun found => (codeUnits char ++ found.1, found.2) := by
  rw [readUnits]
  · rw [isEscaped, codeUnits, if_pos isSmall]
    cases readUnits rest <;> rfl
  · intro first second third fourth later isUnit
    exact absurd isUnit notUnit

theorem readUnits_escape (char : Char) (rest : List Char) :
    readUnits (escape char ++ rest) =
      (readUnits rest).map fun found => (codeUnits char ++ found.1, found.2) := by
  have inRange := toNat_lt char
  rw [escape]
  split
  · rename_i isChar
    rw [isChar]
    exact readUnits_mark (by decide) (by decide) (by decide) rest
  split
  · rename_i isChar
    rw [isChar]
    exact readUnits_mark (by decide) (by decide) (by decide) rest
  split
  · rename_i isChar
    rw [isChar]
    exact readUnits_mark (by decide) (by decide) (by decide) rest
  split
  · rename_i isChar
    rw [isChar]
    exact readUnits_mark (by decide) (by decide) (by decide) rest
  split
  · rename_i isChar
    rw [isChar]
    exact readUnits_mark (by decide) (by decide) (by decide) rest
  split
  · rename_i isChar
    rw [isChar]
    exact readUnits_mark (by decide) (by decide) (by decide) rest
  split
  · rename_i isChar
    rw [isChar]
    exact readUnits_mark (by decide) (by decide) (by decide) rest
  split
  · -- A printable character stands for itself.
    rename_i notQuote notBackslash _ _ _ _ _ printable
    rw [List.singleton_append, readUnits, codeUnits, if_pos (by omega)]
    · simp only [ne_eq, notBackslash, not_false_eq_true, printable.1, and_self, guard, if_true]
      cases readUnits rest <;> rfl
    · exact notQuote
    · intro first second third fourth later isBackslash
      exact absurd isBackslash notBackslash
    · intro mark later isBackslash
      exact absurd isBackslash notBackslash
  split
  · rename_i isSmall
    rw [readUnits_escapeUnit isSmall, codeUnits, if_pos isSmall]
    rfl
  · rename_i isLarge
    rw [List.append_assoc, readUnits_escapeUnit (by omega), readUnits_escapeUnit (by omega),
      codeUnits, if_neg isLarge, Option.map_map]
    rfl

theorem readUnits_flatMap (value rest : List Char) :
    readUnits (value.flatMap escape ++ '"' :: rest) = some (value.flatMap codeUnits, rest) := by
  induction value with
  | nil => simp [readUnits]
  | cons char value induction =>
      rw [List.flatMap_cons, List.append_assoc, readUnits_escape, induction, List.flatMap_cons]
      rfl

/-! ## Surrogates -/

theorem scalar?_toNat (char : Char) : scalar? char.toNat = some char := by
  have valid : char.toNat.isValidChar := char.valid
  rw [scalar?, if_pos valid, Char.ofNat_toNat]

theorem joinUnits_scalar (char : Char) (units : List Nat) :
    joinUnits (char.toNat :: units) = (joinUnits units).map (char :: ·) := by
  have valid : char.toNat.isValidChar := char.valid
  have notHigh : isHigh char.toNat = false := by
    rw [isHigh, Bool.and_eq_false_iff, decide_eq_false_iff_not, decide_eq_false_iff_not]
    rcases valid with low | high
    · omega
    · omega
  cases units with
  | nil => simp [joinUnits, scalar?_toNat]
  | cons low units =>
      rw [joinUnits, notHigh, Bool.false_and, if_neg Bool.false_ne_true, scalar?_toNat]
      cases joinUnits (low :: units) <;> rfl

theorem joinUnits_codeUnits (char : Char) (units : List Nat) :
    joinUnits (codeUnits char ++ units) = (joinUnits units).map (char :: ·) := by
  have inRange := toNat_lt char
  rw [codeUnits]
  split
  · exact joinUnits_scalar char units
  · have code : 0x10000 + (0xd800 + (char.toNat - 0x10000) / 0x400 - 0xd800) * 0x400 +
        (0xdc00 + (char.toNat - 0x10000) % 0x400 - 0xdc00) = char.toNat := by
      omega
    have pair : (isHigh (0xd800 + (char.toNat - 0x10000) / 0x400) &&
        isLow (0xdc00 + (char.toNat - 0x10000) % 0x400)) = true := by
      simp only [isHigh, isLow, Bool.and_eq_true, decide_eq_true_eq]
      omega
    rw [List.cons_append, List.singleton_append, joinUnits, if_pos pair, code, scalar?_toNat]
    cases joinUnits units <;> rfl

theorem joinUnits_flatMap (value : List Char) :
    joinUnits (value.flatMap codeUnits) = some value := by
  induction value with
  | nil => rfl
  | cons char value induction =>
      rw [List.flatMap_cons, joinUnits_codeUnits, induction, Option.map_some]

theorem quote_append (value rest : List Char) :
    quote value ++ rest = '"' :: (value.flatMap escape ++ '"' :: rest) := by
  rw [quote, List.cons_append, List.cons_append, List.append_assoc, List.singleton_append]

theorem readQuoted_flatMap (value rest : List Char) :
    readQuoted (value.flatMap escape ++ '"' :: rest) = some (value, rest) := by
  rw [readQuoted, readUnits_flatMap]
  simp only [Option.bind_eq_bind, Option.bind_some, joinUnits_flatMap, Option.pure_def]

/-! ## Numbers -/

/-- What comes next does not belong to a number. -/
def EndsNumber (rest : List Char) : Prop :=
  ∀ char ∈ rest.head?, char.isDigit = false ∧ char ≠ '.' ∧ char ≠ 'e' ∧ char ≠ 'E'

theorem exists_toDigits_eq_cons (number : Nat) :
    ∃ first others, Nat.toDigits 10 number = first :: others ∧ first.isDigit = true := by
  rcases List.exists_cons_of_ne_nil (Nat.toDigits_ne_nil (n := number) (b := 10)) with
    ⟨first, others, digits⟩
  refine ⟨first, others, digits, ?_⟩
  exact Nat.isDigit_of_mem_toDigits (by omega) (by omega) (digits ▸ List.mem_cons_self)

theorem takeWhile_toDigits (number : Nat) (ends : EndsNumber rest) :
    (Nat.toDigits 10 number ++ rest).takeWhile Char.isDigit = Nat.toDigits 10 number := by
  rw [List.takeWhile_append_of_pos fun char isChar =>
    Nat.isDigit_of_mem_toDigits (by omega) (by omega) isChar]
  cases rest with
  | nil => simp
  | cons char rest => simp [(ends char rfl).1]

/-- Only zero begins with a zero. -/
theorem eq_zero_of_toDigits {number : Nat} {digits : List Char}
    (begins : Nat.toDigits 10 number = '0' :: digits) : number = 0 ∧ digits = [] := by
  induction number using Nat.strongRecOn generalizing digits with
  | ind number induction =>
      rw [Nat.toDigits_eq_if (by omega)] at begins
      split at begins
      · rename_i isSmall
        have only := (List.cons.inj begins).2
        have first := (List.cons.inj begins).1
        have isZero : ∀ digit < 10, Nat.digitChar digit = '0' → digit = 0 := by decide
        exact ⟨isZero number isSmall first, only.symm⟩
      · rename_i isLarge
        rcases exists_toDigits_eq_cons (number / 10) with ⟨first, others, front, -⟩
        rw [front, List.cons_append] at begins
        rcases List.cons.inj begins with ⟨rfl, -⟩
        have isZero := (induction (number / 10) (by omega) front).1
        omega

theorem readWhole_toDigits (number : Nat) (ends : EndsNumber rest) :
    readWhole (Nat.toDigits 10 number ++ rest) = some (Nat.toDigits 10 number, rest) := by
  rw [readWhole.eq_def]
  split
  · rename_i later begins
    rcases exists_toDigits_eq_cons number with ⟨first, others, digits, -⟩
    rw [digits, List.cons_append] at begins
    rcases List.cons.inj begins with ⟨rfl, isLater⟩
    rcases eq_zero_of_toDigits digits with ⟨-, rfl⟩
    rw [digits, ← isLater, List.nil_append]
  · rw [readDigits, takeWhile_toDigits number ends]
    split
    · rename_i isEmpty
      exact absurd isEmpty Nat.toDigits_ne_nil
    · rw [List.drop_left]

theorem readFraction_of_ends (ends : EndsNumber rest) : readFraction rest = some ([], rest) := by
  rw [readFraction.eq_def]
  split
  · exact absurd rfl (ends '.' rfl).2.1
  · rfl

theorem readPower_of_ends (ends : EndsNumber rest) : readPower rest = some (0, rest) := by
  cases rest with
  | nil => rfl
  | cons char rest =>
      have plain := (ends char rfl).2.2
      rw [readPower, if_neg (by simp [plain])]

/-- Digits do not begin with a sign. -/
theorem readMinus_toDigits (number : Nat) (rest : List Char) :
    readMinus (Nat.toDigits 10 number ++ rest) = (1, Nat.toDigits 10 number ++ rest) := by
  rw [readMinus.eq_def]
  split
  · rename_i later begins
    rcases exists_toDigits_eq_cons number with ⟨first, others, digits, isDigit⟩
    rw [digits, List.cons_append] at begins
    rcases List.cons.inj begins with ⟨rfl, -⟩
    cases isDigit
  · rfl

theorem readNumber_digits (value : Int) (ends : EndsNumber rest) :
    readNumber (digits value ++ rest) = some (.number value 0, rest) := by
  have decimal : ∀ number, decimalNumber (Nat.toDigits 10 number ++ []) = number := by
    intro number
    rw [List.append_nil, decimalNumber, Nat.ofDigitChars_toDigits (by omega) (by omega)]
  cases value with
  | ofNat number =>
      rw [digits, readNumber, readMinus_toDigits]
      simp only [readWhole_toDigits number ends, readFraction_of_ends ends, readPower_of_ends ends,
        Option.bind_eq_bind, Option.bind_some, Option.pure_def, decimal]
      simp
  | negSucc number =>
      rw [digits, List.cons_append, readNumber, readMinus]
      simp only [readWhole_toDigits (number + 1) ends, readFraction_of_ends ends,
        readPower_of_ends ends, Option.bind_eq_bind, Option.bind_some, Option.pure_def, decimal]
      simp [Int.negSucc_eq]

/-! ## Beginnings -/

/-- A text begins like a value: not with white space, and not with a closing bracket. -/
def BeginsValue (input : List Char) : Prop :=
  ∃ char rest, input = char :: rest ∧ isBlank char = false ∧ char ≠ ']'

theorem beginsValue_digit {char : Char} (isDigit : char.isDigit = true) (rest : List Char) :
    BeginsValue (char :: rest) := by
  refine ⟨char, rest, rfl, ?_, ?_⟩
  · simp only [isBlank, Bool.or_eq_false_iff, beq_eq_false_iff_ne]
    refine ⟨⟨⟨?_, ?_⟩, ?_⟩, ?_⟩ <;>
    · rintro rfl
      cases isDigit
  · rintro rfl
    cases isDigit

theorem beginsValue_digits (value : Int) : BeginsValue (digits value) := by
  cases value with
  | ofNat number =>
      rcases exists_toDigits_eq_cons number with ⟨first, others, isFirst, isDigit⟩
      rw [digits, isFirst]
      exact beginsValue_digit isDigit others
  | negSucc number => exact ⟨'-', _, rfl, rfl, by decide⟩

theorem beginsValue_render (level : Nat) (value : Json) : BeginsValue (render level value) := by
  cases value with
  | null => exact ⟨'n', "ull".toList, by rw [render]; rfl, rfl, by decide⟩
  | number value =>
      rw [render]
      exact beginsValue_digits value
  | text value => exact ⟨'"', _, by rw [render, quote, List.cons_append], rfl, by decide⟩
  | list items =>
      cases items with
      | nil => exact ⟨'[', _, by rw [render], rfl, by decide⟩
      | cons item items =>
          exact ⟨'[', _, by rw [render, List.cons_append, List.cons_append], rfl, by decide⟩
  | object members =>
      cases members with
      | nil => exact ⟨'\x7b', _, by rw [render], rfl, by decide⟩
      | cons member members =>
          rcases member with ⟨key, value⟩
          refine ⟨'\x7b', newLine (level + 1) ++ quote key ++ [':', ' '] ++
            render (level + 1) value ++ renderMembers level members, ?_, rfl, by decide⟩
          rw [render]
          rfl

theorem skip_append {space : List Char} (isSpace : ∀ char ∈ space, isBlank char = true)
    {char : Char} (notBlank : isBlank char = false) (rest : List Char) :
    skip (space ++ char :: rest) = char :: rest := by
  rw [skip, List.dropWhile_append_of_pos isSpace, List.dropWhile_cons, notBlank]
  rfl

theorem isBlank_newLine (level : Nat) : ∀ char ∈ newLine level, isBlank char = true := by
  intro char isChar
  rcases List.mem_cons.mp isChar with rfl | isSpace
  · rfl
  · rw [List.eq_of_mem_replicate isSpace]
    rfl

/-! ## Values -/

theorem endsNumber_renderItems (level : Nat) (items : List Json) (rest : List Char) :
    EndsNumber (renderItems level items ++ rest) := by
  cases items with
  | nil => simp [EndsNumber, renderItems, newLine]
  | cons item items => simp [EndsNumber, renderItems]

theorem endsNumber_renderMembers (level : Nat) (members : List (List Char × Json))
    (rest : List Char) : EndsNumber (renderMembers level members ++ rest) := by
  cases members with
  | nil => simp [EndsNumber, renderMembers, newLine]
  | cons member members => simp [EndsNumber, renderMembers]

/-- What begins with a digit or a minus is read as a number. -/
theorem readValue_digits {space : List Char} (isSpace : ∀ char ∈ space, isBlank char = true)
    (fuel : Nat) (value : Int) (ends : EndsNumber rest) :
    readValue (fuel + 1) (space ++ (digits value ++ rest)) = some (.number value 0, rest) := by
  have found := readNumber_digits value ends
  rcases beginsValue_digits value with ⟨char, more, begins, notBlank, -⟩
  have isFirst : char.isDigit = true ∨ char = '-' := by
    cases value with
    | ofNat number =>
        rcases exists_toDigits_eq_cons number with ⟨first, others, isFirst, isDigit⟩
        rw [digits, isFirst] at begins
        cases begins
        exact .inl isDigit
    | negSucc number =>
        cases begins
        exact .inr rfl
  have notMark : ∀ mark ∈ ['"', '[', '\x7b', 'n', 't', 'f'], char ≠ mark := by
    intro mark isMark isChar
    subst isChar
    simp only [List.mem_cons, List.not_mem_nil, or_false] at isMark
    rcases isMark with rfl | rfl | rfl | rfl | rfl | rfl <;> exact absurd isFirst (by decide)
  rw [begins, List.cons_append] at found ⊢
  rw [readValue, skip_append isSpace notBlank]
  split
  · rename_i isRest
    cases isRest
  · rename_i isRest
    exact absurd (List.cons.inj isRest).1 (notMark _ (by decide))
  · rename_i isRest
    exact absurd (List.cons.inj isRest).1 (notMark _ (by decide))
  · rename_i isRest
    exact absurd (List.cons.inj isRest).1 (notMark _ (by decide))
  · rename_i isRest
    exact absurd (List.cons.inj isRest).1 (notMark _ (by decide))
  · rename_i isRest
    exact absurd (List.cons.inj isRest).1 (notMark _ (by decide))
  · rename_i isRest
    exact absurd (List.cons.inj isRest).1 (notMark _ (by decide))
  · exact found

/-- The first item of a list is not its closing bracket. -/
theorem readValue_list {space others : List Char}
    (isSpace : ∀ char ∈ space, isBlank char = true)
    (othersSpace : ∀ char ∈ others, isBlank char = true) (fuel : Nat) {input : List Char}
    (begins : BeginsValue input) (rest : List Char) :
    readValue (fuel + 1) (space ++ '[' :: (others ++ (input ++ rest))) =
      (readValue fuel (input ++ rest)).bind fun found =>
        (readItems fuel found.2).map fun more => (.list (found.1 :: more.1), more.2) := by
  rcases begins with ⟨char, more, rfl, notBlank, notClosing⟩
  rw [List.cons_append, readValue, skip_append isSpace (by decide)]
  simp only [skip_append othersSpace notBlank]
  split
  · rename_i isRest
    exact absurd (List.cons.inj isRest).1 notClosing
  · cases readValue fuel (char :: (more ++ rest)) with
    | none => rfl
    | some found =>
        simp only [Option.bind_eq_bind, Option.bind_some]
        cases readItems fuel found.2 <;> rfl

/-- The first key of an object is not its closing brace. -/
theorem readValue_object {space others : List Char}
    (isSpace : ∀ char ∈ space, isBlank char = true)
    (othersSpace : ∀ char ∈ others, isBlank char = true) (fuel : Nat) (key rest : List Char) :
    readValue (fuel + 1) (space ++ '\x7b' :: (others ++ (quote key ++ rest))) =
      (readMember fuel (quote key ++ rest)).bind fun found =>
        (readMembers fuel found.2).map fun more => (.object (found.1 :: more.1), more.2) := by
  rw [quote_append, readValue, skip_append isSpace (by decide)]
  have first := skip_append othersSpace (show isBlank '"' = false by decide)
    (key.flatMap escape ++ '"' :: rest)
  simp only [first]
  split
  · rename_i isRest
    exact absurd (List.cons.inj isRest).1 (by decide)
  · cases readMember fuel ('"' :: (key.flatMap escape ++ '"' :: rest)) with
    | none => rfl
    | some found =>
        simp only [Option.bind_eq_bind, Option.bind_some]
        cases readMembers fuel found.2 <;> rfl

theorem readItems_comma (fuel : Nat) (input : List Char) :
    readItems (fuel + 1) (',' :: input) =
      (readValue fuel input).bind fun found =>
        (readItems fuel found.2).map fun others => (found.1 :: others.1, others.2) := by
  rw [readItems, skip, List.dropWhile_cons_of_neg (by decide)]
  simp only
  cases readValue fuel input with
  | none => rfl
  | some found =>
      simp only [Option.bind_eq_bind, Option.bind_some]
      cases readItems fuel found.2 <;> rfl

theorem readMembers_comma (fuel : Nat) (input : List Char) :
    readMembers (fuel + 1) (',' :: input) =
      (readMember fuel input).bind fun found =>
        (readMembers fuel found.2).map fun others => (found.1 :: others.1, others.2) := by
  rw [readMembers, skip, List.dropWhile_cons_of_neg (by decide)]
  simp only
  cases readMember fuel input with
  | none => rfl
  | some found =>
      simp only [Option.bind_eq_bind, Option.bind_some]
      cases readMembers fuel found.2 <;> rfl

theorem readMember_quote {space : List Char} (isSpace : ∀ char ∈ space, isBlank char = true)
    (fuel : Nat) (key input : List Char) :
    readMember (fuel + 1) (space ++ (quote key ++ ':' :: input)) =
      (readValue fuel input).map fun found => ((key, found.1), found.2) := by
  have isKey := readQuoted_flatMap key (':' :: input)
  rw [quote_append, readMember, skip_append isSpace (by decide)]
  simp only [isKey, Option.bind_eq_bind, Option.bind_some]
  rw [skip, List.dropWhile_cons_of_neg (by decide)]
  simp only
  cases readValue fuel input <;> rfl

mutual

/-- Read the text of a value with white space in front of it. -/
theorem readValue_render (value : Json) (level fuel : Nat) {space rest : List Char}
    (isSpace : ∀ char ∈ space, isBlank char = true) (ends : EndsNumber rest)
    (enough : (space ++ (render level value ++ rest)).length < fuel) :
    readValue fuel (space ++ (render level value ++ rest)) = some (value.toDatum, rest) := by
  rcases Nat.exists_eq_add_one_of_ne_zero (show fuel ≠ 0 by omega) with ⟨fuel, rfl⟩
  match value with
  | .null =>
      have isText : render level null ++ rest = 'n' :: ("ull".toList ++ rest) := by
        rw [render]
        rfl
      rw [isText, readValue, skip_append isSpace (by decide)]
      simp only [readWord, List.isPrefixOf_iff_prefix, List.prefix_append, if_true, List.drop_left,
        toDatum]
  | .number value =>
      rw [render, toDatum]
      exact readValue_digits isSpace fuel value ends
  | .text value =>
      rw [render, quote_append, readValue, skip_append isSpace (by decide)]
      simp only [readQuoted_flatMap, Option.bind_eq_bind, Option.bind_some, toDatum,
        Option.pure_def]
  | .list [] =>
      rw [render, toDatum, toData, readValue, List.cons_append, skip_append isSpace (by decide)]
      rfl
  | .list (item :: items) =>
      simp only [render, List.cons_append, List.append_assoc, List.length_append,
        List.length_cons] at enough ⊢
      have first := readValue_render item (level + 1) fuel (List.forall_mem_nil _)
        (endsNumber_renderItems level items rest) (by simp; omega)
      have others := readItems_render items level fuel rest (by simp; omega)
      rw [List.nil_append] at first
      rw [readValue_list isSpace (isBlank_newLine (level + 1)) fuel
        (beginsValue_render (level + 1) item), first, Option.bind_some, others, toDatum, toData]
      rfl
  | .object [] =>
      rw [render, toDatum, toMembers, readValue, List.cons_append, skip_append isSpace (by decide)]
      rfl
  | .object ((key, value) :: members) =>
      simp only [render, List.cons_append, List.append_assoc, List.nil_append, List.length_append,
        List.length_cons] at enough ⊢
      have first := readMember_render key value (level + 1) fuel (List.forall_mem_nil _)
        (endsNumber_renderMembers level members rest) (by simp; omega)
      have others := readMembers_render members level fuel rest (by simp; omega)
      rw [List.nil_append] at first
      rw [readValue_object isSpace (isBlank_newLine (level + 1)), first, Option.bind_some, others,
        toDatum, toMembers]
      rfl
termination_by fuel

theorem readItems_render (items : List Json) (level fuel : Nat) (rest : List Char)
    (enough : (renderItems level items ++ rest).length < fuel) :
    readItems fuel (renderItems level items ++ rest) = some (toData items, rest) := by
  rcases Nat.exists_eq_add_one_of_ne_zero (show fuel ≠ 0 by omega) with ⟨fuel, rfl⟩
  match items with
  | [] =>
      rw [renderItems, toData, readItems, List.append_assoc, List.singleton_append,
        skip_append (isBlank_newLine level) (by decide)]
      rfl
  | item :: items =>
      simp only [renderItems, List.cons_append, List.append_assoc, List.length_append,
        List.length_cons] at enough ⊢
      have first := readValue_render item (level + 1) fuel (isBlank_newLine (level + 1))
        (endsNumber_renderItems level items rest) (by simp; omega)
      have others := readItems_render items level fuel rest (by simp; omega)
      rw [readItems_comma, first, Option.bind_some, others, toData]
      rfl
termination_by fuel

theorem readMember_render (key : List Char) (value : Json) (level fuel : Nat)
    {space rest : List Char} (isSpace : ∀ char ∈ space, isBlank char = true)
    (ends : EndsNumber rest)
    (enough : (space ++ (quote key ++ ':' :: ' ' :: (render level value ++ rest))).length < fuel) :
    readMember fuel (space ++ (quote key ++ ':' :: ' ' :: (render level value ++ rest))) =
      some ((key, value.toDatum), rest) := by
  rcases Nat.exists_eq_add_one_of_ne_zero (show fuel ≠ 0 by omega) with ⟨fuel, rfl⟩
  simp only [List.length_append, List.length_cons] at enough
  have blank : ∀ char ∈ [' '], isBlank char = true := by simp [isBlank]
  have found := readValue_render value level fuel blank ends (by simp; omega)
  rw [List.singleton_append] at found
  rw [readMember_quote isSpace, found, Option.map_some]
termination_by fuel

theorem readMembers_render (members : List (List Char × Json)) (level fuel : Nat)
    (rest : List Char) (enough : (renderMembers level members ++ rest).length < fuel) :
    readMembers fuel (renderMembers level members ++ rest) = some (toMembers members, rest) := by
  rcases Nat.exists_eq_add_one_of_ne_zero (show fuel ≠ 0 by omega) with ⟨fuel, rfl⟩
  match members with
  | [] =>
      rw [renderMembers, toMembers, readMembers, List.append_assoc, List.singleton_append,
        skip_append (isBlank_newLine level) (by decide)]
      rfl
  | (key, value) :: members =>
      simp only [renderMembers, List.cons_append, List.append_assoc, List.nil_append,
        List.length_append, List.length_cons] at enough ⊢
      have first := readMember_render key value (level + 1) fuel (isBlank_newLine (level + 1))
        (endsNumber_renderMembers level members rest) (by simp; omega)
      have others := readMembers_render members level fuel rest (by simp; omega)
      rw [readMembers_comma, first, Option.bind_some, others, toMembers]
      rfl
termination_by fuel

end

/-- The text of a value stands for it, with a line end behind it as well. -/
theorem decode_render (value : Json) : decode (render 0 value ++ ['\n']) = some value.toDatum := by
  have ends : EndsNumber ['\n'] := by simp [EndsNumber]
  have found := readValue_render value 0 _ (List.forall_mem_nil _) ends (Nat.lt_succ_self _)
  rw [List.nil_append] at found
  rw [decode, found]
  rfl

end ShaderReflection.Json
