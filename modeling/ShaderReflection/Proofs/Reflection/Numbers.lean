import ShaderReflection.Proofs.Reflection.Bindings

/-!
# Numbers of attributes

An attribute that has to have a number takes it from the literal that is its first argument. For
a literal of the grammar the reading succeeds with the number that the digits denote by their
places. Neither a suffix nor the case of letters plays a role, and in base sixteen not the length
either. A decimal literal beyond the limit is never read (`readIntegerAttribute_of_literal`).
-/

namespace ShaderReflection.Reflection

open ShaderReflection.Tree ShaderReflection.Text ShaderReflection.Wgsl

/-! ## Literals that write the same digits -/

/-- A literal without its suffix and in small letters. -/
def bareForm (text : List Char) : List Char :=
  (match text.getLast? with
    | some 'i' | some 'u' => text.dropLast
    | _ => text).map Char.toLower

theorem bareForm_append {number suffix : List Char}
    (isSuffix : suffix ∈ Texts.maybe Texts.intSuffix)
    (plain : ∀ char ∈ number, (char == 'i' || char == 'u') = false) :
    bareForm (number ++ suffix) = number.map Char.toLower := by
  rcases isSuffix with rfl | ⟨letter, isLetter, rfl⟩
  · rw [List.append_nil, bareForm]
    split
    · rename_i isLast
      exact absurd (plain 'i' (List.mem_of_getLast? isLast)) (by decide)
    · rename_i isLast
      exact absurd (plain 'u' (List.mem_of_getLast? isLast)) (by decide)
    · rfl
  · have isEither : letter = 'i' ∨ letter = 'u' := by simpa using isLetter
    rw [bareForm, List.getLast?_concat, List.dropLast_concat]
    rcases isEither with rfl | rfl <;> rfl

/-- Letters of either case stand for the same digits. -/
theorem hexValue_toLower :
    ∀ char, Lexeme.isHexDigit char = true → hexValue char.toLower = hexValue char :=
  forall_isHexDigit (by decide)

theorem numberOf_map_toLower {base : Nat} {digits : List Char}
    (areDigits : ∀ char ∈ digits, Lexeme.isHexDigit char = true) :
    numberOf base (digits.map Char.toLower) = numberOf base digits := by
  have values : (digits.map Char.toLower).map hexValue = digits.map hexValue := by
    rw [List.map_map]
    exact List.map_congr_left fun char isChar => hexValue_toLower char (areDigits char isChar)
  rw [numberOf, values, numberOf]

/-- Digits of base ten have no case. -/
theorem map_toLower_of_isDigit {digits : List Char}
    (areDigits : ∀ char ∈ digits, char.isDigit = true) : digits.map Char.toLower = digits := by
  have all : ∀ char, Lexeme.isHexDigit char = true → char.isDigit = true →
      char.toLower = id char :=
    forall_isHexDigit (by decide)
  have each : ∀ char ∈ digits, char.toLower = id char := fun char isChar =>
    all char (isHexDigit_of_isDigit (areDigits char isChar)) (areDigits char isChar)
  rw [List.map_congr_left each, List.map_id]

theorem bareForm_of_decimal {digits suffix : List Char} (areDigits : digits ∈ Texts.decimal)
    (isSuffix : suffix ∈ Texts.maybe Texts.intSuffix) : bareForm (digits ++ suffix) = digits := by
  have isDigit := Texts.isDigit_of_mem_decimal areDigits
  rw [bareForm_append isSuffix fun char isChar =>
    (isPlainDigit_of_isDigit (isDigit char isChar)).notSuffix, map_toLower_of_isDigit isDigit]

theorem bareForm_of_hexadecimal {mark : Char} {digits suffix : List Char}
    (isMark : mark = 'x' ∨ mark = 'X')
    (areDigits : digits ∈ Texts.several (Texts.one Lexeme.isHexDigit))
    (isSuffix : suffix ∈ Texts.maybe Texts.intSuffix) :
    bareForm ('0' :: mark :: digits ++ suffix) = '0' :: 'x' :: digits.map Char.toLower := by
  rcases Texts.mem_several_one.mp areDigits with ⟨-, each⟩
  have plain : ∀ char ∈ '0' :: mark :: digits, (char == 'i' || char == 'u') = false := by
    rw [List.forall_mem_cons, List.forall_mem_cons]
    refine ⟨rfl, ?_, fun char isChar =>
      (isPlainDigit_of_isHexDigit (each char isChar)).notSuffix⟩
    rcases isMark with rfl | rfl <;> rfl
  have isLower : mark.toLower = 'x' := by rcases isMark with rfl | rfl <;> rfl
  rw [bareForm_append isSuffix plain, List.map_cons, List.map_cons, isLower]
  rfl

/-- The number that a bare form writes, in base sixteen behind its mark and else in base ten. -/
def bareNumber : List Char → Nat
  | '0' :: 'x' :: digits => numberOf 16 digits
  | digits => numberOf 10 digits

/-- What a literal denotes can be told from its bare form. -/
theorem Denotes.eq_bareNumber {text : List Char} {value : Nat} (denotes : Denotes text value) :
    value = bareNumber (bareForm text) := by
  cases denotes with
  | @decimal digits suffix areDigits isSuffix =>
      rw [bareForm_of_decimal areDigits isSuffix, bareNumber]
      rintro rest rfl
      exact absurd (Texts.isDigit_of_mem_decimal areDigits 'x' (by simp)) (by decide)
  | @hexadecimal mark digits suffix isMark areDigits isSuffix =>
      rw [bareForm_of_hexadecimal isMark areDigits isSuffix, bareNumber]
      exact (numberOf_map_toLower (Texts.mem_several_one.mp areDigits).2).symm

/-- Whether a literal has too many digits can be told from its bare form. -/
theorem Exceeds.of_bareForm {text other : List Char} {count : Nat} (exceeds : Exceeds text count)
    (isOther : other ∈ Terminal.texts .intLiteral) (same : bareForm other = bareForm text) :
    Exceeds other count := by
  rcases exceeds with @⟨digits, suffix, areDigits, isSuffix, isLong⟩
  rw [bareForm_of_decimal areDigits isSuffix] at same
  rcases Language.mem_mul.mp isOther with
    ⟨_, isHexadecimal | isDecimal, otherSuffix, isOtherSuffix, rfl⟩
  · rcases Language.mem_mul.mp isHexadecimal with ⟨_, ⟨_, rfl, _, ⟨mark, isMark, rfl⟩, rfl⟩,
      hexDigits, areHexDigits, rfl⟩
    have isMark : mark = 'x' ∨ mark = 'X' := by simpa using isMark
    have isBare := bareForm_of_hexadecimal isMark areHexDigits isOtherSuffix
    have isX : 'x' ∈ digits := by
      rw [← same]
      simp only [List.cons_append, List.nil_append] at isBare ⊢
      rw [isBare]
      simp
    exact absurd (Texts.isDigit_of_mem_decimal areDigits 'x' isX) (by decide)
  · rw [bareForm_of_decimal isDecimal isOtherSuffix] at same
    rw [same]
    exact .intro areDigits isOtherSuffix isLong

/-! ## Attributes with a literal -/

/-- The first argument of an attribute is an integer literal with a text. -/
def HasLiteral (source : List Char) (mark : Node) (text : List Char) : Prop :=
  ∃ literal, argument? mark = some literal ∧ literal.kind? = some .intLiteral ∧
    literal.chars source = text

/-- Every integer literal denotes one number, and it is read from an attribute with this literal,
with or without suffix and in letters of either case. Only if the literal is decimal and beyond the
limit, it is not read in any of these forms. -/
theorem readIntegerAttribute_of_literal {text : List Char}
    (isText : text ∈ Terminal.texts .intLiteral) :
    ∃ number, (∀ value, Denotes text value ↔ value = number) ∧
      ∀ other ∈ Terminal.texts .intLiteral, bareForm other = bareForm text →
        ∀ source mark, HasLiteral source mark other → ∀ name,
          ((∀ count, ¬ Exceeds text count) →
            readIntegerAttribute source mark name = .ok (number : Int)) ∧
          ∀ count, Exceeds text count →
            readIntegerAttribute source mark name = .error (.unreadableInteger count) := by
  rcases exists_denotes isText with ⟨number, denotes⟩
  refine ⟨number, ?_, ?_⟩
  · intro value
    constructor
    · intro denotesValue
      rw [denotesValue.eq_bareNumber, denotes.eq_bareNumber]
    · rintro rfl
      exact denotes
  · intro other isOther same source mark hasLiteral name
    rcases exists_denotes isOther with ⟨value, denotesValue⟩
    have isNumber : value = number := by
      rw [denotesValue.eq_bareNumber, denotes.eq_bareNumber, same]
    rcases hasLiteral with ⟨literal, isArgument, isLiteral, rfl⟩
    rw [readIntegerAttribute_eq isArgument isLiteral, ← isNumber]
    constructor
    · intro short
      exact integerValue_of_denotes denotesValue fun count exceeds =>
        short count (exceeds.of_bareForm isText same.symm)
    · intro count exceeds
      exact integerValue_of_exceeds (exceeds.of_bareForm isOther same)

/-- A source with one attribute, and the node of that attribute. -/
def markSource (literal : List Char) : List Char := "@group(".toList ++ (literal ++ [')'])

def markNode (literal : List Char) : Node :=
  let stop := literal.length + 7
  .named (.known .attributeUse) (some ⟨0, stop + 1⟩)
    [.token (.known .atSign) ⟨0, 1⟩,
      .named (.known .identifier) (some ⟨1, 6⟩) [.token (.known .identifier) ⟨1, 6⟩],
      .token (.known .leftParen) ⟨6, 7⟩,
      .named (.known .intLiteral) (some ⟨7, stop⟩) [.token (.known .intLiteral) ⟨7, stop⟩],
      .token (.known .rightParen) ⟨stop, stop + 1⟩]

theorem hasLiteral_markNode (literal : List Char) :
    HasLiteral (markSource literal) (markNode literal) literal := by
  refine ⟨_, rfl, rfl, ?_⟩
  show ((markSource literal).drop 7).take (literal.length + 7 - 7) = literal
  have behind : (markSource literal).drop 7 = literal ++ [')'] := List.drop_left' rfl
  rw [behind, Nat.add_sub_cancel]
  exact List.take_left

/-- The literal that is read has a suffix and letters of both cases. -/
theorem readIntegerAttribute_of_literal_suffixed :
    "0xff".toList ∈ Terminal.texts .intLiteral ∧ "0XfFu".toList ∈ Terminal.texts .intLiteral ∧
      readIntegerAttribute (markSource "0XfFu".toList) (markNode "0XfFu".toList) "group" =
        .ok 255 := by
  have isText : ∀ text ∈ ["0xff".toList, "0XfFu".toList], text ∈ Terminal.texts .intLiteral := by
    have reads : ∀ text ∈ ["0xff".toList, "0XfFu".toList],
        (Lexeme.lexicon.restrict (· == Terminal.intLiteral)).read text =
          some ⟨some .intLiteral, text⟩ := by
      decide
    exact fun text isOne => Lexeme.mem_texts_of_read (reads text isOne)
  have areDigits : ['f', 'f'] ∈ Texts.several (Texts.one Lexeme.isHexDigit) := by
    rw [Texts.mem_several_one, List.forall_mem_cons, List.forall_mem_singleton]
    exact ⟨List.cons_ne_nil _ _, by decide, by decide⟩
  have denotes : Denotes ('0' :: 'x' :: ['f', 'f'] ++ []) (numberOf 16 ['f', 'f']) :=
    .hexadecimal (.inl rfl) areDigits (.inl rfl)
  have short : ∀ count, ¬ Exceeds "0xff".toList count := fun count exceeds =>
    absurd exceeds.digitLimit_lt (by decide)
  rcases readIntegerAttribute_of_literal (isText "0xff".toList (by simp)) with
    ⟨number, isNumber, reads⟩
  cases (isNumber 255).mp denotes
  have isOther := isText "0XfFu".toList (by simp)
  exact ⟨isText _ (by simp), isOther,
    (reads _ isOther (by decide) _ _ (hasLiteral_markNode _) "group").1 short⟩

/-- A decimal literal with one digit more than are read. -/
def longLiteral : List Char := '1' :: List.replicate Numeral.digitLimit '0'

theorem longLiteral_mem_decimal : longLiteral ∈ Texts.decimal := by
  have areDigits : ∀ char ∈ List.replicate Numeral.digitLimit '0', char.isDigit = true := by
    intro char isChar
    rw [List.eq_of_mem_replicate isChar]
    rfl
  exact .inr ⟨['1'], ⟨'1', by decide, rfl⟩, _, Texts.mem_star_one.mpr areDigits, rfl⟩

theorem longLiteral_mem_texts : longLiteral ∈ Terminal.texts .intLiteral :=
  Language.mem_mul.mpr ⟨longLiteral, .inr longLiteral_mem_decimal, [], .inl rfl, List.append_nil _⟩

theorem exceeds_longLiteral : Exceeds longLiteral longLiteral.length := by
  have isLong : Numeral.digitLimit < longLiteral.length := by
    rw [longLiteral, List.length_cons, List.length_replicate]
    exact Nat.lt_succ_self _
  have exceeds := Exceeds.intro longLiteral_mem_decimal (.inl rfl) isLong
  rwa [List.append_nil] at exceeds

/-- This is an integer literal, but no number is read from an attribute with it. -/
theorem readIntegerAttribute_longLiteral :
    longLiteral ∈ Terminal.texts .intLiteral ∧
      HasLiteral (markSource longLiteral) (markNode longLiteral) longLiteral ∧
      ∀ value, readIntegerAttribute (markSource longLiteral) (markNode longLiteral) "group" ≠
        .ok value := by
  have hasLiteral := hasLiteral_markNode longLiteral
  refine ⟨longLiteral_mem_texts, hasLiteral, ?_⟩
  rcases hasLiteral with ⟨literal, isArgument, isLiteral, isChars⟩
  intro value isOk
  rw [readIntegerAttribute_eq isArgument isLiteral, isChars,
    integerValue_of_exceeds exceeds_longLiteral] at isOk
  cases isOk

end ShaderReflection.Reflection
