import ShaderReflection.Proofs.Wgsl.Texts

/-!
# Lexemes between spaces

A text of a terminal is read in full by the reader of that terminal, if a space or nothing comes
behind it. The text of a body ends at a brace instead.
-/

namespace ShaderReflection.Wgsl.Lexeme

open ShaderReflection.Grammar ShaderReflection.Text Texts Computability

/-- A space or nothing comes next. -/
def Parted (rest : List Char) : Prop := ∀ char ∈ rest.head?, char = ' '

variable {text word rest : List Char}

theorem parted_nil : Parted [] := by
  simp [Parted]

theorem parted_space (rest : List Char) : Parted (' ' :: rest) := by
  simp [Parted]

/-- The next character, if there is one, is not in a class. -/
def Stops (isMember : Char → Bool) (rest : List Char) : Prop :=
  ∀ char ∈ rest.head?, isMember char = false

theorem Parted.stops (parted : Parted rest) {isMember : Char → Bool}
    (noSpace : isMember ' ' = false) : Stops isMember rest := by
  intro char isNext
  rw [parted char isNext]
  exact noSpace

theorem stops_nil (isMember : Char → Bool) : Stops isMember [] := by
  simp [Stops]

theorem stops_cons {isMember : Char → Bool} {char : Char} (noMember : isMember char = false) :
    Stops isMember (char :: rest) := by
  intro next isNext
  cases isNext
  exact noMember

theorem takeWhile_append {isMember : Char → Bool} (all : ∀ char ∈ word, isMember char = true)
    (stops : Stops isMember rest) : (word ++ rest).takeWhile isMember = word := by
  rw [List.takeWhile_append_of_pos all]
  cases rest with
  | nil => simp
  | cons char rest => simp [stops char rfl]

/-- A character of a class is not among characters outside of it. -/
theorem contains_eq_false {isMember : Char → Bool} {char : Char} (isChar : isMember char = true)
    {letters : List Char} (apart : letters.all (!isMember ·) = true) :
    letters.contains char = false := by
  apply Bool.eq_false_iff.mpr
  intro isLetter
  have noChar := List.all_eq_true.mp apart char (List.contains_iff_mem.mp isLetter)
  rw [isChar] at noChar
  cases noChar

/-- A space alone is read as it is. -/
theorem space_single (noSpace : Stops isSpace rest) : space (' ' :: rest) = some [' '] := by
  have run : ([' '] ++ rest).takeWhile isSpace = [' '] :=
    takeWhile_append (by simp [isSpace]) noSpace
  rw [List.singleton_append] at run
  rw [space, run]

/-! ## Words -/

theorem word_complete (isText : word ∈ Terminal.texts .identifier) (parted : Parted rest) :
    Lexeme.word (word ++ rest) = some word := by
  rcases Language.mem_mul.mp isText with ⟨_, ⟨char, isStart, rfl⟩, others, isOthers, rfl⟩
  rw [List.singleton_append, List.cons_append, Lexeme.word, if_pos isStart,
    takeWhile_append (mem_star_one.mp isOthers) (parted.stops rfl)]

/-! ## Numbers -/

theorem oneOf_append {letters suffix : List Char}
    (isSuffix : suffix ∈ maybe (one (letters.contains ·)))
    (stops : Stops (letters.contains ·) rest) : oneOf letters (suffix ++ rest) = suffix := by
  rcases isSuffix with rfl | ⟨char, isLetter, rfl⟩
  · rw [List.nil_append]
    cases rest with
    | nil => rfl
    | cons char rest =>
        have notLetter : letters.contains char = false := stops char rfl
        rw [oneOf, notLetter]
        rfl
  · rw [List.singleton_append, oneOf, if_pos isLetter]

theorem followed_append {read : List Char → List Char} {front next : List Char}
    (reads : read (next ++ rest) = next) :
    followed (front ++ (next ++ rest)) read front = front ++ next := by
  rw [followed, List.drop_left, reads]

theorem decimal_append (isText : word ∈ Texts.decimal) (stops : Stops Char.isDigit rest) :
    decimal (word ++ rest) = word := by
  rcases mem_decimal isText with rfl | ⟨char, others, rfl, isDigit, notZero, areDigits⟩
  · rfl
  · have digits : ∀ other ∈ char :: others, other.isDigit = true :=
      List.forall_mem_cons.mpr ⟨isDigit, areDigits⟩
    rw [List.cons_append, decimal]
    · exact takeWhile_append digits stops
    · intro _ isZero
      cases isZero
      exact notZero rfl

/-- What may come behind digits: a suffix, or the end of the lexeme. -/
theorem stops_suffix {letters suffix : List Char} {isMember : Char → Bool}
    (isSuffix : suffix ∈ maybe (one (letters.contains ·)))
    (apart : letters.all (!isMember ·) = true) (noSpace : isMember ' ' = false)
    (parted : Parted rest) : Stops isMember (suffix ++ rest) := by
  rcases isSuffix with rfl | ⟨char, isLetter, rfl⟩
  · exact parted.stops noSpace
  · have noChar := List.all_eq_true.mp apart char (List.contains_iff_mem.mp isLetter)
    exact stops_cons (Bool.not_eq_true' _ ▸ noChar)

/-- A number without the mark of base sixteen is decimal. -/
theorem intLiteral_of_decimal {number : List Char}
    (noMark : ∀ mark others, text = '0' :: mark :: others → ¬ (mark = 'x' ∨ mark = 'X'))
    (isFull : number ≠ []) (front : decimal text = number) :
    intLiteral text = some (followed text (oneOf ['i', 'u']) number) := by
  simp only [intLiteral]
  split
  · rename_i isHexadecimal
    split at isHexadecimal
    · rename_i mark others
      rw [if_neg (noMark mark others rfl)] at isHexadecimal
      cases isHexadecimal
    · cases isHexadecimal
  · rw [front]
    cases number with
    | nil => exact absurd rfl isFull
    | cons char number => rfl

theorem intLiteral_complete (isText : word ∈ Terminal.texts .intLiteral) (parted : Parted rest) :
    intLiteral (word ++ rest) = some word := by
  rcases Language.mem_mul.mp isText with ⟨number, isNumber, suffix, isSuffix, rfl⟩
  have suffixRead : oneOf ['i', 'u'] (suffix ++ rest) = suffix :=
    oneOf_append isSuffix (parted.stops rfl)
  rw [List.append_assoc]
  rcases isNumber with isHexadecimal | isDecimal
  · rcases Language.mem_mul.mp isHexadecimal with ⟨_, ⟨_, rfl, _, ⟨mark, isMark, rfl⟩, rfl⟩,
      digits, areDigits, rfl⟩
    rcases mem_several_one.mp areDigits with ⟨isFull, each⟩
    have marks : mark = 'x' ∨ mark = 'X' := by simpa using isMark
    have digitsRead : (digits ++ (suffix ++ rest)).takeWhile isHexDigit = digits :=
      takeWhile_append each (stops_suffix isSuffix (by decide) rfl parted)
    have front : followed ('0' :: mark :: digits ++ (suffix ++ rest)) (oneOf ['i', 'u'])
        ('0' :: mark :: digits) = '0' :: mark :: digits ++ suffix :=
      followed_append suffixRead
    simp only [List.cons_append, List.nil_append] at front ⊢
    simp only [intLiteral, marks, if_true, digitsRead]
    cases digits with
    | nil => exact absurd rfl isFull
    | cons digit digits => exact congrArg some front
  · have stops : Stops Char.isDigit (suffix ++ rest) :=
      stops_suffix isSuffix (by decide) rfl parted
    have marks : Stops (['x', 'X'].contains ·) (suffix ++ rest) :=
      stops_suffix isSuffix (by decide) rfl parted
    rw [intLiteral_of_decimal _ _ (decimal_append isDecimal stops), followed_append suffixRead]
    · intro mark others isFront isMark
      rcases mem_decimal isDecimal with rfl | ⟨char, digits, rfl, -, notZero, -⟩
      · have isNext : mark ∈ (suffix ++ rest).head? := by
          rw [List.singleton_append, List.cons.injEq] at isFront
          rw [isFront.2]
          rfl
        have notMark := marks mark isNext
        rcases isMark with rfl | rfl <;> cases notMark
      · rw [List.cons_append, List.cons.injEq] at isFront
        exact notZero isFront.1
    · rintro rfl
      rcases mem_decimal isDecimal with isZero | ⟨char, digits, isCons, -⟩
      · cases isZero
      · cases isCons

theorem exponent_append {power : List Char} (isPower : power ∈ Texts.exponent)
    (stops : Stops Char.isDigit rest) : exponent (power ++ rest) = power := by
  rcases Language.mem_mul.mp isPower with ⟨_, ⟨_, ⟨mark, isMark, rfl⟩, sign, isSign, rfl⟩, digits,
    areDigits, rfl⟩
  rcases mem_several_one.mp areDigits with ⟨isFull, each⟩
  have marks : mark = 'e' ∨ mark = 'E' := by simpa using isMark
  have signRead : oneOf ['+', '-'] (sign ++ (digits ++ rest)) = sign := by
    apply oneOf_append isSign
    cases digits with
    | nil => exact absurd rfl isFull
    | cons digit digits =>
        exact stops_cons (contains_eq_false (each digit List.mem_cons_self) (by decide))
  have digitsRead := takeWhile_append each stops
  simp only [List.cons_append, List.nil_append, List.append_assoc, exponent, marks, if_true,
    signRead, List.drop_left, digitsRead]

theorem exponent_eq_nil (stops : Stops (['e', 'E'].contains ·) rest) : exponent rest = [] := by
  cases rest with
  | nil => rfl
  | cons char rest =>
      have notMark : ['e', 'E'].contains char = false := stops char rfl
      have other : ¬ (char = 'e' ∨ char = 'E') := by simpa using notMark
      simp only [exponent, other, if_false]

/-- A number with a point: digits, the point and digits, not both empty, and then an exponent. -/
theorem fractional_of_point {whole part power : List Char}
    (isWhole : ∀ char ∈ whole, char.isDigit = true) (isPart : ∀ char ∈ part, char.isDigit = true)
    (notBoth : whole ≠ [] ∨ part ≠ []) (stops : Stops Char.isDigit (power ++ rest))
    (powerRead : exponent (power ++ rest) = power) :
    fractional (whole ++ '.' :: (part ++ (power ++ rest))) = whole ++ '.' :: part ++ power := by
  have wholeRead : (whole ++ '.' :: (part ++ (power ++ rest))).takeWhile Char.isDigit = whole :=
    takeWhile_append isWhole (stops_cons rfl)
  have partRead := takeWhile_append isPart stops
  have notEmpty : (whole.isEmpty && part.isEmpty) = false := by
    rcases notBoth with isFull | isFull <;> simp [isFull]
  have front : followed (whole ++ '.' :: part ++ (power ++ rest)) exponent (whole ++ '.' :: part) =
      whole ++ '.' :: part ++ power :=
    followed_append powerRead
  simp only [fractional, wholeRead, List.drop_left, partRead, notEmpty]
  simpa using front

theorem fractional_of_exponent {whole power : List Char}
    (isWhole : ∀ char ∈ whole, char.isDigit = true) (isFull : whole ≠ [])
    (isPower : power ∈ Texts.exponent) (stops : Stops Char.isDigit rest) :
    fractional (whole ++ (power ++ rest)) = whole ++ power := by
  have powerRead := exponent_append isPower stops
  rcases Language.mem_mul.mp isPower with ⟨_, ⟨_, ⟨mark, isMark, rfl⟩, sign, -, rfl⟩, digits, -,
    rfl⟩
  have marks : mark = 'e' ∨ mark = 'E' := by simpa using isMark
  have wholeRead : (whole ++ ([mark] ++ sign ++ digits ++ rest)).takeWhile Char.isDigit = whole :=
    takeWhile_append isWhole (stops_cons (by rcases marks with rfl | rfl <;> rfl))
  simp only [fractional, wholeRead, List.drop_left]
  split
  · rename_i isPoint
    simp only [List.cons_append, List.cons.injEq] at isPoint
    rcases marks with rfl | rfl <;> cases isPoint.1
  · rw [powerRead]
    cases whole with
    | nil => exact absurd rfl isFull
    | cons char whole => rfl

/-- Digits alone are not a number with a point or an exponent. -/
theorem fractional_eq_nil {whole : List Char} (isWhole : ∀ char ∈ whole, char.isDigit = true)
    (stops : Stops Char.isDigit rest) (noPower : Stops (['e', 'E'].contains ·) rest)
    (noPoint : Stops (['.'].contains ·) rest) : fractional (whole ++ rest) = [] := by
  have wholeRead := takeWhile_append isWhole stops
  have powerRead := exponent_eq_nil noPower
  simp only [fractional, wholeRead, List.drop_left]
  split
  · rename_i others
    have notPoint : ['.'].contains '.' = false := noPoint '.' rfl
    cases notPoint
  · rw [powerRead]
    cases whole <;> rfl

theorem fractional_append (isText : word ∈ Texts.fractional) (stops : Stops Char.isDigit rest)
    (noPower : Stops (['e', 'E'].contains ·) rest) : fractional (word ++ rest) = word := by
  rcases isText with isPointed | isPower
  · rcases Language.mem_mul.mp isPointed with ⟨front, isFront, power, isPower, rfl⟩
    have powerRead : exponent (power ++ rest) = power := by
      rcases isPower with rfl | isPower
      · exact exponent_eq_nil noPower
      · exact exponent_append isPower stops
    have powerStops : Stops Char.isDigit (power ++ rest) := by
      rcases isPower with rfl | isPower
      · exact stops
      · rcases Language.mem_mul.mp isPower with ⟨_, ⟨_, ⟨mark, isMark, rfl⟩, _, _, rfl⟩, _, _, rfl⟩
        have marks : mark = 'e' ∨ mark = 'E' := by simpa using isMark
        exact stops_cons (by rcases marks with rfl | rfl <;> rfl)
    rcases isFront with isFull | isShort
    · rcases Language.mem_mul.mp isFull with ⟨_, ⟨whole, isWhole, _, rfl, rfl⟩, part, isPart, rfl⟩
      rcases mem_several_one.mp isWhole with ⟨hasWhole, eachWhole⟩
      have whole := fractional_of_point eachWhole (mem_star_one.mp isPart) (.inl hasWhole)
        powerStops powerRead
      simpa using whole
    · rcases Language.mem_mul.mp isShort with ⟨_, rfl, part, isPart, rfl⟩
      rcases mem_several_one.mp isPart with ⟨hasPart, eachPart⟩
      have noWhole : ∀ char ∈ ([] : List Char), char.isDigit = true := by simp
      have whole := fractional_of_point noWhole eachPart (.inr hasPart) powerStops powerRead
      simpa using whole
  · rcases Language.mem_mul.mp isPower with ⟨whole, isWhole, power, isExponent, rfl⟩
    rcases mem_several_one.mp isWhole with ⟨hasWhole, eachWhole⟩
    rw [List.append_assoc]
    exact fractional_of_exponent eachWhole hasWhole isExponent stops

/-- Digits without a point and without an exponent are a float if a suffix says so. -/
theorem floatLiteral_of_decimal {number : List Char} (isNumber : number ∈ Texts.decimal)
    (stops : Stops Char.isDigit rest) (noPower : Stops (['e', 'E'].contains ·) rest)
    (noPoint : Stops (['.'].contains ·) rest) :
    floatLiteral (number ++ rest) =
      if oneOf ['f', 'h'] rest = [] then none
      else some (number ++ oneOf ['f', 'h'] rest) := by
  have noFraction := fractional_eq_nil (isDigit_of_mem_decimal isNumber) stops noPower noPoint
  rw [floatLiteral, noFraction, decimal_append isNumber stops]
  cases number with
  | nil => exact absurd isNumber nil_notMem_decimal
  | cons char number =>
      simp only [List.drop_left]
      cases oneOf ['f', 'h'] rest <;> rfl

theorem floatLiteral_complete (isText : word ∈ Terminal.texts .floatLiteral)
    (parted : Parted rest) : floatLiteral (word ++ rest) = some word := by
  rcases isText with isFraction | isWhole
  · rcases Language.mem_mul.mp isFraction with ⟨number, isNumber, suffix, isSuffix, rfl⟩
    have numberRead : fractional (number ++ (suffix ++ rest)) = number :=
      fractional_append isNumber (stops_suffix isSuffix (by decide) rfl parted)
        (stops_suffix isSuffix (by decide) rfl parted)
    have suffixRead : oneOf ['f', 'h'] (suffix ++ rest) = suffix :=
      oneOf_append isSuffix (parted.stops rfl)
    have isFull : number ≠ [] := by
      rintro rfl
      exact nil_notMem_fractional isNumber
    rw [List.append_assoc, floatLiteral, numberRead]
    cases number with
    | nil => exact absurd rfl isFull
    | cons char number => exact congrArg some (followed_append suffixRead)
  · rcases Language.mem_mul.mp isWhole with ⟨number, isNumber, suffix, isSuffix, rfl⟩
    have mayBeSuffix : suffix ∈ maybe floatSuffix := .inr isSuffix
    have suffixRead : oneOf ['f', 'h'] (suffix ++ rest) = suffix :=
      oneOf_append mayBeSuffix (parted.stops rfl)
    rw [List.append_assoc, floatLiteral_of_decimal isNumber
      (stops_suffix mayBeSuffix (by decide) rfl parted)
      (stops_suffix mayBeSuffix (by decide) rfl parted)
      (stops_suffix mayBeSuffix (by decide) rfl parted), suffixRead]
    rcases isSuffix with ⟨char, -, rfl⟩
    rfl

theorem floatLiteral_of_int (isText : word ∈ Terminal.texts .intLiteral) (parted : Parted rest) :
    floatLiteral (word ++ rest) = none := by
  rcases Language.mem_mul.mp isText with ⟨number, isNumber, suffix, isSuffix, rfl⟩
  rcases isNumber with isHexadecimal | isDecimal
  · rcases Language.mem_mul.mp isHexadecimal with ⟨_, ⟨_, rfl, _, ⟨mark, isMark, rfl⟩, rfl⟩,
      digits, -, rfl⟩
    have marks : mark = 'x' ∨ mark = 'X' := by simpa using isMark
    have isZero : ['0'] ∈ Texts.decimal := .inl rfl
    simp only [List.append_assoc]
    rw [floatLiteral_of_decimal isZero]
    · rcases marks with rfl | rfl <;> rfl
    · exact stops_cons (by rcases marks with rfl | rfl <;> rfl)
    · exact stops_cons (by rcases marks with rfl | rfl <;> rfl)
    · exact stops_cons (by rcases marks with rfl | rfl <;> rfl)
  · have noSuffix : oneOf ['f', 'h'] (suffix ++ rest) = [] := by
      rcases isSuffix with rfl | ⟨char, isLetter, rfl⟩
      · exact oneOf_append (.inl rfl) (parted.stops rfl)
      · have letters : char = 'i' ∨ char = 'u' := by simpa using isLetter
        rcases letters with rfl | rfl <;> rfl
    rw [List.append_assoc, floatLiteral_of_decimal isDecimal
      (stops_suffix isSuffix (by decide) rfl parted)
      (stops_suffix isSuffix (by decide) rfl parted)
      (stops_suffix isSuffix (by decide) rfl parted), noSuffix, if_pos rfl]

/-! ## Strings -/

theorem stringRest_append {pieces : List (List Char)} (arePieces : ∀ piece ∈ pieces,
    piece ∈ stringPiece) : stringRest (pieces.flatten ++ '"' :: rest) =
      some (pieces.flatten ++ ['"']) := by
  induction pieces with
  | nil => rfl
  | cons piece pieces induction =>
      rcases List.forall_mem_cons.mp arePieces with ⟨isPiece, others⟩
      have later := induction others
      rw [List.flatten_cons, List.append_assoc]
      rcases isPiece with ⟨char, isChar, rfl⟩ | isEscape
      · simp only [Bool.and_eq_true, bne_iff_ne] at isChar
        rw [List.singleton_append, stringRest]
        · rw [if_neg isChar.1.2, later]
          rfl
        all_goals simp [isChar]
      · rcases Language.mem_mul.mp isEscape with ⟨_, rfl, _, ⟨char, isChar, rfl⟩, rfl⟩
        have notLine : char ≠ '\n' := by simpa using isChar
        simp only [List.cons_append, List.nil_append]
        rw [stringRest, later]
        · rfl
        · exact notLine

theorem stringLiteral_complete (isText : word ∈ Terminal.texts .stringLiteral) :
    stringLiteral (word ++ rest) = some word := by
  rcases Language.mem_mul.mp isText with ⟨_, ⟨_, rfl, inner, isInner, rfl⟩, _, rfl, rfl⟩
  rcases Language.mem_kstar.mp isInner with ⟨pieces, rfl, arePieces⟩
  have read : stringRest (pieces.flatten ++ '"' :: rest) = some (pieces.flatten ++ ['"']) :=
    stringRest_append arePieces
  have whole : ['"'] ++ pieces.flatten ++ ['"'] ++ rest =
      '"' :: (pieces.flatten ++ '"' :: rest) := by simp
  change stringLiteral (['"'] ++ pieces.flatten ++ ['"'] ++ rest) = _
  rw [whole, stringLiteral, read]
  rfl

/-! ## Operators -/

theorem binaryOperator_complete (isText : word ∈ Terminal.texts .binaryOperator)
    (parted : Parted rest) : binaryOperator (word ++ rest) = some word := by
  have forms : ∀ word ∈ binaryOperators.map String.toList,
      word ∈ doubleOperators ∧ word.length = 2 ∨
        word ∈ singleOperators.map ([·]) ∧ word ∉ doubleOperators ∧
          word ++ [' '] ∉ doubleOperators := by
    decide
  rcases forms word isText with ⟨isDouble, isPair⟩ | ⟨isOperator, notAlone, notSpaced⟩
  · rcases List.length_eq_two.mp isPair with ⟨first, second, rfl⟩
    have found : doubleOperators.contains [first, second] = true :=
      List.contains_iff_mem.mpr isDouble
    simp only [List.cons_append, List.nil_append, binaryOperator, List.take_succ_cons,
      List.take_zero, found, if_true]
  · rcases List.mem_map.mp isOperator with ⟨char, isSingle, rfl⟩
    have isOne : singleOperators.contains char = true := List.contains_iff_mem.mpr isSingle
    have notTwo : doubleOperators.contains (char :: rest.take 1) = false := by
      apply Bool.eq_false_iff.mpr
      intro isDouble
      have member := List.contains_iff_mem.mp isDouble
      cases rest with
      | nil => exact notAlone member
      | cons next rest =>
          rw [parted next rfl] at member
          exact notSpaced member
    simp only [List.cons_append, List.nil_append, binaryOperator, notTwo, isOne, if_true,
      Bool.false_eq_true, if_false]

theorem unaryOperator_complete (isText : word ∈ Terminal.texts .unaryOperator) :
    unaryOperator (word ++ rest) = some word := by
  have forms : ∀ word ∈ Texts.unaryOperators.map String.toList,
      word ∈ Lexeme.unaryOperators.map ([·]) := by
    decide
  rcases List.mem_map.mp (forms word isText) with ⟨char, isSingle, rfl⟩
  rw [List.singleton_append, unaryOperator, if_pos (List.contains_iff_mem.mpr isSingle)]

/-! ## Bodies -/

/-- A brace or nothing comes next. -/
def Braced (rest : List Char) : Prop := ∀ char ∈ rest.head?, char = '\x7b' ∨ char = '\x7d'

theorem bodyRun_append (noBrace : ∀ char ∈ word, char ≠ '\x7b' ∧ char ≠ '\x7d')
    (noLine : ¬ ['/', '/'] <:+: word) (noBlock : ¬ ['/', '*'] <:+: word) (braced : Braced rest) :
    bodyRun (word ++ rest) = word := by
  induction word with
  | nil =>
      cases rest with
      | nil => rfl
      | cons char rest =>
          rcases braced char rfl with rfl | rfl
          · simp [bodyRun]
          · simp [bodyRun]
  | cons char word induction =>
      rcases List.forall_mem_cons.mp noBrace with ⟨notBrace, others⟩
      have later := induction others (fun found => noLine (List.infix_cons found))
        fun found => noBlock (List.infix_cons found)
      -- The character behind a slash is in the text or is a brace, so it opens no comment.
      have noComment : ∀ mark tail, mark = '/' ∨ mark = '*' → ¬ ['/', mark] <:+: char :: word →
          char = '/' → word ++ rest = mark :: tail → False := by
        rintro mark tail isMark noInfix rfl isNext
        cases word with
        | nil =>
            have isBrace := braced mark (by rw [← List.nil_append rest, isNext]; rfl)
            rcases isMark with rfl | rfl <;> rcases isBrace with isBrace | isBrace <;> cases isBrace
        | cons next word =>
            rw [List.cons_append, List.cons.injEq] at isNext
            exact noInfix ⟨[], word, by rw [isNext.1]; rfl⟩
      rw [List.cons_append, bodyRun]
      · rw [if_neg (not_or.mpr notBrace), later]
      · exact fun tail => noComment '/' tail (.inl rfl) noLine
      · exact fun tail => noComment '*' tail (.inr rfl) noBlock

theorem bodyText_complete (isText : word ∈ Terminal.texts .bodyText) (braced : Braced rest) :
    bodyText (word ++ rest) = some word := by
  rcases isText with ⟨⟨first, isFirst, notBlank⟩, noBrace, noLine, noBlock⟩
  have run := bodyRun_append noBrace noLine noBlock braced
  cases word with
  | nil => cases isFirst
  | cons char word =>
      cases isFirst
      rw [List.cons_append] at run ⊢
      simp only [bodyText, notBlank, run]
      rfl

end ShaderReflection.Wgsl.Lexeme
