import ShaderReflection.Proofs.Wgsl.Context

/-!
# Cutting a text

A reader looks ahead, but what it takes from a text depends only on what it takes: a front of the
text that holds the lexeme is read alike (`read_cut`). The text of a body is the exception, because
a slash in it must not open a comment; so a text is not cut between the marks of a comment.
-/

namespace ShaderReflection.Wgsl.Lexeme

open ShaderReflection.Grammar ShaderReflection.Text Lexicon

variable {front back : List Char}

/-! ## Pieces of lexemes -/

/-- What is taken from a text is taken from each of its fronts that holds it. -/
def Cuts (read : List Char → List Char) : Prop :=
  ∀ front back, (read (front ++ back)).length ≤ front.length → read front = read (front ++ back)

theorem cuts_takeWhile (isMember : Char → Bool) : Cuts (List.takeWhile isMember) := by
  intro front back inside
  rw [List.takeWhile_append] at inside ⊢
  split
  · rename_i isWhole
    rw [if_pos isWhole, List.length_append] at inside
    have nothing : back.takeWhile isMember = [] := List.length_eq_zero_iff.mp (by omega)
    rw [nothing, List.append_nil]
    exact (List.takeWhile_prefix isMember).eq_of_length isWhole
  · rfl

/-- What is taken beyond the front covers the front. -/
theorem takeWhile_eq_self {isMember : Char → Bool}
    (beyond : front.length < ((front ++ back).takeWhile isMember).length) :
    front.takeWhile isMember = front := by
  rw [List.takeWhile_append] at beyond
  split at beyond
  · rename_i isWhole
    exact (List.takeWhile_prefix isMember).eq_of_length isWhole
  · have short := (List.takeWhile_prefix (l := front) isMember).length_le
    omega

theorem cuts_oneOf (letters : List Char) : Cuts (oneOf letters) := by
  intro front back inside
  cases front with
  | nil => exact (List.length_eq_zero_iff.mp (Nat.le_zero.mp inside)).symm
  | cons char front => rfl

theorem decimal_of_ne_zero {char : Char} (notZero : char ≠ '0') (rest : List Char) :
    decimal (char :: rest) = (char :: rest).takeWhile Char.isDigit := by
  rw [decimal]
  intro _ equal
  exact notZero (List.cons.inj equal).1

theorem cuts_decimal : Cuts decimal := by
  intro front back inside
  cases front with
  | nil => exact (List.length_eq_zero_iff.mp (Nat.le_zero.mp inside)).symm
  | cons char front =>
      by_cases isZero : char = '0'
      · subst isZero
        rfl
      · rw [List.cons_append, decimal_of_ne_zero isZero] at inside
        rw [List.cons_append, decimal_of_ne_zero isZero, decimal_of_ne_zero isZero]
        exact cuts_takeWhile _ (char :: front) back inside

/-- Digits that go beyond the front cover the front. -/
theorem decimal_eq_self (beyond : front.length < (decimal (front ++ back)).length) :
    decimal front = front := by
  cases front with
  | nil => rfl
  | cons char front =>
      by_cases isZero : char = '0'
      · subst isZero
        simp [decimal] at beyond
      · rw [List.cons_append, decimal_of_ne_zero isZero] at beyond
        rw [decimal_of_ne_zero isZero]
        exact takeWhile_eq_self beyond

/-- Cutting behind a piece that has been taken. -/
theorem Cuts.drop {read : List Char → List Char} (cuts : Cuts read) {count : Nat}
    (inFront : count ≤ front.length)
    (inside : count + (read ((front ++ back).drop count)).length ≤ front.length) :
    read (front.drop count) = read ((front ++ back).drop count) := by
  rw [List.drop_append_of_le_length inFront] at inside ⊢
  apply cuts
  rw [List.length_drop]
  omega

theorem exponent_cons (mark : Char) (rest : List Char) :
    exponent (mark :: rest) =
      if mark = 'e' ∨ mark = 'E' then
        match (rest.drop (oneOf ['+', '-'] rest).length).takeWhile Char.isDigit with
        | [] => []
        | digits => mark :: oneOf ['+', '-'] rest ++ digits
      else [] :=
  rfl

theorem cuts_exponent : Cuts exponent := by
  intro front back inside
  cases front with
  | nil => exact (List.length_eq_zero_iff.mp (Nat.le_zero.mp inside)).symm
  | cons mark rest =>
      rw [List.cons_append, exponent_cons] at inside
      rw [List.cons_append, exponent_cons, exponent_cons]
      by_cases isMark : mark = 'e' ∨ mark = 'E'
      · rw [if_pos isMark] at inside
        rw [if_pos isMark, if_pos isMark]
        cases rest with
        | nil =>
            -- A mark alone has no digits, and a sign or a digit would go beyond the front.
            split at inside
            · rfl
            · rename_i digits isFull
              simp only [List.length_append, List.length_cons, List.length_nil] at inside
              have positive := List.length_pos_iff.mpr isFull
              omega
        | cons next rest =>
            have sameSign : oneOf ['+', '-'] (next :: rest ++ back) =
                oneOf ['+', '-'] (next :: rest) := rfl
            have signInside : (oneOf ['+', '-'] (next :: rest)).length ≤ (next :: rest).length :=
              (oneOf_isPrefix _ _).length_le
            rw [sameSign] at inside ⊢
            rw [(cuts_takeWhile Char.isDigit).drop signInside]
            split at inside
            · rename_i isEmpty
              rw [isEmpty]
              exact signInside
            · simp only [List.length_append, List.length_cons] at inside ⊢
              omega
      · rw [if_neg isMark, if_neg isMark]

/-- A number with a point or an exponent is longer than its first digits. -/
theorem fractional_longer (text : List Char) : fractional text = [] ∨
    (text.takeWhile Char.isDigit).length < (fractional text).length := by
  rw [fractional]
  split
  · dsimp only
    split
    · exact .inl rfl
    · refine .inr ?_
      simp only [followed, List.length_append, List.length_cons]
      omega
  · split
    · exact .inl rfl
    · exact .inl rfl
    · rename_i isFull
      have positive := List.length_pos_iff.mpr isFull
      refine .inr ?_
      rw [List.length_append]
      omega

/-- Digits alone have neither a point nor an exponent. -/
theorem fractional_digits {text : List Char} (isDigits : text.takeWhile Char.isDigit = text) :
    fractional text = [] := by
  rcases fractional_longer text with isEmpty | longer
  · exact isEmpty
  · have short := (fractional_isPrefix text).length_le
    rw [isDigits] at longer
    omega

theorem fractional_point {whole rest text : List Char}
    (isWhole : text.takeWhile Char.isDigit = whole)
    (isRest : text.drop whole.length = '.' :: rest) :
    fractional text =
      if whole.isEmpty && (rest.takeWhile Char.isDigit).isEmpty then []
      else followed text exponent (whole ++ '.' :: rest.takeWhile Char.isDigit) := by
  simp only [fractional, isWhole, isRest]

theorem fractional_other {whole text : List Char}
    (isWhole : text.takeWhile Char.isDigit = whole)
    (noPoint : ∀ rest, text.drop whole.length ≠ '.' :: rest) :
    fractional text =
      if whole = [] ∨ exponent (text.drop whole.length) = [] then []
      else whole ++ exponent (text.drop whole.length) := by
  simp only [fractional, isWhole]
  split
  · rw [if_pos (.inl rfl)]
  · rename_i noPower
    rw [if_pos (.inr noPower)]
  · rename_i isFull hasPower
    rw [if_neg (not_or.mpr ⟨isFull, hasPower⟩)]

/-- Behind the point the cut goes through the digits or the exponent. -/
theorem fractional_cut_point {whole rest : List Char}
    (sameWhole : front.takeWhile Char.isDigit = whole)
    (isWhole : (front ++ back).takeWhile Char.isDigit = whole)
    (isRest : front.drop whole.length = '.' :: rest)
    (sameRest : (front ++ back).drop whole.length = '.' :: (rest ++ back))
    (count : front.length = whole.length + (rest.length + 1))
    (inside : (fractional (front ++ back)).length ≤ front.length) :
    fractional front = fractional (front ++ back) := by
  rw [fractional_point isWhole sameRest] at inside ⊢
  rw [fractional_point sameWhole isRest]
  have partInside : ((rest ++ back).takeWhile Char.isDigit).length ≤ rest.length := by
    split at inside
    · rename_i isEmpty
      rw [Bool.and_eq_true, List.isEmpty_iff, List.isEmpty_iff] at isEmpty
      rw [isEmpty.2]
      exact Nat.zero_le _
    · simp only [followed, List.length_append, List.length_cons] at inside
      omega
  rw [cuts_takeWhile Char.isDigit rest back partInside]
  split
  · rfl
  · rename_i notBoth
    rw [if_neg notBoth] at inside
    rw [followed, followed, cuts_exponent.drop]
    · simp only [List.length_append, List.length_cons]
      omega
    · simpa only [followed, List.length_append] using inside

/-- Without a point the cut goes through the exponent. -/
theorem fractional_cut_other {whole rest : List Char} {char : Char} (notPoint : char ≠ '.')
    (sameWhole : front.takeWhile Char.isDigit = whole)
    (isWhole : (front ++ back).takeWhile Char.isDigit = whole)
    (isRest : front.drop whole.length = char :: rest)
    (sameRest : (front ++ back).drop whole.length = char :: (rest ++ back))
    (count : front.length = whole.length + (rest.length + 1))
    (inside : (fractional (front ++ back)).length ≤ front.length) :
    fractional front = fractional (front ++ back) := by
  have noPoint : ∀ others tail, char :: others ≠ '.' :: tail := by
    intro others tail equal
    exact notPoint (List.cons.inj equal).1
  rw [fractional_other isWhole (sameRest ▸ noPoint _), sameRest] at inside ⊢
  rw [fractional_other sameWhole (isRest ▸ noPoint _), isRest]
  by_cases noWhole : whole = []
  · rw [if_pos (.inl noWhole), if_pos (.inl noWhole)]
  · have samePower : exponent (char :: rest) = exponent (char :: rest ++ back) := by
      apply cuts_exponent
      split at inside
      · rename_i isEmpty
        rw [List.cons_append, isEmpty.resolve_left noWhole]
        exact Nat.zero_le _
      · rw [List.length_append] at inside
        rw [List.cons_append, List.length_cons]
        omega
    rw [samePower, List.cons_append]

theorem cuts_fractional : Cuts fractional := by
  intro front back inside
  by_cases isDigits : front.takeWhile Char.isDigit = front
  · -- The digits go on to the end of the front or further, so no number can end inside.
    have covers : front.length ≤ ((front ++ back).takeWhile Char.isDigit).length := by
      rw [List.takeWhile_append, if_pos (congrArg List.length isDigits), List.length_append]
      omega
    rw [fractional_digits isDigits]
    rcases fractional_longer (front ++ back) with isEmpty | longer
    · exact isEmpty.symm
    · omega
  have wholeInside : ((front ++ back).takeWhile Char.isDigit).length ≤ front.length := by
    apply Nat.le_of_not_lt
    intro beyond
    exact isDigits (takeWhile_eq_self beyond)
  have sameWhole := cuts_takeWhile Char.isDigit front back wholeInside
  generalize isWhole : (front ++ back).takeWhile Char.isDigit = whole at wholeInside sameWhole
  have sameRest : (front ++ back).drop whole.length = front.drop whole.length ++ back :=
    List.drop_append_of_le_length wholeInside
  cases isRest : front.drop whole.length with
  | nil =>
      have short : front.length ≤ whole.length := List.drop_eq_nil_iff.mp isRest
      have inFront := List.takeWhile_prefix (l := front) Char.isDigit
      rw [sameWhole] at inFront
      exact absurd (sameWhole.trans (inFront.eq_of_length (by omega))) isDigits
  | cons char rest =>
      rw [isRest, List.cons_append] at sameRest
      have count : front.length = whole.length + (rest.length + 1) := by
        have dropped := congrArg List.length isRest
        rw [List.length_drop, List.length_cons] at dropped
        omega
      by_cases isPoint : char = '.'
      · subst isPoint
        exact fractional_cut_point sameWhole isWhole isRest sameRest count inside
      · exact fractional_cut_other isPoint sameWhole isWhole isRest sameRest count inside

/-! ## Lexemes -/

/-- A lexeme inside of the front of a text is the lexeme of the front, and a front has no lexeme if
the text has none. -/
def CutsAt (front back : List Char) (read : List Char → Option (List Char)) : Prop :=
  (∀ word ∈ read (front ++ back), word.length ≤ front.length) → read front = read (front ++ back)

/-- Where no lexeme ends inside of the front, there is none if the front alone has none. -/
theorem cutsAt_of_none {read : List Char → Option (List Char)} (noFront : read front = none)
    (beyond : ∀ word, read (front ++ back) = some word → front.length < word.length) :
    CutsAt front back read := by
  intro inside
  cases reads : read (front ++ back) with
  | none => exact noFront
  | some word =>
      have short := inside word reads
      have long := beyond word reads
      omega

theorem cutsAt_word (char : Char) : CutsAt (char :: front) back Lexeme.word := by
  intro inside
  rw [List.cons_append, Lexeme.word] at inside
  rw [List.cons_append, Lexeme.word, Lexeme.word]
  split
  · rename_i isStart
    rw [if_pos isStart] at inside
    have short := inside _ rfl
    rw [List.length_cons, List.length_cons] at short
    rw [cuts_takeWhile isWordPart front back (by omega)]
  · rfl

/-- The front of an integer in hexadecimal notation. -/
def hexadecimal? (text : List Char) : Option (List Char) :=
  match text with
  | '0' :: mark :: rest =>
      if mark = 'x' ∨ mark = 'X' then
        match rest.takeWhile isHexDigit with
        | [] => none
        | digits => some ('0' :: mark :: digits)
      else none
  | _ => none

theorem intLiteral_eq (text : List Char) :
    intLiteral text =
      match hexadecimal? text with
      | some front => some (followed text (oneOf ['i', 'u']) front)
      | none =>
          match decimal text with
          | [] => none
          | front => some (followed text (oneOf ['i', 'u']) front) :=
  rfl

theorem length_hexadecimal? {text word : List Char} (reads : hexadecimal? text = some word) :
    2 < word.length := by
  rw [hexadecimal?.eq_def] at reads
  split at reads
  · split at reads
    · split at reads
      · cases reads
      · rename_i isFull
        cases reads
        have positive := List.length_pos_iff.mpr isFull
        simp only [List.length_cons]
        omega
    · cases reads
  · cases reads

theorem cutsAt_hexadecimal? : CutsAt front back hexadecimal? := by
  cases front with
  | nil =>
      apply cutsAt_of_none rfl
      intro word reads
      have long := length_hexadecimal? reads
      rw [List.length_nil]
      omega
  | cons first front =>
      cases front with
      | nil =>
          apply cutsAt_of_none
          · simp [hexadecimal?]
          · intro word reads
            have long := length_hexadecimal? reads
            rw [List.length_singleton]
            omega
      | cons mark front =>
          intro inside
          by_cases isZero : first = '0'
          · subst isZero
            simp only [List.cons_append, hexadecimal?] at inside ⊢
            split
            · rename_i isMark
              rw [if_pos isMark] at inside
              have sameDigits :
                  front.takeWhile isHexDigit = (front ++ back).takeWhile isHexDigit := by
                apply cuts_takeWhile
                split at inside
                · rename_i noDigits
                  rw [noDigits]
                  exact Nat.zero_le _
                · have short := inside _ rfl
                  simp only [List.length_cons] at short
                  omega
              rw [sameDigits]
            · rfl
          · have noNumber : ∀ rest, hexadecimal? (first :: mark :: rest) = none := by
              intro rest
              rw [hexadecimal?]
              intro _ _ equal
              exact isZero (List.cons.inj equal).1
            rw [List.cons_append, List.cons_append, noNumber, noNumber]

/-- A suffix is read behind what has been read. -/
theorem followed_cut {letters word : List Char} (inFront : word.length ≤ front.length)
    (inside : (followed (front ++ back) (oneOf letters) word).length ≤ front.length) :
    followed front (oneOf letters) word = followed (front ++ back) (oneOf letters) word := by
  rw [followed, List.length_append] at inside
  rw [followed, followed, (cuts_oneOf letters).drop inFront inside]

theorem length_le_followed (text word : List Char) (read : List Char → List Char) :
    word.length ≤ (followed text read word).length := by
  rw [followed, List.length_append]
  exact Nat.le_add_right _ _

theorem cutsAt_intLiteral : CutsAt front back intLiteral := by
  intro inside
  rw [intLiteral_eq] at inside
  rw [intLiteral_eq, intLiteral_eq]
  have sameHexadecimal : hexadecimal? front = hexadecimal? (front ++ back) := by
    apply cutsAt_hexadecimal?
    intro word isWord
    rw [isWord] at inside
    exact (length_le_followed _ _ _).trans (inside _ rfl)
  rw [sameHexadecimal]
  generalize hexadecimal? (front ++ back) = found at inside ⊢
  cases found with
  | some word =>
      have short := inside _ rfl
      exact congrArg some (followed_cut ((length_le_followed _ _ _).trans short) short)
  | none =>
      dsimp only at inside ⊢
      have sameDecimal : decimal front = decimal (front ++ back) := by
        apply cuts_decimal
        split at inside
        · rename_i isEmpty
          rw [isEmpty]
          exact Nat.zero_le _
        · exact (length_le_followed _ _ _).trans (inside _ rfl)
      rw [sameDecimal]
      generalize decimal (front ++ back) = found at inside ⊢
      cases found with
      | nil => rfl
      | cons digit digits =>
          have short := inside _ rfl
          exact congrArg some (followed_cut ((length_le_followed _ _ _).trans short) short)

/-- A decimal integer with a suffix that marks it as a float. -/
def suffixed? (text : List Char) : Option (List Char) :=
  match decimal text with
  | [] => none
  | front =>
      match oneOf ['f', 'h'] (text.drop front.length) with
      | [] => none
      | suffix => some (front ++ suffix)

theorem suffixed?_eq_some {text word : List Char} (reads : suffixed? text = some word) :
    word = followed text (oneOf ['f', 'h']) (decimal text) := by
  rw [suffixed?] at reads
  split at reads
  · cases reads
  · split at reads
    · cases reads
    · cases reads
      rfl

theorem cutsAt_suffixed? : CutsAt front back suffixed? := by
  by_cases short : (decimal (front ++ back)).length ≤ front.length
  · intro inside
    rw [suffixed?] at inside
    rw [suffixed?, suffixed?, cuts_decimal front back short]
    generalize decimal (front ++ back) = number at short inside ⊢
    cases number with
    | nil => rfl
    | cons digit digits =>
        dsimp only at inside ⊢
        rw [(cuts_oneOf ['f', 'h']).drop short]
        split at inside
        · rename_i isEmpty
          rw [isEmpty]
          exact short
        · simpa only [List.length_append] using inside _ rfl
  · -- The digits go beyond the front, so nothing of it is left for a suffix.
    apply cutsAt_of_none
    · rw [suffixed?, decimal_eq_self (Nat.lt_of_not_le short)]
      cases front with
      | nil => rfl
      | cons char front =>
          dsimp only
          rw [List.drop_length]
          rfl
    · intro word reads
      have long := length_le_followed (front ++ back) (decimal (front ++ back)) (oneOf ['f', 'h'])
      rw [← suffixed?_eq_some reads] at long
      omega

theorem floatLiteral_eq (text : List Char) :
    floatLiteral text =
      match fractional text with
      | [] => suffixed? text
      | front => some (followed text (oneOf ['f', 'h']) front) :=
  rfl

theorem cutsAt_floatLiteral : CutsAt front back floatLiteral := by
  intro inside
  rw [floatLiteral_eq] at inside
  rw [floatLiteral_eq, floatLiteral_eq]
  have sameFraction : fractional front = fractional (front ++ back) := by
    apply cuts_fractional
    split at inside
    · rename_i isEmpty
      rw [isEmpty]
      exact Nat.zero_le _
    · exact (length_le_followed _ _ _).trans (inside _ rfl)
  rw [sameFraction]
  generalize fractional (front ++ back) = fraction at inside ⊢
  cases fraction with
  | nil => exact cutsAt_suffixed? inside
  | cons char fraction =>
      have short := inside _ rfl
      exact congrArg some (followed_cut ((length_le_followed _ _ _).trans short) short)

/-! ## Strings and comments -/

/-- A lexeme that is one character longer than another inside of the front. -/
theorem cutsAt_cons {read : List Char → Option (List Char)} {char : Char}
    (further : ∀ rest, read (char :: rest) = (read rest).map (char :: ·))
    (cuts : CutsAt front back read) : CutsAt (char :: front) back read := by
  intro inside
  rw [List.cons_append, further] at inside
  rw [List.cons_append, further, further, cuts]
  intro word isWord
  have short := inside (char :: word) (by rw [isWord]; rfl)
  rw [List.length_cons, List.length_cons] at short
  omega

theorem length_stringRest {text word : List Char} (reads : stringRest text = some word) :
    0 < word.length := by
  have isText := (stringRest_sound reads).2
  rcases Language.mem_mul.mp isText with ⟨pieces, -, _, rfl, rfl⟩
  rw [List.length_append]
  exact Nat.lt_add_left _ Nat.zero_lt_one

theorem cutsAt_stringRest : CutsAt front back stringRest := by
  fun_induction stringRest front with
  | case1 => exact cutsAt_of_none rfl fun word reads => length_stringRest reads
  | case2 text =>
      intro _
      simp only [List.cons_append, stringRest]
  | case3 text =>
      intro _
      simp only [List.cons_append, stringRest]
  | case4 text =>
      intro _
      simp only [List.cons_append, stringRest]
  | case5 char text notLine induction =>
      have further : ∀ rest, stringRest ('\\' :: char :: rest) =
          (stringRest rest).map ('\\' :: char :: ·) := by
        intro rest
        rw [stringRest]
        exact notLine
      intro inside
      rw [List.cons_append, List.cons_append, further] at inside
      rw [List.cons_append, List.cons_append, further, further, induction]
      intro word isWord
      have short := inside ('\\' :: char :: word) (by rw [isWord]; rfl)
      simp only [List.length_cons] at short
      omega
  | case6 text _ _ _ noNext =>
      have isEnd : text = [] := by
        cases text with
        | nil => rfl
        | cons next text => exact absurd rfl (noNext next text rfl)
      subst isEnd
      apply cutsAt_of_none rfl
      intro word reads
      rw [List.singleton_append] at reads
      cases back with
      | nil => cases reads
      | cons next back =>
          by_cases isLine : next = '\n'
          · subst isLine
            cases reads
          · rw [stringRest.eq_5 _ _ isLine] at reads
            rcases Option.map_eq_some_iff.mp reads with ⟨inner, -, rfl⟩
            simp
  | case7 char text notQuote notLine _ _ notBackslash induction =>
      apply cutsAt_cons _ induction
      intro rest
      rw [stringRest, if_neg notBackslash]
      · exact notQuote
      · exact notLine
      · exact fun _ isBackslash => absurd isBackslash notBackslash
      · exact fun _ _ isBackslash => absurd isBackslash notBackslash

theorem cutsAt_stringLiteral (char : Char) : CutsAt (char :: front) back stringLiteral := by
  by_cases isQuote : char = '"'
  · subst isQuote
    intro inside
    simp only [List.cons_append, stringLiteral] at inside ⊢
    rw [cutsAt_stringRest]
    intro word isWord
    have short := inside ('"' :: word) (by rw [isWord]; rfl)
    simp only [List.length_cons] at short
    omega
  · intro _
    have noQuote : (char == '"') = false := by simpa using isQuote
    rw [List.cons_append, stringLiteral_eq_none noQuote, stringLiteral_eq_none noQuote]

theorem length_commentRest {text word : List Char} (reads : commentRest text = some word) :
    1 < word.length := by
  fun_induction commentRest text generalizing word with
  | case1 => cases reads
  | case2 => cases reads; simp
  | case3 char text _ induction =>
      rcases Option.map_eq_some_iff.mp reads with ⟨inner, isInner, rfl⟩
      rw [List.length_cons]
      exact Nat.lt_succ_of_lt (induction isInner)

theorem cutsAt_commentRest : CutsAt front back commentRest := by
  fun_induction commentRest front with
  | case1 =>
      exact cutsAt_of_none rfl fun word reads => Nat.lt_of_succ_lt (length_commentRest reads)
  | case2 text =>
      intro _
      simp only [List.cons_append, commentRest]
  | case3 char text notEnd induction =>
      cases text with
      | nil =>
          apply cutsAt_of_none
          · simp [commentRest]
          · intro word reads
            exact length_commentRest reads
      | cons next text =>
          intro inside
          have further : ∀ rest, commentRest (char :: next :: rest) =
              (commentRest (next :: rest)).map (char :: ·) := by
            intro rest
            rw [commentRest]
            intro tail isStar isNext
            exact notEnd text isStar (by rw [(List.cons.inj isNext).1])
          rw [List.cons_append, List.cons_append, further] at inside
          rw [List.cons_append, List.cons_append, further, further, induction, List.cons_append]
          intro word isWord
          rw [List.cons_append] at isWord
          have short := inside (char :: word) (by rw [isWord]; rfl)
          simp only [List.length_cons] at short ⊢
          omega

theorem blockComment_eq_map {text word : List Char} (reads : blockComment text = some word) :
    ∃ rest inner, text = '/' :: '*' :: rest ∧ commentRest rest = some inner ∧
      word = '/' :: '*' :: inner := by
  rw [blockComment.eq_def] at reads
  split at reads
  · rename_i rest
    rcases Option.map_eq_some_iff.mp reads with ⟨inner, isInner, rfl⟩
    exact ⟨rest, inner, rfl, isInner, rfl⟩
  · cases reads

theorem cutsAt_blockComment (char : Char) : CutsAt (char :: front) back blockComment := by
  cases front with
  | nil =>
      apply cutsAt_of_none
      · simp [blockComment]
      · intro word reads
        rcases blockComment_eq_map reads with ⟨rest, inner, -, -, rfl⟩
        simp
  | cons next front =>
      by_cases isMark : char = '/' ∧ next = '*'
      · rcases isMark with ⟨rfl, rfl⟩
        intro inside
        simp only [List.cons_append, blockComment] at inside ⊢
        rw [cutsAt_commentRest]
        intro word isWord
        have short := inside ('/' :: '*' :: word) (by rw [isWord]; rfl)
        simp only [List.length_cons] at short
        omega
      · have noComment : ∀ rest, blockComment (char :: next :: rest) = none := by
          intro rest
          rw [blockComment]
          intro _ equal
          simp only [List.cons.injEq] at equal
          exact isMark ⟨equal.1, equal.2.1⟩
        intro _
        rw [List.cons_append, List.cons_append, noComment, noComment]

theorem lineComment_eq_takeWhile {text word : List Char} (reads : lineComment text = some word) :
    ∃ rest, text = '/' :: '/' :: rest ∧ word = '/' :: '/' :: rest.takeWhile (· != '\n') := by
  rw [lineComment.eq_def] at reads
  split at reads
  · cases reads
    exact ⟨_, rfl, rfl⟩
  · cases reads

theorem cutsAt_lineComment (char : Char) : CutsAt (char :: front) back lineComment := by
  cases front with
  | nil =>
      apply cutsAt_of_none
      · simp [lineComment]
      · intro word reads
        rcases lineComment_eq_takeWhile reads with ⟨rest, -, rfl⟩
        simp
  | cons next front =>
      by_cases isMark : char = '/' ∧ next = '/'
      · rcases isMark with ⟨rfl, rfl⟩
        intro inside
        simp only [List.cons_append, lineComment] at inside ⊢
        have short := inside _ rfl
        simp only [List.length_cons] at short
        rw [cuts_takeWhile (· != '\n') front back (by omega)]
      · have noComment : ∀ rest, lineComment (char :: next :: rest) = none := by
          intro rest
          rw [lineComment]
          intro _ equal
          simp only [List.cons.injEq] at equal
          exact isMark ⟨equal.1, equal.2.1⟩
        intro _
        rw [List.cons_append, List.cons_append, noComment, noComment]

theorem cutsAt_space : CutsAt front back space := by
  intro inside
  rw [space] at inside
  rw [space, space, cuts_takeWhile isSpace front back]
  split at inside
  · rename_i isEmpty
    rw [isEmpty]
    exact Nat.zero_le _
  · exact inside _ rfl

/-! ## Operators and bodies -/

theorem cutsAt_binaryOperator (char : Char) : CutsAt (char :: front) back binaryOperator := by
  cases front with
  | cons next front =>
      intro _
      rfl
  | nil =>
      have pairs : ∀ word ∈ doubleOperators, word.length = 2 := by decide
      have single : doubleOperators.contains [char] = false := by
        apply Bool.eq_false_iff.mpr
        intro isDouble
        cases pairs _ (List.contains_iff_mem.mp isDouble)
      intro inside
      rw [List.singleton_append, binaryOperator] at inside
      rw [List.singleton_append, binaryOperator, binaryOperator, List.take_nil, single]
      by_cases isDouble : doubleOperators.contains (char :: back.take 1) = true
      · rw [if_pos isDouble] at inside
        have short := inside _ rfl
        rw [pairs _ (List.contains_iff_mem.mp isDouble), List.length_singleton] at short
        omega
      · rw [if_neg isDouble, if_neg Bool.false_ne_true]

theorem cutsAt_unaryOperator (char : Char) : CutsAt (char :: front) back unaryOperator :=
  fun _ => rfl

/-- A cut that does not go through the marks of a comment. -/
def Parts (front back : List Char) : Prop :=
  front.getLast? = some '/' → ∀ char ∈ back.head?, char ≠ '/' ∧ char ≠ '*'

theorem bodyRun_cut (parts : Parts front back)
    (inside : (bodyRun (front ++ back)).length ≤ front.length) :
    bodyRun front = bodyRun (front ++ back) := by
  induction front using bodyRun.induct with
  | case1 => exact (List.length_eq_zero_iff.mp (Nat.le_zero.mp inside)).symm
  | case2 text => simp only [List.cons_append, bodyRun]
  | case3 text => simp only [List.cons_append, bodyRun]
  | case4 char text notLine notBlock isBrace =>
      have noRun : ∀ rest, bodyRun (char :: rest) = [] := by
        intro rest
        rcases isBrace with rfl | rfl <;> simp [bodyRun]
      rw [List.cons_append, noRun, noRun]
  | case5 char text notLine notBlock notBrace induction =>
      have noMark : ∀ mark, mark = '/' ∨ mark = '*' →
          (∀ tail, char = '/' → text = mark :: tail → False) →
          ∀ tail, char = '/' → text ++ back = mark :: tail → False := by
        rintro mark isMark notText tail rfl isNext
        cases text with
        | nil =>
            have noComment := parts rfl mark (by rw [← List.nil_append back, isNext]; rfl)
            rcases isMark with rfl | rfl
            · exact noComment.1 rfl
            · exact noComment.2 rfl
        | cons next text =>
            rw [List.cons_append, List.cons.injEq] at isNext
            exact notText text rfl (by rw [isNext.1])
      have notLineToo := noMark '/' (.inl rfl) notLine
      have notBlockToo := noMark '*' (.inr rfl) notBlock
      rw [List.cons_append, bodyRun.eq_4 _ _ notLineToo notBlockToo, if_neg notBrace,
        List.length_cons, List.length_cons] at inside
      rw [List.cons_append, bodyRun.eq_4 _ _ notLineToo notBlockToo, if_neg notBrace,
        bodyRun.eq_4 _ _ notLine notBlock, if_neg notBrace, induction]
      · intro isLast
        apply parts
        rw [List.getLast?_cons, isLast]
        rfl
      · omega

theorem cutsAt_bodyText (char : Char) (parts : Parts (char :: front) back) :
    CutsAt (char :: front) back bodyText := by
  intro inside
  rw [List.cons_append, bodyText] at inside
  rw [List.cons_append, bodyText, bodyText]
  split
  · rfl
  · rename_i notBlank
    rw [if_neg notBlank] at inside
    rw [bodyRun_cut parts, List.cons_append]
    rw [List.cons_append]
    split at inside
    · rename_i isEmpty
      rw [isEmpty]
      exact Nat.zero_le _
    · exact inside _ rfl

/-! ## The lexicon -/

theorem cutsAt_pattern {pattern : Pattern Terminal} (isPattern : pattern ∈ patterns) {char : Char}
    (parts : Parts (char :: front) back) : CutsAt (char :: front) back pattern.read := by
  simp only [patterns, List.mem_cons, List.not_mem_nil, or_false] at isPattern
  rcases isPattern with rfl | rfl | rfl | rfl | rfl | rfl | rfl | rfl | rfl | rfl
  · exact cutsAt_floatLiteral
  · exact cutsAt_bodyText char parts
  · exact cutsAt_intLiteral
  · exact cutsAt_word char
  · exact cutsAt_stringLiteral char
  · exact cutsAt_blockComment char
  · exact cutsAt_lineComment char
  · exact cutsAt_space
  · exact cutsAt_binaryOperator char
  · exact cutsAt_unaryOperator char

/-- A lexeme inside of the front of a text is the first lexeme of the front. -/
theorem read_cut {accepted : Terminal → Bool} {lexeme : Lexeme Terminal}
    (parts : Parts front back)
    (reads : (lexicon.restrict accepted).read (front ++ back) = some lexeme)
    (inside : lexeme.text.length ≤ front.length) :
    (lexicon.restrict accepted).read front = some lexeme := by
  rcases (lexicon_honest.restrict accepted).isPrefix reads with ⟨inFront, isFull⟩
  cases front with
  | nil => exact absurd (List.length_eq_zero_iff.mp (Nat.le_zero.mp inside)) isFull
  | cons char front =>
      apply read_of_agree reads
      · intro pattern isPattern isSilent
        have inPatterns := (List.mem_filter.mp isPattern).1
        rw [cutsAt_pattern inPatterns parts, isSilent]
        rw [isSilent]
        nofun
      · intro pattern isPattern isRead _
        have inPatterns := (List.mem_filter.mp isPattern).1
        rw [cutsAt_pattern inPatterns parts, isRead]
        intro word isWord
        rw [isRead, Option.mem_some_iff] at isWord
        exact isWord ▸ inside
      · intro spelling _ isFront
        exact isFront.trans (List.prefix_append _ _)
      · exact List.prefix_of_prefix_length_le inFront (List.prefix_append _ _) inside

end ShaderReflection.Wgsl.Lexeme
