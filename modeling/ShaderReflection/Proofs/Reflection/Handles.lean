import ShaderReflection.Proofs.Reflection.Formatting

/-!
# Handle types

Which texts of types name a handle, and what the name is. The reader allows for white space at the
end of the text as well, but the text of a type in a parsed module does not end in white space. So
there the reader finds a name just for handle types, and the name is the first token of the type
(`handleType?_of_isHandle`, `isHandle_of_handleType?`).
-/

namespace ShaderReflection.Reflection

open ShaderReflection.Tree ShaderReflection.Text ShaderReflection.Wgsl

/-! ## Words -/

/-- One or more word characters. -/
def IsWord (text : List Char) : Prop := text ≠ [] ∧ ∀ char ∈ text, isWordChar char = true

variable {text word rest : List Char}

theorem IsWord.takeWhile_append (isWord : IsWord word) (stops : Lexeme.Stops isWordChar rest) :
    (word ++ rest).takeWhile isWordChar = word :=
  Lexeme.takeWhile_append isWord.2 stops

theorem IsWord.takeWhile_eq (isWord : IsWord word) : word.takeWhile isWordChar = word := by
  rw [List.takeWhile_eq_self_iff]
  exact isWord.2

theorem isWord_takeWhile (isFull : text.takeWhile isWordChar ≠ []) :
    IsWord (text.takeWhile isWordChar) :=
  ⟨isFull, fun _ => List.mem_takeWhile_imp⟩

theorem eq_takeWhile_append (text : List Char) :
    text = text.takeWhile isWordChar ++ text.drop (text.takeWhile isWordChar).length :=
  (List.prefix_iff_eq_append.mp (List.takeWhile_prefix _)).symm

theorem IsWord.noSpace (isWord : IsWord word) : ∀ char ∈ word, Lexeme.isSpace char = false := by
  intro char isChar
  have isMember := isWord.2 char isChar
  rw [Bool.eq_false_iff]
  intro isSpace
  simp only [Lexeme.isSpace, Bool.or_eq_true, beq_iff_eq] at isSpace
  rcases isSpace with (((rfl | rfl) | rfl) | rfl) | rfl <;> revert isMember <;> decide

/-! ## Handle types -/

/-- A word, possibly followed by one more word in angle brackets. One space may stand in between. -/
inductive IsHandle : List Char → Prop
  | plain {word : List Char} (isWord : IsWord word) : IsHandle word
  | applied {word gap argument : List Char} (isWord : IsWord word) (isGap : gap = [] ∨ gap = [' '])
      (isArgument : IsWord argument) : IsHandle (word ++ (gap ++ '<' :: (argument ++ ['>'])))

/-- What the reader of handle types goes on with behind the name. -/
def withoutGap : List Char → List Char
  | ' ' :: rest => rest
  | rest => rest

/-- What the reader of handle types has left behind an argument in angle brackets. -/
def withoutArgument (text : List Char) : List Char :=
  match text with
  | '<' :: rest =>
      match rest.takeWhile isWordChar, rest.drop (rest.takeWhile isWordChar).length with
      | _ :: _, '>' :: final => final
      | _, _ => text
  | _ => text

/-- What is left of a text behind the name and the argument. -/
def behindHandle (text : List Char) : List Char :=
  withoutArgument (withoutGap (text.drop (text.takeWhile isWordChar).length))

theorem handleType?_def (text : List Char) :
    handleType? text =
      if (text.takeWhile isWordChar).isEmpty then none
      else if behindHandle text = [] ∨ behindHandle text = ['\n'] then
        some (text.takeWhile isWordChar)
      else none :=
  rfl

theorem exists_gap (rest : List Char) :
    ∃ gap, (gap = [] ∨ gap = [' ']) ∧ rest = gap ++ withoutGap rest := by
  rw [withoutGap.eq_def]
  split
  · exact ⟨[' '], .inr rfl, rfl⟩
  · exact ⟨[], .inl rfl, rfl⟩

theorem withoutArgument_append (isWord : IsWord word) (final : List Char) :
    withoutArgument ('<' :: (word ++ '>' :: final)) = final := by
  have argument : (word ++ '>' :: final).takeWhile isWordChar = word :=
    isWord.takeWhile_append (Lexeme.stops_cons (by decide))
  rcases List.exists_cons_of_ne_nil isWord.1 with ⟨first, others, rfl⟩
  rw [withoutArgument, argument, List.drop_left]
  rfl

theorem exists_argument (text : List Char) :
    text = withoutArgument text ∨
      ∃ argument, IsWord argument ∧ text = '<' :: (argument ++ '>' :: withoutArgument text) := by
  rw [withoutArgument.eq_def]
  split
  · rename_i rest
    have whole := eq_takeWhile_append rest
    split
    · rename_i first others final isArgument isRest
      have isWord : IsWord (rest.takeWhile isWordChar) := isWord_takeWhile (by simp [isArgument])
      rw [isRest] at whole
      exact .inr ⟨_, isWord, congrArg ('<' :: ·) whole⟩
    · exact .inl rfl
  · exact .inl rfl

/-- The name of a handle type is its first word. -/
theorem handleType?_of_isHandle (isHandle : IsHandle text) :
    handleType? text = some (text.takeWhile isWordChar) := by
  have isFull : text.takeWhile isWordChar ≠ [] ∧ behindHandle text = [] := by
    cases isHandle with
    | plain isWord =>
        rw [behindHandle, isWord.takeWhile_eq, List.drop_length]
        exact ⟨isWord.1, rfl⟩
    | @applied word gap argument isWord isGap isArgument =>
        have name : (word ++ (gap ++ '<' :: (argument ++ ['>']))).takeWhile isWordChar = word := by
          apply isWord.takeWhile_append
          rcases isGap with rfl | rfl
          · exact Lexeme.stops_cons (by decide)
          · exact Lexeme.stops_cons (by decide)
        have noGap : withoutGap (gap ++ '<' :: (argument ++ ['>'])) =
            '<' :: (argument ++ ['>']) := by
          rcases isGap with rfl | rfl <;> rfl
        rw [behindHandle, name, List.drop_left, noGap, withoutArgument_append isArgument]
        exact ⟨isWord.1, rfl⟩
  rw [handleType?_def, if_neg (by simp [isFull.1]), if_pos (.inl isFull.2)]

/-- Where no white space ends the text, there is no other way to have a name. -/
theorem isHandle_of_handleType? {name : List Char} (isName : handleType? text = some name)
    (ends : ∀ char ∈ text.getLast?, Lexeme.isSpace char = false) : IsHandle text := by
  simp only [handleType?_def, List.isEmpty_iff, Option.ite_none_left_eq_some,
    Option.ite_none_right_eq_some] at isName
  rcases isName with ⟨isFull, isEnd, -⟩
  have isWord := isWord_takeWhile isFull
  have whole := eq_takeWhile_append text
  rcases exists_gap (text.drop (text.takeWhile isWordChar).length) with ⟨gap, isGap, isRest⟩
  have arguments := exists_argument (withoutGap (text.drop (text.takeWhile isWordChar).length))
  rw [← behindHandle] at arguments
  rw [isRest] at whole
  have noSuffix : ∀ char, Lexeme.isSpace char = true → ¬ [char] <:+ text := by
    rintro char isSpace ⟨front, rfl⟩
    simp [isSpace] at ends
  rcases isEnd with isNothing | isFeed
  · rw [isNothing] at arguments
    rcases arguments with isBare | ⟨argument, isArgument, isApplied⟩
    · rw [isBare, List.append_nil] at whole
      rcases isGap with rfl | rfl
      · rw [whole, List.append_nil]
        exact .plain isWord
      · exact absurd ⟨_, whole.symm⟩ (noSuffix ' ' rfl)
    · rw [whole, isApplied]
      exact .applied isWord isGap isArgument
  · have isSuffix : ['\n'] <:+ withoutGap (text.drop (text.takeWhile isWordChar).length) := by
      rw [isFeed] at arguments
      rcases arguments with isBare | ⟨argument, -, isApplied⟩
      · rw [isBare]
      · rw [isApplied]
        exact ⟨'<' :: argument ++ ['>'], by simp⟩
    refine absurd ?_ (noSuffix '\n' rfl)
    rw [whole]
    exact (isSuffix.trans (List.suffix_append _ _)).trans (List.suffix_append _ _)

/-! ## Types of a parsed module -/

theorem isWordChar_of_isWordPart {char : Char} (isPart : Lexeme.isWordPart char = true) :
    isWordChar char = true := by
  have all : ∀ code < 128, Lexeme.isWordPart (Char.ofNat code) = true →
      isWordChar (Char.ofNat code) = true := by
    decide +kernel
  have isAscii : char.toNat < 128 := by
    have parts : ((decide (65 ≤ char.val ∧ char.val ≤ 90) ||
        (decide (97 ≤ char.val) && decide (char.val ≤ 122))) ||
        (decide (48 ≤ char.val) && decide (char.val ≤ 57)) || char == '_') = true := isPart
    simp only [Bool.or_eq_true, Bool.and_eq_true, decide_eq_true_eq, beq_iff_eq,
      UInt32.le_iff_toNat_le] at parts
    rw [Char.toNat]
    rcases parts with ((⟨_, below⟩ | ⟨_, below⟩) | ⟨_, below⟩) | rfl
    · exact lt_of_le_of_lt below (by decide)
    · exact lt_of_le_of_lt below (by decide)
    · exact lt_of_le_of_lt below (by decide)
    · decide
  have found := all char.toNat isAscii
  rw [Char.ofNat_toNat] at found
  exact found isPart

theorem isWord_of_identifier (isText : word ∈ Terminal.texts .identifier) : IsWord word := by
  rcases Language.mem_mul.mp isText with ⟨_, ⟨char, isStart, rfl⟩, others, areParts, rfl⟩
  have isPart : Lexeme.isWordPart char = true := by
    simp only [Lexeme.isWordStart, Bool.or_eq_true] at isStart
    simp only [Lexeme.isWordPart, Char.isAlphanum, Bool.or_eq_true]
    exact isStart.imp .inl id
  refine ⟨List.cons_ne_nil _ _, ?_⟩
  rw [List.singleton_append, List.forall_mem_cons]
  exact ⟨isWordChar_of_isWordPart isPart,
    fun other isOther => isWordChar_of_isWordPart (Texts.mem_star_one.mp areParts other isOther)⟩

theorem isWord_of_typeName (isText : word ∈ Terminal.texts .typeName) : IsWord word := by
  have allFull : (spellings.all fun spelling => !spelling.text.isEmpty) = true := by
    decide +kernel
  have isFull := List.all_eq_true.mp allFull ⟨word, .typeName⟩ isText
  exact ⟨by simpa using isFull, isWordChar_of_typeName isText⟩

theorem isWord_of_letter {lexeme : Terminal × List Char}
    (isLetter : lexeme.1 ∈ [Terminal.identifier, .typeName]) (isText : lexeme.2 ∈ lexeme.1.texts) :
    IsWord lexeme.2 := by
  rcases lexeme with ⟨terminal, word⟩
  rcases List.mem_pair.mp isLetter with rfl | rfl
  · exact isWord_of_identifier isText
  · exact isWord_of_typeName isText

/-- The last lexeme of a text ends it. -/
theorem isSuffix_of_spaced {lexemes : List (Terminal × List Char)} {lexeme : Terminal × List Char}
    (spaced : Spaced (lexemes ++ [lexeme]) text) : lexeme.2 <:+ text := by
  induction lexemes generalizing text with
  | nil => rw [spaced.eq_of_singleton]
  | cons first lexemes induction =>
      cases spaced with
      | cons _ _ _ further =>
          exact ((induction further).trans (List.suffix_append _ _)).trans (List.suffix_append _ _)

variable {source : List Char} {node : Node}

/-- The first leaf of a node writes its first lexeme. -/
theorem exists_head?_leaves (grammatical : node.Grammatical source)
    {lexeme : Terminal × List Char} {lexemes : List (Terminal × List Char)}
    (isFirst : node.lexemes source = lexeme :: lexemes) :
    ∃ token, node.leaves.head? = some token ∧ token.chars source = lexeme.2 := by
  cases leaves : node.leaves with
  | nil => simp [Node.lexemes, leaves] at isFirst
  | cons token others =>
      rcases grammatical.exists_writes (leaves ▸ List.mem_cons_self) with ⟨written, writes⟩
      rw [Node.lexemes, leaves, List.filterMap_cons_some writes.lexeme_eq] at isFirst
      cases isFirst
      exact ⟨token, rfl, writes.chars_eq⟩

section TypeDeclaration

variable (ofKind : node.OfKind source .typeDeclaration) (written : node.Written source)
include ofKind written

theorem spaced_of_typeDeclaration : Spaced (node.lexemes source) (node.chars source) := by
  apply written.spaced node node.mem_walk_self
  intro noLeaves
  have noLexemes : node.lexemes source = [] := by rw [Node.lexemes, noLeaves]; rfl
  rcases ofKind.lexemes_typeDeclaration with ⟨lexeme, -, -, single⟩ |
    ⟨word, inside, -, isTemplate⟩ <;> simp_all

/-- The last token of a type is a word or a bracket. -/
theorem noSpace_of_typeDeclaration :
    ∀ char ∈ (node.chars source).getLast?, Lexeme.isSpace char = false := by
  have spaced := spaced_of_typeDeclaration ofKind written
  have ends : ∃ last, last ≠ [] ∧ last <:+ node.chars source ∧
      ∀ char ∈ last, Lexeme.isSpace char = false := by
    rcases ofKind.lexemes_typeDeclaration with ⟨lexeme, isLetter, isText, single⟩ |
      ⟨word, inside, -, isTemplate⟩
    · have isWord := isWord_of_letter isLetter isText
      rw [single] at spaced
      exact ⟨lexeme.2, isWord.1, by rw [spaced.eq_of_singleton], isWord.noSpace⟩
    · rw [isTemplate, ← List.cons_append, ← List.cons_append] at spaced
      exact ⟨['>'], List.cons_ne_nil _ _, isSuffix_of_spaced spaced,
        List.forall_mem_singleton.mpr (by decide)⟩
  rcases ends with ⟨last, isFull, ⟨front, isText⟩, noSpace⟩
  intro char isChar
  rw [← isText, List.getLast?_append_of_ne_nil _ isFull] at isChar
  exact noSpace char (List.mem_of_getLast? isChar)

/-- The first word of a type is its first token. -/
theorem exists_head_of_typeDeclaration : ∃ token, node.leaves.head? = some token ∧
    (node.chars source).takeWhile isWordChar = token.chars source := by
  have spaced := spaced_of_typeDeclaration ofKind written
  rcases ofKind.lexemes_typeDeclaration with ⟨lexeme, isLetter, isText, single⟩ |
    ⟨word, inside, isWord, isTemplate⟩
  · rcases exists_head?_leaves ofKind.grammatical single with ⟨token, isFirst, isToken⟩
    rw [single] at spaced
    have isWord := isWord_of_letter isLetter isText
    exact ⟨token, isFirst, by rw [spaced.eq_of_singleton, isWord.takeWhile_eq, isToken]⟩
  · rcases exists_head?_leaves ofKind.grammatical isTemplate with ⟨token, isFirst, isToken⟩
    rw [isTemplate] at spaced
    exact ⟨token, isFirst, by rw [takeWhile_of_spaced isWord spaced, isToken]⟩

end TypeDeclaration

end ShaderReflection.Reflection
